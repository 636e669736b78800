import Getty.Transport.SessionInvariant

/-!
# Every step of a session keeps the invariant

One lemma for each goroutine of `Session.prog`, the interference lemma, and from
both the validity of the outline.

## Main results

* `keeps_step` — the invariant survives every step of every thread.
* `local_interference` — no step disturbs the assertion of another thread.
* `outline_valid` — the proof outline is valid.
-/

namespace Getty.Transport.Session

open Getty.Verified.ThreadPool

section Steps

variable {s s' : Shared} {a : Thread} {bs : List Thread}

/-! ## `stop` -/

/-- After `stop` its caller is accountable for what it was before. -/
theorem total_afterStop (k : Cont) (i : Ledger) :
    (outline.wt i (.stop .readOnce k) : Int) = total (outline.wt i) (afterStop k) := by
  cases k with
  | shutdown err => cases err <;> cases i <;> rfl
  | _ => cases i <;> rfl

theorem local_afterStop {k : Cont} (h : k = .close ∨ s.cur.once = .finished) :
    ∀ b ∈ afterStop k, Local s b := by
  cases k with
  | close => simp [afterStop]
  | cron l => simp [afterStop, Local]
  | shutdown err =>
      have hfin : s.cur.once = .finished := by simpa using h
      cases err <;> simp [afterStop, Local, hfin]
  | opening =>
      have hfin : s.cur.once = .finished := by simpa using h
      simp [afterStop, Local, hfin]
  | reset =>
      have hfin : s.cur.once = .finished := by simpa using h
      simp [afterStop, Local, WorkerAt, hfin]

/-- An update by the thread that runs the body of the current generation. -/
private theorem keeps_body {pc pc' : StopPc} {k : Cont} {f : Gen → Gen} (hs : Inv s)
    (hpc : pc.body = some s.gen) (hpc' : pc'.body = some s.gen) (hok : s.cur.Ok → (f s.cur).Ok)
    (hdone : s.cur.done = true → (f s.cur).done = true)
    (hclosed : s.cur.closed = true → (f s.cur).closed = true)
    (honce : (f s.cur).once = s.cur.once) (hcount : (f s.cur).count = s.cur.count)
    (hcallbacks : (f s.cur).callbacks = s.cur.callbacks)
    (hcleanup : (f s.cur).cleanup = s.cur.cleanup) (hcarried : (f s.cur).carried = s.cur.carried)
    (hinstalled : (f s.cur).installed = s.cur.installed)
    (hloc : Local (s.modGen s.gen f) (.stop pc' k)) :
    Keeps s (.stop pc k) (s.modGen s.gen f) [.stop pc' k] := by
  have hown : (Thread.stop pc k).body = some s.gen := hpc
  refine keeps_mark ⟨Nat.le_refl _, ⟨hdone, hclosed, ?_, fun _ => Or.inr hown, fun _ => Or.inr hown,
    ?_, Or.inr hown, Or.inl hcarried⟩, hok, fun _ => hcount, hcarried, hinstalled, ?_, ?_⟩ hs
    hcount
    (congrArg Once.run honce) hcallbacks hcleanup ?_ ?_
  · exact fun h => honce.trans h
  · exact fun h hc => h (hcallbacks.symm.trans hc)
  · exact ⟨fun h => hcleanup.trans h, fun h => hcleanup.symm.trans h⟩
  · exact Or.inl hcount
  · exact List.forall_mem_singleton.mpr hloc
  · intro i
    cases i with
    | body g => simp [outline, Thread.body, hpc, hpc']
    | _ => rfl

/-- The body of `stop` begins. -/
private theorem keeps_begin (hs : Inv s) {g : Nat} {k : Cont} (hle : g ≤ s.gen)
    (hfresh : (s.gens g).once = .fresh) :
    Keeps s (.stop (.doOnce g) k) (s.modGen g Gen.begin) [.stop (.closeDone g) k] := by
  have hcur : g = s.gen := by
    by_contra hne
    have hfin := (hs.past g (by omega)).1
    rw [hfresh] at hfin
    cases hfin
  subst hcur
  obtain ⟨hbodies, hrec, hcb⟩ := (hs.ok s.gen).idle hfresh
  have ht := touch_modGen s s.gen Gen.begin
  refine ht.keeps ⟨hle, ⟨id, id, ?_, ?_, Or.inl, id, Or.inl rfl, Or.inl rfl⟩, fun hok => ?_,
    fun hlt => absurd hlt (Nat.lt_irrefl _), rfl, rfl, Iff.rfl, Or.inl rfl⟩ hs ?_ ?_
  · intro h
    rw [hfresh] at h
    cases h
  · intro h
    rw [hfresh] at h
    cases h
  · refine ⟨(fun h => by cases h), fun _ => congrArg (· + 1) hbodies, hok.reconnects,
      (fun h => by cases h), fun h => ?_⟩
    have hfin := hok.returned h
    rw [hfresh] at hfin
    cases hfin
  · intro b hb
    rw [List.mem_singleton.mp hb]
    refine ⟨⟨rfl, ?_⟩, trivial⟩
    rw [cur_modGen]
    exact ⟨hcb, hrec⟩
  · intro i
    rw [ht.val i]
    cases i with
    | body g => simp [outline, Gen.begin, hfresh, Thread.body, StopPc.body]
    | count g => simp [outline, Gen.begin, Thread.holds]
    | callbacks g => simp [outline, Gen.begin, Thread.invokes]
    | cleanup g => simp [outline, Gen.begin, Thread.closes]
    | _ => rfl

/-- The close callbacks are registered and their goroutine is started. -/
private theorem keeps_closeCallbacks (hs : Inv s) {k : Cont}
    (hearly : s.cur.Early) (hdone : s.cur.done = true) (hclosed : s.cur.closed = true)
    (hb : Booked s (.stop (.closeCallbacks s.gen s.gen) k)) :
    Keeps s (.stop (.closeCallbacks s.gen s.gen) k) (s.modGen s.gen Gen.startCallbacks)
      [.stop (.attrClient s.gen) k, .callbacks s.gen .enter] := by
  have hrun : (s.gens s.gen).once = .running := hb.running rfl
  have hcb : (s.gens s.gen).callbacks = .fresh := hearly.callbacks
  have ht := touch_modGen s s.gen Gen.startCallbacks
  refine ht.keeps ⟨Nat.le_refl _, ⟨id, id, id, Or.inl, fun _ => Or.inr rfl, ?_, Or.inl rfl,
    Or.inl rfl⟩, fun hok => ?_, fun hlt => absurd hlt (Nat.lt_irrefl _), rfl, rfl, Iff.rfl,
    Or.inr (Or.inr (Or.inl rfl))⟩ hs ?_ ?_
  · intro _ h
    cases h
  · refine ⟨fun h => ?_, hok.entered, hok.reconnects, fun h => ?_, hok.returned⟩
    · rw [show (s.gens s.gen).startCallbacks.once = .running from hrun] at h
      cases h
    · rw [show (s.gens s.gen).startCallbacks.once = .running from hrun] at h
      cases h
  · intro b hbm
    rcases List.mem_cons.mp hbm with rfl | hbm
    · refine ⟨⟨rfl, ?_⟩, trivial⟩
      rw [cur_modGen]
      exact ⟨⟨hdone, hclosed, by simp [Gen.startCallbacks]⟩, hearly.reconnects⟩
    · rw [List.mem_singleton.mp hbm]
      trivial
  · intro i
    rw [ht.val i]
    cases i with
    | count g =>
        simp [outline, Gen.startCallbacks, Thread.holds]
        omega
    | body g => simp [outline, Gen.startCallbacks, Thread.body, StopPc.body]
    | callbacks g => simp [outline, Gen.startCallbacks, hcb, Thread.invokes]
    | cleanup g => simp [outline, Gen.startCallbacks, Thread.closes]
    | _ => rfl

/-- The body of `stop` ends. -/
private theorem keeps_finish (hs : Inv s) {k : Cont} (hlate : s.cur.Late)
    (hrec : s.cur.carried = reconnecting → s.cur.reconnects = 1)
    (hb : Booked s (.stop (.finish s.gen) k)) :
    Keeps s (.stop (.finish s.gen) k) (s.modGen s.gen Gen.finish) (afterStop k) := by
  have hrun : (s.gens s.gen).once = .running := hb.running rfl
  have ht := touch_modGen s s.gen Gen.finish
  refine ht.keeps ⟨Nat.le_refl _, ⟨id, id, fun _ => rfl, fun _ => Or.inr rfl, Or.inl, id,
    Or.inl rfl, Or.inl rfl⟩, fun hok => ?_, fun hlt => absurd hlt (Nat.lt_irrefl _), rfl, rfl,
    Iff.rfl, Or.inl rfl⟩ hs ?_ ?_
  · exact ⟨(fun h => by cases h), fun _ => hok.entered (by rw [hrun]; simp), hok.reconnects,
      fun _ => ⟨hlate.done, hlate.closed, hlate.callbacks, hrec⟩, fun _ => rfl⟩
  · exact local_afterStop (Or.inr (by rw [cur_modGen]; rfl))
  · intro i
    rw [ht.val i, ← total_afterStop k i]
    cases i with
    | body g => simp [outline, Gen.finish, hrun, Thread.body, StopPc.body]
    | count g => simp [outline, Gen.finish, Thread.holds]
    | callbacks g => simp [outline, Gen.finish, Thread.invokes]
    | cleanup g => simp [outline, Gen.finish, Thread.closes]
    | _ => rfl

theorem touch_stopTimer (hs : Inv s) (t : Option Nat) : Touch s s.gen id (s.stopTimer t) := by
  cases t with
  | none => exact touch_same s
  | some l =>
      refine ⟨rfl, (Function.update_eq_self ..).symm, rfl, rfl, rfl, rfl, id, fun g hg => ?_⟩
      by_cases hgl : g = l
      · subst hgl
        simp [Shared.stopTimer, hs.wheel g hg]
      · simp [Shared.stopTimer, hgl]

theorem stopTimer_locks (s : Shared) (t : Option Nat) :
    (s.stopTimer t).readers = s.readers ∧ (s.stopTimer t).writing = s.writing ∧
      (s.stopTimer t).callbackDepth = s.callbackDepth ∧ (s.stopTimer t).cur = s.cur ∧
      (s.stopTimer t).gen = s.gen := by
  cases t <;> exact ⟨rfl, rfl, rfl, rfl, rfl⟩

/-- A timer is taken off the wheel. -/
theorem keeps_stopTimer {b : Thread} (hs : Inv s) (t : Option Nat) (hloc : Local (s.stopTimer t) b)
    (hdues : b.dues = a.dues) : Keeps s a (s.stopTimer t) [b] := by
  simp only [Thread.dues, Prod.mk.injEq] at hdues
  obtain ⟨hbase, hreads, hwrites, hcalls⟩ := hdues
  obtain ⟨h1, h2, h3, -⟩ := stopTimer_locks s t
  exact keeps_quiet (touch_stopTimer hs t) hs hloc hbase (by rw [h1, hreads])
    (by rw [h2, hwrites]) (by rw [h3, hcalls])

/-- **`stop`**, step by step. -/
theorem keeps_stopStep (hs : Inv s) {pc : StopPc} {k : Cont} (hl : Local s (.stop pc k))
    (hb : Booked s (.stop pc k)) (h : (s', bs) ∈ stopStep s k pc) :
    Keeps s (.stop pc k) s' bs := by
  obtain ⟨hpc, hk⟩ := hl
  cases pc with
  | readOnce =>
      cases List.mem_singleton.mp h
      exact keeps_one hs ⟨Nat.le_refl _, Or.inr rfl⟩ rfl
  | doOnce g =>
      simp only [stopStep] at h
      split at h
      · next hfresh =>
          cases List.mem_singleton.mp h
          exact keeps_begin hs hpc hfresh
      · cases h
      · next hfin =>
          cases List.mem_singleton.mp h
          refine keeps_mark ⟨hpc, ⟨id, id, id, Or.inl, Or.inl, id, Or.inl rfl, Or.inl rfl⟩,
            fun hok => ⟨hok.idle, hok.entered, hok.reconnects, hok.finished, fun _ => hfin⟩,
            fun _ => rfl, rfl, rfl, Iff.rfl, Or.inl rfl⟩ hs rfl rfl rfl rfl
            (local_afterStop ?_) (fun i => ?_)
          · rcases hk with hk | rfl
            · exact Or.inl hk
            · exact Or.inr (by rw [cur_modGen]; exact hfin)
          · rw [← total_afterStop k i]
            cases i <;> rfl
  | closeDone g =>
      cases List.mem_singleton.mp h
      obtain ⟨rfl, hearly⟩ := hpc
      refine keeps_body hs rfl rfl (fun hok => ?_) (fun _ => rfl) id rfl rfl rfl rfl rfl rfl
        ⟨⟨rfl, ?_, ?_⟩, trivial⟩
      · exact ⟨hok.idle, hok.entered, hok.reconnects,
          fun hfin => ⟨rfl, (hok.finished hfin).2⟩, hok.returned⟩
      · rw [cur_modGen]
        exact ⟨hearly.callbacks, hearly.reconnects⟩
      · rw [cur_modGen]
        rfl
  | takeTimer g =>
      cases List.mem_singleton.mp h
      obtain ⟨rfl, hearly, hdone⟩ := hpc
      exact keeps_quiet (touch_takeTimer s) hs ⟨⟨rfl, rfl, hearly, hdone⟩, trivial⟩ rfl rfl rfl rfl
  | stopTimer g l t =>
      cases List.mem_singleton.mp h
      obtain ⟨rfl, rfl, hearly, hdone⟩ := hpc
      obtain ⟨-, -, -, hcur, hgen⟩ := stopTimer_locks s t
      refine keeps_stopTimer hs t ⟨⟨hgen.symm, hgen.symm, ?_, ?_⟩, trivial⟩ rfl
      · rw [hcur]
        exact hearly
      · rw [hcur]
        exact hdone
  | closeLifecycle g l =>
      cases List.mem_singleton.mp h
      obtain ⟨rfl, rfl, hearly, hdone⟩ := hpc
      refine keeps_body hs rfl rfl (fun hok => ?_) id (fun _ => rfl) rfl rfl rfl rfl rfl rfl
        ⟨⟨rfl, rfl, ?_, ?_, ?_⟩, trivial⟩
      · exact ⟨hok.idle, hok.entered, hok.reconnects,
          fun hfin => ⟨(hok.finished hfin).1, rfl, (hok.finished hfin).2.2⟩, hok.returned⟩
      · rw [cur_modGen]
        exact ⟨hearly.callbacks, hearly.reconnects⟩
      · rw [cur_modGen]
        exact hdone
      · rw [cur_modGen]
        rfl
  | closeCallbacks g l =>
      cases List.mem_singleton.mp h
      obtain ⟨rfl, rfl, hearly, hdone, hclosed⟩ := hpc
      exact keeps_closeCallbacks hs hearly hdone hclosed hb
  | attrClient g =>
      cases List.mem_singleton.mp h
      obtain ⟨rfl, hlate, hrec⟩ := hpc
      have hrun : s.cur.once = .running := hb.running rfl
      have hattrs := hs.attrs (by rw [hrun]; simp)
      exact keeps_one hs ⟨⟨rfl, hlate, hrec, by rw [hattrs]; rfl⟩, trivial⟩ rfl
  | attrIgnore g found =>
      obtain ⟨rfl, hlate, hrec, hfound⟩ := hpc
      have hrun : s.cur.once = .running := hb.running rfl
      have hattrs := hs.attrs (by rw [hrun]; simp)
      simp only [stopStep] at h
      split at h
      · cases List.mem_singleton.mp h
        exact keeps_one hs ⟨⟨rfl, hlate, hrec⟩, trivial⟩ rfl
      · next hno =>
          cases List.mem_singleton.mp h
          refine keeps_one hs ⟨⟨rfl, hlate, fun hcar => absurd ?_ hno⟩, trivial⟩ rfl
          rw [hattrs, hfound, hcar]
          exact ⟨rfl, rfl⟩
  | runReconnect g =>
      cases List.mem_singleton.mp h
      obtain ⟨rfl, hlate, hrec⟩ := hpc
      have hrun : s.cur.once = .running := hb.running rfl
      refine keeps_body hs rfl rfl (fun hok => ?_) id id rfl rfl rfl rfl rfl rfl
        ⟨⟨rfl, ?_, fun _ => ?_⟩, trivial⟩
      · refine ⟨fun hf => ?_, hok.entered, ?_, fun hf => ?_, hok.returned⟩
        · rw [show s.cur.reconnect.once = .running from hrun] at hf
          cases hf
        · simp [Gen.reconnect, hrec]
        · rw [show s.cur.reconnect.once = .running from hrun] at hf
          cases hf
      · rw [cur_modGen]
        exact ⟨hlate.done, hlate.closed, hlate.callbacks⟩
      · rw [cur_modGen]
        simp [Gen.reconnect, hrec]
  | finish g =>
      cases List.mem_singleton.mp h
      obtain ⟨rfl, hlate, hrec⟩ := hpc
      exact keeps_finish hs hlate hrec hb

/-! ## `gc` -/

/-- `gc` erases the attributes; it may register the cleanup of the connection. -/
theorem keeps_detach {k : GcCont} {f : Gen → Gen} (hs : Inv s) (hfin : s.cur.once = .finished)
    (hstep : GenStep ((Thread.gc k).body = some s.gen) s.cur (f s.cur))
    (hok : s.cur.Ok → (f s.cur).Ok)
    (hinst : (f s.cur).installed = true → (f s.cur).cleanup ≠ .fresh)
    (hloc : ∀ b ∈ bs, Local (s.modGen s.gen f).detach b)
    (hledger : ∀ i, outline.val i (s.modGen s.gen f) + outline.wt i (.gc k) =
      outline.val i s + total (outline.wt i) bs) :
    Keeps s (.gc k) (s.modGen s.gen f).detach bs := by
  have ht := touch_modGen s s.gen f
  have hcur : (s.modGen s.gen f).detach.cur = f s.cur := cur_modGen s f
  refine ⟨⟨Or.inl rfl, fun g => ?_, fun _ => Or.inr (Or.inr (Or.inr (Or.inr ⟨k, rfl⟩))),
    Or.inl rfl, fun _ => Or.inl rfl, fun _ => Or.inl rfl⟩,
    ⟨fun g => ?_, fun g hg => ?_, fun g hg => ?_, ?_, ?_, fun _ => rfl, fun g => ?_, hs.lock,
      hs.wheel⟩, hloc, fun i => ?_⟩
  · by_cases hg : g = s.gen
    · subst hg
      rw [show (s.modGen s.gen f).detach.gens s.gen = f s.cur from ht.gens_self]
      exact hstep
    · rw [show (s.modGen s.gen f).detach.gens g = s.gens g from ht.gens_of_ne hg]
      exact .refl _ _
  · by_cases hg : g = s.gen
    · subst hg
      rw [show (s.modGen s.gen f).detach.gens s.gen = f s.cur from ht.gens_self]
      exact hok (hs.ok _)
    · rw [show (s.modGen s.gen f).detach.gens g = s.gens g from ht.gens_of_ne hg]
      exact hs.ok g
  · have hlt : g < s.gen := hg
    rw [show (s.modGen s.gen f).detach.gens g = s.gens g from ht.gens_of_ne (by omega)]
    exact hs.past g hlt
  · have hgt : s.gen < g := hg
    rw [show (s.modGen s.gen f).detach.gens g = s.gens g from ht.gens_of_ne (by omega)]
    exact hs.future g hgt
  · intro hne
    rw [hcur] at hne
    exact absurd (hstep.finished hfin) hne
  · intro h
    cases h
  · by_cases hg : g = s.gen
    · subst hg
      rw [show (s.modGen s.gen f).detach.gens s.gen = f s.cur from ht.gens_self]
      exact fun h => Or.inr (hinst h)
    · rw [show (s.modGen s.gen f).detach.gens g = s.gens g from ht.gens_of_ne hg]
      intro h
      rcases hs.installed g h with hcur | hclean
      · exact absurd hcur.1 hg
      · exact Or.inr hclean
  · rw [← hledger i]
    cases i <;> rfl

private theorem total_afterGc (k : GcCont) (i : Ledger) :
    (outline.wt i (.gc k) : Int) = total (outline.wt i) [afterGc k] := by
  cases k <;> cases i <;> rfl

private theorem modGen_id (s : Shared) (g : Nat) : s.modGen g id = s := by
  simp [Shared.modGen]

private theorem local_afterGc {k : GcCont} (hl : Local s (.gc k)) (hgen : s'.gen = s.gen)
    (hfin : s'.cur.once = .finished) (hgr : s'.grWG = s.grWG) (hattrs : s'.attrs = none)
    (hconn : s'.conn = none) : Local s' (afterGc k) := by
  cases k with
  | reset l => exact ⟨hfin, hl.2.1.trans hgen.symm, hgr.trans hl.2.2, hattrs, hconn⟩
  | _ => trivial

theorem gc_finished {k : GcCont} (hl : Local s (.gc k)) : s.cur.once = .finished := by
  cases k with
  | reset l => exact hl.1
  | _ => exact hl

/-- **`gc`.** -/
theorem keeps_gcStep (hs : Inv s) {k : GcCont} (hl : Local s (.gc k))
    (h : (s', bs) ∈ gcStep s k) : Keeps s (.gc k) s' bs := by
  have hfin := gc_finished hl
  unfold gcStep at h
  split at h
  · next x c hattrs hconn =>
      cases List.mem_singleton.mp h
      have hclean : (s.gens s.gen).cleanup = .fresh := hs.cleanup (by rw [hattrs]; rfl)
      refine keeps_detach hs hfin ⟨id, id, id, Or.inl, Or.inl, id, Or.inl rfl, Or.inl rfl⟩
        (fun hok => ⟨hok.idle, hok.entered, hok.reconnects, hok.finished, hok.returned⟩)
        (fun _ => by simp [Gen.startCleanup]) (fun b hb => ?_) (fun i => ?_)
      · rcases List.mem_cons.mp hb with rfl | hb
        · refine local_afterGc hl rfl ?_ rfl rfl rfl
          rw [show (s.modGen s.gen Gen.startCleanup).detach.cur = s.cur.startCleanup from
            cur_modGen s Gen.startCleanup]
          exact hfin
        · rw [List.mem_singleton.mp hb]
          trivial
      · rw [(touch_modGen s s.gen Gen.startCleanup).val i, total_afterGc k i, total_cons,
          total_cons]
        generalize outline.wt i (afterGc k) = w
        cases i with
        | count g =>
            simp [outline, Gen.startCleanup, Thread.holds]
            omega
        | cleanup g =>
            simp [outline, Gen.startCleanup, hclean, Thread.closes]
            omega
        | body g => simp [outline, Gen.startCleanup, Thread.body]
        | callbacks g => simp [outline, Gen.startCleanup, Thread.invokes]
        | _ => rfl
  · next x hattrs hconn =>
      cases List.mem_singleton.mp h
      have hkeeps : Keeps s (.gc k) (s.modGen s.gen id).detach [afterGc k] := by
        refine keeps_detach hs hfin (.refl _ _) id (fun h => ?_) (fun b hb => ?_) (fun i => ?_)
        · rcases hs.installed s.gen h with hcur | hclean
          · simp [hconn] at hcur
          · exact hclean
        · rw [List.mem_singleton.mp hb, modGen_id]
          exact local_afterGc hl rfl hfin rfl rfl rfl
        · rw [modGen_id, total_afterGc k i]
      rw [modGen_id] at hkeeps
      exact hkeeps
  · next hattrs =>
      cases List.mem_singleton.mp h
      refine keeps_same hs (fun b hb => ?_) (total_afterGc k)
      rw [List.mem_singleton.mp hb]
      exact local_afterGc hl rfl hfin rfl hattrs (hs.detached hattrs)

/-! ## `run` and the read loop -/

/-- **`run`.** -/
theorem keeps_runStep (hs : Inv s) {pc : RunPc} (h : (s', bs) ∈ runStep s pc) :
    Keeps s (.run pc) s' bs := by
  cases pc with
  | register =>
      simp only [runStep] at h
      split at h
      · cases List.mem_singleton.mp h
        exact keeps_end hs (fun i => by cases i <;> rfl)
      · next hnone =>
          cases List.mem_singleton.mp h
          exact keeps_addGr hs (Or.inl hnone) (by simp [Local])
            (fun i => by cases i <;> rfl)
  | check =>
      simp only [runStep] at h
      split at h <;> cases List.mem_singleton.mp h <;> exact keeps_one hs trivial rfl
  | onOpen =>
      cases List.mem_singleton.mp h
      exact keeps_enter hs trivial rfl rfl
  | inOpen =>
      rcases List.mem_pair.mp h with h | h <;> cases h
      · exact keeps_leave hs trivial rfl rfl
      · exact keeps_leave hs ⟨trivial, trivial⟩ rfl rfl
  | install =>
      simp only [runStep] at h
      split at h
      · cases List.mem_singleton.mp h
        exact keeps_one hs trivial rfl
      · rcases List.mem_pair.mp h with h | h <;> cases h
        · exact keeps_quiet (touch_installTimer s) hs trivial rfl rfl rfl rfl
        · exact keeps_one hs trivial rfl
  | start =>
      cases List.mem_singleton.mp h
      exact keeps_addGr hs (Or.inr rfl) (by simp [Local]) (fun i => by cases i <;> rfl)
  | exit =>
      cases List.mem_singleton.mp h
      exact keeps_addGr hs (Or.inr rfl) (by simp) (fun i => by cases i <;> rfl)

/-- **The read goroutine.** -/
theorem keeps_readStep (hs : Inv s) {pc : ReadPc} (hl : Local s (.read pc))
    (h : (s', bs) ∈ readStep s pc) : Keeps s (.read pc) s' bs := by
  cases pc with
  | loop =>
      simp only [readStep, List.mem_cons, List.not_mem_nil, or_false] at h
      rcases h with h | h | h <;> cases h
      · exact keeps_one hs trivial rfl
      · exact keeps_one hs ⟨trivial, trivial⟩ rfl
      · exact keeps_one hs ⟨trivial, trivial⟩ rfl
  | decode =>
      cases List.mem_singleton.mp h
      exact keeps_enter hs trivial rfl rfl
  | decoding =>
      simp only [readStep, List.mem_cons, List.not_mem_nil, or_false] at h
      rcases h with h | h | h <;> cases h
      · exact keeps_leave hs trivial rfl rfl
      · exact keeps_leave hs trivial rfl rfl
      · exact keeps_leave hs ⟨trivial, trivial⟩ rfl rfl
  | addTask =>
      simp only [readStep] at h
      split at h
      · cases List.mem_singleton.mp h
        exact keeps_same hs (by simp [Local]) (fun i => by cases i <;> rfl)
      · cases List.mem_singleton.mp h
        exact keeps_one hs (Nat.le_refl s.gen) rfl
  | onError =>
      simp only [readStep] at h
      split at h <;> cases List.mem_singleton.mp h
      · exact keeps_enter hs hl rfl rfl
      · exact keeps_one hs hl rfl
  | inError =>
      cases List.mem_singleton.mp h
      exact keeps_leave hs hl rfl rfl
  | onClose =>
      simp only [readStep] at h
      split at h <;> cases List.mem_singleton.mp h
      · exact keeps_enter hs hl rfl rfl
      · exact keeps_one hs hl rfl
  | inClose =>
      cases List.mem_singleton.mp h
      exact keeps_leave hs hl rfl rfl
  | exit =>
      cases List.mem_singleton.mp h
      exact keeps_addGr hs (Or.inr rfl) (by simp) (fun i => by cases i <;> rfl)

/-! ## Tasks and heartbeats -/

private theorem local_afterTask (inline panicked : Bool) (s : Shared) :
    ∀ b ∈ afterTask inline panicked, Local s b := by
  cases inline <;> cases panicked <;> simp [afterTask, Local, StopAt, ContAt]

/-- **`OnMessage` tasks.** -/
theorem keeps_taskStep (hs : Inv s) {l : Nat} {inline : Bool} {pc : TaskPc}
    (hl : Local s (.task l inline pc)) (hb : Booked s (.task l inline pc))
    (h : (s', bs) ∈ taskStep s l inline pc) : Keeps s (.task l inline pc) s' bs := by
  cases pc with
  | acquire =>
      simp only [taskStep] at h
      split at h
      · cases List.mem_singleton.mp h
        refine keeps_same hs (local_afterTask inline false s) (fun i => ?_)
        cases inline <;> cases i <;> rfl
      · next hopen =>
          cases List.mem_singleton.mp h
          exact keeps_acquire hs hl (by simpa using hopen) (fun _ => trivial) rfl rfl
  | closedCheck =>
      simp only [taskStep] at h
      split at h <;> cases List.mem_singleton.mp h <;> exact keeps_one hs trivial rfl
  | listener =>
      simp only [taskStep] at h
      split at h <;> cases List.mem_singleton.mp h
      · exact keeps_enter hs trivial rfl rfl
      · exact keeps_one hs trivial rfl
  | inMessage =>
      rcases List.mem_pair.mp h with h | h <;> cases h <;>
        exact keeps_leave hs trivial rfl rfl
  | release panicked =>
      cases List.mem_singleton.mp h
      refine keeps_release hs hb rfl (local_afterTask inline panicked) (fun i => ?_)
      cases inline <;> cases panicked <;> cases i <;> rfl

/-- **Heartbeats.** -/
theorem keeps_cronStep (hs : Inv s) {l : Nat} {pc : CronPc} (hl : Local s (.cron l pc))
    (hb : Booked s (.cron l pc)) (h : (s', bs) ∈ cronStep s l pc) :
    Keeps s (.cron l pc) s' bs := by
  cases pc with
  | fire =>
      simp only [cronStep] at h
      split at h <;> cases List.mem_singleton.mp h
      · exact keeps_one hs hl rfl
      · exact keeps_end hs (fun i => by cases i <;> rfl)
  | acquire =>
      simp only [cronStep] at h
      split at h
      · cases List.mem_singleton.mp h
        exact keeps_end hs (fun i => by cases i <;> rfl)
      · next hopen =>
          cases List.mem_singleton.mp h
          exact keeps_acquire hs hl (by simpa using hopen) (fun _ => trivial) rfl rfl
  | snapshot =>
      simp only [cronStep] at h
      split at h <;> cases List.mem_singleton.mp h <;> exact keeps_one hs trivial rfl
  | onCron =>
      cases List.mem_singleton.mp h
      exact keeps_enter hs trivial rfl rfl
  | inCron =>
      rcases List.mem_pair.mp h with h | h <;> cases h
      · exact keeps_leave hs trivial rfl rfl
      · exact keeps_leave hs ⟨trivial, trivial⟩ rfl rfl
  | rawClose =>
      cases List.mem_singleton.mp h
      exact keeps_one hs trivial rfl
  | release =>
      cases List.mem_singleton.mp h
      exact keeps_release hs hb rfl (by simp) (fun i => by cases i <;> rfl)

/-! ## Writes -/

@[simp] theorem lockPacket_gen (s : Shared) (exclusive : Bool) :
    (s.lockPacket exclusive).gen = s.gen := by
  cases exclusive <;> rfl

/-- A write outside `packetLock` knows nothing about the session. -/
theorem local_unlocked {k : WriteKind} {pc : WritePc} (hpc : pc.locked = none)
    (hacq : ∀ l, pc ≠ .acquire l) (s : Shared) : Local s (.write k pc) := by
  cases pc with
  | acquire l => exact absurd rfl (hacq l)
  | conn l g => cases hpc
  | send l c g => cases hpc
  | unlock l g => cases hpc
  | _ => exact fun _ h => by cases h

/-- `packetLock` is taken. -/
private theorem keeps_lockPacket {k : WriteKind} {pc pc' : WritePc} (hs : Inv s)
    (hcan : s.canLock k.exclusive = true) (hpc : pc.locked = none)
    (hpc' : pc'.locked = some s.gen) (hholds : pc'.holds = pc.holds)
    (hcalls : (Thread.write k pc).calls = (Thread.write k pc').calls)
    (hloc : Local (s.lockPacket k.exclusive) (.write k pc')) :
    Keeps s (.write k pc) (s.lockPacket k.exclusive) [.write k pc'] := by
  refine keeps_quiet (touch_lockPacket hcan) hs hloc ?_ ?_ ?_ ?_
  · simp [Thread.base, Thread.gr, Thread.holds, Thread.body, Thread.isWorker, Thread.invokes,
      Thread.closes, hholds]
  · cases hk : k.exclusive <;> simp [Thread.reads, Shared.lockPacket, hpc, hpc', hk]
  · cases hk : k.exclusive with
    | false => simp [Thread.writes, Shared.lockPacket, hpc, hpc', hk]
    | true =>
        have hfree : s.writing = false := by
          rw [hk] at hcan
          simp only [Shared.canLock, Bool.and_eq_true, Bool.not_eq_true'] at hcan
          exact hcan.1
        simp [Thread.writes, Shared.lockPacket, hpc, hpc', hk, hfree]
  · rw [hcalls]
    cases k.exclusive <;> rfl

/-- `packetLock` is given back. -/
private theorem keeps_unlockPacket {k : WriteKind} {l : Option Nat} {g : Nat} (hs : Inv s)
    (hb : Booked s (.write k (.unlock l g))) (hloc : ∀ s', ∀ b ∈ bs, Local s' b)
    (hwt : ∀ i, total (outline.wt i) bs =
      match i with
      | .count j => ((l == some j).toNat : Int)
      | _ => 0) :
    Keeps s (.write k (.unlock l g)) (s.unlockPacket k.exclusive) bs := by
  have ht := touch_unlockPacket s k.exclusive
  refine ht.keeps (safe_id s _) hs (hloc _) (fun i => ?_)
  rw [ht.val i, hwt i]
  cases i with
  | readers =>
      have hheld := hb .readers
      cases hk : k.exclusive with
      | true => simp [outline, Thread.reads, Shared.unlockPacket, hk]
      | false =>
          simp only [outline, Thread.reads, WritePc.locked, Option.isSome_some, hk, Bool.not_false,
            Bool.and_self, Bool.toNat_true] at hheld
          simp only [outline, Thread.reads, WritePc.locked, Option.isSome_some, hk, Bool.not_false,
            Bool.and_self, Bool.toNat_true, Shared.unlockPacket, Bool.false_eq_true, if_false]
          omega
  | writing =>
      have hheld := hb .writing
      cases hk : k.exclusive with
      | false => simp [outline, Thread.writes, Shared.unlockPacket, hk]
      | true =>
          cases hw : s.writing with
          | false => simp [outline, Thread.writes, WritePc.locked, hk, hw] at hheld
          | true => simp [outline, Thread.writes, WritePc.locked, Shared.unlockPacket, hk, hw]
  | depth => cases k.exclusive <;> simp [outline, Thread.calls, Shared.unlockPacket]
  | count j => simp [outline, Thread.holds, WritePc.holds]
  | body j => simp [outline, Thread.body]
  | callbacks j => simp [outline, Thread.invokes]
  | cleanup j => simp [outline, Thread.closes]
  | _ => rfl

/-- **The writes.** -/
theorem keeps_writeStep (hs : Inv s) {k : WriteKind} {pc : WritePc} (hl : Local s (.write k pc))
    (hb : Booked s (.write k pc)) (h : (s', bs) ∈ writeStep s k pc) :
    Keeps s (.write k pc) s' bs := by
  have hun : ∀ (k : WriteKind) (pc : WritePc), pc.locked = none → (∀ l, pc ≠ .acquire l) →
      ∀ s, Local s (.write k pc) := fun _ _ => local_unlocked
  cases pc with
  | closedCheck =>
      simp only [writeStep] at h
      split at h <;> cases List.mem_singleton.mp h
      · exact keeps_end hs (fun i => by cases i <;> rfl)
      · cases k <;> exact keeps_one hs (hun _ _ rfl (by simp [WriteKind.opened]) s) rfl
  | snapshot =>
      cases List.mem_singleton.mp h
      exact keeps_one hs (Nat.le_refl s.gen) rfl
  | acquire l =>
      simp only [writeStep] at h
      split at h
      · cases List.mem_singleton.mp h
        exact keeps_end hs (fun i => by cases i <;> rfl)
      · next hopen =>
          cases List.mem_singleton.mp h
          exact keeps_acquire hs hl (by simpa using hopen) (hun _ _ rfl (by simp)) rfl rfl
  | encode l =>
      cases List.mem_singleton.mp h
      exact keeps_enter hs (hun _ _ rfl (by simp) _) rfl rfl
  | encoding l =>
      rcases List.mem_pair.mp h with h | h <;> cases h <;>
        exact keeps_leave hs (hun _ _ rfl (by simp) _) rfl rfl
  | connFirst =>
      simp only [writeStep] at h
      split at h
      · cases List.mem_singleton.mp h
        exact keeps_end hs (fun i => by cases i <;> rfl)
      · simp only [List.mem_cons, List.not_mem_nil, or_false] at h
        rcases h with h | h | h <;> cases h <;>
          exact keeps_one hs (hun _ _ rfl (by simp) s) rfl
  | lock l c =>
      simp only [writeStep] at h
      split at h
      · next hcan =>
          split at h <;> cases List.mem_singleton.mp h
          · refine keeps_lockPacket hs hcan rfl rfl rfl rfl (fun g hg => ?_)
            rw [lockPacket_gen]
            exact (Option.some.inj hg).symm
          · refine keeps_lockPacket hs hcan rfl rfl rfl rfl (fun g hg => ?_)
            rw [lockPacket_gen]
            exact (Option.some.inj hg).symm
      · cases h
  | conn l g =>
      simp only [writeStep] at h
      split at h <;> cases List.mem_singleton.mp h <;> exact keeps_one hs hl rfl
  | send l c g =>
      cases List.mem_singleton.mp h
      exact keeps_one hs hl rfl
  | unlock l g =>
      simp only [writeStep] at h
      split at h <;> cases List.mem_singleton.mp h
      · exact keeps_unlockPacket hs hb (by simp) (fun i => by cases i <;> rfl)
      · refine keeps_unlockPacket hs hb (fun s' b hbm => ?_) (fun i => by cases i <;> rfl)
        rw [List.mem_singleton.mp hbm]
        exact hun _ _ rfl (by simp) s'
  | release l =>
      cases List.mem_singleton.mp h
      exact keeps_release hs hb rfl (by simp) (fun i => by cases i <;> rfl)

/-! ## Close callbacks and connection cleanup -/

/-- The close callbacks have returned. -/
private theorem keeps_endCallbacks (hs : Inv s) {l : Nat} (hb : Booked s (.callbacks l .inside)) :
    Keeps s (.callbacks l .inside) (s.leave.modGen l Gen.endCallbacks)
      [.callbacks l .release] := by
  have hcur := hb.holds_eq hs rfl
  have hrun := hb.invoking rfl
  have ht : Touch s l Gen.endCallbacks (s.leave.modGen l Gen.endCallbacks) :=
    ⟨rfl, rfl, rfl, rfl, rfl, rfl, id, fun _ _ => rfl⟩
  refine ht.keeps ⟨by omega, ⟨id, id, id, Or.inl, ?_, ?_, Or.inl rfl, Or.inl rfl⟩, fun hok => ?_,
    fun _ => rfl, rfl, rfl, Iff.rfl, Or.inl rfl⟩ hs (by simp [Local]) (fun i => ?_)
  · intro h
    rw [hrun] at h
    cases h
  · intro _ h
    cases h
  · refine ⟨fun h => ?_, hok.entered, hok.reconnects, fun h => ?_, hok.returned⟩
    · have hfresh := (hok.idle h).2.2
      rw [hrun] at hfresh
      cases hfresh
    · obtain ⟨h1, h2, -, h4⟩ := hok.finished h
      exact ⟨h1, h2, by simp [Gen.endCallbacks], h4⟩
  · rw [ht.val i]
    cases i with
    | body g => simp [outline, Gen.endCallbacks, Thread.body]
    | count g => simp [outline, Gen.endCallbacks, Thread.holds]
    | callbacks g => simp [outline, Gen.endCallbacks, hrun, Thread.invokes]
    | cleanup g => simp [outline, Gen.endCallbacks, Thread.closes]
    | depth => simp [outline, Shared.leave, Shared.modGen, Thread.calls]
    | _ => rfl

/-- `CloseConn` has returned. -/
private theorem keeps_endCleanup (hs : Inv s) {l : Nat} (hb : Booked s (.cleanup l .closeConn)) :
    Keeps s (.cleanup l .closeConn) (s.modGen l Gen.endCleanup) [.cleanup l .release] := by
  have hcur := hb.holds_eq hs rfl
  have hrun := hb.closing rfl
  have ht := touch_modGen s l Gen.endCleanup
  refine ht.keeps ⟨by omega, ⟨id, id, id, Or.inl, Or.inl, id, Or.inl rfl, Or.inl rfl⟩,
    fun hok => ⟨hok.idle, hok.entered, hok.reconnects, hok.finished, hok.returned⟩,
    fun _ => rfl, rfl, rfl, ?_, Or.inl rfl⟩ hs (by simp [Local]) (fun i => ?_)
  · rw [hrun]
    simp [Gen.endCleanup]
  · rw [ht.val i]
    cases i with
    | body g => simp [outline, Gen.endCleanup, Thread.body]
    | count g => simp [outline, Gen.endCleanup, Thread.holds]
    | callbacks g => simp [outline, Gen.endCleanup, Thread.invokes]
    | cleanup g => simp [outline, Gen.endCleanup, hrun, Thread.closes]
    | _ => rfl

/-! ## Reset requests and the reset worker -/

/-- `ResetAsync` adds a request; the first one starts the worker. -/
private theorem keeps_requestStep (hs : Inv s) {wait : Bool} (h : (s', bs) ∈ requestStep s wait) :
    Keeps s (.request wait) s' bs := by
  have hframe : Frame s (.request wait) s.request :=
    ⟨Or.inl rfl, fun _ => .refl _ _, fun _ => Or.inl rfl, Or.inl rfl,
      Or.inl, Or.inl⟩
  have hinv : Inv s.request :=
    ⟨hs.ok, hs.past, hs.future, hs.attrs, hs.cleanup, hs.detached, hs.installed, hs.lock, hs.wheel⟩
  cases hrun : s.resetRun with
  | some rs =>
      simp only [requestStep, hrun] at h
      cases List.mem_singleton.mp h
      refine ⟨hframe, hinv, ?_, fun i => ?_⟩
      · cases wait <;> simp [outline, Local]
      · cases i with
        | worker => cases wait <;> simp [outline, Shared.request, hrun, Thread.isWorker]
        | _ => cases wait <;> rfl
  | none =>
      simp only [requestStep, hrun] at h
      cases List.mem_singleton.mp h
      refine ⟨hframe, hinv, ?_, fun i => ?_⟩
      · cases wait <;> simp [outline, Local, StopAt, ContAt]
      · cases i with
        | worker =>
            cases wait <;> simp [outline, Shared.request, hrun, Thread.isWorker, Cont.isReset]
        | _ => cases wait <;> rfl

/-- The worker delivers its result. -/
private theorem keeps_deliver (hs : Inv s) {cleared : Option Nat}
    (hb : Booked s (.worker (.deliver cleared))) :
    Keeps s (.worker (.deliver cleared)) (s.deliver cleared.isSome) [] := by
  have hrun := hb.worker rfl
  refine ⟨⟨Or.inl rfl, fun _ => .refl _ _, fun _ => Or.inl rfl,
    Or.inl rfl, Or.inl, Or.inl⟩,
    ⟨hs.ok, hs.past, hs.future, hs.attrs, hs.cleanup, hs.detached, hs.installed, hs.lock,
      hs.wheel⟩, by simp, fun i => ?_⟩
  cases i with
  | worker => simp [outline, Shared.deliver, hrun, Thread.isWorker]
  | _ => rfl

/-- **The new generation.** -/
theorem keeps_clear (hs : Inv s) {l : Nat} (hl : WorkerAt s (.clear l)) :
    Keeps s (.worker (.clear l)) s.clear [.worker (.unlock l)] := by
  obtain ⟨hfin, rfl, hgr, -, hconn, hcount⟩ := hl
  have hnew : s.gens (s.gen + 1) = Gen.fresh := hs.future _ (Nat.lt_succ_self _)
  have hcur : s.clear.cur = Gen.fresh := hnew
  refine ⟨⟨Or.inr ⟨rfl, rfl⟩, fun _ => .refl _ _, fun _ => Or.inl rfl,
    Or.inl rfl, fun _ => Or.inr (Or.inl rfl), fun _ => Or.inl rfl⟩,
    ⟨hs.ok, fun g hg => ?_, fun g hg => ?_, fun _ => ?_, fun _ => ?_, fun h => ?_, fun g h => ?_,
      hs.lock, fun g hg => ?_⟩, ?_, fun i => ?_⟩
  · have hlt : g < s.gen + 1 := hg
    by_cases hgc : g = s.gen
    · subst hgc
      exact ⟨hfin, hcount⟩
    · exact hs.past g (by omega)
  · have hgt : s.gen + 1 < g := hg
    exact hs.future g (by omega)
  · rw [hcur]
    rfl
  · rw [hcur]
    rfl
  · cases h
  · rcases hs.installed g h with hcur | hclean
    · simp [hconn] at hcur
    · exact Or.inr hclean
  · have hgt : s.gen + 1 < g := hg
    exact hs.wheel g (by omega)
  · exact List.forall_mem_singleton.mpr ⟨rfl, hgr, rfl⟩
  · cases i <;> rfl

/-- **The reset worker.** -/
theorem keeps_workerStep (hs : Inv s) {pc : WorkerPc} (hl : WorkerAt s pc)
    (hb : Booked s (.worker pc)) (h : (s', bs) ∈ workerStep s pc) :
    Keeps s (.worker pc) s' bs := by
  cases pc with
  | closeConn =>
      simp only [workerStep] at h
      split at h
      · rcases List.mem_pair.mp h with h | h <;> cases h
        · exact keeps_one hs hl rfl
        · exact keeps_one hs trivial rfl
      · cases List.mem_singleton.mp h
        exact keeps_one hs hl rfl
  | takeTimer =>
      cases List.mem_singleton.mp h
      exact keeps_quiet (touch_takeTimer s) hs ⟨hl, rfl⟩ rfl rfl rfl rfl
  | stopTimer l t =>
      cases List.mem_singleton.mp h
      obtain ⟨-, -, -, hcur, hgen⟩ := stopTimer_locks s t
      refine keeps_stopTimer hs t ⟨?_, hl.2.trans hgen.symm⟩ rfl
      rw [hcur]
      exact hl.1
  | closeLifecycle l =>
      cases List.mem_singleton.mp h
      obtain ⟨hfin, rfl⟩ := hl
      have hfin' : (s.gens s.gen).once = .finished := hfin
      refine keeps_mark ⟨Nat.le_refl _, ⟨id, fun _ => rfl, id, Or.inl, Or.inl, id, Or.inl rfl,
        Or.inl rfl⟩, fun hok => ?_, fun _ => rfl, rfl, rfl, Iff.rfl, Or.inl rfl⟩ hs rfl rfl rfl
        rfl ?_ (fun i => by cases i <;> rfl)
      · obtain ⟨h1, -, h3⟩ := hok.finished hfin'
        exact ⟨hok.idle, hok.entered, hok.reconnects, fun _ => ⟨h1, rfl, h3⟩, hok.returned⟩
      · intro b hbm
        rw [List.mem_singleton.mp hbm]
        refine ⟨?_, rfl⟩
        rw [cur_modGen]
        exact hfin
  | waitGr l =>
      obtain ⟨hzero, h⟩ := mem_guarded h
      cases h
      exact keeps_one hs ⟨hl.1, hl.2, hzero⟩ rfl
  | waitLifecycle l =>
      obtain ⟨hfin, rfl, hgr, hattrs, hconn⟩ := hl
      obtain ⟨hzero, h⟩ := mem_guarded h
      cases h
      exact keeps_one hs ⟨hfin, rfl, hgr, hattrs, hconn, hzero⟩ rfl
  | lock l =>
      obtain ⟨hcan, h⟩ := mem_guarded h
      cases h
      have hfree : s.writing = false := by
        simp only [Shared.canLock, Bool.and_eq_true, Bool.not_eq_true'] at hcan
        exact hcan.1
      refine keeps_quiet (touch_lockPacket hcan) hs hl rfl rfl ?_ rfl
      simp [Shared.lockPacket, Thread.writes, hfree]
  | clear l =>
      cases List.mem_singleton.mp h
      exact keeps_clear hs hl
  | unlock l =>
      cases List.mem_singleton.mp h
      have hheld : s.writing = true := by
        have hw := hb .writing
        cases hc : s.writing with
        | true => rfl
        | false => simp [outline, Thread.writes, hc] at hw
      refine keeps_quiet (touch_unlockPacket s true) hs hl rfl rfl ?_ rfl
      simp [Shared.unlockPacket, Thread.writes, hheld]
  | deliver cleared =>
      cases List.mem_singleton.mp h
      exact keeps_deliver hs hb

/-- The user prepares a session that was reset. -/
private theorem keeps_reuse (hs : Inv s) (cfg : Config) (hrun : s.resetRun = none)
    (hfresh : s.cur.once = .fresh) :
    Keeps s (.reuse cfg) ((s.prepare cfg).modGen s.gen (Gen.carry cfg.attrs)) [] := by
  have hattrs : s.attrs.isSome = true := by
    rw [hs.attrs (by rw [hfresh]; simp)]
    rfl
  have hself : ((s.prepare cfg).modGen s.gen (Gen.carry cfg.attrs)).gens s.gen =
      s.cur.carry cfg.attrs := by
    simp [Shared.modGen, Shared.prepare, Shared.cur]
  have hother : ∀ g, g ≠ s.gen →
      ((s.prepare cfg).modGen s.gen (Gen.carry cfg.attrs)).gens g = s.gens g := by
    intro g hg
    simp [Shared.modGen, Shared.prepare, hg]
  have hcur : ((s.prepare cfg).modGen s.gen (Gen.carry cfg.attrs)).cur = s.cur.carry cfg.attrs :=
    hself
  have hfin : s.cur.once ≠ .finished := by
    rw [hfresh]
    simp
  refine ⟨⟨Or.inl rfl, fun g => ?_, fun g => ?_, Or.inl rfl,
    fun _ => Or.inr (Or.inr hrun), fun _ => Or.inr hrun⟩, ⟨fun g => ?_, fun g hg => ?_,
    fun g hg => ?_, fun _ => ?_, fun _ => ?_, fun h => ?_, fun g => ?_, hs.lock, hs.wheel⟩,
    by simp, fun i => ?_⟩
  · by_cases hg : g = s.gen
    · subst hg
      rw [hself]
      exact ⟨id, id, id, Or.inl, Or.inl, id, Or.inl rfl, Or.inr hfresh⟩
    · rw [hother g hg]
      exact .refl _ _
  · refine Or.inl ?_
    by_cases hg : g = s.gen
    · subst hg
      rw [hself]
      rfl
    · rw [hother g hg]
  · by_cases hg : g = s.gen
    · subst hg
      rw [hself]
      have hok := hs.ok s.gen
      exact ⟨hok.idle, hok.entered, hok.reconnects, fun h => absurd h hfin, hok.returned⟩
    · rw [hother g hg]
      exact hs.ok g
  · have hlt : g < s.gen := hg
    rw [hother g (by omega)]
    exact hs.past g hlt
  · have hgt : s.gen < g := hg
    rw [hother g (by omega)]
    exact hs.future g hgt
  · rw [hcur]
    rfl
  · rw [hcur]
    exact hs.cleanup hattrs
  · cases h
  · by_cases hg : g = s.gen
    · subst hg
      exact fun _ => Or.inl ⟨rfl, rfl⟩
    · rw [hother g hg]
      intro h
      rcases hs.installed g h with hcur | hclean
      · exact absurd hcur.1 hg
      · exact Or.inr hclean
  · have hp : ∀ (p : Gen → Int), (∀ x : Gen, p (x.carry cfg.attrs) = p x) → ∀ g,
        p (((s.prepare cfg).modGen s.gen (Gen.carry cfg.attrs)).gens g) = p (s.gens g) := by
      intro p hp g
      by_cases hg : g = s.gen
      · subst hg
        rw [hself]
        exact hp _
      · rw [hother g hg]
    cases i with
    | count g => exact congrArg (· + 0) (hp (fun x => x.count) (fun _ => rfl) g)
    | body g => exact congrArg (· + 0) (hp (fun x => Once.run x.once) (fun _ => rfl) g)
    | callbacks g => exact congrArg (· + 0) (hp (fun x => Once.run x.callbacks) (fun _ => rfl) g)
    | cleanup g => exact congrArg (· + 0) (hp (fun x => Once.run x.cleanup) (fun _ => rfl) g)
    | _ => rfl

/-! ## All steps -/

/-- **Step lemma**, for the thread that takes the step. -/
theorem keeps_step (hs : Inv s) (hl : Local s a) (hb : Booked s a) (h : (s', bs) ∈ step s a) :
    Keeps s a s' bs := by
  cases a with
  | stop pc k => exact keeps_stopStep hs hl hb h
  | gc k => exact keeps_gcStep hs hl h
  | run pc => exact keeps_runStep hs h
  | read pc => exact keeps_readStep hs hl h
  | task l inline pc => exact keeps_taskStep hs hl hb h
  | cron l pc => exact keeps_cronStep hs hl hb h
  | write k pc => exact keeps_writeStep hs hl hb h
  | callbacks l pc =>
      cases pc <;> cases List.mem_singleton.mp h
      · exact keeps_enter hs trivial rfl rfl
      · exact keeps_endCallbacks hs hb
      · exact keeps_release hs hb rfl (by simp) (fun i => by cases i <;> rfl)
  | cleanup l pc =>
      cases pc <;> cases List.mem_singleton.mp h
      · exact keeps_endCleanup hs hb
      · exact keeps_release hs hb rfl (by simp) (fun i => by cases i <;> rfl)
  | reset k =>
      cases k with
      | reset =>
          cases List.mem_singleton.mp h
          exact keeps_one hs trivial rfl
      | tryReset =>
          simp only [step, resetStep] at h
          split at h <;> cases List.mem_singleton.mp h
          · exact keeps_end hs (fun i => by cases i <;> rfl)
          · exact keeps_one hs trivial rfl
      | resetAsync =>
          cases List.mem_singleton.mp h
          exact keeps_one hs trivial rfl
  | request wait => exact keeps_requestStep hs h
  | await id =>
      obtain ⟨-, h⟩ := mem_guarded h
      cases h
      exact keeps_end hs (fun i => by cases i <;> rfl)
  | worker pc => exact keeps_workerStep hs hl hb h
  | reuse cfg =>
      obtain ⟨hready, h⟩ := mem_guarded h
      cases h
      exact keeps_reuse hs cfg hready.1 hready.2.2

end Steps

/-! ## Interference -/

section Interference

variable {s s' : Shared} {a b : Thread}

/-- What two threads of one pool know about each other. -/
structure Apart (s : Shared) (a b : Thread) : Prop where
  left : Booked s a
  right : Booked s b
  body : ∀ g, b.body = some g → a.body ≠ some g
  worker : b.isWorker = true → a.isWorker = false
  lock : b.reads = true ∨ b.writes = true → a.isClear = false

theorem isClear_writes (h : a.isClear = true) : a.writes = true ∧ a.isWorker = true := by
  cases a with
  | worker pc => cases pc <;> first | exact ⟨rfl, rfl⟩ | cases h
  | _ => cases h

private theorem apart_of_pair (hs : Inv s)
    (h : ∀ i, (outline.wt i a : Int) + outline.wt i b ≤ outline.val i s) : Apart s a b := by
  have hleft : Booked s a := fun i => by have := h i; omega
  have hright : Booked s b := fun i => by have := h i; omega
  refine ⟨hleft, hright, fun g hb ha => ?_, fun hb => ?_, fun hb => ?_⟩
  · have hpair := h (.body g)
    have hrun := hright.running hb
    simp [outline, ha, hb, hrun] at hpair
  · have hpair := h .worker
    cases ha : a.isWorker with
    | false => rfl
    | true => simp [outline, ha, hb, hright.worker hb] at hpair
  · cases ha : a.isClear with
    | false => rfl
    | true =>
        obtain ⟨hw, -⟩ := isClear_writes ha
        have hpair := h .writing
        have hheld : s.writing = true := by
          have hbook := hleft .writing
          cases hc : s.writing with
          | true => rfl
          | false => simp [outline, hw, hc] at hbook
        rcases hb with hb | hb
        · have hread := hright .readers
          simp [outline, hb, hs.lock hheld] at hread
        · simp [outline, hw, hb, hheld] at hpair

/-- Whoever keeps the reset worker waiting keeps the generation. -/
theorem gen_stays (hs : Inv s) (hl : Local s a) (hf : Frame s a s') (hap : Apart s a b)
    (h : b.gr = true ∨ b.holds.isSome = true ∨ b.isWorker = true ∨ b.reads = true ∨
      b.writes = true ∨ b.body = some s.gen) : s'.gen = s.gen := by
  rcases hf.gen with hgen | ⟨hclear, -⟩
  · exact hgen
  · exfalso
    have hat : s.cur.once = .finished ∧ s.grWG = 0 ∧ s.cur.count = 0 := by
      cases a with
      | worker pc =>
          cases pc with
          | clear l =>
              obtain ⟨hfin, -, hgr, -, -, hcount⟩ := hl
              exact ⟨hfin, hgr, hcount⟩
          | _ => cases hclear
      | _ => cases hclear
    obtain ⟨hfin, hgr, hcount⟩ := hat
    rcases h with h | h | h | h | h | h
    · have := hap.right.gr_pos h
      omega
    · obtain ⟨l, hholds⟩ := Option.isSome_iff_exists.mp h
      have hcur := hap.right.holds_eq hs hholds
      have hbook := hap.right (.count l)
      subst hcur
      have hzero : (s.gens s.gen).count = 0 := hcount
      simp [outline, hholds, hzero] at hbook
    · have hw := hap.worker h
      rw [(isClear_writes hclear).2] at hw
      cases hw
    · rw [hap.lock (Or.inl h)] at hclear
      cases hclear
    · rw [hap.lock (Or.inr h)] at hclear
      cases hclear
    · have hrun : s.cur.once = .running := hap.right.running h
      rw [hfin] at hrun
      cases hrun

/-- While the generation stays, a finished `once` does. -/
theorem finished_stays (hf : Frame s a s') (hgen : s'.gen = s.gen)
    (h : s.cur.once = .finished) : s'.cur.once = .finished := by
  unfold Shared.cur
  rw [hgen]
  exact (hf.gens s.gen).finished h

/-- The assertions inside the body of `stop` are not disturbed. -/
private theorem bodyAt_stays (hf : Frame s a s') (hap : Apart s a b) (hgen : s'.gen = s.gen)
    (hbody : b.body = some s.gen) :
    (s.cur.Early → s'.cur.Early) ∧ (s.cur.Late → s'.cur.Late) ∧
      (s.cur.done = true → s'.cur.done = true) ∧ (s.cur.closed = true → s'.cur.closed = true) ∧
      s'.cur.reconnects = s.cur.reconnects ∧ s'.cur.carried = s.cur.carried := by
  have hown := hap.body s.gen hbody
  have hrun : s.cur.once = .running := hap.right.running hbody
  have hstep : GenStep (a.body = some s.gen) s.cur s'.cur := by
    unfold Shared.cur
    rw [hgen]
    exact hf.gens s.gen
  have hrec : s'.cur.reconnects = s.cur.reconnects := by
    rcases hstep.reconnects with h | h
    · exact h
    · exact absurd h hown
  refine ⟨fun h => ⟨?_, hrec.trans h.reconnects⟩,
    fun h => ⟨hstep.done h.done, hstep.closed h.closed, hstep.late h.callbacks⟩, hstep.done,
    hstep.closed, hrec, ?_⟩
  · rcases hstep.early h.callbacks with h | h
    · exact h
    · exact absurd h hown
  · rcases hstep.carried with h | h
    · exact h
    · rw [hrun] at h
      cases h

theorem gen_mono (hf : Frame s a s') : s.gen ≤ s'.gen := by
  rcases hf.gen with h | ⟨-, h⟩ <;> omega

theorem stopAt_stays (hs : Inv s) (hl : Local s a) (hf : Frame s a s') {pc : StopPc} {k : Cont}
    (hap : Apart s a (.stop pc k)) (h : StopAt s pc) : StopAt s' pc := by
  have hbody : pc.body = some s.gen → s'.gen = s.gen ∧ _ := fun hpc =>
    have hgen := gen_stays hs hl hf hap (by simp [Thread.body, hpc])
    ⟨hgen, bodyAt_stays hf hap hgen hpc⟩
  cases pc with
  | readOnce => trivial
  | doOnce g => exact Nat.le_trans h (gen_mono hf)
  | closeDone g =>
      obtain ⟨rfl, hearly⟩ := h
      obtain ⟨hgen, he, -⟩ := hbody rfl
      exact ⟨hgen.symm, he hearly⟩
  | takeTimer g =>
      obtain ⟨rfl, hearly, hdone⟩ := h
      obtain ⟨hgen, he, -, hd, -⟩ := hbody rfl
      exact ⟨hgen.symm, he hearly, hd hdone⟩
  | stopTimer g l t =>
      obtain ⟨rfl, hl, hearly, hdone⟩ := h
      obtain ⟨hgen, he, -, hd, -⟩ := hbody rfl
      exact ⟨hgen.symm, hl.trans hgen.symm, he hearly, hd hdone⟩
  | closeLifecycle g l =>
      obtain ⟨rfl, hl, hearly, hdone⟩ := h
      obtain ⟨hgen, he, -, hd, -⟩ := hbody rfl
      exact ⟨hgen.symm, hl.trans hgen.symm, he hearly, hd hdone⟩
  | closeCallbacks g l =>
      obtain ⟨rfl, hl, hearly, hdone, hclosed⟩ := h
      obtain ⟨hgen, he, -, hd, hc, -⟩ := hbody rfl
      exact ⟨hgen.symm, hl.trans hgen.symm, he hearly, hd hdone, hc hclosed⟩
  | attrClient g =>
      obtain ⟨rfl, hlate, hrec⟩ := h
      obtain ⟨hgen, -, he, -, -, hr, -⟩ := hbody rfl
      exact ⟨hgen.symm, he hlate, hr.trans hrec⟩
  | attrIgnore g found =>
      obtain ⟨rfl, hlate, hrec, hfound⟩ := h
      obtain ⟨hgen, -, he, -, -, hr, hcar⟩ := hbody rfl
      exact ⟨hgen.symm, he hlate, hr.trans hrec, by rw [hcar]; exact hfound⟩
  | runReconnect g =>
      obtain ⟨rfl, hlate, hrec⟩ := h
      obtain ⟨hgen, -, he, -, -, hr, -⟩ := hbody rfl
      exact ⟨hgen.symm, he hlate, hr.trans hrec⟩
  | finish g =>
      obtain ⟨rfl, hlate, hrec⟩ := h
      obtain ⟨hgen, -, he, -, -, hr, hcar⟩ := hbody rfl
      exact ⟨hgen.symm, he hlate, by rw [hr, hcar]; exact hrec⟩

theorem contAt_stays (hs : Inv s) (hl : Local s a) (hf : Frame s a s') {pc : StopPc} {k : Cont}
    (hap : Apart s a (.stop pc k)) (h : ContAt s k pc) : ContAt s' k pc := by
  cases pc with
  | doOnce g =>
      rcases h with h | h
      · exact Or.inl h
      · cases k with
        | close => exact Or.inl rfl
        | opening => exact Or.inr (h.trans (gen_stays hs hl hf hap (Or.inl rfl)).symm)
        | shutdown err => exact Or.inr (h.trans (gen_stays hs hl hf hap (Or.inl rfl)).symm)
        | cron l => exact Or.inr (h.trans (gen_stays hs hl hf hap (Or.inr (Or.inl rfl))).symm)
        | reset =>
            exact Or.inr (h.trans (gen_stays hs hl hf hap (Or.inr (Or.inr (Or.inl rfl)))).symm)
  | _ => trivial

/-- The reset worker's waits stay satisfied. -/
theorem waits_stay (hs : Inv s) (hf : Frame s a s') (hap : Apart s a b)
    (hb : b.isWorker = true) (hgr : s.grWG = 0) :
    s'.grWG = 0 ∧ (s.attrs = none → s'.attrs = none) ∧ (s.conn = none → s'.conn = none) ∧
      (s.cur.once = .finished → s.cur.count = 0 → (s'.gens s.gen).count = 0) := by
  have hrun := hap.right.worker hb
  have hnone : s.resetRun ≠ none := fun h => by simp [h] at hrun
  have hnot := hap.worker hb
  have hidle : a.gr = false := by
    cases ha : a.gr with
    | false => rfl
    | true =>
        have := hap.left.gr_pos ha
        omega
  refine ⟨?_, fun h => ?_, fun h => ?_, fun hfin hcount => ?_⟩
  · rcases hf.gr with h | h | h
    · exact h.trans hgr
    · exact absurd h hnone
    · rw [hidle] at h
      cases h
  · rcases hf.attrs h with h | h | h
    · exact h
    · rw [(isClear_writes h).2] at hnot
      cases hnot
    · exact absurd h hnone
  · rcases hf.conn h with h | h
    · exact h
    · exact absurd h hnone
  · rcases hf.count s.gen with h | h | h | h | ⟨k, rfl⟩
    · exact h.trans hcount
    · rw [((hs.ok s.gen).finished hfin).2.1] at h
      cases h
    · have hrunning : s.cur.once = .running := hap.left.running h
      rw [hfin] at hrunning
      cases hrunning
    · have hbook := hap.left (.count s.gen)
      have hzero : (s.gens s.gen).count = 0 := hcount
      simp [outline, h, hzero] at hbook
    · cases k with
      | reset l => cases hnot
      | _ => cases hidle

private theorem workerAt_stays (hs : Inv s) (hl : Local s a) (hf : Frame s a s') {pc : WorkerPc}
    (hap : Apart s a (.worker pc)) (h : WorkerAt s pc) : WorkerAt s' pc := by
  have hgen := gen_stays hs hl hf hap (Or.inr (Or.inr (Or.inl rfl)))
  have hfin := finished_stays hf hgen
  have hcur : s'.cur.count = (s'.gens s.gen).count := by
    unfold Shared.cur
    rw [hgen]
  cases pc with
  | closeConn => exact hfin h
  | takeTimer => exact hfin h
  | stopTimer l t => exact ⟨hfin h.1, h.2.trans hgen.symm⟩
  | closeLifecycle l => exact ⟨hfin h.1, h.2.trans hgen.symm⟩
  | waitGr l => exact ⟨hfin h.1, h.2.trans hgen.symm⟩
  | waitLifecycle l =>
      obtain ⟨h1, h2, h3, h4, h5⟩ := h
      obtain ⟨w1, w2, w3, -⟩ := waits_stay hs hf hap rfl h3
      exact ⟨hfin h1, h2.trans hgen.symm, w1, w2 h4, w3 h5⟩
  | lock l =>
      obtain ⟨h1, h2, h3, h4, h5, h6⟩ := h
      obtain ⟨w1, w2, w3, w4⟩ := waits_stay hs hf hap rfl h3
      exact ⟨hfin h1, h2.trans hgen.symm, w1, w2 h4, w3 h5, hcur.trans (w4 h1 h6)⟩
  | clear l =>
      obtain ⟨h1, h2, h3, h4, h5, h6⟩ := h
      obtain ⟨w1, w2, w3, w4⟩ := waits_stay hs hf hap rfl h3
      exact ⟨hfin h1, h2.trans hgen.symm, w1, w2 h4, w3 h5, hcur.trans (w4 h1 h6)⟩
  | unlock l =>
      obtain ⟨h1, h2, h3⟩ := h
      obtain ⟨w1, -, w3, -⟩ := waits_stay hs hf hap rfl h2
      exact ⟨hgen.trans h1, w1, w3 h3⟩
  | deliver cleared =>
      cases cleared with
      | none => trivial
      | some l =>
          obtain ⟨h1, h2, h3⟩ := h
          obtain ⟨w1, -, w3, -⟩ := waits_stay hs hf hap rfl h2
          exact ⟨hgen.trans h1, w1, w3 h3⟩

/-- **Step lemma**, for a thread that another one interferes with. -/
theorem local_interference (hs : Inv s) (hl : Local s a) (hf : Frame s a s') (hap : Apart s a b)
    (h : Local s b) : Local s' b := by
  have hle := gen_mono hf
  cases b with
  | stop pc k => exact ⟨stopAt_stays hs hl hf hap h.1, contAt_stays hs hl hf hap h.2⟩
  | gc k =>
      cases k with
      | reset l =>
          have hgen := gen_stays hs hl hf hap (Or.inr (Or.inr (Or.inl rfl)))
          obtain ⟨hfin, hlg, hgr⟩ := h
          exact ⟨finished_stays hf hgen hfin, hlg.trans hgen.symm,
            (waits_stay hs hf hap rfl hgr).1⟩
      | _ => exact finished_stays hf (gen_stays hs hl hf hap (Or.inl rfl)) h
  | read pc =>
      have hgen := gen_stays hs hl hf hap (Or.inl rfl)
      cases pc with
      | onError => exact finished_stays hf hgen h
      | inError => exact finished_stays hf hgen h
      | onClose => exact finished_stays hf hgen h
      | inClose => exact finished_stays hf hgen h
      | _ => trivial
  | task l inline pc =>
      cases pc with
      | acquire => exact Nat.le_trans h hle
      | _ => trivial
  | cron l pc =>
      cases pc with
      | fire => exact Nat.le_trans h hle
      | acquire => exact Nat.le_trans h hle
      | _ => trivial
  | write k pc =>
      cases pc with
      | acquire l => exact Nat.le_trans h hle
      | conn l g =>
          refine fun j hj => (h j hj).trans (gen_stays hs hl hf hap ?_).symm
          cases hk : k.exclusive <;> simp [Thread.reads, Thread.writes, WritePc.locked, hk]
      | send l c g =>
          refine fun j hj => (h j hj).trans (gen_stays hs hl hf hap ?_).symm
          cases hk : k.exclusive <;> simp [Thread.reads, Thread.writes, WritePc.locked, hk]
      | unlock l g =>
          refine fun j hj => (h j hj).trans (gen_stays hs hl hf hap ?_).symm
          cases hk : k.exclusive <;> simp [Thread.reads, Thread.writes, WritePc.locked, hk]
      | _ => exact fun _ hj => by cases hj
  | worker pc => exact workerAt_stays hs hl hf hap h
  | _ => trivial

end Interference

/-- The proof outline is valid. -/
theorem outline_valid : outline.Valid prog where
  entry s a hs h := by
    refine ⟨?_, fun i => ?_⟩
    · simp only [prog] at h
      unfold entry at h
      split at h
      case h_2 => exact ⟨trivial, trivial⟩
      case h_3 =>
          have hloc : Local s (.write .send (.lock none none)) := local_unlocked rfl (by simp) s
          exact hloc
      case h_4 k =>
          have hloc : Local s (.write k .closedCheck) := local_unlocked rfl (by simp) s
          exact hloc
      case h_6 l =>
          have hpos : 0 < s.wheel l := of_decide_eq_true h
          have hle : l ≤ s.gen := by
            by_contra hgt
            rw [hs.wheel l (by omega)] at hpos
            omega
          exact hle
      case h_8 => cases h
      all_goals trivial
    · simp only [prog] at h
      unfold entry at h
      split at h
      case h_8 => cases h
      all_goals cases i <;> rfl
  own _ _ _ _ hs hl hb h := by
    have hk := keeps_step hs hl hb h
    exact hk.keeps
  other s a b s' bs hs hl hb hpair h := by
    have hap := apart_of_pair hs hpair
    exact local_interference hs hl (keeps_step hs hl hap.left h).frame hap hb

theorem outline_initial (cfg : Config) : outline.Holds (initial cfg) := by
  have hgen : ∀ g, (initial cfg).shared.gens g =
      if g = 0 then Gen.fresh.carry cfg.attrs else Gen.fresh := fun _ => rfl
  have hp : ∀ (p : Gen → Int), p (Gen.fresh.carry cfg.attrs) = 0 → p Gen.fresh = 0 → ∀ g,
      p ((initial cfg).shared.gens g) = 0 := by
    intro p h0 h1 g
    rw [hgen]
    split
    · exact h0
    · exact h1
  refine ⟨⟨fun g => ?_, fun g hg => ?_, fun g hg => ?_, fun _ => rfl, fun _ => rfl, fun h => ?_,
    fun g => ?_, fun h => ?_, fun _ _ => rfl⟩, by simp [initial], fun i => ?_⟩
  · rw [hgen]
    split <;> exact ⟨fun _ => ⟨rfl, rfl, rfl⟩, fun h => absurd rfl h, Nat.zero_le _,
      (fun h => by cases h), fun h => by cases h⟩
  · exact absurd hg (Nat.not_lt_zero g)
  · have hpos : 0 < g := hg
    rw [hgen, if_neg (by omega)]
  · cases h
  · rw [hgen]
    split
    · next hg => exact fun _ => Or.inl ⟨hg, rfl⟩
    · intro h
      cases h
  · cases h
  · cases i with
    | count g => exact hp (fun x => x.count) rfl rfl g
    | body g => exact hp (fun x => Once.run x.once) rfl rfl g
    | callbacks g => exact hp (fun x => Once.run x.callbacks) rfl rfl g
    | cleanup g => exact hp (fun x => Once.run x.cleanup) rfl rfl g
    | _ => rfl

end Getty.Transport.Session
