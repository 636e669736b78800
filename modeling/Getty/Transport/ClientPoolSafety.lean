import Getty.Transport.ClientPoolFlight
import Getty.Transport.ClientPoolInvariant

/-!
# The client's safety results

Every step of the client keeps the invariant, and no step disturbs the
assertions of the other threads; so both hold in every reachable configuration.
The two results about whole runs are read off from there.

## Main results

* `outline_valid` — the invariant survives every step of every thread.
* `pool_admission_safe` — the pool never exceeds its size, holds only sessions
  admitted while active, and stays nil after `client.stop`.
* `close_leaks_no_session` — after `Close` every session that was started is
  closed.
-/

namespace Getty.Transport.ClientPool

open Getty.Verified.ThreadPool
open Getty.Transport.Reconnect (Options)
open Getty.Transport.SingleFlight (Flight)

section Steps

variable {o : Options} {s s' : Shared} {a : Thread} {bs : List Thread}

/-! ## `session.stop` -/

@[simp] theorem modSess_self (s : Shared) (i : Nat) (f : Sess → Sess) :
    (s.modSess i f).sess i = f (s.sess i) := by
  simp [Shared.modSess]

theorem connectReturn_free (k : Caller) (ok : Bool) : Free (connectReturn k ok) := by
  cases k with
  | alone => exact .nil
  | loop ch n a => cases ok <;> exact .one rfl

theorem connectReturn_local (k : Caller) (ok : Bool) (s : Shared) :
    ∀ b ∈ connectReturn k ok, Local s b := by
  cases k with
  | alone => simp [connectReturn]
  | loop ch n a => cases ok <;> simp [connectReturn, Local]

theorem spawned_free (ch : Option Nat) : Free (spawned ch) := by
  cases ch with
  | none => exact .nil
  | some ch => exact .one rfl

theorem spawned_local (ch : Option Nat) (s : Shared) : ∀ b ∈ spawned ch, Local s b := by
  cases ch <;> simp [spawned, Local]

theorem Quiet.booked {a' : Thread} (hq : Quiet s a' s') (hb : Booked o s a) : Booked o s' a := by
  intro l
  rw [hq.val]
  exact hb l

theorem ContAt.modSess {i : Nat} {k : Cont} {f : Sess → Sess} (h : ContAt s i k)
    (hd : (s.sess i).Detached → (f (s.sess i)).Detached) : ContAt (s.modSess i f) i k := by
  cases k with
  | dropped k => exact ⟨h.1, by rw [modSess_self]; exact hd h.2⟩
  | pool rest => exact ⟨h.1, by rw [modSess_self]; exact hd h.2⟩
  | _ => exact h

/-- The return of `session.stop`, on a session that is closed by then. -/
private theorem keeps_afterStop (hs : Inv o s) {i : Nat} {pc : StopPc} {k : Cont}
    (hb : Booked o s (.stop i pc k)) (hi : i < s.nextSess) (hk : ContAt s i k)
    (hact : s.active i = false) :
    Keeps o s (.stop i pc k) (afterStop s i k).1 (afterStop s i k).2 := by
  cases k with
  | ret => exact (Quiet.refl s _).keeps hs (by simp [afterStop]) (fun l => by cases l <;> rfl)
  | shutdown => exact (Quiet.refl s _).keeps_one hs hi rfl
  | reset => exact (Quiet.refl s _).keeps_one hs hi rfl
  | opening k => exact (Quiet.refl s _).keeps_one hs ⟨hi, hk⟩ rfl
  | dropped k =>
      have hkeeps : Keeps o s _ (s.finish (.stop i pc (.dropped k)) i false)
          (connectReturn k false) :=
        keeps_giveUp hs hb rfl rfl rfl hact hk.1 (connectReturn_free k false)
          (connectReturn_local k false)
      rw [finish_eq_release rfl] at hkeeps
      simpa [afterStop, Thread.inSection] using hkeeps
  | pool rest =>
      exact keeps_closed hs hb hact ⟨hk.1.1, fun j hj => hk.1.2 j (List.mem_cons_of_mem _ hj)⟩

private theorem profile_stop (i : Nat) (pc pc' : StopPc) (k : Cont) :
    (Thread.stop i pc k).profile = (Thread.stop i pc' k).profile := by
  cases k <;> rfl

/-- **`session.stop`**, step by step. -/
theorem keeps_stopStep (hs : Inv o s) {i : Nat} {pc : StopPc} {k : Cont}
    (hl : Local s (.stop i pc k)) (hb : Booked o s (.stop i pc k))
    (h : (s', bs) ∈ stopStep s i k pc) : Keeps o s (.stop i pc k) s' bs := by
  obtain ⟨hi, hpc, hk, hsil⟩ := hl
  cases pc with
  | readOnce =>
      cases List.mem_singleton.mp h
      exact (Quiet.refl s _).keeps_one hs
        ⟨hi, ⟨Nat.le_refl _, fun hlt => absurd hlt (Nat.lt_irrefl _)⟩, hk, fun _ => rfl⟩
        (profile_stop ..)
  | doOnce g =>
      simp only [stopStep] at h
      split at h
      · next hg =>
          cases honce : (s.sess i).once with
          | fresh =>
              rw [honce] at h
              cases List.mem_singleton.mp h
              exact (Quiet.modSess i (.setRunning _) Or.inl).keeps_one hs
                ⟨hi, trivial, hk.modSess id, fun _ => rfl⟩ (profile_stop ..)
          | running =>
              rw [honce] at h
              cases h
          | finished =>
              rw [honce] at h
              obtain ⟨rfl, rfl⟩ := Prod.ext_iff.mp (List.mem_singleton.mp h)
              exact keeps_afterStop hs hb hi hk (hs.once i honce)
      · next hg =>
          -- the session has been reset since `s.once` was read
          obtain ⟨rfl, rfl⟩ := Prod.ext_iff.mp (List.mem_singleton.mp h)
          have hconn : (s.sess i).connection = false :=
            hpc.2 (Nat.lt_of_le_of_ne hpc.1 (fun h => hg h.symm))
          exact keeps_afterStop hs hb hi hk (by simp [Shared.active, Sess.active, hconn])
  | closeDone g =>
      cases List.mem_singleton.mp h
      refine (Quiet.modSess i (.closeDone _) Or.inl).keeps_one hs
        ⟨hi, ?_, hk.modSess id, fun _ => rfl⟩ (profile_stop ..)
      simp [StopAt, Shared.active, Sess.active]
  | attrClient g =>
      cases List.mem_singleton.mp h
      refine (Quiet.refl s _).keeps_one hs ⟨hi, hpc, hk, fun hd => ?_⟩ (profile_stop ..)
      have hdet : (s.sess i).Detached := by
        cases k with
        | dropped k => exact hk.2
        | pool rest => exact hk.2
        | _ => cases hd
      simp only [StopPc.silent, Bool.not_eq_true']
      exact hdet
  | attrIgnore g found =>
      simp only [stopStep] at h
      split at h
      · next hf =>
          cases List.mem_singleton.mp h
          refine (Quiet.refl s _).keeps_one hs ⟨hi, hpc, hk, fun hd => ?_⟩ (profile_stop ..)
          have hquiet := hsil hd
          simp [StopPc.silent, hf.1] at hquiet
      · cases List.mem_singleton.mp h
        exact (Quiet.refl s _).keeps_one hs ⟨hi, hpc, hk, fun _ => rfl⟩ (profile_stop ..)
  | reconnect g =>
      obtain ⟨hm, h⟩ := mem_blocked h
      cases h
      have hm : s.mutex = false := by simpa using hm
      have hdone := s.flight.runReconnect_done
      refine (Quiet.enter _ hdone hm).keeps hs ?_ ?_
      · intro b hbm
        rcases List.mem_cons.mp hbm with rfl | hbm
        · refine ⟨hi, hpc, ?_, fun _ => rfl⟩
          cases k with
          | pool rest => exact ⟨⟨hdone.trans hk.1.1, hk.1.2⟩, hk.2⟩
          | _ => exact hk
        · exact spawned_local _ _ b hbm
      · intro l
        rw [total_cons, wt_of_free (spawned_free _), Int.add_zero]
        have hw : ((outline o).wt l (.stop i (.reconnect g) k) : Int) = _ :=
          wt_of_profile (profile_stop i (.finish g) (.reconnect g) k) l
        rw [total_cons, total_nil, Int.add_zero] at hw
        exact hw
  | finish g =>
      obtain ⟨rfl, rfl⟩ := Prod.ext_iff.mp (List.mem_singleton.mp h)
      have hq : Quiet s (.stop i (.finish g) k) (s.modSess i (fun x => x.finishOnce g)) :=
        Quiet.modSess i (.finishOnce _ g hpc) (fun hd => Or.inl (hd.finishOnce g))
      refine hq.before (keeps_afterStop (hq.inv hs) (hq.booked hb) hi
        (hk.modSess (fun hd => hd.finishOnce g)) ?_)
      exact (hq.sess i).closed hpc

/-! ## `connect` -/

theorem visit_frame (s : Shared) (j : Nat) :
    (s.visit j).admitted = s.admitted ∧ (s.visit j).sect = s.sect ∧
      (s.visit j).ssMap.isSome = s.ssMap.isSome ∧ ∀ x ∈ s.observed, x ∈ (s.visit j).observed := by
  unfold Shared.visit
  split
  · exact ⟨rfl, rfl, rfl, fun _ hx => List.mem_cons_of_mem _ hx⟩
  · exact ⟨rfl, rfl, by simp [Shared.release, Shared.delete], fun _ hx => hx⟩

theorem admitted_visit (s : Shared) (j i : Nat) : Admitted (s.visit j) i ↔ Admitted s i := by
  unfold Admitted
  rw [(visit_frame s j).1]

/-- `connect` returns while it is responsible for no session. -/
private theorem keeps_return (hs : Inv o s) {k : Caller} {i : Nat} {pc : ConnPc} {ok : Bool}
    (hb : Booked o s (.connect k i pc)) (hpc : pc.responsible = false)
    (hok : ok = true ↔ Admitted s i) :
    Keeps o s (.connect k i pc) (Shared.ret { s with mutex := s.mutex && !pc.inSection } i ok)
      (connectReturn k ok) := by
  have hnone : (Thread.connect k i pc).keeps = [] := by
    simp [Thread.keeps, hpc]
  have hkeeps : Keeps o s _ (s.finish (.connect k i pc) i ok) (connectReturn k ok) :=
    keeps_finish hs hb rfl rfl hok (by simp [hnone]) (connectReturn_free k ok)
      (connectReturn_local k ok)
  rwa [finish_eq_ret hnone] at hkeeps

/-- `connect` leaves its critical section to stop a session it does not admit. -/
private theorem keeps_drop (hs : Inv o s) {k : Caller} {i : Nat} {why : Drop}
    (hb : Booked o s (.connect k i (.unlock why))) (hadm : ¬ Admitted s i)
    (hdet : (s.sess i).Detached) :
    Keeps o s (.connect k i (.unlock why)) s.unlock [.stop i .readOnce (.dropped k)] := by
  obtain ⟨hi, -⟩ := hb.connecting rfl
  refine keeps_unlock hs hb rfl ?_ (List.forall_mem_singleton.mpr rfl) ?_
  · exact List.forall_mem_singleton.mpr ⟨hi, trivial, ⟨hadm, hdet⟩, fun _ => rfl⟩
  · intro l hl
    cases l with
    | mutex => exact absurd rfl hl
    | _ => rfl

/-- **`connect`**, from the dialed connection to its return. -/
theorem keeps_connectStep (hs : Inv o s) {k : Caller} {i : Nat} {pc : ConnPc}
    (hl : ConnAt s i pc) (hb : Booked o s (.connect k i pc))
    (h : (s', bs) ∈ connectStep o s k i pc) : Keeps o s (.connect k i pc) s' bs := by
  obtain ⟨hi, hret⟩ := hb.connecting rfl
  have hquiet := Quiet.refl s (.connect k i pc)
  cases pc with
  | newSession =>
      rcases mem_newSession h with h | h
      · cases h
        exact hquiet.keeps_one hs hl rfl
      · cases h
        have hadm : ¬ Admitted s i := hl
        have hkeeps := keeps_return hs hb rfl (show false = true ↔ Admitted s i by simpa using hadm)
        simpa [ConnPc.inSection] using hkeeps
  | setClient =>
      cases List.mem_singleton.mp h
      exact (Quiet.modSess i (.of_eq rfl rfl rfl rfl) (fun _ => Or.inr ⟨rfl, hl⟩)).keeps_one hs
        hl rfl
  | setIgnore =>
      cases List.mem_singleton.mp h
      exact (Quiet.modSess i (.of_eq rfl rfl rfl rfl)
        (fun hd => Or.inl (hd.setIgnore false))).keeps_one hs hl rfl
  | run =>
      simp only [connectStep] at h
      split at h
      · cases List.mem_singleton.mp h
        exact keeps_start hs hb hl (Or.inl rfl)
      · cases List.mem_singleton.mp h
        exact keeps_start hs hb hl (Or.inr rfl)
  | check =>
      obtain ⟨-, h⟩ := mem_guarded h
      cases h
      exact hquiet.keeps_one hs hl rfl
  | onOpen =>
      rcases List.mem_pair.mp h with h | h
      · cases h
        exact hquiet.keeps_one hs hl rfl
      · cases h
        exact hquiet.keeps_one hs ⟨hi, trivial, hl, fun _ => rfl⟩ rfl
  | lock =>
      obtain ⟨hm, h⟩ := mem_blocked h
      cases h
      exact keeps_lock hs (by simpa using hm) rfl hl rfl
  | pool =>
      simp only [connectStep] at h
      split at h
      · cases List.mem_singleton.mp h
        exact hquiet.keeps_one hs hl rfl
      · next ss hss =>
          cases List.mem_singleton.mp h
          exact hquiet.keeps_one hs ⟨hl, by rw [hss]; rfl⟩ rfl
  | active =>
      simp only [connectStep] at h
      split at h
      · cases List.mem_singleton.mp h
        exact keeps_observe hs i ⟨hl.1, hl.2, List.mem_cons_self .., fun _ => Nat.le_refl _⟩ rfl
      · next hact =>
          cases List.mem_singleton.mp h
          exact hquiet.keeps_one hs ⟨hl.1, by simpa using hact⟩ rfl
  | prune todo =>
      obtain ⟨hadm, hsome, hobs, hpend⟩ := hl
      cases todo with
      | nil =>
          cases List.mem_singleton.mp h
          exact hquiet.keeps_one hs ⟨hadm, hsome, hobs⟩ rfl
      | cons j₀ todo =>
          obtain ⟨j, hj, hout⟩ := List.mem_map.mp h
          cases hout
          obtain ⟨-, hsect, hsome', hobs'⟩ := visit_frame s j
          refine keeps_visit hs hb rfl hj hpend ⟨?_, hsome'.trans hsome, ?_, hpend.visit j⟩ rfl
          · rw [admitted_visit]
            exact hadm
          · rw [hsect]
            exact hobs' _ hobs
  | addSession =>
      obtain ⟨hadm, hsome, hobs⟩ := hl
      simp only [connectStep] at h
      split at h
      · cases List.mem_singleton.mp h
        exact hquiet.keeps_one hs hadm rfl
      · next hcap =>
          cases List.mem_singleton.mp h
          exact keeps_addSession hs hb hsome hobs hcap
  | drop why =>
      cases List.mem_singleton.mp h
      have hdet : ((s.modSess i Sess.removeClient).sess i).Detached := by
        rw [modSess_self]
        exact detached_removeClient _
      have hq : Quiet s (.connect k i (.drop why)) (s.modSess i Sess.removeClient) :=
        Quiet.modSess i (.of_eq rfl rfl rfl rfl) (fun _ => Or.inl (detached_removeClient _))
      cases why with
      | inactive => exact hq.keeps_one hs ⟨hl.1, (hq.sess i).closed hl.2⟩ rfl
      | gone => exact hq.keeps_one hs ⟨hl, hdet⟩ rfl
      | surplus => exact hq.keeps_one hs ⟨hl, hdet⟩ rfl
  | dropIgnore why =>
      cases List.mem_singleton.mp h
      have hq : Quiet s (.connect k i (.dropIgnore why)) (s.modSess i Sess.removeIgnore) :=
        Quiet.modSess i (.of_eq rfl rfl rfl rfl) (fun hd => Or.inl hd.removeIgnore)
      have hdet : (s.sess i).Detached → ((s.modSess i Sess.removeIgnore).sess i).Detached := by
        rw [modSess_self]
        exact fun hd => hd.removeIgnore
      cases why with
      | inactive => exact hq.keeps_one hs ⟨hl.1, (hq.sess i).closed hl.2⟩ rfl
      | gone => exact hq.keeps_one hs ⟨hl.1, hdet hl.2⟩ rfl
      | surplus => exact hq.keeps_one hs ⟨hl.1, hdet hl.2⟩ rfl
  | unlock why =>
      cases why with
      | inactive =>
          cases List.mem_singleton.mp h
          have hkeeps : Keeps o s _ (s.finish (.connect k i (.unlock .inactive)) i false)
              (connectReturn k false) :=
            keeps_giveUp hs hb rfl rfl rfl hl.2 hl.1 (connectReturn_free k false)
              (connectReturn_local k false)
          rw [finish_eq_release rfl] at hkeeps
          simpa [Thread.inSection, ConnPc.inSection, Shared.unlock] using hkeeps
      | gone =>
          cases List.mem_singleton.mp h
          exact keeps_drop hs hb hl.1 hl.2
      | surplus =>
          cases List.mem_singleton.mp h
          exact keeps_drop hs hb hl.1 hl.2
  | unlockTrue =>
      cases List.mem_singleton.mp h
      have hadm : Admitted s i := hl
      have hkeeps := keeps_return hs hb rfl (show true = true ↔ Admitted s i by simpa using hadm)
      simpa [ConnPc.inSection, Shared.unlock] using hkeeps

/-! ## `sessionNum` -/

/-- What the callers of `sessionNum` do next is not accountable for anything. -/
private theorem numReturn_free (o : Options) (s : Shared) (num : Nat) (k : NumCaller) :
    Free (numReturn o s num k).2 ∧ (∀ s', ∀ b ∈ (numReturn o s num k).2, Local s' b) ∧
      ∃ f : Flight, f.done = s.flight.done ∧ (numReturn o s num k).1 = { s with flight := f } := by
  cases k with
  | alone => exact ⟨.nil, by simp [numReturn], s.flight, rfl, rfl⟩
  | before ch n a =>
      simp only [numReturn]
      split
      · exact ⟨.one rfl, by simp [endPass, Local], s.flight.finish n, rfl, rfl⟩
      · exact ⟨.one rfl, by simp [Local], s.flight, rfl, rfl⟩
  | after ch n a =>
      simp only [numReturn]
      split
      · exact ⟨.one rfl, by simp [endPass, Local], s.flight.finish n, rfl, rfl⟩
      · exact ⟨.one rfl, by simp [Local], s.flight, rfl, rfl⟩

private theorem keeps_numStep (hs : Inv o s) {k : NumCaller} {todo : Option (List Nat)}
    (hl : Local s (.sessionNum k todo)) (hb : Booked o s (.sessionNum k todo))
    (h : (s', bs) ∈ numStep o s k todo) : Keeps o s (.sessionNum k todo) s' bs := by
  match todo with
  | none =>
      obtain ⟨hm, h⟩ := mem_blocked h
      cases h
      exact keeps_lock hs (by simpa using hm) rfl (fun _ => Nat.le_refl _) rfl
  | some [] =>
      obtain ⟨rfl, rfl⟩ := Prod.ext_iff.mp (List.mem_singleton.mp h)
      obtain ⟨hfree, hloc, f, hdone, hstate⟩ := numReturn_free o s.unlock s.pool.length k
      rw [hstate]
      have hunlock : Keeps o s (.sessionNum k (some [])) s.unlock [] := by
        refine keeps_unlock hs hb rfl (by simp) (by simp) ?_
        intro l hl
        cases l with
        | mutex => exact absurd rfl hl
        | _ => rfl
      refine hunlock.after (Quiet.flight f hdone) rfl rfl (hloc _) (fun l => ?_)
      rw [wt_of_free hfree]
      rfl
  | some (j₀ :: todo) =>
      obtain ⟨j, hj, hout⟩ := List.mem_map.mp h
      cases hout
      exact keeps_visit hs hb rfl hj hl (Pending.visit hl j) rfl

/-! ## All steps -/

private theorem keeps_endPass (hs : Inv o s) (ha : Free [a]) (ch n : Nat) :
    Keeps o s a (endPass s ch n).1 (endPass s ch n).2 :=
  (Quiet.flight (s.flight.finish n) rfl).keeps_free hs ha (.one rfl) (by simp [endPass, Local])

/-- **Step lemma**, for the thread that takes the step. -/
theorem keeps_step (hs : Inv o s) (hl : Local s a) (hb : Booked o s a)
    (h : (s', bs) ∈ step o s a) : Keeps o s a s' bs := by
  have hquiet := Quiet.refl s a
  cases a with
  | trigger =>
      obtain ⟨hm, h⟩ := mem_blocked h
      cases h
      exact (Quiet.enter _ s.flight.runReconnect_done (by simpa using hm)).keeps_free hs
        (.one rfl) (spawned_free _) (spawned_local _ _)
  | top ch =>
      obtain ⟨hm, h⟩ := mem_blocked h
      cases h
      refine (Quiet.enter _ s.flight.next_done (by simpa using hm)).keeps_free hs
        (.one rfl) ?_ ?_
      · split <;> exact .one rfl
      · split <;> simp [Local]
  | pass ch n a =>
      simp only [step] at h
      split at h
      · cases List.mem_singleton.mp h
        exact hquiet.keeps_one hs trivial rfl
      · cases List.mem_singleton.mp h
        exact keeps_endPass hs (.one rfl) ch n
  | failed ch n a =>
      simp only [step] at h
      split at h
      · cases List.mem_singleton.mp h
        exact keeps_endPass hs (.one rfl) ch n
      · cases List.mem_singleton.mp h
        exact hquiet.keeps_one hs trivial rfl
  | backoff ch n a =>
      rcases List.mem_append.mp h with h | h
      · split at h
        · cases List.mem_singleton.mp h
          exact keeps_endPass hs (.one rfl) ch n
        · cases h
      · cases List.mem_singleton.mp h
        exact hquiet.keeps_one hs trivial rfl
  | closing ch =>
      cases List.mem_singleton.mp h
      exact (Quiet.flight (s.flight.closeChan ch) rfl).keeps_free hs (.one rfl) .nil (by simp)
  | sessionNum k todo => exact keeps_numStep hs hl hb h
  | dial k checked =>
      have hfail : Keeps o s (.dial k checked) s (connectReturn k false) :=
        hquiet.keeps_free hs (.one rfl) (connectReturn_free k false)
          (connectReturn_local k false s)
      cases checked with
      | false =>
          simp only [step] at h
          split at h
          · cases List.mem_singleton.mp h
            exact hfail
          · cases List.mem_singleton.mp h
            exact hquiet.keeps_one hs trivial rfl
      | true =>
          rcases List.mem_pair.mp h with h | h
          · cases h
            exact hfail
          · cases h
            exact keeps_create hs k
  | connect k i pc => exact keeps_connectStep hs hl hb h
  | close =>
      cases honce : s.stopOnce with
      | fresh =>
          simp only [step, honce] at h
          cases List.mem_singleton.mp h
          exact keeps_close hs honce
      | running => simp [step, honce] at h
      | finished =>
          simp only [step, honce] at h
          cases List.mem_singleton.mp h
          exact hquiet.keeps_free hs (.one rfl) .nil (by simp)
  | closeSection =>
      obtain ⟨hm, h⟩ := mem_blocked h
      cases h
      exact keeps_closePool hs hb (by simpa using hm)
  | closeLoop todo =>
      cases todo with
      | nil =>
          cases List.mem_singleton.mp h
          exact keeps_closeEnd hs hb hl.1
      | cons i₀ todo =>
          obtain ⟨i, hi, hout⟩ := List.mem_map.mp h
          cases hout
          have hperm := List.perm_cons_erase hi
          refine hquiet.keeps hs ?_ ?_
          · exact List.forall_mem_singleton.mpr ⟨hl.1, fun j hj => hl.2 j (hperm.mem_iff.mpr hj)⟩
          · intro l
            cases l with
            | custody j =>
                simp only [outline, Thread.keeps, total_cons, total_nil, hperm.count_eq j]
                simp
            | _ => rfl
  | closeDrop i rest =>
      cases List.mem_singleton.mp h
      refine (Quiet.modSess i (.of_eq rfl rfl rfl rfl)
        (fun _ => Or.inl (detached_removeClient _))).keeps_one hs ⟨hl, ?_⟩ rfl
      rw [modSess_self]
      exact detached_removeClient _
  | closeDropIgnore i rest =>
      cases List.mem_singleton.mp h
      have hi := hs.lt_of_admitted (hl.1.2 i (List.mem_cons_self ..))
      refine (Quiet.modSess i (.of_eq rfl rfl rfl rfl)
        (fun hd => Or.inl hd.removeIgnore)).keeps_one hs
        ⟨hi, trivial, ⟨hl.1, ?_⟩, fun _ => rfl⟩ rfl
      rw [modSess_self]
      exact hl.2.removeIgnore
  | stop i pc k => exact keeps_stopStep hs hl hb h
  | gc i k =>
      cases List.mem_singleton.mp h
      have hq : Quiet s (.gc i k) (s.modSess i Sess.gc) :=
        Quiet.modSess i (.gc _) (fun hd => Or.inl hd.gc)
      cases k with
      | reset => exact hq.keeps_one hs hl rfl
      | opening k => exact hq.keeps_one hs hl.2 rfl
      | _ => exact hq.keeps_free hs (.one rfl) .nil (by simp [afterGc])
  | readEOF i =>
      cases List.mem_singleton.mp h
      exact (Quiet.modSess i (.of_eq rfl rfl rfl rfl)
        (fun hd => Or.inl (hd.setIgnore true))).keeps_one hs
        ⟨hl, trivial, trivial, fun _ => rfl⟩ rfl
  | reset i =>
      simp only [step] at h
      split at h
      · cases List.mem_singleton.mp h
        exact hquiet.keeps_free hs (.one rfl) .nil (by simp)
      · cases List.mem_singleton.mp h
        exact (Quiet.modSess i (.of_eq rfl rfl rfl rfl) Or.inl).keeps_one hs
          ⟨hl, trivial, trivial, fun _ => rfl⟩ rfl
  | clear i =>
      cases List.mem_singleton.mp h
      exact (Quiet.modSess i (.clear _) (fun _ => Or.inl rfl)).keeps_free hs (.one rfl)
        .nil (by simp)

end Steps

/-! ## Interference -/

section Interference

variable {o : Options} {s s' : Shared} {a b : Thread}

theorem Frame.admitted_mono (hf : Frame s a s') {i : Nat} (h : Admitted s i) : Admitted s' i := by
  obtain ⟨n, hn⟩ := h
  rcases hf.admitted with heq | ⟨j, m, -, heq⟩
  · exact ⟨n, heq ▸ hn⟩
  · exact ⟨n, by rw [heq]; exact List.mem_cons_of_mem _ hn⟩

/-- Only the `connect` call of a session admits it. -/
theorem Frame.not_admitted (hf : Frame s a s') {i : Nat} (hc : a.connects ≠ some i)
    (h : ¬ Admitted s i) : ¬ Admitted s' i := by
  rintro ⟨n, hn⟩
  rcases hf.admitted with heq | ⟨j, m, hj, heq⟩
  · exact h ⟨n, heq ▸ hn⟩
  · rw [heq] at hn
    rcases List.mem_cons.mp hn with hij | hn
    · cases hij
      exact hc hj
    · exact h ⟨n, hn⟩

theorem Frame.closes (hf : Frame s a s') {todo : List Nat} (h : Closes s todo) : Closes s' todo :=
  ⟨hf.done h.1, fun j hj => hf.admitted_mono (h.2 j hj)⟩

theorem Frame.stopAt (hf : Frame s a s') {i : Nat} (hi : i < s.nextSess) {pc : StopPc}
    (h : StopAt s i pc) : StopAt s' i pc := by
  have hstep := hf.sess i hi
  cases pc with
  | readOnce => trivial
  | closeDone g => trivial
  | doOnce g =>
      obtain ⟨hle, hlt⟩ := h
      refine ⟨Nat.le_trans hle hstep.gen, fun hlt' => ?_⟩
      by_cases hg : g < (s.sess i).gen
      · exact hstep.conn (hlt hg)
      · exact hstep.reset (by omega)
  | _ => exact hstep.closed h

/-- What two threads of one pool know about each other. -/
structure Apart (o : Options) (s : Shared) (a b : Thread) : Prop where
  booked : Booked o s b
  inside : b.inSection = true → s.mutex = true ∧ a.inSection = false
  connects : ∀ i, b.connects = some i → a.connects ≠ some i

theorem apart_of_pair
    (h : ∀ i, ((outline o).wt i a : Int) + (outline o).wt i b ≤ (outline o).val i s) :
    Apart o s a b := by
  have hbook : Booked o s b := fun i => by have := h i; omega
  refine ⟨hbook, fun hsec => ?_, fun i hb ha => ?_⟩
  · have hm := hbook.locked hsec
    refine ⟨hm, ?_⟩
    have := h .mutex
    cases ha : a.inSection with
    | false => rfl
    | true => simp [outline, hsec, ha, hm] at this
  · have hpair := h (.connects i)
    have hle : (decide (i < s.nextSess) && (s.returned i).isNone).toNat ≤ 1 := Bool.toNat_le _
    simp only [outline, ha, hb, beq_self_eq_true, Bool.toNat_true] at hpair
    omega

/-- The assertions of `connect` are not disturbed. -/
theorem Frame.connAt (hf : Frame s a s') {k : Caller} {i : Nat} {pc : ConnPc}
    (hap : Apart o s a (.connect k i pc)) (h : ConnAt s i pc) : ConnAt s' i pc := by
  obtain ⟨hi, -⟩ := hap.booked.connecting rfl
  have hadm : ¬ Admitted s i → ¬ Admitted s' i := hf.not_admitted (hap.connects i rfl)
  have hact : s.active i = false → s'.active i = false := (hf.sess i hi).closed
  have hdet : (s.sess i).Detached → (s'.sess i).Detached := by
    intro hd
    rcases hf.client i hi hd with h | h
    · exact h
    · exact absurd h.1 (hap.connects i rfl)
  have hsec : pc.inSection = true → s'.sect = s.sect ∧ s'.ssMap = s.ssMap := by
    intro hpc
    obtain ⟨hm, ha⟩ := hap.inside hpc
    exact hf.mutex hm ha
  cases pc with
  | unlockTrue => exact hf.admitted_mono h
  | active =>
      obtain ⟨-, hmap⟩ := hsec rfl
      exact ⟨hadm h.1, by rw [hmap]; exact h.2⟩
  | prune todo =>
      obtain ⟨hsect, hmap⟩ := hsec rfl
      obtain ⟨h1, h2, h3, h4⟩ := h
      refine ⟨hadm h1, by rw [hmap]; exact h2, by rw [hsect]; exact hf.observed _ h3, ?_⟩
      unfold Pending Shared.pool
      rw [hmap]
      exact h4
  | addSession =>
      obtain ⟨hsect, hmap⟩ := hsec rfl
      exact ⟨hadm h.1, by rw [hmap]; exact h.2.1, by rw [hsect]; exact hf.observed _ h.2.2⟩
  | drop why =>
      cases why with
      | inactive => exact ⟨hadm h.1, hact h.2⟩
      | gone => exact hadm h
      | surplus => exact hadm h
  | dropIgnore why =>
      cases why with
      | inactive => exact ⟨hadm h.1, hact h.2⟩
      | gone => exact ⟨hadm h.1, hdet h.2⟩
      | surplus => exact ⟨hadm h.1, hdet h.2⟩
  | unlock why =>
      cases why with
      | inactive => exact ⟨hadm h.1, hact h.2⟩
      | gone => exact ⟨hadm h.1, hdet h.2⟩
      | surplus => exact ⟨hadm h.1, hdet h.2⟩
  | _ => exact hadm h

/-- A session of the pool, once taken off the client, stays that way. -/
theorem Frame.detached_admitted (hf : Frame s a s') {i : Nat} (hi : i < s.nextSess)
    (hadm : Admitted s i) (hd : (s.sess i).Detached) : (s'.sess i).Detached := by
  rcases hf.client i hi hd with h | h
  · exact h
  · exact absurd hadm h.2

theorem Frame.contAt (hf : Frame s a s') {i : Nat} (hi : i < s.nextSess) {k : Cont}
    (hc : ∀ k', k = .opening k' ∨ k = .dropped k' → a.connects ≠ some i) (h : ContAt s i k) :
    ContAt s' i k := by
  cases k with
  | opening k => exact hf.not_admitted (hc k (Or.inl rfl)) h
  | dropped k =>
      have hne := hc k (Or.inr rfl)
      refine ⟨hf.not_admitted hne h.1, ?_⟩
      rcases hf.client i hi h.2 with hd | hd
      · exact hd
      · exact absurd hd.1 hne
  | pool rest =>
      exact ⟨hf.closes h.1, hf.detached_admitted hi (h.1.2 i (List.mem_cons_self ..)) h.2⟩
  | _ => trivial

/-- **Step lemma**, for a thread that another one interferes with. -/
theorem local_interference (hs : Inv o s) (hf : Frame s a s') (hap : Apart o s a b)
    (h : Local s b) : Local s' b := by
  have hlt : ∀ {i}, i < s.nextSess → i < s'.nextSess := fun hi => Nat.lt_of_lt_of_le hi hf.nextSess
  cases b with
  | connect k i pc => exact hf.connAt hap h
  | sessionNum k todo =>
      cases todo with
      | none => trivial
      | some todo =>
          obtain ⟨hm, ha⟩ := hap.inside rfl
          obtain ⟨-, hmap⟩ := hf.mutex hm ha
          simp only [Local, Pending, Shared.pool, hmap] at h ⊢
          exact h
  | stop i pc k =>
      obtain ⟨hi, hpc, hk, hsil⟩ := h
      refine ⟨hlt hi, hf.stopAt hi hpc, hf.contAt hi ?_ hk, hsil⟩
      rintro k' (rfl | rfl) <;> exact hap.connects i rfl
  | gc i k =>
      cases k with
      | opening k => exact ⟨hlt h.1, hf.not_admitted (hap.connects i rfl) h.2⟩
      | _ => exact hlt h
  | readEOF i => exact hlt h
  | reset i => exact hlt h
  | clear i => exact hlt h
  | closeLoop todo => exact hf.closes h
  | closeDrop i rest => exact hf.closes h
  | closeDropIgnore i rest =>
      have hadm := h.1.2 i (List.mem_cons_self ..)
      exact ⟨hf.closes h.1, hf.detached_admitted (hs.lt_of_admitted hadm) hadm h.2⟩
  | _ => trivial

end Interference

theorem outline_valid (o : Options) : (outline o).Valid (prog o) where
  entry s a _ h := by
    refine ⟨?_, fun l => ?_⟩
    · simp only [prog] at h
      unfold entry at h
      split at h
      case h_5 => exact ⟨of_decide_eq_true h, trivial, trivial, fun _ => rfl⟩
      case h_6 => exact ⟨of_decide_eq_true h, trivial, trivial, fun _ => rfl⟩
      case h_7 => exact (of_decide_eq_true h : _ < s.nextSess)
      case h_8 => exact (of_decide_eq_true h : _ < s.nextSess)
      case h_9 => cases h
      all_goals trivial
    · simp only [prog] at h
      unfold entry at h
      split at h
      case h_9 => cases h
      all_goals cases l <;> rfl
  own _ _ _ _ hs hl hb h := by
    have hk := keeps_step hs hl hb h
    exact hk.keeps
  other s a b s' bs hs hl hb hpair h := by
    have hbook : Booked o s a := fun i => by have := hpair i; omega
    exact local_interference hs (keeps_step hs hl hbook h).frame (apart_of_pair hpair) hb

theorem outline_initial (o : Options) : (outline o).Holds initial := by
  refine ⟨⟨by simp [initial, Shared.init, Flight.init], Nat.zero_le _, ?_,
    by simp [initial, Shared.init, Shared.pool], by simp [initial, Shared.init],
    by simp [initial, Shared.init], ?_, by simp [initial, Shared.init],
    by simp [initial, Shared.init]⟩, by simp [initial], ?_⟩
  · exact fun i _ => ⟨rfl, rfl, by simp [Admitted, initial, Shared.init]⟩
  · exact fun i h => by simp [initial, Shared.init, Sess.dialed] at h
  · intro l
    cases l <;> simp [outline, initial, Shared.init, Shared.pool]

/-! ## Whole runs -/

theorem holds_reaches {o : Options} {c : Conf Shared Thread} (h : (prog o).Reaches initial c) :
    (outline o).Holds c :=
  (outline_valid o).holds_run (outline_initial o) h

/-- A closed client stays closed. -/
private theorem done_reaches {o : Options} {c c' : Conf Shared Thread} (hc : (outline o).Holds c)
    (hdone : c.shared.flight.done = true) (h : (prog o).Reaches c c') :
    (outline o).Holds c' ∧ c'.shared.flight.done = true := by
  refine h.induct (fun c => (outline o).Holds c ∧ c.shared.flight.done = true) ⟨hc, hdone⟩ ?_
  rintro c c' m ⟨hc, hdone⟩ hm
  refine ⟨(outline_valid o).holds_exec hc hm, ?_⟩
  rcases exec_cases hm with ⟨a, -, rfl⟩ | ⟨l, a, r, s', bs, hpool, hstep, rfl⟩
  · exact hdone
  · have hmem : a ∈ c.pool := by rw [hpool]; simp
    exact (keeps_step hc.shared (hc.loc a hmem) (hc.weight_le hmem) hstep).frame.done hdone

/-- **The client pool.**  In every reachable configuration the pool holds at most
`number` sessions, each of them admitted in a critical section in which it was
seen active; `connect` returned true exactly for the admitted sessions; and once
`client.stop` has closed the client the pool is nil and stays nil. -/
theorem pool_admission_safe (o : Options) (c : Conf Shared Thread)
    (h : (prog o).Reaches initial c) :
    (∀ ss, c.shared.ssMap = some ss → ss.length ≤ o.number ∧
      ∀ i ∈ ss, ∃ n, (i, n) ∈ c.shared.admitted ∧ (i, n) ∈ c.shared.observed) ∧
      (∀ i ok, c.shared.returned i = some ok → (ok = true ↔ ∃ n, (i, n) ∈ c.shared.admitted)) ∧
      (c.shared.flight.done = true →
        ∀ c', (prog o).Reaches c c' → c'.shared.ssMap = none) := by
  have hc := holds_reaches h
  refine ⟨fun ss hss => ?_, hc.shared.results, fun hdone c' hc' => ?_⟩
  · have hpool : c.shared.pool = ss := by simp [Shared.pool, hss]
    refine ⟨hpool ▸ hc.shared.cap, fun i hi => ?_⟩
    obtain ⟨n, hn⟩ := hc.shared.poolAdmitted i (hpool.symm ▸ hi)
    exact ⟨n, hn, hc.shared.admittedActive _ hn⟩
  · obtain ⟨hc', hdone'⟩ := done_reaches hc hdone hc'
    exact hc'.shared.nil.mpr hdone'

/-- One session fills a pool of size one, and a second `connect` returns false. -/
theorem pool_admission_safe_surplus :
    ∃ c : Conf Shared Thread, (prog ⟨1, 0, 0⟩).Reaches initial c ∧
      c.shared.returned 0 = some true ∧ c.shared.returned 1 = some false ∧
      (∃ n, (0, n) ∈ c.shared.admitted) ∧ ¬ ∃ n, (1, n) ∈ c.shared.admitted := by
  have hrun : ∃ c ∈ (prog ⟨1, 0, 0⟩).run initial (List.flatten
      [[.start (.dial .alone false), .fire 0 0, .fire 0 1], List.replicate 12 (.fire 0 0),
        [.start (.dial .alone false), .fire 0 0, .fire 0 1], List.replicate 21 (.fire 0 0)]),
      c.shared.returned 0 = some true ∧ c.shared.returned 1 = some false := by
    decide +kernel
  obtain ⟨c, hc, h0, h1⟩ := hrun
  have hsafe := (pool_admission_safe ⟨1, 0, 0⟩ c ⟨_, hc⟩).2.1
  exact ⟨c, ⟨_, hc⟩, h0, h1, (hsafe 0 true h0).mp rfl,
    fun hadm => absurd ((hsafe 1 false h1).mpr hadm) (by decide)⟩

/-- A thread that is responsible for a session executes its `connect`, or
`client.stop`. -/
private theorem keeps_eq_nil {a : Thread} (hc : a.connects = none) (hs : a.inStop = false) :
    a.keeps = [] := by
  cases a with
  | stop i pc k =>
      cases k with
      | opening k => cases hc
      | dropped k => cases hc
      | pool rest => cases hs
      | _ => rfl
  | gc i k =>
      cases k with
      | opening k => cases hc
      | _ => rfl
  | connect k i pc => cases hc
  | closeLoop todo => cases hs
  | closeDrop i rest => cases hs
  | closeDropIgnore i rest => cases hs
  | _ => rfl

/-- **`client.Close` leaks no session.**  The close sequences run by `connect` and
`client.stop` never call `runReconnect`, and no pass starts once the client is
closed; and when `Close` and all `connect` calls have returned, the pool is nil
and every session passed to `run()` has lost its connection or is closed. -/
theorem close_leaks_no_session (o : Options) (c : Conf Shared Thread)
    (h : (prog o).Reaches initial c) :
    (∀ i g k, k.detaches = true → Thread.stop i (.reconnect g) k ∉ c.pool) ∧
      (c.shared.flight.done = true →
        c.shared.flight.started = c.shared.flight.startedAtStop) ∧
      (c.shared.stopOnce = .finished → (∀ a ∈ c.pool, a.connects = none) →
        c.shared.ssMap = none ∧ ∀ i, c.shared.ran i = true → c.shared.active i = false) := by
  have hc := holds_reaches h
  refine ⟨?_, (flight_inv h).stopped, fun hfin hret => ?_⟩
  · intro i g k hk hmem
    have hsil := (hc.loc _ hmem).2.2.2 hk
    cases hsil
  · have hnil : c.shared.ssMap = none := hc.shared.nil.mpr (hc.shared.stopped hfin)
    refine ⟨hnil, fun i hran => hc.shared.gone i hran ?_⟩
    have hstop : (outline o).val .stopOnce c.shared = 0 := by simp [outline, hfin]
    have hzero : total ((outline o).wt (.custody i)) c.pool = 0 := by
      refine total_eq_zero _ (fun a ha => ?_)
      have hin := hc.weight_eq_zero ha hstop
      have hkeeps : a.keeps = [] := by
        refine keeps_eq_nil (hret a ha) ?_
        cases hs : a.inStop with
        | false => rfl
        | true => simp [outline, hs] at hin
      simp [outline, hkeeps]
    have hcust := hc.ledger (.custody i)
    rw [hzero] at hcust
    simp only [outline, Shared.pool, hnil, Option.getD_none, List.count_nil] at hcust
    omega

/-- `Close` returns while a `connect` call is inside `run()`; the call finds the
pool gone and closes its session. -/
theorem close_leaks_no_session_before_admission :
    ∃ c : Conf Shared Thread, (prog ⟨1, 0, 0⟩).Reaches initial c ∧
      c.shared.stopOnce = .finished ∧ c.pool = [] ∧ c.shared.ran 0 = true ∧
      c.shared.active 0 = false := by
  have hrun : ∃ c ∈ (prog ⟨1, 0, 0⟩).run initial (List.flatten
      [[.start (.dial .alone false), .fire 0 0, .fire 0 1], List.replicate 6 (.fire 0 0),
        [.start .close, .fire 1 0, .fire 1 0, .fire 1 0], List.replicate 11 (.fire 0 0)]),
      c.shared.stopOnce = .finished ∧ c.pool = [] ∧ c.shared.ran 0 = true := by
    decide +kernel
  obtain ⟨c, hc, hfin, hpool, hran⟩ := hrun
  have hleak := (close_leaks_no_session ⟨1, 0, 0⟩ c ⟨_, hc⟩).2.2 hfin (by simp [hpool])
  exact ⟨c, ⟨_, hc⟩, hfin, hpool, hran, hleak.2 0 hran⟩

end Getty.Transport.ClientPool
