import Getty.Transport.SessionSafety
import Getty.Transport.SessionSteps

/-!
# No heartbeat timer outlives its session

`run` installs the heartbeat timer after `OnOpen`, and by then anybody may have closed the
session or asked for its reset.  `stopHeartbeat` runs once in a generation, so a timer that
is installed behind its back stays in the timer wheel.  `run` tests `done` and installs the
timer in one section of `s.lock`; the body of `stop` closes `done` first and takes the timer
later, in a section of the same lock.

`run` is not exported, and the library calls it once for a session.  `runs` records how far
the call in each generation is, and keeps a second one out: it would overwrite
`heartbeatTimer`, and nobody could stop the first timer any more.  `crons` counts the calls
of `OnCron`.

## Main results

* `simulation` — such a session only reaches what `Session.prog` reaches.
* `outline_valid` — the invariant survives every step.
* `heartbeat_ends_with_session` — a generation whose close is over has no timer in the wheel,
  and once its lifecycle is closed only tasks that had acquired it call `OnCron`.
-/

namespace Getty.Transport.Heartbeat

open Getty.Verified.ThreadPool
open Getty.Transport.Session (Config)

/-! ## The model -/

/-- The session, the progress of `run` towards the timer in every generation, and the number
of `OnCron` calls. -/
structure Shared where
  sess : Session.Shared
  runs : Nat → Once
  crons : Nat → Nat

/-- How far `run` is after a step of the thread. -/
def progress (th : Session.Thread) (bs : List Session.Thread) (before : Once) : Once :=
  if bs.any Session.Thread.starting then .running
  else if th.starting then .finished
  else before

/-- The generation whose `OnCron` the thread enters next. -/
def onCron : Session.Thread → Option Nat
  | .cron l .onCron => some l
  | _ => none

def Shared.after (s : Shared) (th : Session.Thread) (x : Session.Shared)
    (bs : List Session.Thread) : Shared where
  sess := x
  runs := Function.update s.runs s.sess.gen (progress th bs (s.runs s.sess.gen))
  crons g := s.crons g + (onCron th == some g).toNat

def step (s : Shared) (th : Session.Thread) : List (Shared × List Session.Thread) :=
  if th = .run .register ∧ s.runs s.sess.gen ≠ .fresh then []
  else (Session.step s.sess th).map (fun out => (s.after th out.1 out.2, out.2))

def prog : Prog Shared Session.Thread where
  entry s := Session.entry s.sess
  step := step

def initial (cfg : Config) : Conf Shared Session.Thread :=
  ⟨⟨Session.Shared.init cfg, fun _ => .fresh, fun _ => 0⟩, []⟩

section Steps

variable {s s' : Shared} {a : Session.Thread} {bs : List Session.Thread}

theorem mem_step (h : (s', bs) ∈ step s a) :
    ∃ x, (x, bs) ∈ Session.step s.sess a ∧ s' = s.after a x bs ∧
      (a = .run .register → s.runs s.sess.gen = .fresh) := by
  unfold step at h
  split at h
  · cases h
  · next hguard =>
      obtain ⟨⟨x, xs⟩, hmem, heq⟩ := List.mem_map.mp h
      obtain ⟨rfl, rfl⟩ := Prod.ext_iff.mp heq
      refine ⟨x, hmem, rfl, fun ha => ?_⟩
      by_cases hfresh : s.runs s.sess.gen = .fresh
      · exact hfresh
      · exact absurd ⟨ha, hfresh⟩ hguard

/-- **The session below.** -/
def simulation : Simulation prog Session.prog where
  shared := Shared.sess
  thread th := [th]
  entry := by
    intro s a pool h
    exact .start pool (a := a) h
  step := by
    intro s a s' bs pool h
    obtain ⟨x, hstep, rfl, -⟩ := mem_step h
    rw [List.flatMap_singleton']
    exact .fire pool hstep

end Steps

/-! ## The invariant -/

/-- The timers of the current generation in the wheel are those in `heartbeatTimer`. -/
def Counted (x : Session.Shared) : Prop := x.wheel x.gen = x.timer.isSome.toNat

structure Inv (s : Shared) : Prop where
  timer : s.sess.timer = none ∨ s.sess.timer = some s.sess.gen
  fresh : s.sess.cur.once = .fresh → Counted s.sess
  finished : ∀ g, (s.sess.gens g).once = .finished → s.sess.wheel g = 0
  stopped : s.sess.cur.once = .finished → s.sess.timer = none
  unstarted : s.runs s.sess.gen = .fresh → s.sess.timer = none
  future : ∀ g, s.sess.gen < g → s.runs g = .fresh

/-- The body of `stop` has taken the timer, and stopped it. -/
structure Stopped (x : Session.Shared) : Prop where
  done : x.cur.done = true
  timer : x.timer = none
  wheel : x.wheel x.gen = 0

/-- The assertion of a thread that has to do with the timer. -/
def Local (x : Session.Shared) : Session.Thread → Prop
  | .stop .readOnce _ => True
  | .stop (.doOnce _) _ => True
  | .stop (.closeDone g) _ => g = x.gen ∧ Counted x
  | .stop (.takeTimer g) _ => g = x.gen ∧ Counted x ∧ x.cur.done = true
  | .stop (.stopTimer g _ t) _ =>
      g = x.gen ∧ x.cur.done = true ∧ x.timer = none ∧ (t = none ∨ t = some x.gen) ∧
        x.wheel x.gen = t.isSome.toNat
  | .stop (.closeLifecycle g _) _ => g = x.gen ∧ Stopped x
  | .stop (.closeCallbacks g _) _ => g = x.gen ∧ Stopped x
  | .stop (.attrClient g) _ => g = x.gen ∧ Stopped x
  | .stop (.attrIgnore g _) _ => g = x.gen ∧ Stopped x
  | .stop (.runReconnect g) _ => g = x.gen ∧ Stopped x
  | .stop (.finish g) _ => g = x.gen ∧ Stopped x
  | .worker (.stopTimer _ t) => t = none
  | th => th.starting = true → x.timer = none

inductive Ledger where
  | body (g : Nat)
  | starting
  | others

/-- The ledgers: who is in the body of `stop`, who is on its way to the timer, and the
goroutines in `grWG` besides. -/
def outline : Outline Shared Session.Thread Ledger where
  shared := Inv
  loc s := Local s.sess
  val
    | .body g, s => Session.Once.run (s.sess.gens g).once
    | .starting, s => Session.Once.run (s.runs s.sess.gen)
    | .others, s => s.sess.grWG - Session.Once.run (s.runs s.sess.gen)
  wt
    | .body g, th => (th.body == some g).toNat
    | .starting, th => th.starting.toNat
    | .others, th => (th.gr && !th.starting).toNat

/-- What the other threads may rely on. -/
structure Steady (x : Session.Shared) (a : Session.Thread) (x' : Session.Shared) : Prop where
  body : x.cur.once = .running → a.body ≠ some x.gen → x'.gen = x.gen ∧
    (x.cur.done = true → x'.cur.done = true) ∧
    ((x'.timer = x.timer ∧ x'.wheel = x.wheel) ∨
      (x.cur.done = false ∧ (Counted x → Counted x')))
  timer : x.timer = none → x'.timer = none ∨ a.starting = true

/-- What a step has to deliver. -/
structure Keeps (s : Shared) (a : Session.Thread) (s' : Shared) (bs : List Session.Thread) :
    Prop where
  steady : Steady s.sess a s'.sess
  keeps : outline.Keeps s a s' bs

theorem starting_of_minds {th : Session.Thread} (h : th.minds = false) : th.starting = false := by
  cases th with
  | run pc => cases pc <;> first | rfl | exact h
  | _ => rfl

theorem local_of_minds {x : Session.Shared} {th : Session.Thread} (h : th.minds = false) :
    Local x th := by
  have hstart := starting_of_minds h
  cases th with
  | stop pc k =>
      cases pc with
      | readOnce => trivial
      | doOnce g => trivial
      | _ => cases h
  | worker pc =>
      cases pc with
      | stopTimer l t => cases h
      | _ => exact nofun
  | run pc => exact fun hpc => absurd hpc (by simp [hstart])
  | _ => exact nofun

/-- `grWG` counts the others and those on their way to the timer. -/
private theorem total_others (bs : List Session.Thread) :
    total (Session.outline.wt .gr) bs =
      total (outline.wt .others) bs + total (outline.wt .starting) bs := by
  refine total_add fun b _ => ?_
  simp only [outline, Session.outline]
  cases hst : b.starting with
  | false => simp
  | true =>
      have hgr : b.gr = true := by
        cases b with
        | run pc => cases pc <;> first | rfl | cases hst
        | _ => cases hst
      simp [hgr]

section Own

variable {s : Shared} {a : Session.Thread} {x : Session.Shared} {bs : List Session.Thread}

theorem sess_keeps (hK : simulation.Knows Session.outline s a)
    (h : (x, bs) ∈ Session.step s.sess a) : Session.Keeps s.sess a x bs := by
  have hself := hK.2 a (List.mem_singleton.mpr rfl)
  exact Session.keeps_step hK.1 hself.1 hself.2 h

theorem done_stays (hkeeps : Session.Keeps s.sess a x bs) (hgen : x.gen = s.sess.gen)
    (hdone : s.sess.cur.done = true) : x.cur.done = true := by
  rw [Session.Shared.cur, hgen]
  exact (hkeeps.frame.gens s.sess.gen).done hdone

/-- The ledgers of a step that keeps the generation follow from that of `run`. -/
theorem ledger_of_starting (hkeeps : Session.Keeps s.sess a x bs) {s' : Shared}
    (hsess : s'.sess = x)
    (hstart : (Session.Once.run (s'.runs x.gen) : Int) + a.starting.toNat =
      Session.Once.run (s.runs s.sess.gen) + total (outline.wt .starting) bs) (i : Ledger) :
    outline.val i s' + outline.wt i a = outline.val i s + total (outline.wt i) bs := by
  subst hsess
  cases i with
  | body g => exact hkeeps.keeps.ledger (.body g)
  | starting => exact hstart
  | others =>
      have hgr : s'.sess.grWG + Session.outline.wt .gr a =
          s.sess.grWG + total (Session.outline.wt .gr) bs := hkeeps.keeps.ledger .gr
      have hone := total_others [a]
      simp only [total_cons, total_nil] at hone
      have hstart' : (Session.Once.run (s'.runs s'.sess.gen) : Int) + outline.wt .starting a =
          Session.Once.run (s.runs s.sess.gen) + total (outline.wt .starting) bs := hstart
      have hall := total_others bs
      simp only [outline] at hone hall hstart' ⊢
      omega

theorem progress_eq (ha : a.starting = false) (hbs : ∀ b ∈ bs, b.starting = false) (o : Once) :
    progress a bs o = o := by
  have hany : bs.any Session.Thread.starting = false := by
    rw [List.any_eq_false]
    intro b hb
    simp [hbs b hb]
  simp [progress, hany, ha]

/-- Steps that leave the timer and the generation alone.  `hfin` is about the end of the body
of `stop`. -/
theorem keeps_same (hinv : Inv s) (hK : simulation.Knows Session.outline s a)
    (h : (x, bs) ∈ Session.step s.sess a) (htimer : x.timer = s.sess.timer)
    (hwheel : x.wheel = s.sess.wheel) (hgen : x.gen = s.sess.gen)
    (hfin : ∀ g k, a = .stop (.finish g) k → g = s.sess.gen ∧ Stopped s.sess)
    (hfresh : progress a bs (s.runs s.sess.gen) = .fresh → s.runs s.sess.gen = .fresh)
    (hstart : (Session.Once.run (progress a bs (s.runs s.sess.gen)) : Int) + a.starting.toNat =
      Session.Once.run (s.runs s.sess.gen) + total (outline.wt .starting) bs)
    (hloc : ∀ b ∈ bs, Local x b) : Keeps s a (s.after a x bs) bs := by
  have hkeeps := sess_keeps hK h
  have hruns : (s.after a x bs).runs s.sess.gen = progress a bs (s.runs s.sess.gen) :=
    Function.update_self ..
  have hcur : x.cur = x.gens s.sess.gen := by rw [Session.Shared.cur, hgen]
  refine ⟨⟨fun _ _ => ⟨hgen, done_stays hkeeps hgen, Or.inl ⟨htimer, hwheel⟩⟩,
    fun hnone => Or.inl (htimer.trans hnone)⟩, ?_, hloc, ?_⟩
  · refine ⟨?_, ?_, ?_, ?_, ?_, ?_⟩
    · show x.timer = none ∨ x.timer = some x.gen
      rw [htimer, hgen]
      exact hinv.timer
    · intro hf
      have hf' : (x.gens s.sess.gen).once = .fresh := hcur ▸ hf
      show x.wheel x.gen = x.timer.isSome.toNat
      rw [htimer, hgen, hwheel]
      refine hinv.fresh ?_
      rcases Session.step_once h s.sess.gen with heq | ⟨k, -, hbefore, -⟩ | ⟨k, -, hafter⟩
      · exact heq.symm.trans hf'
      · exact hbefore
      · rw [hafter] at hf'
        cases hf'
    · intro g hg
      show x.wheel g = 0
      rw [hwheel]
      rcases Session.step_once h g with heq | ⟨k, -, -, hafter⟩ | ⟨k, ha, -⟩
      · exact hinv.finished g (heq.symm.trans hg)
      · cases hafter.symm.trans hg
      · obtain ⟨rfl, hstopped⟩ := hfin g k ha
        exact hstopped.wheel
    · intro hf
      have hf' : (x.gens s.sess.gen).once = .finished := hcur ▸ hf
      show x.timer = none
      rw [htimer]
      rcases Session.step_once h s.sess.gen with heq | ⟨k, -, -, hafter⟩ | ⟨k, ha, -⟩
      · exact hinv.stopped (heq.symm.trans hf')
      · cases hafter.symm.trans hf'
      · exact (hfin _ k ha).2.timer
    · intro hf
      have hf' : (s.after a x bs).runs s.sess.gen = .fresh := hgen ▸ hf
      show x.timer = none
      rw [htimer]
      exact hinv.unstarted (hfresh (hruns.symm.trans hf'))
    · intro g hg
      have hlt : s.sess.gen < g := hgen ▸ hg
      exact (Function.update_of_ne (Nat.ne_of_gt hlt) _ _).trans (hinv.future g hlt)
  · refine ledger_of_starting hkeeps rfl ?_
    rw [hgen, hruns]
    exact hstart

/-- A thread that does not start `run` or belong to it. -/
theorem keeps_idle (hinv : Inv s) (hK : simulation.Knows Session.outline s a)
    (h : (x, bs) ∈ Session.step s.sess a) (htimer : x.timer = s.sess.timer)
    (hwheel : x.wheel = s.sess.wheel) (hgen : x.gen = s.sess.gen)
    (hfin : ∀ g k, a = .stop (.finish g) k → g = s.sess.gen ∧ Stopped s.sess)
    (ha : a.starting = false) (hbs : ∀ b ∈ bs, b.starting = false)
    (hloc : ∀ b ∈ bs, Local x b) : Keeps s a (s.after a x bs) bs := by
  have hprogress := progress_eq ha hbs (s.runs s.sess.gen)
  refine keeps_same hinv hK h htimer hwheel hgen hfin (fun hf => hprogress ▸ hf) ?_ hloc
  have hzero : total (outline.wt .starting) bs = 0 :=
    total_eq_zero _ (fun b hb => by simp [outline, hbs b hb])
  rw [hprogress, hzero, ha]
  rfl

/-- A thread that has nothing to do with the timer. -/
theorem keeps_quiet (hinv : Inv s) (hK : simulation.Knows Session.outline s a)
    (h : (x, bs) ∈ Session.step s.sess a) (ha : a.starting = false)
    (hfin : ∀ g k, a ≠ .stop (.finish g) k) (hq : Session.Quiet s.sess x bs) :
    Keeps s a (s.after a x bs) bs := by
  obtain ⟨htimer, hwheel, hgen, hminds⟩ := hq
  exact keeps_idle hinv hK h htimer hwheel hgen (fun g k heq => absurd heq (hfin g k)) ha
    (fun b hb => starting_of_minds (hminds b hb)) (fun b hb => local_of_minds (hminds b hb))

/-! ## Steps of `stop` -/

theorem Stopped.stays (hst : Stopped s.sess) (hkeeps : Session.Keeps s.sess a x bs)
    (htimer : x.timer = s.sess.timer) (hwheel : x.wheel = s.sess.wheel)
    (hgen : x.gen = s.sess.gen) : Stopped x :=
  ⟨done_stays hkeeps hgen hst.done, htimer.trans hst.timer, by rw [hgen, hwheel]; exact hst.wheel⟩

/-- The body of `stop` works on the timer while the `once` is running. -/
private theorem keeps_body (hinv : Inv s) (hK : simulation.Knows Session.outline s a)
    (h : (x, bs) ∈ Session.step s.sess a) (hbody : a.body = some s.sess.gen)
    (ha : a.starting = false) (hbs : ∀ b ∈ bs, b.starting = false) (hgens : x.gens = s.sess.gens)
    (hgen : x.gen = s.sess.gen) (htimer : x.timer = none)
    (hwheel : ∀ g, g ≠ s.sess.gen → x.wheel g = s.sess.wheel g)
    (hloc : ∀ b ∈ bs, Local x b) : Keeps s a (s.after a x bs) bs := by
  have hkeeps := sess_keeps hK h
  have hbook : Session.Booked s.sess a := (hK.2 a (List.mem_singleton.mpr rfl)).2
  have hrunning : (s.sess.gens s.sess.gen).once = .running := hbook.running hbody
  have hcur : x.cur = s.sess.gens s.sess.gen := by rw [Session.Shared.cur, hgen, hgens]
  have hruns : (s.after a x bs).runs = s.runs := by
    rw [Shared.after, progress_eq ha hbs, Function.update_eq_self]
  refine ⟨⟨fun _ hne => absurd hbody hne, fun _ => Or.inl htimer⟩, ?_, hloc, ?_⟩
  · refine ⟨Or.inl htimer, ?_, ?_, fun _ => htimer, fun _ => htimer, ?_⟩
    · intro hf
      have hf' : (s.sess.gens s.sess.gen).once = .fresh := hcur ▸ hf
      cases hrunning.symm.trans hf'
    · intro g hg
      have hg' : (s.sess.gens g).once = .finished := hgens ▸ hg
      have hne : g ≠ s.sess.gen := by
        rintro rfl
        cases hrunning.symm.trans hg'
      exact (hwheel g hne).trans (hinv.finished g hg')
    · intro g hg
      rw [hruns]
      exact hinv.future g (hgen ▸ hg)
  · refine ledger_of_starting hkeeps rfl ?_
    have hzero : total (outline.wt .starting) bs = 0 :=
      total_eq_zero _ (fun b hb => by simp [outline, hbs b hb])
    rw [hruns, hgen, hzero, ha]
    rfl

/-- The body of `stop` goes on behind the timer, and may start a thread. -/
private theorem keeps_behind {pc pc' : Session.StopPc} {k : Session.Cont} {g : Nat}
    {rest : List Session.Thread} (hinv : Inv s)
    (hK : simulation.Knows Session.outline s (.stop pc k))
    (h : (x, .stop pc' k :: rest) ∈ Session.step s.sess (.stop pc k))
    (htimer : x.timer = s.sess.timer) (hwheel : x.wheel = s.sess.wheel)
    (hgen : x.gen = s.sess.gen) (hrest : ∀ b ∈ rest, b.minds = false)
    (hfin : ∀ g, pc ≠ .finish g) (hst : g = s.sess.gen ∧ Stopped s.sess)
    (hloc : g = x.gen ∧ Stopped x → Local x (.stop pc' k)) :
    Keeps s (.stop pc k) (s.after (.stop pc k) x (.stop pc' k :: rest)) (.stop pc' k :: rest) := by
  refine keeps_idle hinv hK h htimer hwheel hgen ?_ rfl ?_ ?_
  · intro j k' heq
    cases heq
    exact absurd rfl (hfin j)
  · exact List.forall_mem_cons.mpr ⟨rfl, fun b hb => starting_of_minds (hrest b hb)⟩
  · refine List.forall_mem_cons.mpr ⟨hloc ⟨hst.1.trans hgen.symm, ?_⟩, ?_⟩
    · exact hst.2.stays (sess_keeps hK h) htimer hwheel hgen
    · exact fun b hb => local_of_minds (hrest b hb)

/-- What a step of `stop` keeps. -/
private theorem keeps_stop {pc : Session.StopPc} {k : Session.Cont} (hinv : Inv s)
    (hK : simulation.Knows Session.outline s (.stop pc k)) (hloc : Local s.sess (.stop pc k))
    (h : (x, bs) ∈ Session.step s.sess (.stop pc k)) :
    Keeps s (.stop pc k) (s.after (.stop pc k) x bs) bs := by
  have hat : Session.Local s.sess (.stop pc k) := (hK.2 _ (List.mem_singleton.mpr rfl)).1
  cases pc with
  | readOnce =>
      cases List.mem_singleton.mp h
      exact keeps_quiet hinv hK h rfl (by simp) ⟨rfl, rfl, rfl, by simp [Session.Thread.minds]⟩
  | doOnce g =>
      have hstep := h
      simp only [Session.step, Session.stopStep] at hstep
      split at hstep
      · next hfresh =>
          have hg : g = s.sess.gen := by
            have hle : g ≤ s.sess.gen := hat.1
            rcases Nat.lt_or_ge g s.sess.gen with hlt | hge
            · cases hfresh.symm.trans (hK.1.past g hlt).1
            · omega
          subst hg
          cases List.mem_singleton.mp hstep
          refine keeps_idle hinv hK h rfl rfl rfl (by simp) rfl
            (by simp [Session.Thread.starting]) ?_
          intro b hb
          cases List.mem_singleton.mp hb
          exact ⟨rfl, hinv.fresh hfresh⟩
      · cases hstep
      · cases List.mem_singleton.mp hstep
        exact keeps_quiet hinv hK h rfl (by simp) ⟨rfl, rfl, rfl, Session.minds_afterStop k⟩
  | closeDone g =>
      cases List.mem_singleton.mp h
      refine keeps_idle hinv hK h rfl rfl rfl (by simp) rfl (by simp [Session.Thread.starting]) ?_
      intro b hb
      cases List.mem_singleton.mp hb
      refine ⟨hloc.1, hloc.2, ?_⟩
      rw [Session.cur_modGen]
      rfl
  | takeTimer g =>
      cases List.mem_singleton.mp h
      obtain ⟨rfl, hcounted, hdone⟩ := hloc
      refine keeps_body hinv hK h rfl rfl (by simp [Session.Thread.starting]) rfl rfl rfl
        (fun _ _ => rfl) ?_
      intro b hb
      cases List.mem_singleton.mp hb
      exact ⟨rfl, hdone, rfl, hinv.timer, hcounted⟩
  | stopTimer g l t =>
      cases List.mem_singleton.mp h
      obtain ⟨rfl, hdone, htimer, ht, hcount⟩ := hloc
      have hsame : (s.sess.stopTimer t).gens = s.sess.gens ∧
          (s.sess.stopTimer t).gen = s.sess.gen ∧
          (s.sess.stopTimer t).timer = s.sess.timer := by
        cases t <;> exact ⟨rfl, rfl, rfl⟩
      obtain ⟨hgens, hgen, htimer'⟩ := hsame
      refine keeps_body hinv hK h rfl rfl (by simp [Session.Thread.starting]) hgens hgen
        (htimer'.trans htimer) ?_ ?_
      · intro j hj
        rcases ht with rfl | rfl
        · rfl
        · exact Function.update_of_ne hj _ _
      · intro b hb
        cases List.mem_singleton.mp hb
        refine ⟨hgen.symm, ?_, htimer'.trans htimer, ?_⟩
        · rw [Session.Shared.cur, hgens, hgen]
          exact hdone
        · rw [hgen]
          rcases ht with rfl | rfl
          · exact hcount
          · show Function.update s.sess.wheel s.sess.gen (s.sess.wheel s.sess.gen - 1) _ = 0
            rw [Function.update_self, hcount]
            rfl
  | closeLifecycle g l =>
      cases List.mem_singleton.mp h
      exact keeps_behind hinv hK h rfl rfl rfl (List.forall_mem_nil _) (by simp) hloc id
  | closeCallbacks g l =>
      cases List.mem_singleton.mp h
      exact keeps_behind hinv hK h rfl rfl rfl
        (by simp [Session.Thread.minds, Session.Thread.starting]) (by simp) hloc id
  | attrClient g =>
      cases List.mem_singleton.mp h
      exact keeps_behind hinv hK h rfl rfl rfl (List.forall_mem_nil _) (by simp) hloc id
  | attrIgnore g found =>
      have hstep := h
      simp only [Session.step, Session.stopStep] at hstep
      split at hstep
      · cases List.mem_singleton.mp hstep
        exact keeps_behind hinv hK h rfl rfl rfl (List.forall_mem_nil _) (by simp) hloc id
      · cases List.mem_singleton.mp hstep
        exact keeps_behind hinv hK h rfl rfl rfl (List.forall_mem_nil _) (by simp) hloc id
  | runReconnect g =>
      cases List.mem_singleton.mp h
      exact keeps_behind hinv hK h rfl rfl rfl (List.forall_mem_nil _) (by simp) hloc id
  | finish g =>
      cases List.mem_singleton.mp h
      refine keeps_idle hinv hK h rfl rfl rfl ?_ rfl
        (fun b hb => starting_of_minds (Session.minds_afterStop k b hb))
        (fun b hb => local_of_minds (Session.minds_afterStop k b hb))
      intro g' k' heq
      cases heq
      exact hloc

/-! ## Steps of `run` and of the reset worker -/

/-- On its way to the timer, `run` goes on or ends. -/
private theorem keeps_starting {b : Session.Thread} (hinv : Inv s)
    (hK : simulation.Knows Session.outline s a) (h : (x, [b]) ∈ Session.step s.sess a)
    (hrunning : s.runs s.sess.gen = .running) (ha : a.starting = true)
    (htimer : x.timer = s.sess.timer) (hwheel : x.wheel = s.sess.wheel)
    (hgen : x.gen = s.sess.gen) (hloc : Local x b) : Keeps s a (s.after a x [b]) [b] := by
  have hfin : ∀ g k, a = .stop (.finish g) k → g = s.sess.gen ∧ Stopped s.sess := by
    rintro g k rfl
    cases ha
  have hany : [b].any Session.Thread.starting = b.starting := by simp
  refine keeps_same hinv hK h htimer hwheel hgen hfin ?_ ?_ (List.forall_mem_singleton.mpr hloc)
  · rw [progress, hany, ha]
    cases b.starting <;> exact (by simp)
  · rw [progress, hany, ha, hrunning, total_cons, total_nil]
    cases hb : b.starting <;> simp [outline, hb]

/-- **The timer is installed.**  `done` is open, so the body of `stop` has not come to the
timer yet; and nobody else has installed one. -/
theorem keeps_install (hinv : Inv s) (hK : simulation.Knows Session.outline s (.run .install))
    (h : (s.sess.installTimer, [.run .start]) ∈ Session.step s.sess (.run .install))
    (hrunning : s.runs s.sess.gen = .running) (hdone : s.sess.cur.done = false)
    (hnone : s.sess.timer = none) :
    Keeps s (.run .install) (s.after (.run .install) s.sess.installTimer [.run .start])
      [.run .start] := by
  have hruns : (s.after (.run .install) s.sess.installTimer [.run .start]).runs s.sess.gen =
      .finished := Function.update_self ..
  have hself : s.sess.installTimer.wheel s.sess.gen = s.sess.wheel s.sess.gen + 1 :=
    Function.update_self ..
  have hopen : s.sess.cur.once ≠ .finished := by
    intro hfin
    have hclosed : s.sess.cur.done = true := ((hK.1.ok _).finished hfin).1
    cases hdone.symm.trans hclosed
  have hcounted : Counted s.sess → Counted s.sess.installTimer := by
    intro hc
    have hzero : s.sess.wheel s.sess.gen = 0 := by
      rw [hc, hnone]
      rfl
    show s.sess.installTimer.wheel s.sess.gen = 1
    rw [hself, hzero]
  refine ⟨⟨fun _ _ => ⟨rfl, id, Or.inr ⟨hdone, hcounted⟩⟩, fun _ => Or.inr rfl⟩, ?_, ?_, ?_⟩
  · refine ⟨Or.inr rfl, fun hf => hcounted (hinv.fresh hf), ?_, fun hf => absurd hf hopen, ?_, ?_⟩
    · intro g hg
      have hne : g ≠ s.sess.gen := by
        rintro rfl
        exact hopen hg
      exact (Function.update_of_ne hne _ _).trans (hinv.finished g hg)
    · intro hf
      cases hruns.symm.trans hf
    · intro g hg
      exact (Function.update_of_ne (Nat.ne_of_gt hg) _ _).trans (hinv.future g hg)
  · exact List.forall_mem_singleton.mpr (@local_of_minds s.sess.installTimer (.run .start) rfl)
  · refine ledger_of_starting (sess_keeps hK h) rfl ?_
    rw [show s.sess.installTimer.gen = s.sess.gen from rfl, hruns, hrunning]
    rfl

/-- What a step of `run` keeps. -/
private theorem keeps_run {pc : Session.RunPc} (hinv : Inv s)
    (hK : simulation.Knows Session.outline s (.run pc)) (hloc : Local s.sess (.run pc))
    (hwt : ∀ i, (outline.wt i (.run pc) : Int) ≤ outline.val i s)
    (hfirst : pc = .register → s.runs s.sess.gen = .fresh)
    (h : (x, bs) ∈ Session.step s.sess (.run pc)) :
    Keeps s (.run pc) (s.after (.run pc) x bs) bs := by
  have hrunning : (Session.Thread.run pc).starting = true → s.runs s.sess.gen = .running := by
    intro hst
    have hle : ((Session.Thread.run pc).starting.toNat : Int) ≤
        Session.Once.run (s.runs s.sess.gen) := hwt .starting
    rw [hst] at hle
    cases hr : s.runs s.sess.gen with
    | running => rfl
    | _ => simp [hr] at hle
  have hstep := h
  cases pc with
  | register =>
      have hfresh := hfirst rfl
      simp only [Session.step, Session.runStep] at hstep
      split at hstep
      · cases List.mem_singleton.mp hstep
        exact keeps_quiet hinv hK h rfl (by simp) ⟨rfl, rfl, rfl, List.forall_mem_nil _⟩
      · cases List.mem_singleton.mp hstep
        refine keeps_same hinv hK h rfl rfl rfl (by simp) (fun _ => hfresh) ?_ ?_
        · rw [hfresh]
          rfl
        · exact List.forall_mem_singleton.mpr fun _ => hinv.unstarted hfresh
  | check =>
      simp only [Session.step, Session.runStep] at hstep
      split at hstep
      · cases List.mem_singleton.mp hstep
        exact keeps_starting hinv hK h (hrunning rfl) rfl rfl rfl rfl hloc
      · cases List.mem_singleton.mp hstep
        exact keeps_starting hinv hK h (hrunning rfl) rfl rfl rfl rfl (local_of_minds rfl)
  | onOpen =>
      cases List.mem_singleton.mp hstep
      exact keeps_starting hinv hK h (hrunning rfl) rfl rfl rfl rfl hloc
  | inOpen =>
      simp only [Session.step, Session.runStep, List.mem_cons, List.not_mem_nil, or_false] at hstep
      rcases hstep with heq | heq
      · cases heq
        exact keeps_starting hinv hK h (hrunning rfl) rfl rfl rfl rfl hloc
      · cases heq
        exact keeps_starting hinv hK h (hrunning rfl) rfl rfl rfl rfl trivial
  | install =>
      simp only [Session.step, Session.runStep] at hstep
      split at hstep
      · cases List.mem_singleton.mp hstep
        exact keeps_starting hinv hK h (hrunning rfl) rfl rfl rfl rfl (local_of_minds rfl)
      · next hdone =>
          simp only [List.mem_cons, List.not_mem_nil, or_false] at hstep
          rcases hstep with heq | heq
          · cases heq
            exact keeps_install hinv hK h (hrunning rfl) (by simpa using hdone) (hloc rfl)
          · cases heq
            exact keeps_starting hinv hK h (hrunning rfl) rfl rfl rfl rfl (local_of_minds rfl)
  | start =>
      cases List.mem_singleton.mp hstep
      exact keeps_quiet hinv hK h rfl (by simp)
        ⟨rfl, rfl, rfl, by simp [Session.Thread.minds, Session.Thread.starting]⟩
  | exit =>
      cases List.mem_singleton.mp hstep
      exact keeps_quiet hinv hK h rfl (by simp) ⟨rfl, rfl, rfl, List.forall_mem_nil _⟩

/-- The reset worker starts a new generation.  Nobody is in `run`, since `grWG` is zero. -/
private theorem keeps_clear {l : Nat} (hinv : Inv s)
    (hK : simulation.Knows Session.outline s (.worker (.clear l)))
    (hwt : ∀ i, (outline.wt i (.worker (.clear l)) : Int) ≤ outline.val i s)
    (h : (s.sess.clear, [.worker (.unlock l)]) ∈ Session.step s.sess (.worker (.clear l))) :
    Keeps s (.worker (.clear l)) (s.after (.worker (.clear l)) s.sess.clear [.worker (.unlock l)])
      [.worker (.unlock l)] := by
  have hat : Session.Local s.sess (.worker (.clear l)) := (hK.2 _ (List.mem_singleton.mpr rfl)).1
  obtain ⟨hfin, -, hgr, -⟩ := hat
  have hruns : (s.after (.worker (.clear l)) s.sess.clear [.worker (.unlock l)]).runs = s.runs := by
    rw [Shared.after, progress_eq rfl (by simp [Session.Thread.starting]), Function.update_eq_self]
  have hnext : s.runs (s.sess.gen + 1) = .fresh := hinv.future _ (Nat.lt_succ_self _)
  have hidle : (Session.Once.run (s.runs s.sess.gen) : Int) = 0 := by
    have hle : (0 : Int) ≤ s.sess.grWG - Session.Once.run (s.runs s.sess.gen) := hwt .others
    omega
  refine ⟨⟨fun hrunning _ => ?_, fun _ => Or.inl rfl⟩, ?_,
    List.forall_mem_singleton.mpr (@local_of_minds s.sess.clear (.worker (.unlock l)) rfl), ?_⟩
  · cases hfin.symm.trans hrunning
  · refine ⟨Or.inl rfl, fun _ => ?_, hinv.finished, fun _ => rfl, fun _ => rfl, ?_⟩
    · exact hK.1.wheel _ (Nat.lt_succ_self _)
    · intro g hg
      rw [hruns]
      exact hinv.future g (Nat.lt_of_succ_lt hg)
  · refine ledger_of_starting (sess_keeps hK h) rfl ?_
    rw [hruns, show s.sess.clear.gen = s.sess.gen + 1 from rfl, hnext, hidle]
    rfl

/-- What a step of the reset worker keeps; its `stop` has stopped the timer. -/
private theorem keeps_worker {pc : Session.WorkerPc} (hinv : Inv s)
    (hK : simulation.Knows Session.outline s (.worker pc)) (hloc : Local s.sess (.worker pc))
    (hwt : ∀ i, (outline.wt i (.worker pc) : Int) ≤ outline.val i s)
    (h : (x, bs) ∈ Session.step s.sess (.worker pc)) :
    Keeps s (.worker pc) (s.after (.worker pc) x bs) bs := by
  have hat : Session.Local s.sess (.worker pc) := (hK.2 _ (List.mem_singleton.mpr rfl)).1
  by_cases htake : pc = .takeTimer
  · subst htake
    have hnone : s.sess.timer = none := hinv.stopped hat
    cases List.mem_singleton.mp h
    exact keeps_idle hinv hK h hnone.symm rfl rfl (by simp) rfl (by simp [Session.Thread.starting])
      (List.forall_mem_singleton.mpr hnone)
  · by_cases hstop : ∃ l t, pc = .stopTimer l t
    · obtain ⟨l, t, rfl⟩ := hstop
      obtain rfl : t = none := hloc
      cases List.mem_singleton.mp h
      exact keeps_quiet hinv hK h rfl (by simp)
        ⟨rfl, rfl, rfl, by simp [Session.Thread.minds, Session.Thread.starting]⟩
    · by_cases hclear : ∃ l, pc = .clear l
      · obtain ⟨l, rfl⟩ := hclear
        cases List.mem_singleton.mp h
        exact keeps_clear hinv hK hwt h
      · refine keeps_quiet hinv hK h rfl (by simp) (Session.step_quiet (by simp) (by simp) ?_
          (fun l t heq => hstop ⟨l, t, ?_⟩) (fun l heq => hclear ⟨l, ?_⟩) h)
        · simpa using htake
        · simpa using heq
        · simpa using heq

/-- **What a step keeps.** -/
theorem keeps_step {s' : Shared} (hinv : Inv s) (hK : simulation.Knows Session.outline s a)
    (hloc : Local s.sess a) (hwt : ∀ i, (outline.wt i a : Int) ≤ outline.val i s)
    (h : (s', bs) ∈ step s a) : Keeps s a s' bs := by
  obtain ⟨x, hstep, rfl, hfirst⟩ := mem_step h
  by_cases hstop : ∃ pc k, a = .stop pc k
  · obtain ⟨pc, k, rfl⟩ := hstop
    exact keeps_stop hinv hK hloc hstep
  · by_cases hrun : ∃ pc, a = .run pc
    · obtain ⟨pc, rfl⟩ := hrun
      exact keeps_run hinv hK hloc hwt (fun hpc => hfirst (by rw [hpc])) hstep
    · by_cases hworker : ∃ pc, a = .worker pc
      · obtain ⟨pc, rfl⟩ := hworker
        exact keeps_worker hinv hK hloc hwt hstep
      · have hq := Session.step_quiet (fun pc k heq => hstop ⟨pc, k, heq⟩)
          (fun pc heq => hrun ⟨pc, heq⟩) (fun heq => hworker ⟨_, heq⟩)
          (fun _ _ heq => hworker ⟨_, heq⟩) (fun _ heq => hworker ⟨_, heq⟩) hstep
        refine keeps_quiet hinv hK hstep ?_ (fun g k heq => hstop ⟨_, k, heq⟩) hq
        cases a with
        | run pc => exact absurd ⟨pc, rfl⟩ hrun
        | _ => rfl

end Own

/-! ## The outline -/

section Other

variable {s : Shared} {a b : Session.Thread} {x : Session.Shared}

/-- At most one thread is in the body of `stop`. -/
theorem body_alone (hwt : ∀ i, (outline.wt i a : Int) + outline.wt i b ≤ outline.val i s)
    (hb : b.body = some s.sess.gen) :
    s.sess.cur.once = .running ∧ a.body ≠ some s.sess.gen := by
  have hle : ((a.body == some s.sess.gen).toNat : Int) + (b.body == some s.sess.gen).toNat ≤
      Session.Once.run s.sess.cur.once := hwt (.body s.sess.gen)
  rw [hb] at hle
  cases honce : s.sess.cur.once with
  | running =>
      refine ⟨rfl, fun ha => ?_⟩
      simp [honce, ha] at hle
  | _ =>
      simp only [honce, beq_self_eq_true, Bool.toNat_true, Session.Once.run_fresh,
        Session.Once.run_finished] at hle
      omega

/-- At most one thread is on its way to the timer. -/
theorem starting_alone (hwt : ∀ i, (outline.wt i a : Int) + outline.wt i b ≤ outline.val i s)
    (hb : b.starting = true) : a.starting = false := by
  have hle : (a.starting.toNat : Int) + b.starting.toNat ≤
      Session.Once.run (s.runs s.sess.gen) := hwt .starting
  have hone : Session.Once.run (s.runs s.sess.gen) ≤ 1 := Bool.toNat_le _
  rw [hb] at hle
  cases ha : a.starting with
  | false => rfl
  | true =>
      simp only [ha, Bool.toNat_true] at hle
      omega

theorem Steady.stopped (hst : Steady s.sess a x)
    (hwt : ∀ i, (outline.wt i a : Int) + outline.wt i b ≤ outline.val i s) {g : Nat}
    (hb : b.body = some g) (h : g = s.sess.gen ∧ Stopped s.sess) : g = x.gen ∧ Stopped x := by
  obtain ⟨rfl, hstopped⟩ := h
  obtain ⟨hrunning, hne⟩ := body_alone hwt hb
  obtain ⟨hgen, hdone, ⟨htimer, hwheel⟩ | ⟨hopen, -⟩⟩ := hst.body hrunning hne
  · refine ⟨hgen.symm, hdone hstopped.done, htimer.trans hstopped.timer, ?_⟩
    rw [hgen, hwheel]
    exact hstopped.wheel
  · cases hopen.symm.trans hstopped.done

theorem Steady.counted (hst : Steady s.sess a x) (hrunning : s.sess.cur.once = .running)
    (hne : a.body ≠ some s.sess.gen) (h : Counted s.sess) : Counted x := by
  obtain ⟨hgen, -, ⟨htimer, hwheel⟩ | ⟨-, hcounted⟩⟩ := hst.body hrunning hne
  · rw [Counted, hgen, htimer, hwheel]
    exact h
  · exact hcounted h

private theorem local_stays (hst : Steady s.sess a x)
    (hwt : ∀ i, (outline.wt i a : Int) + outline.wt i b ≤ outline.val i s)
    (h : Local s.sess b) : Local x b := by
  by_cases hstart : b.starting = true
  · cases b with
    | run pc =>
        intro _
        rcases hst.timer (h hstart) with hnone | ha
        · exact hnone
        · cases (starting_alone hwt hstart).symm.trans ha
    | _ => cases hstart
  · cases b with
    | stop pc k =>
        cases pc with
        | readOnce => trivial
        | doOnce g => trivial
        | closeDone g =>
            obtain ⟨rfl, hcounted⟩ := h
            obtain ⟨hrunning, hne⟩ := body_alone hwt rfl
            exact ⟨(hst.body hrunning hne).1.symm, hst.counted hrunning hne hcounted⟩
        | takeTimer g =>
            obtain ⟨rfl, hcounted, hdone⟩ := h
            obtain ⟨hrunning, hne⟩ := body_alone hwt rfl
            obtain ⟨hgen, hdone', -⟩ := hst.body hrunning hne
            exact ⟨hgen.symm, hst.counted hrunning hne hcounted, hdone' hdone⟩
        | stopTimer g l t =>
            obtain ⟨rfl, hdone, htimer, ht, hcount⟩ := h
            obtain ⟨hrunning, hne⟩ := body_alone hwt rfl
            obtain ⟨hgen, hdone', ⟨htimer', hwheel⟩ | ⟨hopen, -⟩⟩ := hst.body hrunning hne
            · refine ⟨hgen.symm, hdone' hdone, htimer'.trans htimer, hgen ▸ ht, ?_⟩
              rw [hgen, hwheel]
              exact hcount
            · cases hopen.symm.trans hdone
        | _ => exact hst.stopped hwt rfl h
    | worker pc =>
        cases pc with
        | stopTimer l t => exact h
        | _ => exact nofun
    | run pc => exact fun hpc => absurd hpc hstart
    | _ => exact nofun

end Other

theorem minds_of_entry {x : Session.Shared} {a : Session.Thread} (h : Session.entry x a = true) :
    a.minds = false ∧ ∀ i, outline.wt i a = 0 := by
  unfold Session.entry at h
  split at h
  case h_8 => cases h
  all_goals exact ⟨rfl, fun i => by cases i <;> rfl⟩

/-- **The invariant survives every step.** -/
theorem outline_valid : outline.ValidGiven prog (simulation.Knows Session.outline) where
  entry := by
    intro s a _ hentry
    obtain ⟨hminds, hwt⟩ := minds_of_entry hentry
    exact ⟨local_of_minds hminds, hwt⟩
  own := by
    intro s a s' bs hK hinv hloc hwt hstep
    have hkeeps := keeps_step hinv hK hloc hwt hstep
    exact hkeeps.keeps
  other := by
    intro s a b s' bs hK hinv hloca hlocb hwt hstep
    refine local_stays (keeps_step hinv hK hloca ?_ hstep).steady hwt hlocb
    intro i
    have hle := hwt i
    omega

/-! ## Whole runs -/

private theorem outline_initial (cfg : Config) : outline.Holds (initial cfg) := by
  have honce : ∀ g, ((initial cfg).shared.sess.gens g).once = .fresh := by
    intro g
    simp only [initial, Session.Shared.init]
    split <;> rfl
  refine ⟨⟨Or.inl rfl, fun _ => rfl, fun _ _ => rfl, fun _ => rfl, fun _ => rfl, fun _ _ => rfl⟩,
    nofun, ?_⟩
  intro i
  cases i with
  | body g =>
      show (Session.Once.run ((initial cfg).shared.sess.gens g).once : Int) = 0
      rw [honce]
      rfl
  | _ => rfl

section Runs

variable {cfg : Config} {c c' : Conf Shared Session.Thread}

theorem outline_below (cfg : Config) : Session.outline.Holds (simulation.conf (initial cfg)) :=
  Session.outline_initial cfg

theorem knows_reaches (h : prog.Reaches (initial cfg) c) :
    ∀ a ∈ c.pool, simulation.Knows Session.outline c.shared a :=
  simulation.knows Session.outline_valid (outline_below cfg) c h

private theorem holds_reaches (h : prog.Reaches (initial cfg) c) : outline.Holds c :=
  outline_valid.holds_run (fun _ => knows_reaches) (outline_initial cfg) h

/-! ## Heartbeat tasks -/

/-- The generation whose lifecycle the heartbeat task has acquired for an `OnCron` that it has
not made yet. -/
def cronOf : Session.Thread → Option Nat
  | .cron l .snapshot => some l
  | .cron l .onCron => some l
  | _ => none

/-- The number of such tasks. -/
def acquired (g : Nat) (pool : List Session.Thread) : Nat :=
  pool.countP (fun th => cronOf th == some g)

private theorem acquired_append (g : Nat) (l r : List Session.Thread) :
    acquired g (l ++ r) = acquired g l + acquired g r := List.countP_append ..

private theorem near_of_cronOf {th : Session.Thread} {g : Nat} (h : cronOf th = some g) :
    th.near = some g := by
  cases th with
  | cron l pc =>
      cases pc with
      | snapshot => exact h
      | onCron => exact h
      | _ => cases h
  | _ => cases h

theorem acquired_singleton (g : Nat) (th : Session.Thread) :
    acquired g [th] = (cronOf th == some g).toNat := by
  simp only [acquired, List.countP_singleton]
  cases cronOf th == some g <;> rfl

/-- Heartbeat tasks: once the lifecycle is closed, none of them acquires it. -/
private theorem acquired_cron {x y : Session.Shared} {l g : Nat} {pc : Session.CronPc}
    {bs : List Session.Thread} (hclosed : (x.gens g).closed = true)
    (h : (y, bs) ∈ Session.cronStep x l pc) :
    (onCron (.cron l pc) == some g).toNat + acquired g bs ≤ acquired g [.cron l pc] := by
  rw [acquired_singleton]
  cases pc with
  | acquire =>
      simp only [Session.cronStep] at h
      split at h
      · cases List.mem_singleton.mp h
        exact Nat.le_refl _
      · next hopen =>
          cases List.mem_singleton.mp h
          have hne : l ≠ g := by
            rintro rfl
            exact hopen hclosed
          simp [acquired_singleton, onCron, cronOf, hne]
  | fire =>
      simp only [Session.cronStep] at h
      split at h <;> (cases List.mem_singleton.mp h; exact Nat.le_refl _)
  | snapshot =>
      simp only [Session.cronStep] at h
      split at h
      · cases List.mem_singleton.mp h
        rw [acquired_singleton]
        exact Nat.le_of_eq (Nat.zero_add _)
      · cases List.mem_singleton.mp h
        exact Nat.zero_le _
  | onCron =>
      cases List.mem_singleton.mp h
      exact Nat.le_refl _
  | inCron =>
      simp only [Session.cronStep, List.mem_cons, List.not_mem_nil, or_false] at h
      rcases h with heq | heq <;> (cases heq; exact Nat.le_refl _)
  | rawClose =>
      cases List.mem_singleton.mp h
      exact Nat.le_refl _
  | release =>
      cases List.mem_singleton.mp h
      exact Nat.le_refl _

/-- **Step lemma.**  Once the lifecycle is closed, a step brings no task to an `OnCron`, and
each call uses one up. -/
theorem acquired_step {s s' : Shared} {a : Session.Thread} {bs : List Session.Thread} {g : Nat}
    (hclosed : (s.sess.gens g).closed = true) (h : (s', bs) ∈ step s a) :
    s'.crons g + acquired g bs ≤ s.crons g + acquired g [a] := by
  obtain ⟨x, hstep, rfl, -⟩ := mem_step h
  show s.crons g + (onCron a == some g).toNat + acquired g bs ≤ _
  by_cases hcron : ∃ l pc, a = .cron l pc
  · obtain ⟨l, pc, rfl⟩ := hcron
    have hle := acquired_cron hclosed hstep
    omega
  · -- no other thread becomes such a task
    have hnone : acquired g bs = 0 := by
      refine List.countP_eq_zero.mpr fun b hb hg => ?_
      have hb' := beq_iff_eq.mp hg
      rcases Session.step_near hstep hb (near_of_cronOf hb') with
        ⟨inline, rfl, -⟩ | ⟨rfl, -⟩ | ⟨rfl, -⟩
      · simp only [Session.step, Session.taskStep] at hstep
        split at hstep <;>
          (cases List.mem_singleton.mp hstep; cases List.mem_singleton.mp hb; cases hb')
      · exact hcron ⟨_, _, rfl⟩
      · exact hcron ⟨_, _, rfl⟩
    have hcall : onCron a = none := by
      cases a with
      | cron l pc => exact absurd ⟨l, pc, rfl⟩ hcron
      | _ => rfl
    rw [hnone, hcall]
    exact Nat.le_add_right _ _

/-- **Run lemma.**  Once the lifecycle is closed, the calls of `OnCron` still to come are those
of the tasks that have acquired it. -/
theorem acquired_run (hreach : prog.Reaches (initial cfg) c) {g : Nat}
    (hclosed : (c.shared.sess.gens g).closed = true) (h : prog.Reaches c c') :
    c'.shared.crons g + acquired g c'.pool ≤ c.shared.crons g + acquired g c.pool := by
  have hrun := h.induct (fun d => prog.Reaches (initial cfg) d ∧
    (d.shared.sess.gens g).closed = true ∧
    d.shared.crons g + acquired g d.pool ≤ c.shared.crons g + acquired g c.pool)
    ⟨hreach, hclosed, Nat.le_refl _⟩ ?_
  · exact hrun.2.2
  · rintro d d' m ⟨hd, hcl, hle⟩ hm
    refine ⟨hd.snoc hm, ?_⟩
    rcases exec_cases hm with ⟨a, hentry, rfl⟩ | ⟨l, a, r, s', bs, hpool, hstep, rfl⟩
    · refine ⟨hcl, ?_⟩
      have hnew : acquired g [a] = 0 := by
        rw [acquired_singleton]
        have hentry : Session.entry d.shared.sess a = true := hentry
        unfold Session.entry at hentry
        split at hentry
        case h_8 => cases hentry
        all_goals rfl
      rw [acquired_append, hnew]
      exact hle
    · have hmem : a ∈ d.pool := by rw [hpool]; simp
      have hstep' : (s', bs) ∈ step d.shared a := hstep
      have hone := acquired_step hcl hstep'
      obtain ⟨x, hsess, rfl, -⟩ := mem_step hstep'
      refine ⟨((sess_keeps (knows_reaches hd a hmem) hsess).frame.gens g).closed hcl, ?_⟩
      have hsplit : acquired g d.pool = acquired g l + (acquired g [a] + acquired g r) := by
        rw [hpool, ← List.singleton_append, acquired_append, acquired_append]
      rw [acquired_append, acquired_append]
      show (d.shared.after a x bs).crons g + _ ≤ _
      omega

/-- **No heartbeat timer outlives its session.**  When the close of a generation is over, the
timer wheel has no timer of it.  And from the moment its lifecycle is closed on, the calls of
its `OnCron` are at most as many as the heartbeat tasks that had acquired the lifecycle by
then. -/
theorem heartbeat_ends_with_session (cfg : Config) (c : Conf Shared Session.Thread)
    (h : prog.Reaches (initial cfg) c) (g : Nat) :
    ((c.shared.sess.gens g).once = .finished →
      c.shared.sess.wheel g = 0 ∧ (c.shared.sess.gens g).closed = true) ∧
    ((c.shared.sess.gens g).closed = true → ∀ c', prog.Reaches c c' →
      c'.shared.crons g + acquired g c'.pool ≤ c.shared.crons g + acquired g c.pool) := by
  have hinv := (holds_reaches h).shared
  have hsess := (simulation.holds Session.outline_valid (outline_below cfg) h).shared
  refine ⟨fun hfin => ⟨hinv.finished g hfin, ((hsess.ok g).finished hfin).2.1⟩, ?_⟩
  exact fun hclosed c' h' => acquired_run h hclosed h'

/-- A session is closed while a heartbeat task has acquired its lifecycle: the timer is gone,
and `OnCron` is called once more. -/
theorem heartbeat_ends_with_session_task :
    ∃ c c', prog.Reaches (initial ⟨⟨false, none⟩, some true, true, true⟩) c ∧
      prog.Reaches c c' ∧ c.shared.crons 0 = 0 ∧ acquired 0 c.pool = 1 ∧
      c.shared.sess.wheel 0 = 0 ∧ c'.shared.crons 0 = 1 ∧ acquired 0 c'.pool = 0 := by
  have hrun : ∃ c ∈ prog.run (initial ⟨⟨false, none⟩, some true, true, true⟩) (List.flatten
      [[.start (.run .register)], List.replicate 6 (.fire 0 0),
        [.start (.cron 0 .fire), .fire 2 0, .fire 2 0, .start (.stop .readOnce .close)],
        List.replicate 10 (.fire 3 0)]),
      ((c.shared.sess.gens 0).once = .finished ∧ c.shared.crons 0 = 0 ∧
        acquired 0 c.pool = 1) ∧
      ∃ c' ∈ prog.run c [.fire 2 0, .fire 2 0], c'.shared.crons 0 = 1 := by decide +kernel
  obtain ⟨c, hc, ⟨hfin, hcrons, hacquired⟩, c', hc', hcalled⟩ := hrun
  obtain ⟨hwheel, hafter⟩ := heartbeat_ends_with_session _ c ⟨_, hc⟩ 0
  have hle := hafter (hwheel hfin).2 c' ⟨_, hc'⟩
  exact ⟨c, c', ⟨_, hc⟩, ⟨_, hc'⟩, hcrons, hacquired, (hwheel hfin).1, hcalled, by omega⟩

end Runs

end Getty.Transport.Heartbeat
