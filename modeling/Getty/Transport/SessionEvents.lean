import Getty.Transport.SessionFence
import Getty.Transport.SessionSteps

/-!
# The order of the listener's events

`OnMessage` and `OnCron` are called by tasks that test the lifecycle and the
closed flag first and call the listener later, on goroutines of their own; the
read loop calls `OnClose` after its `stop`, without waiting for them.  A task that
is between its last test and its call when `OnClose` is entered makes the call
after it.

Such a task is the only reason why `OnClose` may fail to be the last event: once
`stop` has returned, no other task gets past its tests.

## Main results

* `onClose_is_last_iff` — after `OnClose` has been entered, no call of its
  generation begins in any continuation, if and only if no task is committed to one.
-/

namespace Getty.Transport.Session

open Getty.Verified.ThreadPool

/-! ## Tasks that are committed to a call -/

/-- The thread has passed its tests and calls `OnMessage` or `OnCron` of
generation `g`. -/
def Committed (s : Shared) (g : Nat) : Thread → Prop
  | .task l _ .listener => l = g ∧ s.listener = true
  | .cron l .snapshot => l = g ∧ s.conn.isSome = true ∧ s.listener = true
  | .cron l .onCron => l = g
  | _ => False

/-- The next step of the thread enters `OnMessage` or `OnCron` of this generation. -/
def Thread.begins (s : Shared) : Thread → Option Nat
  | .task l _ .listener => if s.listener then some l else none
  | .cron l .onCron => some l
  | _ => none

/-- A move in which `OnMessage` or `OnCron` of generation `g` is entered. -/
def Begins (c c' : Conf Shared Thread) (g : Nat) : Prop :=
  ∃ l a r bs, c.pool = l ++ a :: r ∧ a.begins c.shared = some g ∧
    (c'.shared, bs) ∈ prog.step c.shared a ∧ c'.pool = l ++ bs ++ r

/-- From `c` on, `OnMessage` and `OnCron` of generation `g` are not entered. -/
def NoCallAfter (c : Conf Shared Thread) (g : Nat) : Prop :=
  ∀ c' c'', prog.Reaches c c' → ¬ Begins c' c'' g

theorem Committed.near {s : Shared} {g : Nat} {a : Thread} (h : Committed s g a) :
    a.near = some g := by
  cases a with
  | task l inline pc =>
      cases pc with
      | listener => exact congrArg some h.1
      | _ => cases h
  | cron l pc =>
      cases pc with
      | snapshot => exact congrArg some h.1
      | onCron => exact congrArg some h
      | _ => cases h
  | _ => cases h

theorem holds_of_near {g : Nat} {a : Thread} (h : a.near = some g) : a.holds = some g := by
  cases a with
  | task l inline pc =>
      cases pc with
      | listener => exact h
      | _ => cases h
  | cron l pc =>
      cases pc with
      | snapshot => exact h
      | onCron => exact h
      | _ => cases h
  | _ => cases h

private theorem committed_of_begins {s : Shared} {g : Nat} {a : Thread} (h : a.begins s = some g) :
    Committed s g a := by
  cases a with
  | task l inline pc =>
      cases pc with
      | listener =>
          simp only [Thread.begins] at h
          split at h
          · next hlis => exact ⟨Option.some.inj h, hlis⟩
          · cases h
      | _ => cases h
  | cron l pc =>
      cases pc with
      | onCron => exact Option.some.inj h
      | _ => cases h
  | _ => cases h

/-! ## After `OnClose` has been entered -/

/-- Generation `g` is closed, and no task is committed to a call of it. -/
structure Silent (c : Conf Shared Thread) (g : Nat) : Prop where
  holds : outline.Holds c
  finished : (c.shared.gens g).once = .finished
  none : ∀ a ∈ c.pool, ¬ Committed c.shared g a

/-- **Step lemma.**  No thread commits itself to a call of a closed generation. -/
theorem committed_before {s s' : Shared} {a : Thread} {bs : List Thread} {g : Nat} (hs : Inv s)
    (hbook : Booked s a) (hfin : (s.gens g).once = .finished) (h : (s', bs) ∈ step s a)
    {b : Thread} (hb : b ∈ bs) (hcom : Committed s' g b) : Committed s g a := by
  obtain ⟨hdone, hclosed, -⟩ := (hs.ok g).finished hfin
  rcases step_near h hb hcom.near with ⟨inline, rfl, hopen⟩ | ⟨rfl, hopen⟩ | ⟨rfl, hconn, hlis⟩
  · -- the task has acquired `g`, so that `g` is current and its `done` is the one tested
    have hcur : g = s.gen := hbook.holds_eq hs rfl
    subst hcur
    rw [show s.cur.done = true from hdone] at hopen
    cases hopen
  · rw [hclosed] at hopen
    cases hopen
  · exact ⟨rfl, hconn, hlis⟩

/-- A step of another thread does not commit a thread to a call. -/
theorem committed_other {s s' : Shared} {a b : Thread} {bs : List Thread} {g : Nat} (hs : Inv s)
    (hbook : Booked s b) (hfin : (s.gens g).once = .finished) (h : (s', bs) ∈ step s a)
    (hcom : Committed s' g b) : Committed s g b := by
  have hcur : g = s.gen := hbook.holds_eq hs (holds_of_near hcom.near)
  subst hcur
  rcases step_fades h with ⟨hlis, hconn⟩ | hfresh
  · cases b with
    | task l inline pc =>
        cases pc with
        | listener => exact ⟨hcom.1, hlis hcom.2⟩
        | _ => cases hcom
    | cron l pc =>
        cases pc with
        | snapshot => exact ⟨hcom.1, hconn hcom.2.1, hlis hcom.2.2⟩
        | onCron => exact hcom
        | _ => cases hcom
    | _ => cases hcom
  · rw [show s.cur.once = .finished from hfin] at hfresh
    cases hfresh

theorem Silent.exec {c c' : Conf Shared Thread} {m : Move Thread} {g : Nat} (hc : Silent c g)
    (hm : prog.exec c m = some c') : Silent c' g := by
  have hholds' := outline_valid.holds_exec hc.holds hm
  rcases exec_cases hm with ⟨a, hentry, rfl⟩ | ⟨l, a, r, s', bs, hpool, hstep, rfl⟩
  · refine ⟨hholds', hc.finished, fun b hb => ?_⟩
    rcases List.mem_append.mp hb with hb | hb
    · exact hc.none b hb
    · intro hcom
      have hheld := holds_of_near hcom.near
      obtain ⟨-, hzero⟩ := outline_valid.entry c.shared a hc.holds.shared hentry
      have hcount := hzero (.count g)
      rw [← List.mem_singleton.mp hb] at hcount
      simp [outline, hheld] at hcount
  · have hmem : a ∈ c.pool := by rw [hpool]; simp
    have hbook : ∀ b ∈ c.pool, Booked c.shared b := fun b hb i => hc.holds.weight_le hb i
    have hkeeps := keeps_step hc.holds.shared (hc.holds.loc a hmem) (hbook a hmem) hstep
    refine ⟨hholds', (hkeeps.frame.gens g).finished hc.finished, fun b hb hcom => ?_⟩
    have hother : b ∈ c.pool → False := fun hbc =>
      hc.none b hbc (committed_other hc.holds.shared (hbook b hbc) hc.finished hstep hcom)
    rcases List.mem_append.mp hb with hb | hb
    · rcases List.mem_append.mp hb with hb | hb
      · exact hother (by rw [hpool]; simp [hb])
      · exact hc.none a hmem
          (committed_before hc.holds.shared (hbook a hmem) hc.finished hstep hb hcom)
    · exact hother (by rw [hpool]; simp [hb])

/-- A silent generation stays silent. -/
theorem Silent.noCallAfter {c : Conf Shared Thread} {g : Nat} (hc : Silent c g) :
    NoCallAfter c g := by
  intro c' c'' hreach hbegin
  have hc' : Silent c' g := hreach.induct (Silent · g) hc (fun _ _ _ h hm => h.exec hm)
  obtain ⟨l, a, r, bs, hpool, hbeg, -, -⟩ := hbegin
  exact hc'.none a (by rw [hpool]; simp) (committed_of_begins hbeg)

/-- A committed thread can make its call. -/
private theorem committed_calls {c : Conf Shared Thread} {g : Nat} {a : Thread} (ha : a ∈ c.pool)
    (hcom : Committed c.shared g a) : ¬ NoCallAfter c g := by
  intro hnone
  obtain ⟨l, r, hpool⟩ := List.append_of_mem ha
  cases a with
  | task i inline pc =>
      cases pc with
      | listener =>
          obtain ⟨rfl, hlis⟩ := hcom
          refine hnone c ⟨c.shared.enter, l ++ [.task i inline .inMessage] ++ r⟩ ⟨[], rfl⟩
            ⟨l, _, r, [.task i inline .inMessage], hpool, ?_, ?_, rfl⟩
          · simp [Thread.begins, hlis]
          · simp [prog, step, taskStep, hlis]
      | _ => cases hcom
  | cron i pc =>
      cases pc with
      | onCron =>
          obtain rfl : i = g := hcom
          exact hnone c ⟨c.shared.enter, l ++ [.cron i .inCron] ++ r⟩ ⟨[], rfl⟩
            ⟨l, _, r, [.cron i .inCron], hpool, rfl, List.mem_singleton.mpr rfl, rfl⟩
      | snapshot =>
          obtain ⟨rfl, hconn, hlis⟩ := hcom
          have hstep : (c.shared, [Thread.cron i .onCron]) ∈
              prog.step c.shared (.cron i .snapshot) := by
            simp [prog, step, cronStep, hconn, hlis]
          obtain ⟨m, hm⟩ := exec_fire l r hstep
          have hreach : prog.Reaches c ⟨c.shared, l ++ [.cron i .onCron] ++ r⟩ := by
            refine ⟨[m], ?_⟩
            rw [show c = ⟨c.shared, l ++ .cron i .snapshot :: r⟩ by rw [← hpool]]
            simp only [Prog.run, hm]
          exact hnone _ ⟨c.shared.enter, l ++ [.cron i .inCron] ++ r⟩ hreach
            ⟨l, .cron i .onCron, r, [.cron i .inCron], by simp, rfl, List.mem_singleton.mpr rfl,
              rfl⟩
      | _ => cases hcom
  | _ => cases hcom

/-- **`OnClose` is the last event** of its generation if and only if no `OnMessage`
or `OnCron` task has passed its tests when it is entered. -/
theorem onClose_is_last_iff (cfg : Config) (c : Conf Shared Thread)
    (h : prog.Reaches (initial cfg) c) (hclose : .read .inClose ∈ c.pool) :
    NoCallAfter c c.shared.gen ↔ ∀ a ∈ c.pool, ¬ Committed c.shared c.shared.gen a := by
  have hc := holds_reaches h
  constructor
  · exact fun hnone a ha hcom => committed_calls ha hcom hnone
  · exact fun hnone => Silent.noCallAfter ⟨hc, hc.loc _ hclose, hnone⟩

/-- A session with a task pool and a listener. -/
def pooledConfig : Config := ⟨⟨false, none⟩, some true, true, true⟩

/-- `run` starts the read loop, which queues one `OnMessage` task. -/
def queueMessage : List (Move Thread) :=
  .start (.run .register) :: List.replicate 9 (.fire 0 0) ++ [.fire 0 1, .fire 0 0]

/-- The read loop ends and enters `OnClose`. -/
def closeSession : List (Move Thread) := .fire 0 1 :: List.replicate 11 (.fire 0 0)

/-- A task that is still queued when `OnClose` is entered makes no call. -/
theorem onClose_is_last_queued :
    ∃ c, prog.Reaches (initial pooledConfig) c ∧ .read .inClose ∈ c.pool ∧
      .task 0 false .acquire ∈ c.pool ∧ NoCallAfter c c.shared.gen := by
  have hrun : ∃ c ∈ prog.run (initial pooledConfig) (queueMessage ++ closeSession),
      c.pool = [.read .inClose, .callbacks 0 .enter, .task 0 false .acquire] := by
    decide +kernel
  obtain ⟨c, hc, hpool⟩ := hrun
  have hclose : .read .inClose ∈ c.pool := by simp [hpool]
  refine ⟨c, ⟨_, hc⟩, hclose, by simp [hpool],
    (onClose_is_last_iff pooledConfig c ⟨_, hc⟩ hclose).mpr ?_⟩
  simp [hpool, Committed]

/-- A task that has passed its tests before the close calls `OnMessage` after
`OnClose` has been entered. -/
theorem onMessage_after_onClose :
    ∃ c c', prog.Reaches (initial pooledConfig) c ∧ .read .inClose ∈ c.pool ∧
      Begins c c' c.shared.gen := by
  have hrun : ∃ c ∈ prog.run (initial pooledConfig)
      (queueMessage ++ [.fire 1 0, .fire 1 0] ++ closeSession),
      c.pool = [.read .inClose, .callbacks 0 .enter, .task 0 false .listener] ∧
      c.shared.gen = 0 ∧ c.shared.listener = true := by
    decide +kernel
  obtain ⟨c, hc, hpool, hgen, hlis⟩ := hrun
  refine ⟨c, ⟨c.shared.enter, [.read .inClose, .callbacks 0 .enter, .task 0 false .inMessage]⟩,
    ⟨_, hc⟩, by simp [hpool], [.read .inClose, .callbacks 0 .enter], .task 0 false .listener, [],
    [.task 0 false .inMessage], by simp [hpool], ?_, ?_, rfl⟩
  · simp [Thread.begins, hlis, hgen]
  · simp [prog, step, taskStep, hlis]

end Getty.Transport.Session
