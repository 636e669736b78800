import Getty.Verified.ThreadPool

/-!
# Configured until the first use

An object that may be configured until it is used.  A lock guards the configuration and a
flag that says whether a use has started.  A setter takes the lock, panics when the flag is
set, and otherwise assigns the fields one by one.  A use takes the lock, sets the flag,
reads the configuration, and goes on reading it after it has released the lock.  A third
kind of thread sets the flag without the lock and reads nothing.

The readers need no lock after their start: a setter that could disturb them has either
finished before, or has still to look at the flag.

## Main results

* `outline_valid` — the invariant survives every step.
* `reads_agree` — all reads see one configuration, the one the setters have left.
* `sets_admitted` — the setters that have returned are among those there may be.
* `frozen` — after the first use nothing changes any more.
-/

namespace Getty.Verified.Freeze

open Getty.Verified.ThreadPool

universe u v w

/-- A thread: a setter with its argument and the assignments left, a use with the number of
reads under the lock and of those after it, or a thread that only sets the flag. -/
inductive Thread (A : Type u) (U : Type v) where
  | lockSet (a : A)
  | checkSet (a : A)
  | assign (a : A) (todo : List U)
  | lockUse (held free : Nat)
  | startUse (held free : Nat)
  | hold (held free : Nat)
  | free (n : Nat)
  | mark
  deriving Repr, DecidableEq

/-- The assignments of a setter, or a panic; what an assignment does; and the threads there
may be. -/
structure Spec (A : Type u) (U : Type v) (C : Type w) where
  assignments : A → Option (List U)
  apply : C → U → C
  entry : Thread A U → Bool

/-- The lock, the flag and the configuration.  The other fields are ghosts: whether a use has
started, what the uses have read, which setters have returned and which have panicked. -/
structure Shared (A : Type u) (C : Type w) where
  lock : Bool
  started : Bool
  config : C
  used : Bool
  reads : List C
  sets : List A
  panics : List A

variable {A : Type u} {U : Type v} {C : Type w}

def Shared.init (config : C) : Shared A C := ⟨false, false, config, false, [], [], []⟩

/-- A panic releases the lock, by the deferred unlock. -/
def Shared.panic (s : Shared A C) (a : A) : Shared A C :=
  { s with lock := false, panics := s.panics ++ [a] }

def Shared.read (s : Shared A C) : Shared A C := { s with reads := s.reads ++ [s.config] }

def step (spec : Spec A U C) (s : Shared A C) :
    Thread A U → List (Shared A C × List (Thread A U))
  | .lockSet a => if s.lock then [] else [({ s with lock := true }, [.checkSet a])]
  | .checkSet a =>
      if s.started then [(s.panic a, [])]
      else
        match spec.assignments a with
        | none => [(s.panic a, [])]
        | some us => [(s, [.assign a us])]
  | .assign a (u :: todo) => [({ s with config := spec.apply s.config u }, [.assign a todo])]
  | .assign a [] => [({ s with lock := false, sets := s.sets ++ [a] }, [])]
  | .lockUse held free => if s.lock then [] else [({ s with lock := true }, [.startUse held free])]
  | .startUse held free => [({ s with started := true, used := true }, [.hold held free])]
  | .hold (held + 1) free => [(s.read, [.hold held free])]
  | .hold 0 free => [({ s with lock := false }, [.free free])]
  | .free (n + 1) => [(s.read, [.free n])]
  | .free 0 => [(s, [])]
  | .mark => [({ s with started := true }, [])]

/-- Threads are started at their first step. -/
def Thread.fresh : Thread A U → Bool
  | .lockSet _ => true
  | .lockUse _ _ => true
  | .mark => true
  | _ => false

def prog (spec : Spec A U C) : Prog (Shared A C) (Thread A U) where
  entry _ a := a.fresh && spec.entry a
  step := step spec

/-! ## The invariant -/

/-- The assignments of a setter that returns. -/
def effect (spec : Spec A U C) (a : A) : List U := (spec.assignments a).getD []

/-- What some setters make of a configuration, one after the other. -/
def result (spec : Spec A U C) (config : C) (sets : List A) : C :=
  (sets.flatMap (effect spec)).foldl spec.apply config

theorem result_append (spec : Spec A U C) (config : C) (sets : List A) (a : A) :
    result spec config (sets ++ [a]) =
      (effect spec a).foldl spec.apply (result spec config sets) := by
  simp [result]

def Thread.holds : Thread A U → Bool
  | .checkSet _ => true
  | .assign _ _ => true
  | .startUse _ _ => true
  | .hold _ _ => true
  | _ => false

section Invariant

variable (spec : Spec A U C) (config : C)

/-- What holds where a thread stands. -/
def Local (s : Shared A C) : Thread A U → Prop
  | .lockSet a => spec.entry (.lockSet a) = true
  | .checkSet a => spec.entry (.lockSet a) = true ∧ s.config = result spec config s.sets
  | .assign a todo => s.used = false ∧ spec.entry (.lockSet a) = true ∧
      ∃ done, effect spec a = done ++ todo ∧
        s.config = done.foldl spec.apply (result spec config s.sets)
  | .startUse _ _ => s.config = result spec config s.sets
  | .hold _ _ => s.used = true
  | .free _ => s.used = true
  | _ => True

/-- What holds of the shared state. -/
structure Inv (s : Shared A C) : Prop where
  started : s.used = true → s.started = true
  free : s.lock = false → s.config = result spec config s.sets
  used : s.used = true → s.config = result spec config s.sets
  reads : ∀ c ∈ s.reads, s.used = true ∧ c = result spec config s.sets
  sets : ∀ a ∈ s.sets, spec.entry (.lockSet a) = true

def outline : Outline (Shared A C) (Thread A U) Unit where
  shared := Inv spec config
  loc := Local spec config
  val _ s := s.lock.toNat
  wt _ a := a.holds.toNat

variable {spec config} {s : Shared A C}

/-- Reading keeps the invariant, once a use has started. -/
theorem Inv.read (h : Inv spec config s) (hused : s.used = true) : Inv spec config s.read where
  started := h.started
  free := h.free
  used := h.used
  reads c hc := by
    rcases List.mem_append.mp hc with hc | hc
    · exact h.reads c hc
    · rw [List.mem_singleton.mp hc]
      exact ⟨hused, h.used hused⟩
  sets := h.sets

/-- The lock is held by the thread that holds it. -/
theorem lock_of_holds {a : Thread A U} (hle : (outline spec config).Booked s a)
    (ha : a.holds = true) : s.lock = true := by
  have hle := hle ()
  cases hl : s.lock with
  | true => rfl
  | false => simp [outline, ha, hl] at hle

/-- Taking the lock. -/
private theorem keeps_lock (hs : Inv spec config s) {a b : Thread A U} (ha : a.holds = false)
    (hb : b.holds = true) (hlock : ¬ s.lock = true)
    (hloc : s.config = result spec config s.sets → Local spec config { s with lock := true } b) :
    (outline spec config).Keeps s a { s with lock := true } [b] := by
  have hfree : s.lock = false := by simpa using hlock
  refine Outline.keeps_one ⟨hs.started, by simp, hs.used, hs.reads, hs.sets⟩
    (hloc (hs.free hfree)) fun _ => ?_
  simp [outline, ha, hb, hfree]

/-- A panic. -/
private theorem keeps_panic (hs : Inv spec config s) {a : A}
    (hle : (outline spec config).Booked s (.checkSet a))
    (hloc : s.config = result spec config s.sets) :
    (outline spec config).Keeps s (.checkSet a) (s.panic a) [] := by
  have hlock := lock_of_holds hle rfl
  refine Outline.keeps_end ⟨hs.started, fun _ => hloc, hs.used, hs.reads, hs.sets⟩ fun _ => ?_
  simp [outline, Shared.panic, Thread.holds, hlock]

/-- A step of a setter that assigns. -/
private theorem keeps_assign (hs : Inv spec config s) {a : A} {todo : List U}
    (ha : Local spec config s (.assign a todo))
    (hle : (outline spec config).Booked s (.assign a todo)) {s' : Shared A C}
    {bs : List (Thread A U)} (h : (s', bs) ∈ step spec s (.assign a todo)) :
    (outline spec config).Keeps s (.assign a todo) s' bs := by
  obtain ⟨hused, hentry, done, hdone, hconfig⟩ := ha
  have hlock := lock_of_holds hle rfl
  have hunused : ¬ s.used = true := by simp [hused]
  have hnone : ∀ c ∈ s.reads, False := fun c hc => hunused (hs.reads c hc).1
  cases todo with
  | nil =>
      cases List.mem_singleton.mp h
      rw [List.append_nil] at hdone
      refine Outline.keeps_end ⟨hs.started, fun _ => ?_, fun hu => absurd hu hunused,
        fun c hc => (hnone c hc).elim, ?_⟩ fun _ => by simp [outline, Thread.holds, hlock]
      · rw [result_append, hdone]
        exact hconfig
      · intro b hb
        rcases List.mem_append.mp hb with hb | hb
        · exact hs.sets b hb
        · rw [List.mem_singleton.mp hb]
          exact hentry
  | cons u todo =>
      cases List.mem_singleton.mp h
      refine Outline.keeps_one ⟨hs.started, fun hl => absurd (hlock.symm.trans hl) (by simp),
        fun hu => absurd hu hunused, fun c hc => (hnone c hc).elim, hs.sets⟩
        ⟨hused, hentry, done ++ [u], by simp [hdone], ?_⟩ fun _ => by simp [outline, Thread.holds]
      simp [← hconfig]

/-- **Step lemma**, for the thread that takes the step. -/
theorem keeps_step {a : Thread A U} {s' : Shared A C} {bs : List (Thread A U)}
    (hs : Inv spec config s) (ha : Local spec config s a)
    (hle : (outline spec config).Booked s a) (h : (s', bs) ∈ step spec s a) :
    (outline spec config).Keeps s a s' bs := by
  cases a with
  | lockSet a =>
      obtain ⟨hlock, h⟩ := mem_blocked h
      cases h
      exact keeps_lock hs rfl rfl hlock fun hconfig => ⟨ha, hconfig⟩
  | checkSet a =>
      simp only [step] at h
      split at h
      · cases List.mem_singleton.mp h
        exact keeps_panic hs hle ha.2
      · next hstarted =>
          have hused : s.used = false := by
            cases hu : s.used with
            | false => rfl
            | true => exact absurd (hs.started hu) hstarted
          split at h
          · cases List.mem_singleton.mp h
            exact keeps_panic hs hle ha.2
          · next us hus =>
              cases List.mem_singleton.mp h
              exact Outline.keeps_one hs ⟨hused, ha.1, [], by simp [effect, hus], ha.2⟩
                fun _ => rfl
  | assign a todo => exact keeps_assign hs ha hle h
  | lockUse held free =>
      obtain ⟨hlock, h⟩ := mem_blocked h
      cases h
      exact keeps_lock hs rfl rfl hlock id
  | startUse held free =>
      cases List.mem_singleton.mp h
      exact Outline.keeps_one ⟨fun _ => rfl, hs.free, fun _ => ha,
        fun c hc => ⟨rfl, (hs.reads c hc).2⟩, hs.sets⟩ rfl fun _ => rfl
  | hold held free =>
      have hlock := lock_of_holds hle rfl
      cases held with
      | zero =>
          cases List.mem_singleton.mp h
          refine Outline.keeps_one ⟨hs.started, fun _ => hs.used ha, hs.used, hs.reads, hs.sets⟩ ha
            fun _ => ?_
          simp [outline, Thread.holds, hlock]
      | succ held =>
          cases List.mem_singleton.mp h
          exact Outline.keeps_one (hs.read ha) ha fun _ => rfl
  | free n =>
      cases n with
      | zero =>
          cases List.mem_singleton.mp h
          exact Outline.keeps_end hs fun _ => by simp [outline, Thread.holds]
      | succ n =>
          cases List.mem_singleton.mp h
          exact Outline.keeps_one (hs.read ha) ha fun _ => rfl
  | mark =>
      cases List.mem_singleton.mp h
      exact Outline.keeps_end ⟨fun _ => rfl, hs.free, hs.used, hs.reads, hs.sets⟩
        fun _ => by simp [outline, Thread.holds]

/-- What a step may change: with the lock, anything; without it, the flag and the reads. -/
theorem step_frame {a : Thread A U} {s' : Shared A C} {bs : List (Thread A U)}
    (h : (s', bs) ∈ step spec s a) :
    (s.used = true → s'.used = true) ∧
      (a.holds = false → s'.config = s.config ∧ s'.sets = s.sets ∧ s'.used = s.used) := by
  cases a with
  | lockSet a =>
      obtain ⟨-, h⟩ := mem_blocked h
      cases h
      exact ⟨id, fun _ => ⟨rfl, rfl, rfl⟩⟩
  | checkSet a =>
      refine ⟨?_, fun hh => by cases hh⟩
      simp only [step] at h
      split at h
      · cases List.mem_singleton.mp h
        exact id
      · split at h
        · cases List.mem_singleton.mp h
          exact id
        · cases List.mem_singleton.mp h
          exact id
  | assign a todo =>
      refine ⟨?_, fun hh => by cases hh⟩
      cases todo with
      | nil =>
          cases List.mem_singleton.mp h
          exact id
      | cons u todo =>
          cases List.mem_singleton.mp h
          exact id
  | lockUse held free =>
      obtain ⟨-, h⟩ := mem_blocked h
      cases h
      exact ⟨id, fun _ => ⟨rfl, rfl, rfl⟩⟩
  | startUse held free =>
      cases List.mem_singleton.mp h
      exact ⟨fun _ => rfl, fun hh => by cases hh⟩
  | hold held free =>
      refine ⟨?_, fun hh => by cases hh⟩
      cases held with
      | zero =>
          cases List.mem_singleton.mp h
          exact id
      | succ held =>
          cases List.mem_singleton.mp h
          exact id
  | free n =>
      cases n with
      | zero =>
          cases List.mem_singleton.mp h
          exact ⟨id, fun _ => ⟨rfl, rfl, rfl⟩⟩
      | succ n =>
          cases List.mem_singleton.mp h
          exact ⟨id, fun _ => ⟨rfl, rfl, rfl⟩⟩
  | mark =>
      cases List.mem_singleton.mp h
      exact ⟨id, fun _ => ⟨rfl, rfl, rfl⟩⟩

/-- **Step lemma**, for the other threads: only one of them holds the lock. -/
theorem local_other {a b : Thread A U} {s' : Shared A C} {bs : List (Thread A U)}
    (hb : Local spec config s b)
    (hle : (a.holds.toNat : Int) + b.holds.toNat ≤ s.lock.toNat)
    (h : (s', bs) ∈ step spec s a) : Local spec config s' b := by
  obtain ⟨hmono, hframe⟩ := step_frame h
  have hlock : s.lock.toNat ≤ 1 := Bool.toNat_le _
  have hexcl : b.holds = true → a.holds = false := by
    intro hbh
    cases ha : a.holds with
    | false => rfl
    | true =>
        rw [ha, hbh] at hle
        simp only [Bool.toNat_true] at hle
        omega
  cases b with
  | checkSet a' =>
      obtain ⟨hc, hset, -⟩ := hframe (hexcl rfl)
      simpa only [Local, hc, hset] using hb
  | assign a' todo =>
      obtain ⟨hc, hset, hu⟩ := hframe (hexcl rfl)
      simpa only [Local, hc, hset, hu] using hb
  | startUse held free =>
      obtain ⟨hc, hset, -⟩ := hframe (hexcl rfl)
      simpa only [Local, hc, hset] using hb
  | hold held free => exact hmono hb
  | free n => exact hmono hb
  | lockSet a' => exact hb
  | lockUse held free => trivial
  | mark => trivial

theorem outline_valid (spec : Spec A U C) (config : C) :
    (outline spec config).Valid (prog spec) where
  entry s a _ h := by
    obtain ⟨hfresh, hentry⟩ := Bool.and_eq_true_iff.mp h
    cases a with
    | lockSet a => exact ⟨hentry, fun _ => rfl⟩
    | lockUse held free => exact ⟨trivial, fun _ => rfl⟩
    | mark => exact ⟨trivial, fun _ => rfl⟩
    | _ => cases hfresh
  own s a s' bs hs ha hle h := keeps_step hs ha hle h
  other s a b s' bs _ _ hb hle h := local_other hb (hle ()) h

end Invariant

/-! ## What every run has -/

section Runs

variable {spec : Spec A U C} {config : C}

def initial (config : C) : Conf (Shared A C) (Thread A U) := ⟨Shared.init config, []⟩

theorem holds_reaches {c : Conf (Shared A C) (Thread A U)}
    (h : (prog spec).Reaches (initial config) c) : (outline spec config).Holds c := by
  refine (outline_valid spec config).holds_run ⟨⟨by simp [initial, Shared.init], fun _ => rfl,
    by simp [initial, Shared.init], List.forall_mem_nil _, List.forall_mem_nil _⟩,
    List.forall_mem_nil _, fun _ => rfl⟩ h

/-- **All reads agree.**  They see what the setters that have returned have left. -/
theorem reads_agree {c : Conf (Shared A C) (Thread A U)}
    (h : (prog spec).Reaches (initial config) c) :
    ∀ seen ∈ c.shared.reads, seen = result spec config c.shared.sets :=
  fun seen hseen => ((holds_reaches h).shared.reads seen hseen).2

/-- A setter that has returned was there from its start. -/
theorem sets_admitted {c : Conf (Shared A C) (Thread A U)}
    (h : (prog spec).Reaches (initial config) c) :
    ∀ a ∈ c.shared.sets, spec.entry (.lockSet a) = true :=
  (holds_reaches h).shared.sets

/-- One move after the first use. -/
private theorem frozen_exec {c c' : Conf (Shared A C) (Thread A U)} {m : Move (Thread A U)}
    (hc : (outline spec config).Holds c) (hm : (prog spec).exec c m = some c')
    (hused : c.shared.used = true) :
    c'.shared.used = true ∧ c'.shared.config = c.shared.config ∧
      c'.shared.sets = c.shared.sets := by
  rcases exec_cases hm with ⟨a, -, rfl⟩ | ⟨l, a, r, s', bs, hpool, hstep, rfl⟩
  · exact ⟨hused, rfl, rfl⟩
  · have ha : Local spec config c.shared a := hc.loc a (by rw [hpool]; simp)
    obtain ⟨hmono, hframe⟩ := step_frame hstep
    refine ⟨hmono hused, ?_⟩
    cases a with
    | assign a todo =>
        have := ha.1
        rw [hused] at this
        cases this
    | checkSet a =>
        have hstarted := hc.shared.started hused
        change (s', bs) ∈ step spec c.shared (.checkSet a) at hstep
        simp only [step, hstarted, if_true, List.mem_singleton] at hstep
        cases hstep
        exact ⟨rfl, rfl⟩
    | startUse held free =>
        cases List.mem_singleton.mp hstep
        exact ⟨rfl, rfl⟩
    | hold held free =>
        cases held with
        | zero =>
            cases List.mem_singleton.mp hstep
            exact ⟨rfl, rfl⟩
        | succ held =>
            cases List.mem_singleton.mp hstep
            exact ⟨rfl, rfl⟩
    | lockSet a => exact ⟨(hframe rfl).1, (hframe rfl).2.1⟩
    | lockUse held free => exact ⟨(hframe rfl).1, (hframe rfl).2.1⟩
    | free n => exact ⟨(hframe rfl).1, (hframe rfl).2.1⟩
    | mark => exact ⟨(hframe rfl).1, (hframe rfl).2.1⟩

/-- **Frozen.**  After the first use the configuration stays, no setter returns, and every
read sees the configuration. -/
theorem frozen {c c' : Conf (Shared A C) (Thread A U)}
    (h : (prog spec).Reaches (initial config) c) (hused : c.shared.used = true)
    (h' : (prog spec).Reaches c c') :
    c'.shared.config = c.shared.config ∧ c'.shared.sets = c.shared.sets ∧
      ∀ seen ∈ c'.shared.reads, seen = c.shared.config := by
  have hall := h'.induct (fun d => (outline spec config).Holds d ∧ d.shared.used = true ∧
    d.shared.config = c.shared.config ∧ d.shared.sets = c.shared.sets)
    ⟨holds_reaches h, hused, rfl, rfl⟩ fun d d' m hd hm => by
      obtain ⟨hu, hc, hs⟩ := frozen_exec hd.1 hm hd.2.1
      exact ⟨(outline_valid spec config).holds_exec hd.1 hm, hu, hc.trans hd.2.2.1,
        hs.trans hd.2.2.2⟩
  obtain ⟨-, -, hconfig, hsets⟩ := hall
  refine ⟨hconfig, hsets, fun seen hseen => ?_⟩
  rw [reads_agree (h.trans h') seen hseen, hsets]
  exact ((holds_reaches h).shared.used hused).symm

end Runs

end Getty.Verified.Freeze
