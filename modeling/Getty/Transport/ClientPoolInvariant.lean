import Getty.Transport.ClientPool
import Mathlib.Data.List.Count
import Mathlib.Data.List.Basic

/-!
# The invariant of the client

The proof outline of `ClientPool.prog`.  Most steps only move a thread on, or
change one session in a way that never makes an inactive session active again;
`Quiet` collects them and `Quiet.keeps` deals with all of them at once.  What is
left are the steps on the mutex, the pool, the client's `once`, and those that
create, start, admit or give up a session.

Four ledgers carry the argument: who is in the critical section, who runs the
body of `client.stop`, whose `connect` call is still in progress, and who is
responsible for closing a session.  The last one is what makes a live session
impossible to lose: responsibility is handed from `connect` to the pool, from
the pool to `client.stop`, and given up only for a session seen inactive.
-/

namespace Getty.Transport.ClientPool

open Getty.Verified.ThreadPool
open Getty.Transport.Reconnect (Options)
open Getty.Transport.SingleFlight (Flight)

/-! ## What a step does to a session -/

/-- A session only moves forward: a new generation has no connection, a lost
connection does not come back, and an inactive session stays inactive. -/
structure SessStep (x y : Sess) : Prop where
  gen : x.gen ≤ y.gen
  reset : x.gen < y.gen → y.connection = false
  conn : x.connection = false → y.connection = false
  closed : x.active = false → y.active = false
  once : (x.once = .finished → x.active = false) → y.once = .finished → y.active = false

namespace SessStep

theorem refl (x : Sess) : SessStep x x :=
  ⟨Nat.le_refl _, fun h => absurd h (Nat.lt_irrefl _), id, id, id⟩

/-- A change of the attributes, or of the reset flag, does not concern the rest. -/
theorem of_eq {x y : Sess} (hg : y.gen = x.gen) (hc : y.connection = x.connection)
    (hd : y.done = x.done) (ho : y.once = x.once) : SessStep x y := by
  have ha : y.active = x.active := by simp [Sess.active, hc, hd]
  exact ⟨by omega, fun h => by omega, fun h => by rw [hc, h], fun h => by rw [ha, h],
    fun h ho' => by rw [ha]; exact h (ho ▸ ho')⟩

theorem trans {x y z : Sess} (h : SessStep x y) (h' : SessStep y z) : SessStep x z := by
  refine ⟨Nat.le_trans h.gen h'.gen, fun hlt => ?_, fun hc => h'.conn (h.conn hc),
    fun hc => h'.closed (h.closed hc), fun hx hz => h'.once (h.once hx) hz⟩
  by_cases hy : x.gen < y.gen
  · exact h'.conn (h.reset hy)
  · exact h'.reset (by have := h.gen; omega)

theorem setRunning (x : Sess) : SessStep x { x with once := .running } :=
  ⟨Nat.le_refl _, fun h => absurd h (Nat.lt_irrefl _), id, id, fun _ h => by cases h⟩

theorem closeDone (x : Sess) : SessStep x { x with done := true } :=
  ⟨Nat.le_refl _, fun h => absurd h (Nat.lt_irrefl _), id, fun _ => by simp [Sess.active],
    fun _ _ => by simp [Sess.active]⟩

theorem gc (x : Sess) : SessStep x x.gc := by
  unfold Sess.gc
  split
  · exact refl x
  · exact ⟨Nat.le_refl _, fun h => absurd h (Nat.lt_irrefl _), fun _ => rfl,
      fun _ => by simp [Sess.active], fun _ _ => by simp [Sess.active]⟩

theorem clear (x : Sess) : SessStep x x.clear :=
  ⟨Nat.le_succ _, fun _ => rfl, fun _ => rfl, fun _ => rfl, fun _ _ => rfl⟩

theorem finishOnce (x : Sess) (g : Nat) (h : x.active = false) : SessStep x (x.finishOnce g) := by
  unfold Sess.finishOnce
  split
  · exact ⟨Nat.le_refl _, fun h => absurd h (Nat.lt_irrefl _), id, id, fun _ _ => h⟩
  · exact refl x

end SessStep

/-- The session no longer refers to the client, so that closing it does not
trigger a reconnect. -/
def Sess.Detached (x : Sess) : Prop := (x.attrs.map Attrs.client).getD false = false

theorem detached_removeClient (x : Sess) : x.removeClient.Detached := by
  unfold Sess.Detached Sess.removeClient
  cases x.attrs <;> rfl

theorem Sess.Detached.setIgnore {x : Sess} (h : x.Detached) (b : Bool) :
    (x.setIgnore b).Detached := by
  unfold Sess.Detached Sess.setIgnore at *
  cases hx : x.attrs with
  | none => rfl
  | some a => simpa [hx] using h

theorem Sess.Detached.removeIgnore {x : Sess} (h : x.Detached) : x.removeIgnore.Detached := by
  unfold Sess.Detached Sess.removeIgnore at *
  cases hx : x.attrs with
  | none => rfl
  | some a => simpa [hx] using h

theorem Sess.Detached.gc {x : Sess} (h : x.Detached) : x.gc.Detached := by
  unfold Sess.gc
  split
  · exact h
  · rfl

theorem Sess.Detached.finishOnce {x : Sess} (h : x.Detached) (g : Nat) :
    (x.finishOnce g).Detached := by
  unfold Sess.finishOnce
  split <;> exact h

/-! ## What a thread is accountable for -/

def ConnPc.inSection : ConnPc → Bool
  | .pool | .active | .prune _ | .addSession => true
  | .drop _ | .dropIgnore _ | .unlock _ | .unlockTrue => true
  | _ => false

/-- `connect` is responsible for closing the session: `run()` has begun and the
session is not in the pool. -/
def ConnPc.responsible : ConnPc → Bool
  | .newSession | .setClient | .setIgnore | .run | .unlockTrue => false
  | _ => true

/-- The thread holds the client's mutex. -/
def Thread.inSection : Thread → Bool
  | .sessionNum _ (some _) => true
  | .connect _ _ pc => pc.inSection
  | _ => false

/-- The thread runs the body of `client.stop`. -/
def Thread.inStop : Thread → Bool
  | .closeSection | .closeLoop _ | .closeDrop _ _ | .closeDropIgnore _ _ => true
  | .stop _ _ (.pool _) => true
  | _ => false

/-- The session whose `connect` call the thread executes. -/
def Thread.connects : Thread → Option Nat
  | .connect _ i _ => some i
  | .stop i _ (.opening _) => some i
  | .stop i _ (.dropped _) => some i
  | .gc i (.opening _) => some i
  | _ => none

/-- The sessions the thread is responsible for. -/
def Thread.keeps : Thread → List Nat
  | .connect _ i pc => if pc.responsible then [i] else []
  | .stop i _ (.opening _) => [i]
  | .stop i _ (.dropped _) => [i]
  | .stop i _ (.pool rest) => i :: rest
  | .gc i (.opening _) => [i]
  | .closeLoop todo => todo
  | .closeDrop i rest => i :: rest
  | .closeDropIgnore i rest => i :: rest
  | _ => []

/-- Everything the ledgers look at. -/
def Thread.profile (th : Thread) : Bool × Bool × Option Nat × List Nat :=
  (th.inSection, th.inStop, th.connects, th.keeps)

/-! ## The outline -/

/-- Session `i` has been admitted to the pool. -/
def Admitted (s : Shared) (i : Nat) : Prop := ∃ n, (i, n) ∈ s.admitted

/-- The invariant of the client. -/
structure Inv (o : Options) (s : Shared) : Prop where
  nil : s.ssMap = none ↔ s.flight.done = true
  cap : s.pool.length ≤ o.number
  fresh : ∀ i, s.nextSess ≤ i → s.returned i = none ∧ s.ran i = false ∧ ¬ Admitted s i
  poolAdmitted : ∀ i ∈ s.pool, Admitted s i
  admittedActive : ∀ x ∈ s.admitted, x ∈ s.observed
  results : ∀ i b, s.returned i = some b → (b = true ↔ Admitted s i)
  once : ∀ i, (s.sess i).once = .finished → s.active i = false
  gone : ∀ i, s.ran i = true → s.custody i = 0 → s.active i = false
  stopped : s.stopOnce = .finished → s.flight.done = true

/-- The sessions of a prune loop that are still to be looked at are in the pool. -/
def Pending (s : Shared) (todo : List Nat) : Prop := ∀ j, todo.count j ≤ s.pool.count j

/-- The assertion of `connect`. -/
def ConnAt (s : Shared) (i : Nat) : ConnPc → Prop
  | .unlockTrue => Admitted s i
  | .active => ¬ Admitted s i ∧ s.ssMap.isSome = true
  | .prune todo =>
      ¬ Admitted s i ∧ s.ssMap.isSome = true ∧ (i, s.sect) ∈ s.observed ∧ Pending s todo
  | .addSession => ¬ Admitted s i ∧ s.ssMap.isSome = true ∧ (i, s.sect) ∈ s.observed
  | .drop .inactive => ¬ Admitted s i ∧ s.active i = false
  | .dropIgnore .inactive => ¬ Admitted s i ∧ s.active i = false
  | .unlock .inactive => ¬ Admitted s i ∧ s.active i = false
  | .dropIgnore _ => ¬ Admitted s i ∧ (s.sess i).Detached
  | .unlock _ => ¬ Admitted s i ∧ (s.sess i).Detached
  | _ => ¬ Admitted s i

/-- The assertion of `session.stop`. -/
def StopAt (s : Shared) (i : Nat) : StopPc → Prop
  | .readOnce => True
  | .doOnce g => g ≤ (s.sess i).gen ∧ (g < (s.sess i).gen → (s.sess i).connection = false)
  | .closeDone _ => True
  | _ => s.active i = false

/-- `client.stop` has closed the client and goes through these sessions. -/
def Closes (s : Shared) (todo : List Nat) : Prop :=
  s.flight.done = true ∧ ∀ j ∈ todo, Admitted s j

/-- What holds for the caller of `session.stop`. -/
def ContAt (s : Shared) (i : Nat) : Cont → Prop
  | .opening _ => ¬ Admitted s i
  | .dropped _ => ¬ Admitted s i ∧ (s.sess i).Detached
  | .pool rest => Closes s (i :: rest) ∧ (s.sess i).Detached
  | _ => True

/-- `connect` and `client.stop` take the client off a session before they close it. -/
def Cont.detaches : Cont → Bool
  | .dropped _ => true
  | .pool _ => true
  | _ => false

/-- The close sequence has not found the client. -/
def StopPc.silent : StopPc → Bool
  | .attrIgnore _ found => !found
  | .reconnect _ => false
  | _ => true

/-- The assertion of a thread. -/
def Local (s : Shared) : Thread → Prop
  | .connect _ i pc => ConnAt s i pc
  | .sessionNum _ (some todo) => Pending s todo
  | .stop i pc k =>
      i < s.nextSess ∧ StopAt s i pc ∧ ContAt s i k ∧ (k.detaches = true → pc.silent = true)
  | .gc i (.opening _) => i < s.nextSess ∧ ¬ Admitted s i
  | .gc i _ => i < s.nextSess
  | .readEOF i => i < s.nextSess
  | .reset i => i < s.nextSess
  | .clear i => i < s.nextSess
  | .closeLoop todo => Closes s todo
  | .closeDrop i rest => Closes s (i :: rest)
  | .closeDropIgnore i rest => Closes s (i :: rest) ∧ (s.sess i).Detached
  | _ => True

inductive Ledger where
  | mutex
  | stopOnce
  | connects (i : Nat)
  | custody (i : Nat)

def outline (o : Options) : Outline Shared Thread Ledger where
  shared := Inv o
  loc := Local
  val
    | .mutex, s => s.mutex.toNat
    | .stopOnce, s => (decide (s.stopOnce = .running)).toNat
    | .connects i, s => (decide (i < s.nextSess) && (s.returned i).isNone).toNat
    | .custody i, s => s.custody i - s.pool.count i
  wt
    | .mutex, th => th.inSection.toNat
    | .stopOnce, th => th.inStop.toNat
    | .connects i, th => (th.connects == some i).toNat
    | .custody i, th => th.keeps.count i

/-- The ledgers bound a thread's own weights. -/
abbrev Booked (o : Options) (s : Shared) (th : Thread) : Prop := (outline o).Booked s th

/-- What the other threads may rely on when thread `a` takes a step. -/
structure Frame (s : Shared) (a : Thread) (s' : Shared) : Prop where
  nextSess : s.nextSess ≤ s'.nextSess
  sess : ∀ i < s.nextSess, SessStep (s.sess i) (s'.sess i)
  client : ∀ i < s.nextSess, (s.sess i).Detached →
    (s'.sess i).Detached ∨ (a.connects = some i ∧ ¬ Admitted s i)
  observed : ∀ x ∈ s.observed, x ∈ s'.observed
  mutex : s.mutex = true → a.inSection = false → s'.sect = s.sect ∧ s'.ssMap = s.ssMap
  admitted : s'.admitted = s.admitted ∨
    ∃ i n, a.connects = some i ∧ s'.admitted = (i, n) :: s.admitted
  done : s.flight.done = true → s'.flight.done = true

/-- What a step has to deliver. -/
structure Keeps (o : Options) (s : Shared) (a : Thread) (s' : Shared) (bs : List Thread) :
    Prop where
  frame : Frame s a s'
  keeps : (outline o).Keeps s a s' bs

/-- A step that leaves the pool, the mutex and the ghosts alone. -/
structure Quiet (s : Shared) (a : Thread) (s' : Shared) : Prop where
  done : s'.flight.done = s.flight.done
  ssMap : s'.ssMap = s.ssMap
  mutex : s'.mutex = s.mutex
  stopOnce : s'.stopOnce = s.stopOnce
  sess : ∀ i, SessStep (s.sess i) (s'.sess i)
  client : ∀ i, (s.sess i).Detached →
    (s'.sess i).Detached ∨ (a.connects = some i ∧ ¬ Admitted s i)
  nextSess : s'.nextSess = s.nextSess
  sect : s'.sect = s.sect ∨ s.mutex = false
  observed : s'.observed = s.observed
  admitted : s'.admitted = s.admitted
  returned : s'.returned = s.returned
  ran : s'.ran = s.ran
  custody : s'.custody = s.custody

section Own

variable {o : Options} {s s' : Shared} {a : Thread} {bs : List Thread}

theorem Quiet.refl (s : Shared) (a : Thread) : Quiet s a s :=
  ⟨rfl, rfl, rfl, rfl, fun _ => .refl _, fun _ => Or.inl, rfl, Or.inl rfl, rfl, rfl, rfl, rfl, rfl⟩

theorem Quiet.modSess (i : Nat) {f : Sess → Sess} (h : SessStep (s.sess i) (f (s.sess i)))
    (hc : (s.sess i).Detached →
      (f (s.sess i)).Detached ∨ (a.connects = some i ∧ ¬ Admitted s i)) :
    Quiet s a (s.modSess i f) := by
  refine ⟨rfl, rfl, rfl, rfl, fun j => ?_, fun j => ?_, rfl, Or.inl rfl, rfl, rfl, rfl, rfl, rfl⟩
  · by_cases hj : j = i
    · subst hj
      simpa [Shared.modSess] using h
    · simpa [Shared.modSess, hj] using SessStep.refl (s.sess j)
  · by_cases hj : j = i
    · subst hj
      simpa [Shared.modSess] using hc
    · simp only [Shared.modSess, Function.update_of_ne hj]
      exact Or.inl

/-- A step on the reconnect fields that does not close the client. -/
theorem Quiet.flight (f : Flight) (h : f.done = s.flight.done) :
    Quiet s a { s with flight := f } :=
  ⟨h, rfl, rfl, rfl, fun _ => .refl _, fun _ => Or.inl, rfl, Or.inl rfl, rfl, rfl, rfl, rfl, rfl⟩

theorem Quiet.enter (f : Flight) (h : f.done = s.flight.done) (hm : s.mutex = false) :
    Quiet s a (s.enter f) :=
  ⟨h, rfl, rfl, rfl, fun _ => .refl _, fun _ => Or.inl, rfl, Or.inr hm, rfl, rfl, rfl, rfl, rfl⟩

theorem Quiet.frame (hq : Quiet s a s') : Frame s a s' := by
  refine ⟨by rw [hq.nextSess], fun i _ => hq.sess i, fun i _ => hq.client i, ?_, ?_,
    Or.inl hq.admitted, ?_⟩
  · rw [hq.observed]
    exact fun _ hx => hx
  · intro hm _
    refine ⟨?_, hq.ssMap⟩
    rcases hq.sect with h | h
    · exact h
    · rw [hm] at h
      cases h
  · rw [hq.done]
    exact id

theorem Quiet.pool (hq : Quiet s a s') : s'.pool = s.pool := by
  unfold Shared.pool
  rw [hq.ssMap]

theorem Quiet.inv (hq : Quiet s a s') (hs : Inv o s) : Inv o s' := by
  have hadm : ∀ i, Admitted s' i ↔ Admitted s i := by
    intro i
    unfold Admitted
    rw [hq.admitted]
  refine ⟨?_, ?_, ?_, ?_, ?_, ?_, ?_, ?_, ?_⟩
  · rw [hq.ssMap, hq.done]
    exact hs.nil
  · rw [hq.pool]
    exact hs.cap
  · rw [hq.nextSess, hq.returned, hq.ran]
    simpa only [hadm] using hs.fresh
  · rw [hq.pool]
    simpa only [hadm] using hs.poolAdmitted
  · rw [hq.admitted, hq.observed]
    exact hs.admittedActive
  · rw [hq.returned]
    simpa only [hadm] using hs.results
  · exact fun i hi => (hq.sess i).once (hs.once i) hi
  · intro i hran hzero
    rw [hq.ran] at hran
    rw [hq.custody] at hzero
    exact (hq.sess i).closed (hs.gone i hran hzero)
  · rw [hq.stopOnce, hq.done]
    exact hs.stopped

theorem Quiet.val (hq : Quiet s a s') (i : Ledger) :
    (outline o).val i s' = (outline o).val i s := by
  cases i <;> simp [outline, hq.mutex, hq.stopOnce, hq.nextSess, hq.returned, hq.custody, hq.pool]

/-- A step that leaves the sessions and the ghosts of the pool alone. -/
theorem Frame.of_sess (hnext : s'.nextSess = s.nextSess) (hsess : s'.sess = s.sess)
    (hobs : s'.observed = s.observed) (hadm : s'.admitted = s.admitted)
    (hmutex : s.mutex = true → a.inSection = false → s'.sect = s.sect ∧ s'.ssMap = s.ssMap)
    (hdone : s.flight.done = true → s'.flight.done = true) : Frame s a s' := by
  refine ⟨Nat.le_of_eq hnext.symm, fun i _ => ?_, fun i _ hd => Or.inl ?_, ?_, hmutex,
    Or.inl hadm, hdone⟩
  · rw [hsess]
    exact .refl _
  · rw [hsess]
    exact hd
  · rw [hobs]
    exact fun _ hx => hx

/-- **Quiet steps** need only the assertions of the threads that go on. -/
theorem Quiet.keeps (hq : Quiet s a s') (hs : Inv o s) (hloc : ∀ b ∈ bs, Local s' b)
    (hwt : ∀ i, ((outline o).wt i a : Int) = total ((outline o).wt i) bs) :
    Keeps o s a s' bs :=
  ⟨hq.frame, hq.inv hs, hloc, fun i => by rw [hq.val, hwt]⟩

/-- A thread that goes on is accountable for the same things. -/
theorem wt_of_profile {b : Thread} (h : b.profile = a.profile) (i : Ledger) :
    ((outline o).wt i a : Int) = total ((outline o).wt i) [b] := by
  simp only [Thread.profile, Prod.mk.injEq] at h
  obtain ⟨h1, h2, h3, h4⟩ := h
  cases i <;> simp [outline, h1, h2, h3, h4]

/-- A quiet step of a thread that goes on. -/
theorem Quiet.keeps_one {b : Thread} (hq : Quiet s a s') (hs : Inv o s) (hloc : Local s' b)
    (hp : b.profile = a.profile) : Keeps o s a s' [b] := by
  refine hq.keeps hs ?_ (wt_of_profile hp)
  intro c hc
  rw [List.mem_singleton.mp hc]
  exact hloc

/-- Threads that are not accountable for anything. -/
def Free (bs : List Thread) : Prop := ∀ b ∈ bs, b.profile = (false, false, none, [])

theorem Free.nil : Free [] := by
  simp [Free]

theorem Free.one {b : Thread} (h : b.profile = (false, false, none, [])) : Free [b] := by
  simpa [Free] using h

theorem wt_of_free (h : Free bs) (i : Ledger) : total ((outline o).wt i) bs = 0 := by
  refine total_eq_zero _ ?_
  intro b hb
  have hp := h b hb
  simp only [Thread.profile, Prod.mk.injEq] at hp
  obtain ⟨h1, h2, h3, h4⟩ := hp
  cases i <;> simp [outline, h1, h2, h3, h4]

/-- A quiet step of a thread that is not accountable for anything. -/
theorem Quiet.keeps_free (hq : Quiet s a s') (hs : Inv o s) (ha : Free [a]) (hfree : Free bs)
    (hloc : ∀ b ∈ bs, Local s' b) : Keeps o s a s' bs := by
  refine hq.keeps hs hloc (fun i => ?_)
  have hzero : total ((outline o).wt i) [a] = 0 := wt_of_free ha i
  rw [total_cons, total_nil, Int.add_zero] at hzero
  rw [hzero, wt_of_free hfree]

/-- A quiet step before one that keeps the invariant. -/
theorem Quiet.before {s₁ : Shared} (hq : Quiet s a s₁) (hk : Keeps o s₁ a s' bs) :
    Keeps o s a s' bs := by
  have hf := hq.frame
  have hf' := hk.frame
  refine ⟨⟨Nat.le_trans hf.nextSess hf'.nextSess, ?_, ?_,
    fun x hx => hf'.observed x (hf.observed x hx), ?_, ?_, fun hd => hf'.done (hf.done hd)⟩,
    hk.keeps.inv, hk.keeps.loc, fun i => ?_⟩
  · exact fun i hi => (hf.sess i hi).trans (hf'.sess i (Nat.lt_of_lt_of_le hi hf.nextSess))
  · intro i hi hd
    rcases hf.client i hi hd with h | h
    · rcases hf'.client i (Nat.lt_of_lt_of_le hi hf.nextSess) h with h' | ⟨h', hnot⟩
      · exact Or.inl h'
      · exact Or.inr ⟨h', by simpa only [Admitted, hq.admitted] using hnot⟩
    · exact Or.inr h
  · intro hm ha
    obtain ⟨h1, h2⟩ := hf.mutex hm ha
    obtain ⟨h3, h4⟩ := hf'.mutex (hq.mutex.trans hm) ha
    exact ⟨h3.trans h1, h4.trans h2⟩
  · rcases hf'.admitted with h | ⟨i, n, hi, h⟩
    · exact Or.inl (h.trans hq.admitted)
    · exact Or.inr ⟨i, n, hi, by rw [h, hq.admitted]⟩
  · rw [← hq.val i]
    exact hk.keeps.ledger i

/-- A quiet step after one that keeps the invariant. -/
theorem Keeps.after {s₁ : Shared} {cs : List Thread} (hk : Keeps o s a s₁ bs) (hq : Quiet s₁ a s')
    (hsect : s'.sect = s₁.sect) (hsess : s'.sess = s₁.sess) (hloc : ∀ c ∈ cs, Local s' c)
    (hwt : ∀ i, total ((outline o).wt i) bs = total ((outline o).wt i) cs) :
    Keeps o s a s' cs := by
  have hf := hk.frame
  have hf' := hq.frame
  refine ⟨⟨Nat.le_trans hf.nextSess hf'.nextSess, ?_, ?_,
    fun x hx => hf'.observed x (hf.observed x hx), ?_, ?_, fun hd => hf'.done (hf.done hd)⟩,
    hq.inv hk.keeps.inv, hloc, fun i => ?_⟩
  · exact fun i hi => (hf.sess i hi).trans (hf'.sess i (Nat.lt_of_lt_of_le hi hf.nextSess))
  · intro i hi hd
    rcases hf.client i hi hd with h | h
    · rw [hsess]
      exact Or.inl h
    · exact Or.inr h
  · intro hm ha
    obtain ⟨h1, h2⟩ := hf.mutex hm ha
    exact ⟨hsect.trans h1, hq.ssMap.trans h2⟩
  · rcases hf.admitted with h | ⟨i, n, hi, h⟩
    · exact Or.inl (hq.admitted.trans h)
    · exact Or.inr ⟨i, n, hi, hq.admitted.trans h⟩
  · rw [hq.val i, ← hwt i]
    exact hk.keeps.ledger i

/-! ## What a thread knows from its ledgers -/

/-- Whoever executes the `connect` call of a session: the session exists and the
call has not returned. -/
theorem Booked.connecting {i : Nat} (hb : Booked o s a) (h : a.connects = some i) :
    i < s.nextSess ∧ s.returned i = none := by
  have hc := hb (.connects i)
  simp only [outline, h, beq_self_eq_true, Bool.toNat_true, Nat.cast_one] at hc
  by_cases hlt : i < s.nextSess
  · refine ⟨hlt, ?_⟩
    cases hr : s.returned i with
    | none => rfl
    | some b => simp [hr] at hc
  · simp [hlt] at hc

theorem Booked.stopping (hb : Booked o s a) (h : a.inStop = true) : s.stopOnce = .running := by
  have hc := hb .stopOnce
  cases ho : s.stopOnce with
  | running => rfl
  | _ => simp [outline, h, ho] at hc

theorem Booked.locked (hb : Booked o s a) (h : a.inSection = true) : s.mutex = true := by
  have hc := hb .mutex
  cases hm : s.mutex with
  | true => rfl
  | false => simp [outline, h, hm] at hc

/-- The pool is responsible for its sessions, next to the thread. -/
theorem Booked.custody_le (hb : Booked o s a) (i : Nat) :
    a.keeps.count i + s.pool.count i ≤ s.custody i := by
  have hc := hb (.custody i)
  simp only [outline] at hc
  omega

theorem Inv.lt_of_admitted (hs : Inv o s) {i : Nat} (h : Admitted s i) : i < s.nextSess := by
  by_contra hge
  exact (hs.fresh i (by omega)).2.2 h

/-! ## The mutex -/

theorem keeps_lock (hs : Inv o s) (hm : s.mutex = false) (ha : a.inSection = false) {b : Thread}
    (hloc : Local s.lock b) (hp : b.profile = (true, a.profile.2)) :
    Keeps o s a s.lock [b] := by
  simp only [Thread.profile, Prod.mk.injEq] at hp
  obtain ⟨h1, h2, h3, h4⟩ := hp
  refine ⟨.of_sess rfl rfl rfl rfl (fun h => ?_) id,
    ⟨hs.nil, hs.cap, hs.fresh, hs.poolAdmitted, hs.admittedActive, hs.results, hs.once, hs.gone,
      hs.stopped⟩, ?_, ?_⟩
  · rw [hm] at h
    cases h
  · exact List.forall_mem_singleton.mpr hloc
  · intro i
    cases i with
    | mutex => simp [outline, Shared.lock, hm, ha, h1]
    | stopOnce => simp [outline, Shared.lock, h2]
    | connects j => simp [outline, Shared.lock, h3]
    | custody j => simp [outline, Shared.lock, Shared.pool, h4]

theorem keeps_unlock (hs : Inv o s) (hb : Booked o s a) (ha : a.inSection = true)
    (hloc : ∀ b ∈ bs, Local s.unlock b) (hout : ∀ b ∈ bs, b.inSection = false)
    (hwt : ∀ i, i ≠ .mutex → ((outline o).wt i a : Int) = total ((outline o).wt i) bs) :
    Keeps o s a s.unlock bs := by
  have hm := hb.locked ha
  refine ⟨.of_sess rfl rfl rfl rfl (fun _ h => ?_) id,
    ⟨hs.nil, hs.cap, hs.fresh, hs.poolAdmitted, hs.admittedActive, hs.results, hs.once, hs.gone,
      hs.stopped⟩, hloc, ?_⟩
  · rw [ha] at h
    cases h
  · intro i
    cases i with
    | mutex =>
        have hzero : total ((outline o).wt .mutex) bs = 0 := by
          refine total_eq_zero _ ?_
          intro b hb
          simp [outline, hout b hb]
        rw [hzero]
        simp [outline, Shared.unlock, hm, ha]
    | _ => rw [hwt _ (by simp)]; rfl

/-! ## The prune loops -/

theorem delete_pool (s : Shared) (j : Nat) : (s.delete j).pool = s.pool.erase j := by
  unfold Shared.delete Shared.pool
  cases s.ssMap <;> rfl

/-- What a visited session leaves to be looked at is still in the pool. -/
theorem Pending.visit {todo : List Nat} (h : Pending s todo) (j : Nat) :
    Pending (s.visit j) (todo.erase j) := by
  intro i
  unfold Shared.visit
  have hi := h i
  split
  · exact Nat.le_trans (List.Sublist.count_le i List.erase_sublist) hi
  · have hpool : ((s.delete j).release j).pool = s.pool.erase j := delete_pool s j
    rw [hpool]
    by_cases hij : i = j
    · subst hij
      rw [List.count_erase_self, List.count_erase_self]
      omega
    · rw [List.count_erase_of_ne hij, List.count_erase_of_ne hij]
      exact hi

/-- A session is seen active in the current section. -/
theorem keeps_observe (hs : Inv o s) (j : Nat) {b : Thread} (hloc : Local (s.observe j) b)
    (hprof : b.profile = a.profile) : Keeps o s a (s.observe j) [b] := by
  refine ⟨⟨Nat.le_refl _, fun _ _ => .refl _, fun _ _ => Or.inl,
    fun _ hx => List.mem_cons_of_mem _ hx, fun _ _ => ⟨rfl, rfl⟩, Or.inl rfl, id⟩,
    ⟨hs.nil, hs.cap, hs.fresh, hs.poolAdmitted,
      fun x hx => List.mem_cons_of_mem _ (hs.admittedActive x hx), hs.results, hs.once, hs.gone,
      hs.stopped⟩, ?_, ?_⟩
  · exact List.forall_mem_singleton.mpr hloc
  · intro i
    rw [← wt_of_profile hprof i]
    cases i <;> rfl

/-- **A prune loop** removes only sessions it sees inactive. -/
theorem keeps_visit (hs : Inv o s) (hb : Booked o s a) (ha : a.inSection = true) {j : Nat}
    {todo : List Nat} (hj : j ∈ todo) (hp : Pending s todo) {b : Thread}
    (hloc : Local (s.visit j) b) (hprof : b.profile = a.profile) :
    Keeps o s a (s.visit j) [b] := by
  have hnot : ¬ a.inSection = false := by simp [ha]
  have hcount : 0 < s.pool.count j := Nat.lt_of_lt_of_le (List.count_pos_iff.mpr hj) (hp j)
  have hcust := hb.custody_le j
  unfold Shared.visit at hloc ⊢
  split at hloc
  · next hact =>
      rw [if_pos hact]
      exact keeps_observe hs j hloc hprof
  · next hact =>
      rw [if_neg hact]
      have hpool : ((s.delete j).release j).pool = s.pool.erase j := delete_pool s j
      refine ⟨.of_sess rfl rfl rfl rfl (fun _ h => absurd h hnot) id, ⟨?_, ?_, hs.fresh, ?_,
        hs.admittedActive, hs.results, hs.once, ?_, hs.stopped⟩, ?_, ?_⟩
      · simpa [Shared.release, Shared.delete] using hs.nil
      · rw [hpool]
        exact Nat.le_trans (List.length_erase_le ..) hs.cap
      · rw [hpool]
        exact fun i hi => hs.poolAdmitted i (List.mem_of_mem_erase hi)
      · intro i hran hzero
        by_cases hij : i = j
        · subst hij
          have hinactive : s.active i = false := by simpa using hact
          exact hinactive
        · refine hs.gone i hran ?_
          simpa [Shared.release, Shared.delete, hij] using hzero
      · exact List.forall_mem_singleton.mpr hloc
      · intro i
        rw [← wt_of_profile hprof i]
        cases i with
        | custody i =>
            have hval : (((s.delete j).release j).custody i : Int) - (s.pool.erase j).count i =
                s.custody i - s.pool.count i := by
              by_cases hij : i = j
              · subst hij
                rw [List.count_erase_self]
                simp only [Shared.release, Shared.delete, Function.update_self]
                omega
              · rw [List.count_erase_of_ne hij]
                simp [Shared.release, Shared.delete, hij]
            simp only [outline, hpool, hval]
        | _ => rfl

/-! ## Sessions in the hands of `connect` -/

theorem keeps_create (hs : Inv o s) (k : Caller) :
    Keeps o s (.dial k true) s.create [.connect k s.nextSess .newSession] := by
  obtain ⟨hret, hran, hadm⟩ := hs.fresh s.nextSess (Nat.le_refl _)
  refine ⟨⟨Nat.le_succ _, ?_, ?_, fun _ hx => hx, fun _ _ => ⟨rfl, rfl⟩, Or.inl rfl, id⟩,
    ⟨hs.nil, hs.cap, ?_, hs.poolAdmitted, hs.admittedActive, hs.results, ?_, ?_, hs.stopped⟩,
    ?_, ?_⟩
  · intro i hi
    have hne : i ≠ s.nextSess := by omega
    simpa [Shared.create, hne] using SessStep.refl (s.sess i)
  · intro i hi hd
    have hne : i ≠ s.nextSess := by omega
    simp only [Shared.create, Function.update_of_ne hne]
    exact Or.inl hd
  · exact fun i hi => hs.fresh i (Nat.le_of_succ_le hi)
  · intro i hfin
    by_cases hi : i = s.nextSess
    · subst hi
      simp [Shared.create, Sess.dialed] at hfin
    · simp only [Shared.create, Shared.active, Function.update_of_ne hi] at hfin ⊢
      exact hs.once i hfin
  · intro i hr hzero
    by_cases hi : i = s.nextSess
    · subst hi
      have : s.ran s.nextSess = true := hr
      rw [hran] at this
      cases this
    · simp only [Shared.create, Shared.active, Function.update_of_ne hi]
      exact hs.gone i hr hzero
  · exact List.forall_mem_singleton.mpr hadm
  · intro i
    cases i with
    | connects i =>
        by_cases hi : i = s.nextSess
        · subst hi
          simp [outline, Shared.create, Thread.connects, hret]
        · have hlt : i < s.nextSess + 1 ↔ i < s.nextSess := by omega
          have hne : s.nextSess ≠ i := fun h => hi h.symm
          simp [outline, Shared.create, Thread.connects, hlt, hne]
    | _ => rfl

theorem keeps_start (hs : Inv o s) {k : Caller} {i : Nat} (hb : Booked o s (.connect k i .run))
    (hl : ¬ Admitted s i) {pc : ConnPc} (hpc : pc = .lock ∨ pc = .check) :
    Keeps o s (.connect k i .run) (s.start i) [.connect k i pc] := by
  obtain ⟨hlt, -⟩ := hb.connecting rfl
  refine ⟨.of_sess rfl rfl rfl rfl (fun _ _ => ⟨rfl, rfl⟩) id,
    ⟨hs.nil, hs.cap, ?_, hs.poolAdmitted, hs.admittedActive, hs.results, hs.once, ?_,
    hs.stopped⟩, ?_, ?_⟩
  · intro j hj
    have hne : j ≠ i := by have : s.nextSess ≤ j := hj; omega
    obtain ⟨h1, h2, h3⟩ := hs.fresh j hj
    exact ⟨h1, by simpa [Shared.start, hne] using h2, h3⟩
  · intro j hr hzero
    by_cases hj : j = i
    · subst hj
      simp [Shared.start] at hzero
    · simp only [Shared.start, Function.update_of_ne hj] at hr hzero
      exact hs.gone j hr hzero
  · intro c hc
    rw [List.mem_singleton.mp hc]
    rcases hpc with rfl | rfl <;> exact hl
  · intro j
    cases j with
    | custody j =>
        by_cases hj : j = i
        · subst hj
          rcases hpc with rfl | rfl <;>
            simp [outline, Shared.start, Shared.pool, Thread.keeps, ConnPc.responsible] <;> omega
        · have hne : i ≠ j := fun h => hj h.symm
          rcases hpc with rfl | rfl <;>
            simp [outline, Shared.start, Shared.pool, Thread.keeps, ConnPc.responsible, hj, hne]
    | _ => rcases hpc with rfl | rfl <;> rfl

/-- **Admission.** -/
theorem keeps_addSession (hs : Inv o s) {k : Caller} {i : Nat}
    (hb : Booked o s (.connect k i .addSession))
    (hsome : s.ssMap.isSome = true) (hobs : (i, s.sect) ∈ s.observed)
    (hcap : ¬ o.number ≤ s.pool.length) :
    Keeps o s (.connect k i .addSession) (s.addSession i) [.connect k i .unlockTrue] := by
  obtain ⟨hlt, hret⟩ := hb.connecting rfl
  have hpool : (s.addSession i).pool = i :: s.pool := by
    obtain ⟨ss, hss⟩ := Option.isSome_iff_exists.mp hsome
    simp [Shared.addSession, Shared.pool, hss]
  have hadm : ∀ j, Admitted (s.addSession i) j ↔ j = i ∨ Admitted s j := by
    intro j
    constructor
    · rintro ⟨n, hn⟩
      rcases List.mem_cons.mp hn with h | h
      · exact Or.inl (congrArg Prod.fst h)
      · exact Or.inr ⟨n, h⟩
    · rintro (rfl | ⟨n, hn⟩)
      · exact ⟨s.sect, List.mem_cons_self ..⟩
      · exact ⟨n, List.mem_cons_of_mem _ hn⟩
  refine ⟨⟨Nat.le_refl _, fun _ _ => .refl _, fun _ _ => Or.inl, fun _ hx => hx, fun _ h => ?_,
    Or.inr ⟨i, s.sect, rfl, rfl⟩, id⟩, ⟨?_, ?_, ?_, ?_, ?_, ?_, hs.once, hs.gone, hs.stopped⟩,
    ?_, ?_⟩
  · cases h
  · simpa [Shared.addSession] using hs.nil
  · rw [hpool, List.length_cons]
    omega
  · intro j hj
    obtain ⟨h1, h2, h3⟩ := hs.fresh j hj
    have hge : s.nextSess ≤ j := hj
    refine ⟨h1, h2, ?_⟩
    rw [hadm]
    rintro (rfl | h)
    · omega
    · exact h3 h
  · intro j hj
    rw [hpool] at hj
    rw [hadm]
    rcases List.mem_cons.mp hj with rfl | hj
    · exact Or.inl rfl
    · exact Or.inr (hs.poolAdmitted j hj)
  · intro x hx
    rcases List.mem_cons.mp hx with rfl | hx
    · exact hobs
    · exact hs.admittedActive x hx
  · intro j b hj
    have hj' : s.returned j = some b := hj
    have hne : j ≠ i := by
      rintro rfl
      rw [hret] at hj'
      cases hj'
    rw [hadm, hs.results j b hj']
    simp [hne]
  · exact List.forall_mem_singleton.mpr ((hadm i).mpr (Or.inl rfl))
  · intro j
    cases j with
    | custody j =>
        simp only [outline, hpool, Thread.keeps, ConnPc.responsible, total_cons, total_nil]
        by_cases hj : i = j
        · subst hj
          simp only [Shared.addSession, List.count_cons_self]
          push_cast
          simp
          omega
        · simp [Shared.addSession, hj]
    | _ => rfl

/-- The return of `connect`, for whatever the thread was accountable for: it
leaves the critical section, and gives up its sessions. -/
def Shared.finish (s : Shared) (a : Thread) (i : Nat) (ok : Bool) : Shared :=
  { s with
    mutex := s.mutex && !a.inSection
    custody := fun j => s.custody j - a.keeps.count j
    returned := Function.update s.returned i (some ok) }

private theorem finish_returned {i j : Nat} (hij : j ≠ i) (ok : Bool) :
    (s.finish a i ok).returned j = s.returned j := by
  simp [Shared.finish, hij]

/-- **The return of `connect`.**  Its result says whether the session was admitted,
and sessions are given up only when they are inactive. -/
theorem keeps_finish (hs : Inv o s) (hb : Booked o s a) {i : Nat} {ok : Bool}
    (hc : a.connects = some i) (hst : a.inStop = false) (hok : ok = true ↔ Admitted s i)
    (hgone : ∀ j ∈ a.keeps, s.active j = false) (hfree : Free bs)
    (hloc : ∀ s', ∀ b ∈ bs, Local s' b) : Keeps o s a (s.finish a i ok) bs := by
  obtain ⟨hlt, hret⟩ := hb.connecting hc
  refine ⟨.of_sess rfl rfl rfl rfl (fun _ _ => ⟨rfl, rfl⟩) id,
    ⟨hs.nil, hs.cap, ?_, hs.poolAdmitted, hs.admittedActive, ?_, hs.once, ?_, hs.stopped⟩,
    hloc _, ?_⟩
  · intro j hj
    have hne : j ≠ i := by have : s.nextSess ≤ j := hj; omega
    rw [finish_returned hne]
    exact hs.fresh j hj
  · intro j b hj
    by_cases hji : j = i
    · subst hji
      simp only [Shared.finish, Function.update_self, Option.some.injEq] at hj
      subst hj
      exact hok
    · rw [finish_returned hji] at hj
      exact hs.results j b hj
  · intro j hran hzero
    by_cases hj : j ∈ a.keeps
    · exact hgone j hj
    · refine hs.gone j hran ?_
      simpa [Shared.finish, List.count_eq_zero.mpr hj] using hzero
  · intro l
    rw [wt_of_free hfree]
    cases l with
    | mutex =>
        cases ha : a.inSection with
        | true => simp [outline, Shared.finish, ha, hb.locked ha]
        | false => simp [outline, Shared.finish, ha]
    | stopOnce => simp [outline, Shared.finish, hst]
    | connects j =>
        by_cases hji : j = i
        · subst hji
          simp [outline, Shared.finish, hc, hlt, hret]
        · have hne : i ≠ j := fun h => hji h.symm
          simp [outline, Shared.finish, hc, hji, hne]
    | custody j =>
        have hcust := hb.custody_le j
        have hpool : (s.finish a i ok).pool = s.pool := rfl
        have hleft : (s.finish a i ok).custody j = s.custody j - a.keeps.count j := rfl
        simp only [outline, hpool, hleft]
        omega

/-- `connect` returns false for a session it has seen inactive, or has closed. -/
theorem keeps_giveUp (hs : Inv o s) (hb : Booked o s a) {i : Nat} (hc : a.connects = some i)
    (hst : a.inStop = false) (hk : a.keeps = [i]) (hact : s.active i = false)
    (hadm : ¬ Admitted s i) (hfree : Free bs) (hloc : ∀ s', ∀ b ∈ bs, Local s' b) :
    Keeps o s a (s.finish a i false) bs := by
  refine keeps_finish hs hb hc hst (by simpa using hadm) ?_ hfree hloc
  intro j hj
  rw [hk, List.mem_singleton] at hj
  rw [hj]
  exact hact

/-- A call that is responsible for no session gives up none. -/
theorem finish_eq_ret {i : Nat} {ok : Bool} (hk : a.keeps = []) :
    s.finish a i ok = Shared.ret { s with mutex := s.mutex && !a.inSection } i ok := by
  simp [Shared.finish, Shared.ret, hk]

/-- Giving up one session is the release of its custody. -/
theorem finish_eq_release {i : Nat} (hk : a.keeps = [i]) :
    s.finish a i false =
      (Shared.release { s with mutex := s.mutex && !a.inSection } i).ret i false := by
  have hcust : (fun j => s.custody j - a.keeps.count j) =
      Function.update s.custody i (s.custody i - 1) := by
    funext j
    rw [hk]
    by_cases hj : j = i
    · subst hj
      simp
    · have hne : i ≠ j := fun h => hj h.symm
      simp [hj, hne]
  simp [Shared.finish, Shared.release, Shared.ret, hcust]

/-! ## The body of `client.stop` -/

/-- The critical section of `client.stop` hands the pool over to the thread. -/
theorem keeps_closePool (hs : Inv o s) (hb : Booked o s .closeSection) (hm : s.mutex = false) :
    Keeps o s .closeSection s.closePool [.closeLoop s.pool] := by
  have hrun := hb.stopping rfl
  have hdone : s.closePool.flight.done = true := s.flight.stop_done
  refine ⟨.of_sess rfl rfl rfl rfl ?_ (fun _ => hdone),
    ⟨?_, Nat.zero_le _, hs.fresh, by simp [Shared.closePool, Shared.pool], hs.admittedActive,
      hs.results, hs.once, hs.gone, fun _ => hdone⟩, ?_, ?_⟩
  · intro h
    rw [hm] at h
    cases h
  · rw [hdone]
    simp [Shared.closePool]
  · exact List.forall_mem_singleton.mpr ⟨hdone, hs.poolAdmitted⟩
  · intro l
    cases l with
    | custody j =>
        simp only [outline, total_cons, total_nil, Thread.keeps]
        simp [Shared.closePool, Shared.pool]
    | _ => rfl

/-- The body of `client.stop` begins. -/
theorem keeps_close (hs : Inv o s) (hfresh : s.stopOnce = .fresh) :
    Keeps o s .close { s with stopOnce := .running } [.closeSection] := by
  refine ⟨.of_sess rfl rfl rfl rfl (fun _ _ => ⟨rfl, rfl⟩) id,
    ⟨hs.nil, hs.cap, hs.fresh, hs.poolAdmitted, hs.admittedActive, hs.results, hs.once,
    hs.gone, fun h => by cases h⟩, by simp [outline, Local], ?_⟩
  intro l
  cases l with
  | stopOnce => simp [outline, Thread.inStop, hfresh]
  | _ => rfl

/-- All sessions are closed. -/
theorem keeps_closeEnd (hs : Inv o s) (hb : Booked o s (.closeLoop []))
    (hdone : s.flight.done = true) :
    Keeps o s (.closeLoop []) { s with stopOnce := .finished } [] := by
  have hrun := hb.stopping rfl
  refine ⟨.of_sess rfl rfl rfl rfl (fun _ _ => ⟨rfl, rfl⟩) id,
    ⟨hs.nil, hs.cap, hs.fresh, hs.poolAdmitted, hs.admittedActive, hs.results, hs.once,
    hs.gone, fun _ => hdone⟩, by simp, ?_⟩
  intro l
  cases l with
  | stopOnce => simp [outline, Thread.inStop, hrun]
  | _ => rfl

/-- One session is closed: `client.stop` is no longer responsible for it. -/
theorem keeps_closed (hs : Inv o s) {i : Nat} {pc : StopPc} {rest : List Nat}
    (hb : Booked o s (.stop i pc (.pool rest))) (hact : s.active i = false)
    (hc : Closes s rest) :
    Keeps o s (.stop i pc (.pool rest)) (s.release i) [.closeLoop rest] := by
  refine ⟨.of_sess rfl rfl rfl rfl (fun _ _ => ⟨rfl, rfl⟩) id,
    ⟨hs.nil, hs.cap, hs.fresh, hs.poolAdmitted, hs.admittedActive, hs.results, hs.once,
    ?_, hs.stopped⟩, ?_, ?_⟩
  · intro j hran hzero
    by_cases hj : j = i
    · subst hj
      exact hact
    · refine hs.gone j hran ?_
      simpa [Shared.release, hj] using hzero
  · exact List.forall_mem_singleton.mpr hc
  · intro l
    cases l with
    | custody j =>
        have hcust := hb.custody_le j
        have hpool : (s.release i).pool = s.pool := rfl
        simp only [outline, hpool, total_cons, total_nil, Thread.keeps] at hcust ⊢
        by_cases hj : j = i
        · subst hj
          simp only [Shared.release, Function.update_self, List.count_cons_self] at hcust ⊢
          omega
        · have hne : i ≠ j := fun h => hj h.symm
          simp [Shared.release, hj, hne]
    | _ => rfl

end Own

end Getty.Transport.ClientPool
