import Getty.Transport.Callbacks
import Getty.Transport.SessionSafety
import Getty.Transport.SessionSteps

/-!
# Close callbacks run once, from a stable snapshot

A session with its registry of close callbacks.  `AddCloseCallback` and `RemoveCloseCallback`
hold `closeCallbackMutex` and look at `done` before they touch the registry.  The body of
`stop` closes `done` first; then it copies the registry under the same mutex and starts the
goroutine that invokes the callbacks.  The copy shares the nodes of the list, and the
goroutine walks them without a lock.

Since an operation that comes after the snapshot finds `done` closed, nobody writes to those
nodes any more.  After a reset the registry starts again with new nodes.

The fields after `locked` are ghosts.  `todo` are the writes of the operation in progress,
`base` the first address that the current generation may use, `ops` the operations that
passed the closed test, `snap` the copy that `stop` took, `started` the goroutines it
started, `calls` the callbacks invoked, and `ended` says how the goroutine got through them:
completely, or up to a callback that panicked.

## Main results

* `simulation` — a session with callbacks only reaches what `Session.prog` reaches.
* `outline_valid` — the invariant survives every step.
* `close_callbacks_once` — the callbacks are invoked once, in order, from a snapshot that
  does not change.
-/

namespace Getty.Transport.CloseCallbacks

open Getty.Verified.ThreadPool
open Getty.Verified.LinkedList
open Getty.Transport.Callbacks

/-! ## The model -/

/-- A value of type `any` other than nil: which one it is, and whether its type is
comparable. -/
structure Value where
  id : Nat
  comparable : Bool
  deriving Repr, DecidableEq

/-- A value of type `any`; `none` is nil. -/
abbrev Any := Option Value

/-- `isComparable`. -/
def isComparable : Any → Bool
  | none => true
  | some v => v.comparable

/-- No comparison panics. -/
instance : AnyValue Any := ⟨isComparable, fun v w => some (v == w)⟩

structure Shared where
  sess : Session.Shared
  mem : Mem Any
  locked : Bool
  todo : List (Write Any)
  base : Nat
  ops : Nat → List (Op Any)
  snap : Nat → Option Registry
  started : Nat → Nat
  calls : Nat → List Nat
  ended : Nat → Option Bool

def Shared.init (cfg : Session.Config) : Shared where
  sess := Session.Shared.init cfg
  mem := ⟨[], .empty⟩
  locked := false
  todo := []
  base := 0
  ops := fun _ => []
  snap := fun _ => none
  started := fun _ => 0
  calls := fun _ => []
  ended := fun _ => none

/-- `AddCloseCallback` and `RemoveCloseCallback`. -/
inductive OpPc where
  | lock
  | isClosed
  | write (todo : List (Write Any))
  | unlock
  deriving Repr, DecidableEq

/-- The goroutine of the close callbacks: before `Invoke`, at a node of its loop, or in a
callback. -/
inductive InvokePc where
  | enter (first : Option Nat)
  | node (p : Option Nat)
  | calling (node : Nat)
  deriving Repr, DecidableEq

inductive Thread where
  | sess (th : Session.Thread)
  | op (op : Op Any) (pc : OpPc)
  | invoke (l : Nat) (pc : InvokePc)
  deriving Repr, DecidableEq

abbrev Outcomes := List (Shared × List Thread)

/-- A step of the session that leaves the registry alone. -/
def lift (s : Shared) (th : Session.Thread) : Outcomes :=
  liftOutcomes (fun x _ => { s with sess := x }) .sess (Session.step s.sess th)

/-- `closeCallbacks := s.closeCallback`, and a goroutine to invoke them. -/
def Shared.snapshot (s : Shared) (l : Nat) : Shared :=
  { s with
    snap := Function.update s.snap l (some s.mem.reg)
    started := Function.update s.started l (s.started l + 1) }

/-- `s.closeCallback = callbacks{}`. -/
def Shared.clear (s : Shared) : Shared :=
  { s with mem := ⟨s.mem.nodes, .empty⟩, base := s.mem.nodes.length }

/-- The operation has passed the closed test. -/
def Shared.plan (s : Shared) (op : Op Any) (ws : List (Write Any)) : Shared :=
  { s with
    todo := ws
    ops := Function.update s.ops s.sess.gen (s.ops s.sess.gen ++ [op]) }

def Shared.write (s : Shared) (w : Write Any) (ws : List (Write Any)) : Shared :=
  { s with mem := w.apply s.mem, todo := ws }

def Shared.call (s : Shared) (l f : Nat) : Shared :=
  { s with calls := Function.update s.calls l (s.calls l ++ [f]) }

def Shared.finish (s : Shared) (l : Nat) (complete : Bool) : Shared :=
  { s with ended := Function.update s.ended l (some complete) }

/-- `AddCloseCallback` and `RemoveCloseCallback`.  If an operation panicked, the mutex
would be unlocked. -/
def opStep (s : Shared) (op : Op Any) : OpPc → Outcomes
  | .lock => if s.locked then [] else [({ s with locked := true }, [.op op .isClosed])]
  | .isClosed =>
      if s.sess.cur.done then [(s, [.op op .unlock])]
      else
        match op.writes s.mem with
        | .error _ => [(s, [.op op .unlock])]
        | .ok ws => [(s.plan op ws, [.op op (.write ws)])]
  | .write [] => [(s, [.op op .unlock])]
  | .write (w :: ws) => [(s.write w ws, [.op op (.write ws)])]
  | .unlock => [({ s with locked := false }, [])]

/-- The goroutine's end; a panic is recovered. -/
def endInvoke (s : Shared) (l : Nat) (complete : Bool) : Outcomes :=
  (lift s (.callbacks l .inside)).map (fun out => (out.1.finish l complete, out.2))

/-- `callbacks.Invoke`.  A callback may return or panic. -/
def invokeStep (s : Shared) (l : Nat) : InvokePc → Outcomes
  | .enter first =>
      (Session.step s.sess (.callbacks l .enter)).map
        (fun out => ({ s with sess := out.1 }, [.invoke l (.node first)]))
  | .node none => endInvoke s l true
  | .node (some a) =>
      match s.mem.nodes[a]? with
      | none => []
      | some c =>
          match c.val.call with
          | none => [(s, [.invoke l (.node c.next)])]
          | some f => [(s.call l f, [.invoke l (.calling a)])]
  | .calling a =>
      match s.mem.nodes[a]? with
      | none => []
      | some c => (s, [.invoke l (.node c.next)]) :: endInvoke s l false

/-- The steps of the session.  The copy of the registry and the reset wait for the mutex. -/
def sessStep (s : Shared) : Session.Thread → Outcomes
  | .stop (.closeCallbacks g l) k =>
      if s.locked then []
      else
        (Session.stopStep s.sess k (.closeCallbacks g l)).map
          (fun out => (({ s with sess := out.1 } : Shared).snapshot l,
            [.sess (.stop (.attrClient g) k), .invoke l (.enter s.mem.reg.first)]))
  | .worker (.clear l) =>
      if s.locked then []
      else (lift s (.worker (.clear l))).map (fun out => (out.1.clear, out.2))
  | .callbacks _ .enter => []
  | .callbacks _ .inside => []
  | th => lift s th

def step (s : Shared) : Thread → Outcomes
  | .sess th => sessStep s th
  | .op op pc => opStep s op pc
  | .invoke l pc => invokeStep s l pc

def prog : Prog Shared Thread where
  entry s
    | .sess th => Session.entry s.sess th
    | .op _ .lock => true
    | _ => false
  step := step

def initial (cfg : Session.Config) : Conf Shared Thread := ⟨Shared.init cfg, []⟩

/-! ## The session below -/

/-- The thread of `Session.prog`; the operations are not seen there. -/
def Thread.below : Thread → List Session.Thread
  | .sess th => [th]
  | .op _ _ => []
  | .invoke l (.enter _) => [.callbacks l .enter]
  | .invoke l _ => [.callbacks l .inside]

private theorem below_map (bs : List Session.Thread) :
    (bs.map Thread.sess).flatMap Thread.below = bs :=
  flatMap_map_below fun _ _ => rfl

section Steps

variable {s s' : Shared} {bs : List Thread}

private theorem mem_endInvoke {l : Nat} {complete : Bool} (h : (s', bs) ∈ endInvoke s l complete) :
    ∃ x, (x, [.callbacks l .release]) ∈ Session.step s.sess (.callbacks l .inside) ∧
      s' = ({ s with sess := x } : Shared).finish l complete ∧
      bs = [.sess (.callbacks l .release)] := by
  obtain ⟨⟨t, ts⟩, hmem, heq⟩ := List.mem_map.mp h
  obtain ⟨x, xs, hstep, rfl, rfl⟩ := mem_liftOutcomes hmem
  cases List.mem_singleton.mp hstep
  obtain ⟨rfl, rfl⟩ := Prod.ext_iff.mp heq
  exact ⟨_, hstep, rfl, rfl⟩

/-- What a step of the session's own threads can be: the snapshot, the reset, or one that
leaves the registry alone. -/
theorem mem_sessStep {th : Session.Thread} (h : (s', bs) ∈ sessStep s th) :
    (∃ g l k x, th = .stop (.closeCallbacks g l) k ∧ s.locked = false ∧
        (x, [.stop (.attrClient g) k, .callbacks l .enter]) ∈ Session.step s.sess th ∧
        s' = ({ s with sess := x } : Shared).snapshot l ∧
        bs = [.sess (.stop (.attrClient g) k), .invoke l (.enter s.mem.reg.first)]) ∨
      (∃ l x xs, th = .worker (.clear l) ∧ s.locked = false ∧
        (x, xs) ∈ Session.step s.sess th ∧ s' = ({ s with sess := x } : Shared).clear ∧
        bs = xs.map .sess) ∨
      (∃ x xs, th.isClear = false ∧ th.invokes = none ∧
        (∀ g l k, th ≠ .stop (.closeCallbacks g l) k) ∧
        (x, xs) ∈ Session.step s.sess th ∧ s' = { s with sess := x } ∧ bs = xs.map .sess) := by
  unfold sessStep at h
  split at h
  · next g l k =>
      split at h
      · cases h
      · next hlock =>
          obtain ⟨⟨x, xs⟩, hmem, heq⟩ := List.mem_map.mp h
          obtain ⟨rfl, rfl⟩ := Prod.ext_iff.mp heq
          cases List.mem_singleton.mp hmem
          exact Or.inl ⟨g, l, k, _, rfl, by simpa using hlock, hmem, rfl, rfl⟩
  · next l =>
      split at h
      · cases h
      · next hlock =>
          obtain ⟨⟨t, ts⟩, hmem, heq⟩ := List.mem_map.mp h
          obtain ⟨x, xs, hstep, rfl, rfl⟩ := mem_liftOutcomes hmem
          obtain ⟨rfl, rfl⟩ := Prod.ext_iff.mp heq
          exact Or.inr (Or.inl ⟨l, x, xs, rfl, by simpa using hlock, hstep, rfl, rfl⟩)
  · cases h
  · cases h
  · next hstop hclear henter hinside =>
      obtain ⟨x, xs, hstep, rfl, rfl⟩ := mem_liftOutcomes h
      refine Or.inr (Or.inr ⟨x, xs, ?_, ?_, hstop, hstep, rfl, rfl⟩)
      · cases th with
        | worker pc =>
            cases pc with
            | clear l => exact absurd rfl (hclear l)
            | _ => rfl
        | _ => rfl
      · cases th with
        | callbacks l pc =>
            cases pc with
            | enter => exact absurd rfl (henter l)
            | inside => exact absurd rfl (hinside l)
            | release => rfl
        | _ => rfl

/-- An operation is not seen below. -/
private theorem opStep_below {op : Op Any} {pc : OpPc} (h : (s', bs) ∈ opStep s op pc) :
    s'.sess = s.sess ∧ bs.flatMap Thread.below = [] := by
  cases pc with
  | lock =>
      obtain ⟨-, h⟩ := mem_blocked h
      cases h
      exact ⟨rfl, rfl⟩
  | isClosed =>
      simp only [opStep] at h
      split at h
      · cases List.mem_singleton.mp h
        exact ⟨rfl, rfl⟩
      · split at h <;> (cases List.mem_singleton.mp h; exact ⟨rfl, rfl⟩)
  | write todo =>
      cases todo with
      | nil => cases List.mem_singleton.mp h; exact ⟨rfl, rfl⟩
      | cons w ws => cases List.mem_singleton.mp h; exact ⟨rfl, rfl⟩
  | unlock => cases List.mem_singleton.mp h; exact ⟨rfl, rfl⟩

/-- The goroutine of the close callbacks enters `Invoke`, goes from node to node, calls, or
ends. -/
inductive Invoked (s : Shared) (l : Nat) : InvokePc → Shared → List Thread → Prop where
  | enter {first : Option Nat} {x : Session.Shared}
      (h : (x, [.callbacks l .inside]) ∈ Session.step s.sess (.callbacks l .enter)) :
      Invoked s l (.enter first) { s with sess := x } [.invoke l (.node first)]
  | skip {a : Nat} {c : Cell (Entry Any)} (hc : s.mem.nodes[a]? = some c)
      (hcall : c.val.call = none) :
      Invoked s l (.node (some a)) s [.invoke l (.node c.next)]
  | call {a f : Nat} {c : Cell (Entry Any)} (hc : s.mem.nodes[a]? = some c)
      (hcall : c.val.call = some f) :
      Invoked s l (.node (some a)) (s.call l f) [.invoke l (.calling a)]
  | ret {a : Nat} {c : Cell (Entry Any)} (hc : s.mem.nodes[a]? = some c) :
      Invoked s l (.calling a) s [.invoke l (.node c.next)]
  | finish {x : Session.Shared}
      (h : (x, [.callbacks l .release]) ∈ Session.step s.sess (.callbacks l .inside)) :
      Invoked s l (.node none) (({ s with sess := x } : Shared).finish l true)
        [.sess (.callbacks l .release)]
  | panic {a : Nat} {x : Session.Shared}
      (h : (x, [.callbacks l .release]) ∈ Session.step s.sess (.callbacks l .inside)) :
      Invoked s l (.calling a) (({ s with sess := x } : Shared).finish l false)
        [.sess (.callbacks l .release)]

theorem mem_invokeStep {l : Nat} {pc : InvokePc} (h : (s', bs) ∈ invokeStep s l pc) :
    Invoked s l pc s' bs := by
  cases pc with
  | enter first =>
      obtain ⟨⟨x, xs⟩, hmem, heq⟩ := List.mem_map.mp h
      obtain ⟨rfl, rfl⟩ := Prod.ext_iff.mp heq
      cases List.mem_singleton.mp hmem
      exact .enter hmem
  | node p =>
      cases p with
      | none =>
          obtain ⟨x, hstep, rfl, rfl⟩ := mem_endInvoke h
          exact .finish hstep
      | some a =>
          simp only [invokeStep] at h
          split at h
          · cases h
          · next hc =>
              split at h
              · next hcall => cases List.mem_singleton.mp h; exact .skip hc hcall
              · next hcall => cases List.mem_singleton.mp h; exact .call hc hcall
  | calling a =>
      simp only [invokeStep] at h
      split at h
      · cases h
      · next hc =>
          rcases List.mem_cons.mp h with heq | hend
          · cases heq
            exact .ret hc
          · obtain ⟨x, hstep, rfl, rfl⟩ := mem_endInvoke hend
            exact .panic hstep

/-- **Callbacks refine the session.** -/
def simulation : Simulation prog Session.prog where
  shared := Shared.sess
  thread := Thread.below
  entry := by
    intro s a pool h
    cases a with
    | sess th => exact .start pool (a := th) h
    | op op pc => simpa [Thread.below] using Prog.Leads.refl Session.prog _
    | invoke l pc => cases h
  step := by
    intro s a s' bs pool h
    cases a with
    | sess th =>
        rcases mem_sessStep h with ⟨g, l, k, x, rfl, -, hstep, rfl, rfl⟩ |
          ⟨l, x, xs, rfl, -, hstep, rfl, rfl⟩ | ⟨x, xs, -, -, -, hstep, rfl, rfl⟩
        · exact .fire pool hstep
        · rw [below_map]
          exact .fire pool hstep
        · rw [below_map]
          exact .fire pool hstep
    | op op pc =>
        obtain ⟨hsess, hbelow⟩ := opStep_below h
        rw [hsess, hbelow]
        exact .refl Session.prog _
    | invoke l pc =>
        cases mem_invokeStep h with
        | enter hstep => exact .fire pool hstep
        | skip => exact .refl Session.prog _
        | call => exact .refl Session.prog _
        | ret => exact .refl Session.prog _
        | finish hstep => exact .fire pool hstep
        | panic hstep => exact .fire pool hstep

end Steps

/-! ## The invariant -/

/-- The callbacks of some nodes. -/
def callsOf (cells : List (Nat × Entry Any)) : List Nat := cells.filterMap (fun c => c.2.call)

/-- The callbacks of the registry after the operations of generation `g`. -/
def Shared.expected (s : Shared) (g : Nat) : List Nat :=
  (entriesOf (s.ops g)).filterMap Entry.call

/-- What holds in every state.  The writes that are still to come complete the list that the
operations ask for, and stay away from the snapshots. -/
structure Inv (s : Shared) : Prop where
  rep : ∃ cells, Rep (applyAll s.todo s.mem) cells ∧
    cells.map Prod.snd = entriesOf (s.ops s.sess.gen) ∧ ∀ a ∈ addrs cells, s.base ≤ a
  quiet : s.locked = false → s.todo = []
  targets : ∀ w ∈ s.todo, ∀ a, w.target = some a → s.base ≤ a
  base : s.base ≤ s.mem.nodes.length
  future : ∀ g, s.sess.gen < g → s.snap g = none ∧ s.ops g = []
  taken : ∀ g reg, s.snap g = some reg → (s.sess.gens g).done = true ∧
    ∃ cells, Chain s.mem.nodes reg.first cells ∧ cells.map Prod.snd = entriesOf (s.ops g) ∧
      (g < s.sess.gen → ∀ a ∈ addrs cells, a < s.base)
  current : s.snap s.sess.gen ≠ none → s.todo = []
  callbacks : ∀ g, s.snap g = none ↔ (s.sess.gens g).callbacks = .fresh
  started : ∀ g, s.started g = (s.snap g).isSome.toNat
  before : ∀ g, s.snap g = none → s.calls g = [] ∧ s.ended g = none
  calls : ∀ g, s.calls g <+: s.expected g
  complete : ∀ g, s.ended g = some true → s.calls g = s.expected g
  panicked : ∀ g, s.ended g = some false → s.calls g ≠ []

/-- The goroutine of generation `l` has called the callbacks of `pre`, and `post` is left. -/
structure Walk (s : Shared) (l : Nat) (pre post : List (Nat × Entry Any)) : Prop where
  chain : ∃ reg, s.snap l = some reg ∧ Chain s.mem.nodes reg.first (pre ++ post)
  calls : s.calls l = callsOf pre
  ended : s.ended l = none

def Local (s : Shared) : Thread → Prop
  | .sess _ => True
  | .op _ .lock => True
  | .op _ .isClosed => s.todo = []
  | .op _ (.write ws) => s.todo = ws
  | .op _ .unlock => s.todo = []
  | .invoke l (.enter first) => ∃ post, Walk s l [] post ∧ first = start post
  | .invoke l (.node p) => ∃ pre post, Walk s l pre post ∧ p = start post
  | .invoke l (.calling a) => ∃ pre e post, Walk s l (pre ++ [(a, e)]) post ∧ e.call ≠ none

/-- The thread holds `closeCallbackMutex` for writing. -/
def Thread.holdsLock : Thread → Bool
  | .op _ .lock => false
  | .op _ _ => true
  | _ => false

/-- The generation whose callbacks the thread invokes. -/
def Thread.walks : Thread → Option Nat
  | .invoke l _ => some l
  | _ => none

inductive Ledger where
  | lock
  | walker (g : Nat)

/-- The goroutine of generation `g` has been started and has not ended. -/
def Shared.walking (s : Shared) (g : Nat) : Bool := (s.snap g).isSome && (s.ended g).isNone

def outline : Outline Shared Thread Ledger where
  shared := Inv
  loc := Local
  val
    | .lock, s => s.locked.toNat
    | .walker g, s => (s.walking g).toNat
  wt
    | .lock, th => th.holdsLock.toNat
    | .walker g, th => (th.walks == some g).toNat

/-- What the other threads may rely on: the writes in progress belong to whoever holds the
mutex, a snapshot and its nodes stay as they are, and only the goroutine of a generation
records its calls. -/
structure Steady (s : Shared) (a : Thread) (s' : Shared) : Prop where
  todo : a.holdsLock = false → s'.todo = s.todo
  snap : ∀ g reg, s.snap g = some reg → s'.snap g = some reg ∧ s'.ops g = s.ops g ∧
    ∀ cells, Chain s.mem.nodes reg.first cells →
      ∀ x ∈ addrs cells, s'.mem.nodes[x]? = s.mem.nodes[x]?
  walk : ∀ g, a.walks ≠ some g → s.snap g ≠ none →
    s'.calls g = s.calls g ∧ s'.ended g = s.ended g

/-- What a step has to deliver. -/
structure Keeps (s : Shared) (a : Thread) (s' : Shared) (bs : List Thread) : Prop where
  steady : Steady s a s'
  keeps : outline.Keeps s a s' bs

/-! ## Steps of the session -/

section Own

variable {s s' : Shared} {a : Thread} {bs : List Thread} {x : Session.Shared}

theorem total_sess (i : Ledger) (xs : List Session.Thread) :
    total (outline.wt i) (xs.map .sess) = 0 :=
  total_map_eq_zero _ _ fun _ _ => by cases i <;> rfl

theorem local_sess (s : Shared) (xs : List Session.Thread) : ∀ b ∈ xs.map .sess, Local s b := by
  intro b hb
  obtain ⟨th, -, rfl⟩ := List.mem_map.mp hb
  trivial

/-- The session below keeps its own invariant. -/
private theorem sess_keeps {th : Session.Thread} {xs : List Session.Thread}
    (hK : simulation.Knows Session.outline s a) (hth : th ∈ a.below)
    (h : (x, xs) ∈ Session.step s.sess th) : Session.Keeps s.sess th x xs :=
  Session.keeps_step hK.1 (hK.2 th hth).1 (hK.2 th hth).2 h

/-- Only the body of `stop` registers the close callbacks. -/
private theorem fresh_iff {y : Session.Shared} {th : Session.Thread} {xs : List Session.Thread}
    (h : (x, xs) ∈ Session.step y th) (hstop : ∀ g l k, th ≠ .stop (.closeCallbacks g l) k)
    (hinside : ∀ l, th = .callbacks l .inside → (y.gens l).callbacks ≠ .fresh) (g : Nat) :
    (x.gens g).callbacks = .fresh ↔ (y.gens g).callbacks = .fresh := by
  rcases Session.step_gen h g with hsame | ⟨f, hedit, hgen⟩
  · rw [hsame]
  · rw [hgen]
    cases hedit with
    | startCallbacks => exact absurd rfl (hstop _ _ _)
    | endCallbacks =>
        have hne := hinside g rfl
        simp [Session.Gen.endCallbacks, hne]
    | _ => exact Iff.rfl

/-- A step of the session that keeps the generation. -/
structure Same (y x : Session.Shared) : Prop where
  gen : x.gen = y.gen
  done : ∀ g, (y.gens g).done = true → (x.gens g).done = true
  fresh : ∀ g, (x.gens g).callbacks = .fresh ↔ (y.gens g).callbacks = .fresh

theorem same_of_step {th : Session.Thread} {xs : List Session.Thread}
    (hK : simulation.Knows Session.outline s a) (hth : th ∈ a.below)
    (h : (x, xs) ∈ Session.step s.sess th) (hclear : th.isClear = false)
    (hstop : ∀ g l k, th ≠ .stop (.closeCallbacks g l) k) : Same s.sess x := by
  have hframe := (sess_keeps hK hth h).frame
  refine ⟨?_, fun g => (hframe.gens g).done, fresh_iff h hstop ?_⟩
  · rcases hframe.gen with hgen | ⟨hcl, -⟩
    · exact hgen
    · rw [hclear] at hcl
      cases hcl
  · rintro l rfl
    have hbook : Session.Booked s.sess (.callbacks l .inside) := (hK.2 _ hth).2
    rw [hbook.invoking rfl]
    simp

theorem inv_sess (hinv : Inv s) (hsame : Same s.sess x) : Inv { s with sess := x } where
  rep := by
    obtain ⟨cells, hrep, hentries, hbase⟩ := hinv.rep
    refine ⟨cells, hrep, ?_, hbase⟩
    show _ = entriesOf (s.ops x.gen)
    rw [hsame.gen]
    exact hentries
  quiet := hinv.quiet
  targets := hinv.targets
  base := hinv.base
  future g hg := hinv.future g (hsame.gen ▸ hg)
  taken g reg hsnap := by
    obtain ⟨hdone, cells, hchain, hentries, hbase⟩ := hinv.taken g reg hsnap
    exact ⟨hsame.done g hdone, cells, hchain, hentries, fun hlt => hbase (hsame.gen ▸ hlt)⟩
  current h := hinv.current (by
    have h' : s.snap x.gen ≠ none := h
    rwa [hsame.gen] at h')
  callbacks g := (hinv.callbacks g).trans (hsame.fresh g).symm
  started := hinv.started
  before := hinv.before
  calls := hinv.calls
  complete := hinv.complete
  panicked := hinv.panicked

/-- Steps that leave the registry, the snapshots and the calls alone. -/
theorem steady_same (hmem : s'.mem = s.mem) (htodo : s'.todo = s.todo) (hsnap : s'.snap = s.snap)
    (hops : s'.ops = s.ops) (hcalls : s'.calls = s.calls) (hended : s'.ended = s.ended) :
    Steady s a s' where
  todo _ := htodo
  snap g reg h := ⟨by rw [hsnap]; exact h, by rw [hops], fun _ _ _ _ => by rw [hmem]⟩
  walk g _ _ := ⟨by rw [hcalls], by rw [hended]⟩

theorem keeps_sess (hinv : Inv s) (hsame : Same s.sess x)
    (hloc : ∀ b ∈ bs, Local { s with sess := x } b)
    (hwt : ∀ i, (outline.wt i a : Int) = total (outline.wt i) bs) :
    Keeps s a { s with sess := x } bs := by
  refine ⟨steady_same rfl rfl rfl rfl rfl rfl, inv_sess hinv hsame, hloc, fun i => ?_⟩
  rw [← hwt i]
  cases i <;> rfl

/-- **The snapshot.**  `done` is closed and nobody is in the middle of an operation. -/
theorem keeps_snapshot {g l : Nat} {k : Session.Cont} (hinv : Inv s) (hlock : s.locked = false)
    (hK : simulation.Knows Session.outline s (.sess (.stop (.closeCallbacks g l) k)))
    (h : (x, [.stop (.attrClient g) k, .callbacks l .enter]) ∈
      Session.step s.sess (.stop (.closeCallbacks g l) k)) :
    Keeps s (.sess (.stop (.closeCallbacks g l) k)) (({ s with sess := x } : Shared).snapshot l)
      [.sess (.stop (.attrClient g) k), .invoke l (.enter s.mem.reg.first)] := by
  have hat : Session.Local s.sess (.stop (.closeCallbacks g l) k) :=
    (hK.2 _ (List.mem_singleton.mpr rfl)).1
  obtain ⟨⟨rfl, rfl, hearly, hdone, -⟩, -⟩ := hat
  have hnone : s.snap s.sess.gen = none := (hinv.callbacks _).mpr hearly.callbacks
  have htodo := hinv.quiet hlock
  obtain ⟨hcalls, hended⟩ := hinv.before _ hnone
  obtain ⟨cells, hrep, hentries, hbase⟩ := hinv.rep
  have hchain : Chain s.mem.nodes s.mem.reg.first cells := by
    rw [htodo] at hrep
    exact hrep.chain
  cases List.mem_singleton.mp h
  refine ⟨⟨fun _ => rfl, ?_, fun _ _ _ => ⟨rfl, rfl⟩⟩, ?_, ?_, ?_⟩
  · intro j reg hj
    have hne : j ≠ s.sess.gen := by
      rintro rfl
      rw [hnone] at hj
      cases hj
    exact ⟨(Function.update_of_ne hne _ _).trans hj, rfl, fun _ _ _ _ => rfl⟩
  · refine ⟨⟨cells, hrep, hentries, hbase⟩, hinv.quiet, hinv.targets, hinv.base, ?_, ?_,
      fun _ => htodo, ?_, ?_, ?_, hinv.calls, hinv.complete, hinv.panicked⟩
    · intro j hj
      have hne : j ≠ s.sess.gen := Nat.ne_of_gt hj
      exact ⟨(Function.update_of_ne hne _ _).trans (hinv.future j hj).1, (hinv.future j hj).2⟩
    · intro j reg hj
      by_cases hj' : j = s.sess.gen
      · subst hj'
        simp only [Shared.snapshot, Function.update_self, Option.some.injEq] at hj
        subst hj
        refine ⟨?_, cells, hchain, hentries, fun hlt => absurd hlt (Nat.lt_irrefl _)⟩
        simp only [Shared.snapshot, Session.Shared.modGen, Function.update_self]
        exact hdone
      · simp only [Shared.snapshot, Function.update_of_ne hj'] at hj
        simp only [Shared.snapshot, Session.Shared.modGen, Function.update_of_ne hj']
        exact hinv.taken j reg hj
    · intro j
      by_cases hj : j = s.sess.gen
      · subst hj
        simp [Shared.snapshot, Session.Shared.modGen, Session.Gen.startCallbacks]
      · simp only [Shared.snapshot, Session.Shared.modGen, Function.update_of_ne hj]
        exact hinv.callbacks j
    · intro j
      by_cases hj : j = s.sess.gen
      · subst hj
        simp [Shared.snapshot, hinv.started, hnone]
      · simp [Shared.snapshot, hj, hinv.started]
    · intro j hj
      have hne : j ≠ s.sess.gen := by
        rintro rfl
        simp [Shared.snapshot] at hj
      exact hinv.before j ((Function.update_of_ne hne _ _).symm.trans hj)
  · intro b hb
    simp only [List.mem_cons, List.not_mem_nil, or_false] at hb
    rcases hb with rfl | rfl
    · trivial
    · exact ⟨cells, ⟨⟨s.mem.reg, Function.update_self .., hchain⟩, hcalls, hended⟩,
        hchain.start_eq⟩
  · intro i
    cases i with
    | lock => rfl
    | walker j =>
        by_cases hj : j = s.sess.gen
        · subst hj
          simp [outline, Shared.walking, Shared.snapshot, Thread.walks, hnone, hended]
        · have hj' : s.sess.gen ≠ j := Ne.symm hj
          simp [outline, Shared.walking, Shared.snapshot, Thread.walks, hj, hj']

/-- **The reset.**  The nodes of all snapshots are below the new base. -/
theorem keeps_clear {l : Nat} {xs : List Session.Thread} (hinv : Inv s) (hlock : s.locked = false)
    (h : (x, xs) ∈ Session.step s.sess (.worker (.clear l))) :
    Keeps s (.sess (.worker (.clear l))) (({ s with sess := x } : Shared).clear)
      (xs.map .sess) := by
  have htodo := hinv.quiet hlock
  cases List.mem_singleton.mp h
  have hnext := hinv.future (s.sess.gen + 1) (Nat.lt_succ_self _)
  refine ⟨⟨fun _ => rfl, fun _ _ hj => ⟨hj, rfl, fun _ _ _ _ => rfl⟩, fun _ _ _ => ⟨rfl, rfl⟩⟩,
    ?_, local_sess _ _, ?_⟩
  · refine ⟨⟨[], ?_, ?_, nofun⟩, hinv.quiet, ?_, Nat.le_refl _, ?_, ?_, fun _ => htodo,
      hinv.callbacks, hinv.started, hinv.before, hinv.calls, hinv.complete, hinv.panicked⟩
    · show Rep (applyAll s.todo ⟨s.mem.nodes, .empty⟩) []
      rw [htodo]
      exact rep_empty _
    · show [] = entriesOf (s.ops (s.sess.gen + 1))
      rw [hnext.2]
      rfl
    · show ∀ w ∈ s.todo, _
      simp [htodo]
    · intro j hj
      exact hinv.future j (Nat.lt_of_succ_lt hj)
    · intro j reg hj
      obtain ⟨hdone, cells, hchain, hentries, -⟩ := hinv.taken j reg hj
      exact ⟨hdone, cells, hchain, hentries, fun _ => hchain.lt_length⟩
  · intro i
    rw [total_sess]
    cases i <;> rfl

/-! ## Steps of the operations -/

/-- Taking and leaving the mutex. -/
private theorem inv_locked {b : Bool} (hinv : Inv s) (hb : b = false → s.todo = []) :
    Inv { s with locked := b } :=
  ⟨hinv.rep, hb, hinv.targets, hinv.base, hinv.future, hinv.taken, hinv.current, hinv.callbacks,
    hinv.started, hinv.before, hinv.calls, hinv.complete, hinv.panicked⟩

/-- The operation that passes the closed test: no snapshot has been taken. -/
theorem keeps_plan {op : Op Any} {ws : List (Write Any)} (hinv : Inv s) (hlock : s.locked = true)
    (hholds : a.holdsLock = true) (htodo : s.todo = []) (hdone : s.sess.cur.done = false)
    (hws : op.writes s.mem = .ok ws) :
    Inv (s.plan op ws) ∧ Steady s a (s.plan op ws) := by
  obtain ⟨cells, hrep, hentries, hbase⟩ := hinv.rep
  rw [htodo] at hrep
  obtain ⟨ws', hws', htakes⟩ := writes_spec (fun _ _ => Option.some_ne_none _) hrep op
  cases hws.symm.trans hws'
  obtain ⟨cells', hrep', hentries', haddrs⟩ := htakes.result
  have hnone : s.snap s.sess.gen = none := by
    cases hsnap : s.snap s.sess.gen with
    | none => rfl
    | some reg =>
        have hd : s.sess.cur.done = true := (hinv.taken _ reg hsnap).1
        rw [hdone] at hd
        cases hd
  have hops : ∀ g, g ≠ s.sess.gen → (s.plan op ws).ops g = s.ops g :=
    fun g hg => Function.update_of_ne hg _ _
  have htaken : ∀ g reg, s.snap g = some reg → (s.plan op ws).ops g = s.ops g := by
    intro g reg hsnap
    refine hops g ?_
    rintro rfl
    rw [hnone] at hsnap
    cases hsnap
  refine ⟨⟨⟨cells', hrep', ?_, ?_⟩, ?_, ?_, hinv.base, ?_, ?_, ?_, hinv.callbacks, hinv.started,
    hinv.before, ?_, ?_, hinv.panicked⟩, ?_⟩
  · have hself : (s.plan op ws).ops s.sess.gen = s.ops s.sess.gen ++ [op] :=
      Function.update_self ..
    show _ = entriesOf ((s.plan op ws).ops s.sess.gen)
    rw [hself, entriesOf_append, ← hentries]
    exact hentries'
  · intro a ha
    rcases haddrs a ha with hmem | rfl
    · exact hbase a hmem
    · exact hinv.base
  · intro h
    have hfalse : s.locked = false := h
    rw [hlock] at hfalse
    cases hfalse
  · intro w hw a ha
    exact hbase a (htakes.targets w hw a ha)
  · intro g hg
    obtain ⟨hsnap, hnil⟩ := hinv.future g hg
    exact ⟨hsnap, (hops g (Nat.ne_of_gt hg)).trans hnil⟩
  · intro g reg hsnap
    rw [htaken g reg hsnap]
    exact hinv.taken g reg hsnap
  · intro h
    exact absurd hnone h
  · intro g
    by_cases hg : g = s.sess.gen
    · rw [hg, show (s.plan op ws).calls s.sess.gen = [] from (hinv.before _ hnone).1]
      exact List.nil_prefix
    · rw [Shared.expected, hops g hg]
      exact hinv.calls g
  · intro g hg
    by_cases hgen : g = s.sess.gen
    · have hended : s.ended g = none := hgen ▸ (hinv.before _ hnone).2
      cases hended.symm.trans hg
    · rw [Shared.expected, hops g hgen]
      exact hinv.complete g hg
  · refine ⟨?_, fun g reg hsnap => ⟨hsnap, htaken g reg hsnap, fun _ _ _ _ => rfl⟩,
      fun _ _ _ => ⟨rfl, rfl⟩⟩
    intro h
    rw [hholds] at h
    cases h

/-- A write changes its target only. -/
private theorem apply_frame {w : Write Any} {m : Mem Any} {b : Nat} (hlt : b < m.nodes.length)
    (hne : w.target ≠ some b) : (w.apply m).nodes[b]? = m.nodes[b]? := by
  cases w with
  | alloc e => exact List.getElem?_append_left hlt
  | setCall node call =>
      have hb : b ≠ node := fun h => hne (h ▸ rfl)
      simp only [Write.apply]
      split
      · rfl
      · exact setVal_of_ne _ _ hb
  | setNext node next => exact setNext_of_ne _ _ (fun h => hne (h ▸ rfl))
  | _ => rfl

private theorem length_le_apply (w : Write Any) (m : Mem Any) :
    m.nodes.length ≤ (w.apply m).nodes.length := by
  cases w with
  | alloc e => exact (length_alloc m.nodes e).symm ▸ Nat.le_succ _
  | setCall node call =>
      simp only [Write.apply]
      split
      · exact Nat.le_refl _
      · exact Nat.le_of_eq (length_setVal ..).symm
  | setNext node next => exact Nat.le_of_eq (length_setNext ..).symm
  | _ => exact Nat.le_refl _

/-- A write of the current generation stays away from the nodes of the snapshots. -/
private theorem write_frame {w : Write Any} {ws : List (Write Any)} (hinv : Inv s)
    (htodo : s.todo = w :: ws) {g : Nat} {reg : Registry} {cells : List (Nat × Entry Any)}
    (hsnap : s.snap g = some reg)
    (hchain : Chain s.mem.nodes reg.first cells) :
    ∀ b ∈ addrs cells, (w.apply s.mem).nodes[b]? = s.mem.nodes[b]? := by
  obtain ⟨-, cells', hchain', -, hbelow⟩ := hinv.taken g reg hsnap
  cases hchain.unique hchain'
  have hlt : g < s.sess.gen := by
    rcases Nat.lt_trichotomy g s.sess.gen with hlt | rfl | hgt
    · exact hlt
    · have hnil := hinv.current (by rw [hsnap]; simp)
      rw [htodo] at hnil
      cases hnil
    · rw [(hinv.future g hgt).1] at hsnap
      cases hsnap
  intro b hb
  refine apply_frame (hchain.lt_length b hb) ?_
  intro htarget
  have hge := hinv.targets w (by rw [htodo]; simp) b htarget
  have hb' := hbelow hlt b hb
  omega

theorem keeps_write {w : Write Any} {ws : List (Write Any)} (hinv : Inv s) (hlock : s.locked = true)
    (hholds : a.holdsLock = true) (htodo : s.todo = w :: ws) :
    Inv (s.write w ws) ∧ Steady s a (s.write w ws) := by
  refine ⟨⟨?_, ?_, ?_, ?_, hinv.future, ?_, ?_, hinv.callbacks, hinv.started, hinv.before,
    hinv.calls, hinv.complete, hinv.panicked⟩, ?_, ?_, fun _ _ _ => ⟨rfl, rfl⟩⟩
  · have hrep := hinv.rep
    rw [htodo] at hrep
    exact hrep
  · intro h
    rw [show s.locked = false from h] at hlock
    cases hlock
  · intro v hv
    exact hinv.targets v (by rw [htodo]; exact List.mem_cons_of_mem _ hv)
  · exact Nat.le_trans hinv.base (length_le_apply w s.mem)
  · intro g reg hsnap
    obtain ⟨hdone, cells, hchain, hentries, hbase⟩ := hinv.taken g reg hsnap
    exact ⟨hdone, cells, hchain.frame (write_frame hinv htodo hsnap hchain), hentries, hbase⟩
  · intro h
    have hnil := hinv.current h
    rw [htodo] at hnil
    cases hnil
  · intro h
    rw [hholds] at h
    cases h
  · intro g reg hsnap
    exact ⟨hsnap, rfl, fun cells hchain => write_frame hinv htodo hsnap hchain⟩

/-- What an operation on the registry keeps. -/
private theorem keeps_op {op : Op Any} {pc : OpPc} (hinv : Inv s) (hloc : Local s (.op op pc))
    (hwt : ∀ i, (outline.wt i (.op op pc) : Int) ≤ outline.val i s)
    (h : (s', bs) ∈ opStep s op pc) : Keeps s (.op op pc) s' bs := by
  have hlocked : pc ≠ .lock → s.locked = true := by
    intro hpc
    have hle := hwt .lock
    cases hl : s.locked with
    | true => rfl
    | false =>
        cases pc with
        | lock => exact absurd rfl hpc
        | _ => simp [outline, Thread.holdsLock, hl] at hle
  cases pc with
  | lock =>
      obtain ⟨hfree, h⟩ := mem_blocked h
      cases h
      have hfree : s.locked = false := by simpa using hfree
      refine ⟨steady_same rfl rfl rfl rfl rfl rfl, inv_locked hinv nofun, ?_, ?_⟩
      · intro b hb
        cases List.mem_singleton.mp hb
        exact hinv.quiet hfree
      · intro i
        cases i with
        | lock => simp [outline, Thread.holdsLock, hfree]
        | walker g => rfl
  | isClosed =>
      simp only [opStep] at h
      have hkeep : Keeps s (.op op .isClosed) s [.op op .unlock] := by
        refine ⟨steady_same rfl rfl rfl rfl rfl rfl, hinv, ?_, ?_⟩
        · intro b hb
          cases List.mem_singleton.mp hb
          exact hloc
        · intro i
          cases i <;> rfl
      split at h
      · cases List.mem_singleton.mp h
        exact hkeep
      · next hdone =>
          split at h
          · cases List.mem_singleton.mp h
            exact hkeep
          · next ws hws =>
              cases List.mem_singleton.mp h
              have hholds : (Thread.op op .isClosed).holdsLock = true := rfl
              obtain ⟨hinv', hsteady⟩ := keeps_plan hinv (hlocked nofun) hholds hloc
                (by simpa using hdone) hws
              refine ⟨hsteady, hinv', ?_, ?_⟩
              · intro b hb
                cases List.mem_singleton.mp hb
                rfl
              · intro i
                cases i <;> rfl
  | write todo =>
      cases todo with
      | nil =>
          cases List.mem_singleton.mp h
          refine ⟨steady_same rfl rfl rfl rfl rfl rfl, hinv, ?_, ?_⟩
          · intro b hb
            cases List.mem_singleton.mp hb
            exact hloc
          · intro i
            cases i <;> rfl
      | cons w ws =>
          cases List.mem_singleton.mp h
          have hholds : (Thread.op op (.write (w :: ws))).holdsLock = true := rfl
          obtain ⟨hinv', hsteady⟩ := keeps_write hinv (hlocked nofun) hholds hloc
          refine ⟨hsteady, hinv', ?_, ?_⟩
          · intro b hb
            cases List.mem_singleton.mp hb
            rfl
          · intro i
            cases i <;> rfl
  | unlock =>
      cases List.mem_singleton.mp h
      refine ⟨steady_same rfl rfl rfl rfl rfl rfl, inv_locked hinv (fun _ => hloc), nofun, ?_⟩
      intro i
      cases i with
      | lock => simp [outline, Thread.holdsLock, hlocked nofun]
      | walker g => rfl

/-! ## Steps of the goroutine -/

section Walking

variable {l : Nat} {pre post : List (Nat × Entry Any)}

theorem callsOf_append (pre post : List (Nat × Entry Any)) :
    callsOf (pre ++ post) = callsOf pre ++ callsOf post := List.filterMap_append ..

/-- The nodes of a walk are those that the operations ask for. -/
theorem Walk.expected (h : Walk s l pre post) (hinv : Inv s) :
    s.expected l = callsOf (pre ++ post) := by
  obtain ⟨reg, hsnap, hchain⟩ := h.chain
  obtain ⟨-, cells, hchain', hentries, -⟩ := hinv.taken l reg hsnap
  cases hchain.unique hchain'
  rw [Shared.expected, ← hentries, List.filterMap_map]
  rfl

theorem Walk.snap_ne_none (h : Walk s l pre post) : s.snap l ≠ none := by
  obtain ⟨reg, hsnap, -⟩ := h.chain
  rw [hsnap]
  simp

/-- The node at which a walk stands. -/
theorem Walk.cell {e : Entry Any} {p : Nat} {c : Cell (Entry Any)}
    (h : Walk s l pre ((p, e) :: post)) (hc : s.mem.nodes[p]? = some c) : c = ⟨e, start post⟩ := by
  obtain ⟨reg, -, hchain⟩ := h.chain
  exact Option.some.inj (hc.symm.trans hchain.cell)

/-- The walk goes on behind a node without a callback. -/
theorem Walk.skip {e : Entry Any} {p : Nat} (h : Walk s l pre ((p, e) :: post))
    (hcall : e.call = none) : Walk s l (pre ++ [(p, e)]) post := by
  obtain ⟨reg, hsnap, hchain⟩ := h.chain
  refine ⟨⟨reg, hsnap, by simpa using hchain⟩, ?_, h.ended⟩
  rw [callsOf_append, h.calls]
  simp [callsOf, hcall]

/-- The walk goes on with the callback of a node. -/
theorem Walk.call {e : Entry Any} {p f : Nat} (h : Walk s l pre ((p, e) :: post))
    (hcall : e.call = some f) : Walk (s.call l f) l (pre ++ [(p, e)]) post := by
  obtain ⟨reg, hsnap, hchain⟩ := h.chain
  refine ⟨⟨reg, hsnap, by simpa [Shared.call] using hchain⟩, ?_, h.ended⟩
  rw [callsOf_append, ← h.calls]
  simp [Shared.call, callsOf, hcall]

theorem inv_call {e : Entry Any} {p f : Nat} (hinv : Inv s) (h : Walk s l pre ((p, e) :: post))
    (hcall : e.call = some f) : Inv (s.call l f) := by
  have hexpected := h.expected hinv
  have hwalk := h.call hcall
  have hother : ∀ g, g ≠ l → (s.call l f).calls g = s.calls g :=
    fun g hg => Function.update_of_ne hg _ _
  refine ⟨hinv.rep, hinv.quiet, hinv.targets, hinv.base, hinv.future, hinv.taken, hinv.current,
    hinv.callbacks, hinv.started, ?_, ?_, ?_, ?_⟩
  · intro g hg
    have hne : g ≠ l := by
      rintro rfl
      exact h.snap_ne_none hg
    rw [hother g hne]
    exact hinv.before g hg
  · intro g
    by_cases hg : g = l
    · subst hg
      show _ <+: s.expected g
      rw [hexpected, hwalk.calls, List.append_cons pre (p, e) post, callsOf_append _ post]
      exact List.prefix_append ..
    · rw [hother g hg]
      exact hinv.calls g
  · intro g hg
    have hne : g ≠ l := by
      rintro rfl
      cases h.ended.symm.trans hg
    rw [hother g hne]
    exact hinv.complete g hg
  · intro g hg
    have hne : g ≠ l := by
      rintro rfl
      cases h.ended.symm.trans hg
    rw [hother g hne]
    exact hinv.panicked g hg

private theorem inv_finish {complete : Bool} (hinv : Inv s) (hsnap : s.snap l ≠ none)
    (hcomplete : complete = true → s.calls l = s.expected l)
    (hpanicked : complete = false → s.calls l ≠ []) : Inv (s.finish l complete) := by
  have hother : ∀ g, g ≠ l → (s.finish l complete).ended g = s.ended g :=
    fun g hg => Function.update_of_ne hg _ _
  have hself : (s.finish l complete).ended l = some complete := Function.update_self ..
  refine ⟨hinv.rep, hinv.quiet, hinv.targets, hinv.base, hinv.future, hinv.taken, hinv.current,
    hinv.callbacks, hinv.started, ?_, hinv.calls, ?_, ?_⟩
  · intro g hg
    have hne : g ≠ l := by
      rintro rfl
      exact hsnap hg
    rw [hother g hne]
    exact hinv.before g hg
  · intro g hg
    by_cases hgl : g = l
    · subst hgl
      exact hcomplete (Option.some.inj (hself.symm.trans hg))
    · exact hinv.complete g ((hother g hgl).symm.trans hg)
  · intro g hg
    by_cases hgl : g = l
    · subst hgl
      exact hpanicked (Option.some.inj (hself.symm.trans hg))
    · exact hinv.panicked g ((hother g hgl).symm.trans hg)

/-- The goroutine ends; its session step is that of `invokeCallback`. -/
theorem keeps_finish {complete : Bool} {pc : InvokePc} (hinv : Inv s) (hsame : Same s.sess x)
    (hwalk : Walk s l pre post) (hcomplete : complete = true → s.calls l = s.expected l)
    (hpanicked : complete = false → s.calls l ≠ []) :
    Keeps s (.invoke l pc) (({ s with sess := x } : Shared).finish l complete)
      [.sess (.callbacks l .release)] := by
  refine ⟨⟨fun _ => rfl, fun _ _ hsnap => ⟨hsnap, rfl, fun _ _ _ _ => rfl⟩, ?_⟩,
    inv_finish (inv_sess hinv hsame) hwalk.snap_ne_none hcomplete hpanicked,
    local_sess _ [.callbacks l .release], ?_⟩
  · intro g hg _
    have hne : g ≠ l := fun h => hg (h ▸ rfl)
    exact ⟨rfl, Function.update_of_ne hne _ _⟩
  · intro i
    cases i with
    | lock => rfl
    | walker g =>
        obtain ⟨reg, hsnap, -⟩ := hwalk.chain
        by_cases hg : g = l
        · subst hg
          simp [outline, Shared.walking, Shared.finish, Thread.walks, hsnap, hwalk.ended]
        · have hg' : l ≠ g := Ne.symm hg
          simp [outline, Shared.walking, Shared.finish, Thread.walks, hg, hg']

theorem start_eq_some {p : Nat} (h : some p = start post) :
    ∃ e post', post = (p, e) :: post' := by
  cases post with
  | nil => cases h
  | cons c post =>
      cases h
      exact ⟨c.2, post, rfl⟩

private theorem start_eq_none (h : none = start post) : post = [] := by
  cases post with
  | nil => rfl
  | cons c post => cases h

/-- What a step of the goroutine keeps. -/
theorem keeps_invoke {pc : InvokePc} (hK : simulation.Knows Session.outline s (.invoke l pc))
    (hinv : Inv s) (hloc : Local s (.invoke l pc)) (h : (s', bs) ∈ invokeStep s l pc) :
    Keeps s (.invoke l pc) s' bs := by
  have hwt : ∀ pc' i, (outline.wt i (.invoke l pc) : Int) =
      total (outline.wt i) [.invoke l pc'] := by
    intro pc' i
    cases i <;> simp [outline, Thread.holdsLock, Thread.walks]
  have hstay : ∀ pc', Local s (.invoke l pc') → Keeps s (.invoke l pc) s [.invoke l pc'] := by
    intro pc' hloc'
    refine ⟨steady_same rfl rfl rfl rfl rfl rfl, hinv, ?_, fun i => by rw [← hwt pc' i]⟩
    intro b hb
    cases List.mem_singleton.mp hb
    exact hloc'
  cases mem_invokeStep h with
  | enter hstep =>
      obtain ⟨post, hwalk, hfirst⟩ := hloc
      refine keeps_sess hinv (same_of_step hK (List.mem_singleton.mpr rfl) hstep rfl nofun) ?_
        (hwt _)
      intro b hb
      cases List.mem_singleton.mp hb
      exact ⟨[], post, ⟨hwalk.chain, hwalk.calls, hwalk.ended⟩, hfirst⟩
  | skip hc hcall =>
      obtain ⟨pre, post, hwalk, hp⟩ := hloc
      obtain ⟨e, post, rfl⟩ := start_eq_some hp
      cases hwalk.cell hc
      exact hstay _ ⟨_, post, hwalk.skip hcall, rfl⟩
  | @call p f c hc hcall =>
      obtain ⟨pre, post, hwalk, hp⟩ := hloc
      obtain ⟨e, post, rfl⟩ := start_eq_some hp
      cases hwalk.cell hc
      refine ⟨⟨fun _ => rfl, fun _ _ hsnap => ⟨hsnap, rfl, fun _ _ _ _ => rfl⟩, ?_⟩,
        inv_call hinv hwalk hcall, ?_, fun i => ?_⟩
      · intro g hg _
        have hne : g ≠ l := fun h => hg (h ▸ rfl)
        exact ⟨Function.update_of_ne hne _ _, rfl⟩
      · intro b hb
        cases List.mem_singleton.mp hb
        have hcalls : e.call ≠ none := by
          rw [show e.call = some f from hcall]
          simp
        exact ⟨pre, e, post, hwalk.call hcall, hcalls⟩
      · rw [← hwt _ i]
        cases i <;> rfl
  | ret hc =>
      obtain ⟨pre, e, post, hwalk, -⟩ := hloc
      obtain ⟨reg, hsnap, hchain⟩ := hwalk.chain
      rw [List.append_assoc] at hchain
      have hcell := Option.some.inj (hc.symm.trans hchain.cell)
      exact hstay _ ⟨_, post, hwalk, by rw [hcell]; rfl⟩
  | finish hstep =>
      obtain ⟨pre, post, hwalk, hp⟩ := hloc
      cases start_eq_none hp
      refine keeps_finish hinv (same_of_step hK (List.mem_singleton.mpr rfl) hstep rfl nofun) hwalk
        (fun _ => ?_) nofun
      rw [hwalk.expected hinv, hwalk.calls, List.append_nil]
  | panic hstep =>
      obtain ⟨pre, e, post, hwalk, hcall⟩ := hloc
      refine keeps_finish hinv (same_of_step hK (List.mem_singleton.mpr rfl) hstep rfl nofun) hwalk
        nofun (fun _ => ?_)
      obtain ⟨f, hf⟩ := Option.ne_none_iff_exists'.mp hcall
      rw [hwalk.calls, callsOf_append]
      simp [callsOf, hf]

end Walking

/-! ## The outline -/

/-- **What a step keeps.** -/
theorem keeps_step (hK : simulation.Knows Session.outline s a) (hinv : Inv s) (hloc : Local s a)
    (hwt : ∀ i, (outline.wt i a : Int) ≤ outline.val i s) (h : (s', bs) ∈ step s a) :
    Keeps s a s' bs := by
  cases a with
  | sess th =>
      rcases mem_sessStep h with ⟨g, l, k, x, rfl, hlock, hstep, rfl, rfl⟩ |
        ⟨l, x, xs, rfl, hlock, hstep, rfl, rfl⟩ | ⟨x, xs, hclear, -, hstop, hstep, rfl, rfl⟩
      · exact keeps_snapshot hinv hlock hK hstep
      · exact keeps_clear hinv hlock hstep
      · refine keeps_sess hinv (same_of_step hK (List.mem_singleton.mpr rfl) hstep hclear hstop)
          (local_sess _ xs) ?_
        intro i
        rw [total_sess]
        cases i <;> rfl
  | op op pc => exact keeps_op hinv hloc hwt h
  | invoke l pc => exact keeps_invoke hK hinv hloc h

end Own

/-- A step of another goroutine leaves a walk alone. -/
theorem Walk.stays {s s' : Shared} {a : Thread} {l : Nat} {pre post : List (Nat × Entry Any)}
    (h : Walk s l pre post) (hst : Steady s a s') (hne : a.walks ≠ some l) :
    Walk s' l pre post := by
  have hsome := h.snap_ne_none
  obtain ⟨reg, hsnap, hchain⟩ := h.chain
  obtain ⟨hsnap', -, hnodes⟩ := hst.snap l reg hsnap
  obtain ⟨hcalls, hended⟩ := hst.walk l hne hsome
  exact ⟨⟨reg, hsnap', hchain.frame (hnodes _ hchain)⟩, hcalls.trans h.calls,
    hended.trans h.ended⟩

section Other

variable {s s' : Shared} {a b : Thread}

/-- At most one thread holds the mutex. -/
theorem holdsLock_alone (hwt : ∀ i, (outline.wt i a : Int) + outline.wt i b ≤ outline.val i s)
    (hb : b.holdsLock = true) : a.holdsLock = false := by
  have hle : (a.holdsLock.toNat : Int) + b.holdsLock.toNat ≤ s.locked.toNat := hwt .lock
  have hone := Bool.toNat_le s.locked
  rw [hb] at hle
  cases ha : a.holdsLock with
  | false => rfl
  | true =>
      simp only [ha, Bool.toNat_true] at hle
      omega

/-- At most one thread walks a snapshot. -/
private theorem walks_alone {l : Nat}
    (hwt : ∀ i, (outline.wt i a : Int) + outline.wt i b ≤ outline.val i s)
    (hb : b.walks = some l) : a.walks ≠ some l := by
  intro ha
  have hle : ((a.walks == some l).toNat : Int) + (b.walks == some l).toNat ≤
      (s.walking l).toNat := hwt (.walker l)
  have hone := Bool.toNat_le (s.walking l)
  simp only [ha, hb, beq_self_eq_true, Bool.toNat_true] at hle
  omega

private theorem local_stays (hst : Steady s a s')
    (hwt : ∀ i, (outline.wt i a : Int) + outline.wt i b ≤ outline.val i s)
    (h : Local s b) : Local s' b := by
  cases b with
  | sess th => trivial
  | op op pc =>
      cases pc with
      | lock => trivial
      | isClosed => exact (hst.todo (holdsLock_alone hwt rfl)).trans h
      | write ws => exact (hst.todo (holdsLock_alone hwt rfl)).trans h
      | unlock => exact (hst.todo (holdsLock_alone hwt rfl)).trans h
  | invoke l pc =>
      have hne : a.walks ≠ some l := walks_alone hwt rfl
      cases pc with
      | enter first =>
          obtain ⟨post, hwalk, hfirst⟩ := h
          exact ⟨post, hwalk.stays hst hne, hfirst⟩
      | node p =>
          obtain ⟨pre, post, hwalk, hp⟩ := h
          exact ⟨pre, post, hwalk.stays hst hne, hp⟩
      | calling p =>
          obtain ⟨pre, e, post, hwalk, hcall⟩ := h
          exact ⟨pre, e, post, hwalk.stays hst hne, hcall⟩

end Other

/-- **The invariant survives every step.** -/
theorem outline_valid : outline.ValidGiven prog (simulation.Knows Session.outline) where
  entry := by
    intro s a _ hentry
    cases a with
    | sess th => exact ⟨trivial, fun i => by cases i <;> rfl⟩
    | op op pc =>
        cases pc with
        | lock => exact ⟨trivial, fun i => by cases i <;> rfl⟩
        | _ => cases hentry
    | invoke l pc => cases hentry
  own := by
    intro s a s' bs hK hinv hloc hwt hstep
    have hkeeps := keeps_step hK hinv hloc hwt hstep
    exact hkeeps.keeps
  other := by
    intro s a b s' bs hK hinv hloca hlocb hwt hstep
    refine local_stays (keeps_step hK hinv hloca ?_ hstep).steady hwt hlocb
    intro i
    have hle := hwt i
    omega

/-! ## Whole runs -/

private theorem outline_initial (cfg : Session.Config) : outline.Holds (initial cfg) := by
  refine ⟨?_, nofun, ?_⟩
  · refine ⟨⟨[], rep_empty [], rfl, nofun⟩, fun _ => rfl, nofun, Nat.le_refl _,
      fun _ _ => ⟨rfl, rfl⟩, nofun, fun _ => rfl, ?_, fun _ => rfl, fun _ _ => ⟨rfl, rfl⟩,
      fun _ => List.nil_prefix, nofun, nofun⟩
    intro g
    refine ⟨fun _ => ?_, fun _ => rfl⟩
    simp only [initial, Shared.init, Session.Shared.init]
    split <;> rfl
  · intro i
    cases i <;> rfl

section Runs

variable {cfg : Session.Config} {c c' : Conf Shared Thread}

theorem outline_below (cfg : Session.Config) :
    Session.outline.Holds (simulation.conf (initial cfg)) := Session.outline_initial cfg

theorem knows_reaches (h : prog.Reaches (initial cfg) c) :
    ∀ a ∈ c.pool, simulation.Knows Session.outline c.shared a :=
  simulation.knows Session.outline_valid (outline_below cfg) c h

theorem holds_reaches (h : prog.Reaches (initial cfg) c) : outline.Holds c :=
  outline_valid.holds_run (fun _ => knows_reaches) (outline_initial cfg) h

/-- **A snapshot is stable.**  Whatever happens after it was taken, the snapshot, the operations
behind it and its nodes stay as they are. -/
theorem snapshot_stable (hreach : prog.Reaches (initial cfg) c) (h : prog.Reaches c c')
    {g : Nat} {reg : Registry} (hsnap : c.shared.snap g = some reg)
    {cells : List (Nat × Entry Any)} (hchain : Chain c.shared.mem.nodes reg.first cells) :
    c'.shared.snap g = some reg ∧ c'.shared.ops g = c.shared.ops g ∧
      ∀ p ∈ addrs cells, c'.shared.mem.nodes[p]? = c.shared.mem.nodes[p]? := by
  have hrun := h.induct (fun d => prog.Reaches (initial cfg) d ∧ d.shared.snap g = some reg ∧
    d.shared.ops g = c.shared.ops g ∧
    ∀ p ∈ addrs cells, d.shared.mem.nodes[p]? = c.shared.mem.nodes[p]?)
    ⟨hreach, hsnap, rfl, fun _ _ => rfl⟩ ?_
  · exact hrun.2
  · rintro d d' m ⟨hd, hsnapd, hopsd, hnodesd⟩ hm
    refine ⟨hd.snoc hm, ?_⟩
    rcases exec_cases hm with ⟨a, hentry, rfl⟩ | ⟨l, a, r, s', bs, hpool, hstep, rfl⟩
    · exact ⟨hsnapd, hopsd, hnodesd⟩
    · have hmem : a ∈ d.pool := by rw [hpool]; simp
      have hholds := holds_reaches hd
      have hkeeps := keeps_step (knows_reaches hd a hmem) hholds.shared (hholds.loc a hmem)
        (hholds.weight_le hmem) hstep
      obtain ⟨hsnap', hops', hnodes'⟩ := hkeeps.steady.snap g reg hsnapd
      refine ⟨hsnap', hops'.trans hopsd, fun p hp => ?_⟩
      exact (hnodes' cells (hchain.frame hnodesd) p hp).trans (hnodesd p hp)

/-- The goroutine of the close callbacks never waits. -/
private theorem invoke_step_ne_nil {s : Shared} {l : Nat} {pc : InvokePc}
    (hloc : Local s (.invoke l pc)) : step s (.invoke l pc) ≠ [] := by
  cases pc with
  | enter first => exact nofun
  | node p =>
      obtain ⟨pre, post, hwalk, hp⟩ := hloc
      cases p with
      | none => exact nofun
      | some p =>
          obtain ⟨e, post, rfl⟩ := start_eq_some hp
          obtain ⟨reg, -, hchain⟩ := hwalk.chain
          simp only [step, invokeStep, hchain.cell]
          cases e.call <;> simp
  | calling p =>
      obtain ⟨pre, e, post, hwalk, -⟩ := hloc
      obtain ⟨reg, -, hchain⟩ := hwalk.chain
      rw [List.append_assoc] at hchain
      simp only [step, invokeStep, hchain.cell]
      exact nofun

theorem reaches_fire {a b : Thread} {s' : Shared} (hmem : a ∈ c.pool)
    (h : (s', [b]) ∈ step c.shared a) : ∃ d, prog.Reaches c d ∧ d.shared = s' ∧ b ∈ d.pool := by
  obtain ⟨l, r, hreach⟩ := Prog.Reaches.fire hmem (show (s', [b]) ∈ prog.step c.shared a from h)
  exact ⟨_, hreach, rfl, by simp⟩

/-- From a node on, the goroutine gets through the rest of the list. -/
private theorem walk_finishes {g : Nat} {pre post : List (Nat × Entry Any)}
    (hwalk : Walk c.shared g pre post) (hmem : .invoke g (.node (start post)) ∈ c.pool) :
    ∃ c', prog.Reaches c c' ∧ c'.shared.ended g = some true := by
  induction post generalizing c pre with
  | nil =>
      obtain ⟨d, hreach, hshared, -⟩ := reaches_fire hmem List.mem_cons_self
      exact ⟨d, hreach, by rw [hshared]; exact Function.update_self ..⟩
  | cons x post ih =>
      obtain ⟨p, e⟩ := x
      obtain ⟨reg, -, hchain⟩ := hwalk.chain
      cases hcall : e.call with
      | none =>
          have hskip : (c.shared, [.invoke g (.node (start post))]) ∈
              step c.shared (.invoke g (.node (some p))) := by
            simp [step, invokeStep, hchain.cell, hcall]
          obtain ⟨d, hreach, hshared, hd⟩ := reaches_fire hmem hskip
          obtain ⟨c', hreach', hended⟩ := ih (hshared ▸ hwalk.skip hcall) hd
          exact ⟨c', hreach.trans hreach', hended⟩
      | some f =>
          have hinvoke : (c.shared.call g f, [.invoke g (.calling p)]) ∈
              step c.shared (.invoke g (.node (some p))) := by
            simp [step, invokeStep, hchain.cell, hcall]
          have hreturn : (c.shared.call g f, [.invoke g (.node (start post))]) ∈
              step (c.shared.call g f) (.invoke g (.calling p)) := by
            simp [step, invokeStep, Shared.call, hchain.cell]
          obtain ⟨d, hreach, hshared, hd⟩ := reaches_fire hmem hinvoke
          obtain ⟨d', hreach', hshared', hd'⟩ := reaches_fire hd (hshared ▸ hreturn)
          obtain ⟨c', hreach'', hended⟩ := ih
            ((hshared'.trans hshared) ▸ hwalk.call hcall) hd'
          exact ⟨c', hreach.trans (hreach'.trans hreach''), hended⟩

/-- The goroutine gets through its list, if the callbacks return. -/
private theorem invoke_finishes (h : prog.Reaches (initial cfg) c) {g : Nat} {pc : InvokePc}
    (hmem : .invoke g pc ∈ c.pool) :
    ∃ c', prog.Reaches c c' ∧ c'.shared.ended g = some true := by
  have hloc := (holds_reaches h).loc _ hmem
  cases pc with
  | enter first =>
      obtain ⟨post, hwalk, rfl⟩ := hloc
      obtain ⟨d, hreach, hshared, hd⟩ := reaches_fire hmem List.mem_cons_self
      have hwalk' : Walk d.shared g [] post := by
        rw [hshared]
        exact ⟨hwalk.chain, hwalk.calls, hwalk.ended⟩
      obtain ⟨c', hreach', hended⟩ := walk_finishes hwalk' hd
      exact ⟨c', hreach.trans hreach', hended⟩
  | node p =>
      obtain ⟨pre, post, hwalk, rfl⟩ := hloc
      exact walk_finishes hwalk hmem
  | calling p =>
      obtain ⟨pre, e, post, hwalk, -⟩ := hloc
      obtain ⟨reg, -, hchain⟩ := hwalk.chain
      rw [List.append_assoc] at hchain
      have hreturn : (c.shared, [.invoke g (.node (start post))]) ∈
          step c.shared (.invoke g (.calling p)) := by
        simp [step, invokeStep, hchain.cell]
      obtain ⟨d, hreach, hshared, hd⟩ := reaches_fire hmem hreturn
      obtain ⟨c', hreach', hended⟩ := walk_finishes (hshared ▸ hwalk) hd
      exact ⟨c', hreach.trans hreach', hended⟩

/-- **The close callbacks of generation `g`.** -/
structure InvokedOnce (c : Conf Shared Thread) (g : Nat) : Prop where
  /-- Whoever closes the session, at most one goroutine is started; the close that is over
  has started it. -/
  started : c.shared.started g ≤ 1
  closed : (c.shared.sess.gens g).once = .finished → c.shared.started g = 1
  /-- It is on its way or has ended, and nobody else invokes callbacks. -/
  invoking : c.pool.countP (fun th => th.walks == some g) + (c.shared.ended g).isSome.toNat =
    c.shared.started g
  /-- It never waits for anybody, and gets through the list if the callbacks return. -/
  progress : ∀ pc, .invoke g pc ∈ c.pool → step c.shared (.invoke g pc) ≠ [] ∧
    ∃ c', prog.Reaches c c' ∧ c'.shared.ended g = some true
  /-- The callbacks are invoked in the order of the registry. -/
  order : c.shared.calls g <+: c.shared.expected g
  /-- Without a panic all of them are invoked; otherwise the last one invoked is the one that
  panicked. -/
  complete : c.shared.ended g = some true → c.shared.calls g = c.shared.expected g
  panicked : c.shared.ended g = some false → c.shared.calls g ≠ []
  /-- The snapshot has the callbacks that the operations ask for, and neither it nor they
  change any more. -/
  stable : ∀ reg, c.shared.snap g = some reg →
    ∃ cells, Chain c.shared.mem.nodes reg.first cells ∧
      cells.map Prod.snd = entriesOf (c.shared.ops g) ∧
      ∀ c', prog.Reaches c c' → c'.shared.snap g = some reg ∧
        c'.shared.ops g = c.shared.ops g ∧
        ∀ p ∈ addrs cells, c'.shared.mem.nodes[p]? = c.shared.mem.nodes[p]?

/-- What an operation that makes the closed test does. -/
structure ClosedTest (s : Shared) (op : Op Any) (s' : Shared) (bs : List Thread) : Prop where
  /-- On a closed session nothing. -/
  closed : s.sess.cur.done = true → s' = s ∧ bs = [.op op .unlock]
  /-- Otherwise it is one of the operations of the generation. -/
  opened : s.sess.cur.done = false → s'.ops s.sess.gen = s.ops s.sess.gen ++ [op] ∧
    ∃ ws, op.writes s.mem = .ok ws ∧ bs = [.op op (.write ws)]

/-- **Close callbacks run exactly once, in order, from a stable snapshot.** -/
theorem close_callbacks_once (cfg : Session.Config) (c : Conf Shared Thread)
    (h : prog.Reaches (initial cfg) c) :
    (∀ g, InvokedOnce c g) ∧
      ∀ op s' bs, .op op .isClosed ∈ c.pool → (s', bs) ∈ step c.shared (.op op .isClosed) →
        ClosedTest c.shared op s' bs := by
  have hholds := holds_reaches h
  have hinv := hholds.shared
  have hsess := (simulation.holds Session.outline_valid (outline_below cfg) h).shared
  refine ⟨fun g => ⟨?_, ?_, ?_, ?_, hinv.calls g, hinv.complete g, hinv.panicked g, ?_⟩, ?_⟩
  · rw [hinv.started]
    exact Bool.toNat_le _
  · intro hfin
    have hsnap : c.shared.snap g ≠ none := by
      rw [ne_eq, hinv.callbacks]
      exact ((hsess.ok g).finished hfin).2.2.1
    rw [hinv.started, Option.isSome_iff_ne_none.mpr hsnap]
    rfl
  · have hledger := hholds.ledger (.walker g)
    have hcount := total_toNat (fun th : Thread => th.walks == some g) c.pool
    have hval : (c.shared.walking g).toNat + (c.shared.ended g).isSome.toNat =
        c.shared.started g := by
      rw [hinv.started, Shared.walking]
      cases hsnap : c.shared.snap g with
      | none => rw [(hinv.before g hsnap).2]; rfl
      | some reg => cases c.shared.ended g <;> rfl
    have hsame : ((c.shared.walking g).toNat : Int) =
        c.pool.countP (fun th => th.walks == some g) := hledger.trans hcount
    omega
  · intro pc hmem
    exact ⟨invoke_step_ne_nil (hholds.loc _ hmem), invoke_finishes h hmem⟩
  · intro reg hsnap
    obtain ⟨-, cells, hchain, hentries, -⟩ := hinv.taken g reg hsnap
    exact ⟨cells, hchain, hentries, fun c' h' => snapshot_stable h h' hsnap hchain⟩
  · intro op s' bs hmem hstep
    have htodo : c.shared.todo = [] := hholds.loc _ hmem
    obtain ⟨cells, hrep, -, -⟩ := hinv.rep
    rw [htodo] at hrep
    obtain ⟨ws, hws, -⟩ := writes_spec (fun _ _ => Option.some_ne_none _) hrep op
    have hws : op.writes c.shared.mem = .ok ws := hws
    simp only [step, opStep] at hstep
    refine ⟨fun hdone => ?_, fun hdone => ?_⟩
    · rw [if_pos hdone] at hstep
      cases List.mem_singleton.mp hstep
      exact ⟨rfl, rfl⟩
    · simp only [hdone, Bool.false_eq_true, if_false, hws] at hstep
      cases List.mem_singleton.mp hstep
      exact ⟨Function.update_self .., ws, hws, rfl⟩

/-- Two callbacks are added, the session is closed, and a removal comes after the snapshot:
both callbacks are invoked. -/
theorem close_callbacks_once_two :
    ∃ c, prog.Reaches (initial ⟨⟨false, none⟩, none, true, true⟩) c ∧
      c.shared.calls 0 = [7, 8] ∧ c.shared.ended 0 = some true ∧ InvokedOnce c 0 := by
  have hrun : ∃ c ∈ prog.run (initial ⟨⟨false, none⟩, none, true, true⟩) (List.flatten
      [[.start (.op (.add none none 7) .lock)], List.replicate 8 (.fire 0 0),
        [.start (.op (.add none (some ⟨1, true⟩) 8) .lock)], List.replicate 8 (.fire 0 0),
        [.start (.sess (.stop .readOnce .close))], List.replicate 7 (.fire 0 0),
        [.start (.op (.remove none none) .lock)], List.replicate 3 (.fire 2 0),
        List.replicate 6 (.fire 1 0)]),
      c.shared.calls 0 = [7, 8] ∧ c.shared.ended 0 = some true := by decide +kernel
  obtain ⟨c, hc, hcalls, hended⟩ := hrun
  exact ⟨c, ⟨_, hc⟩, hcalls, hended, (close_callbacks_once _ c ⟨_, hc⟩).1 0⟩

end Runs

end Getty.Transport.CloseCallbacks
