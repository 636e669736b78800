import Getty.Verified.DynamicEquality
import Getty.Verified.LinkedList

/-!
# The registry of close callbacks

`callbacks` keeps its callbacks in a singly linked list, with pointers to its first and its
last node.  `Add` and `Remove` first walk the list and then write to it.  The walk is a
search along the links, and the writes are listed one by one, so that somebody else can look
at the nodes between two of them.

Handlers and keys are values of any type.  An operation with one that is not comparable does
nothing, and one that compares two values may panic.

## Main results

* `addWrites_spec`, `removeWrites_spec` — if no comparison panics, the writes of an operation
  turn the list of a registry into the list that the operation asks for, and touch nodes of
  that list only.
-/

namespace Getty.Transport.Callbacks

open Getty.Verified.DynamicEquality (andAlso andAlso_ne_none)
open Getty.Verified.LinkedList

/-! ## The source -/

/-- The values of type `any`, as the registry sees them. -/
class AnyValue (V : Type) where
  /-- `isComparable`. -/
  isComparable : V → Bool
  /-- The operator `==`; `none` is a comparison that panics. -/
  eq : V → V → Option Bool

open AnyValue (isComparable)

/-- What a `callbackNode` holds besides its link; functions are numbered. -/
structure Entry (V : Type) where
  handler : V
  key : V
  call : Option Nat
  deriving Repr, DecidableEq

/-- The fields of a `callbacks`. -/
structure Registry where
  first : Option Nat
  last : Option Nat
  cbNum : Int
  deriving Repr, DecidableEq

/-- `callbacks{}`. -/
def Registry.empty : Registry := ⟨none, none, 0⟩

/-- The nodes ever allocated, and the registry. -/
structure Mem (V : Type) where
  nodes : Heap (Entry V)
  reg : Registry
  deriving Repr, DecidableEq

/-- One write of `Add` or `Remove`. -/
inductive Write (V : Type) where
  | alloc (e : Entry V)
  | setCall (node : Nat) (call : Nat)
  | setNext (node : Nat) (next : Option Nat)
  | setFirst (p : Option Nat)
  | setLast (p : Option Nat)
  | setNum (n : Int)
  deriving Repr, DecidableEq

/-- What makes a call panic, or not return. -/
inductive Fault where
  /-- Two values cannot be compared. -/
  | comparison
  | nilPointer
  | endless
  deriving Repr, DecidableEq

/-- A call of `Add` with a callback, or of `Remove`. -/
inductive Op (V : Type) where
  | add (handler key : V) (call : Nat)
  | remove (handler key : V)
  deriving Repr, DecidableEq

section Source

variable {V : Type}

def Write.apply (m : Mem V) : Write V → Mem V
  | .alloc e => { m with nodes := m.nodes.alloc e }
  | .setCall node call =>
      match m.nodes[node]? with
      | none => m
      | some c => { m with nodes := m.nodes.setVal node { c.val with call := some call } }
  | .setNext node next => { m with nodes := m.nodes.setNext node next }
  | .setFirst p => { m with reg := { m.reg with first := p } }
  | .setLast p => { m with reg := { m.reg with last := p } }
  | .setNum n => { m with reg := { m.reg with cbNum := n } }

def applyAll (ws : List (Write V)) (m : Mem V) : Mem V := ws.foldl Write.apply m

/-- The node that a write changes. -/
def Write.target : Write V → Option Nat
  | .setCall node _ => some node
  | .setNext node _ => some node
  | _ => none

/-- How `Remove` unlinks a node: the registry, or the node before it, gets its link. -/
def unlinkWrites (m : Mem V) (prev : Option Nat) (callback : Nat) (next : Option Nat) :
    List (Write V) :=
  if m.reg.first = some callback then [.setFirst next]
  else
    match prev with
    | some prev => [.setNext prev next]
    | none => []

variable [AnyValue V]

/-- The condition `cb.handler == handler && cb.key == key`. -/
def Entry.is (handler key : V) (e : Entry V) : Option Bool :=
  andAlso (AnyValue.eq e.handler handler) (AnyValue.eq e.key key)

/-- The loop of `Add` and `Remove` over the list. -/
def Mem.find (m : Mem V) (handler key : V) : Search :=
  m.nodes.search (Entry.is handler key) (m.nodes.length + 1) none m.reg.first

/-- `Add`. -/
def addWrites (m : Mem V) (handler key : V) (callback : Option Nat) :
    Except Fault (List (Write V)) :=
  match callback with
  | none => .ok []
  | some f =>
      if !isComparable handler || !isComparable key then .ok []
      else
        match m.find handler key with
        | .failed => .error .comparison
        | .endless => .error .endless
        | .found _ cb => .ok [.setCall cb f]
        | .absent =>
            let newItem := m.nodes.fresh
            match m.reg.first, m.reg.last with
            | none, _ =>
                .ok [.alloc ⟨handler, key, some f⟩, .setFirst (some newItem),
                  .setLast (some newItem), .setNum (m.reg.cbNum + 1)]
            | some _, some last =>
                .ok [.alloc ⟨handler, key, some f⟩, .setNext last (some newItem),
                  .setLast (some newItem), .setNum (m.reg.cbNum + 1)]
            | some _, none => .error .nilPointer

/-- `Remove`. -/
def removeWrites (m : Mem V) (handler key : V) : Except Fault (List (Write V)) :=
  if !isComparable handler || !isComparable key then .ok []
  else
    match m.find handler key with
    | .failed => .error .comparison
    | .endless => .error .endless
    | .absent => .ok []
    | .found prev callback =>
        let next := (m.nodes[callback]?).bind Cell.next
        .ok (unlinkWrites m prev callback next ++
          (if m.reg.last = some callback then [Write.setLast prev] else []) ++
          [.setNum (m.reg.cbNum - 1)])

def Op.writes (m : Mem V) : Op V → Except Fault (List (Write V))
  | .add handler key call => addWrites m handler key (some call)
  | .remove handler key => removeWrites m handler key

end Source

/-! ## The list and its meaning -/

variable {V : Type} {m : Mem V} {cells : List (Nat × Entry V)} {handler key : V}

/-- The registry's list has these cells. -/
structure Rep (m : Mem V) (cells : List (Nat × Entry V)) : Prop where
  chain : Chain m.nodes m.reg.first cells
  last : m.reg.last = lastAddr none cells
  num : m.reg.cbNum = cells.length

theorem Rep.ended (hrep : Rep m cells) :
    Ended m.nodes m.reg.first m.reg.last cells := ⟨hrep.chain, hrep.last⟩

theorem rep_empty (nodes : Heap (Entry V)) : Rep ⟨nodes, .empty⟩ [] := ⟨Chain.nil, rfl, rfl⟩

/-- The writes `ws` take the registry from `cells` to the callbacks `es`.  They change nodes
of the list only, and add at most one node to it, which is new. -/
structure Takes (m : Mem V) (cells : List (Nat × Entry V)) (ws : List (Write V))
    (es : List (Entry V)) : Prop where
  result : ∃ cells', Rep (applyAll ws m) cells' ∧ cells'.map Prod.snd = es ∧
    ∀ a ∈ addrs cells', a ∈ addrs cells ∨ a = m.nodes.length
  targets : ∀ w ∈ ws, ∀ a, w.target = some a → a ∈ addrs cells

theorem takes_nothing (hrep : Rep m cells) : Takes m cells [] (cells.map Prod.snd) :=
  ⟨⟨cells, hrep, rfl, fun _ ha => Or.inl ha⟩, by simp⟩

/-- A callback is replaced. -/
private theorem takes_setCall {pre post : List (Nat × Entry V)} {a : Nat} {v : Entry V} (call : Nat)
    (hrep : Rep m (pre ++ (a, v) :: post)) :
    Takes m (pre ++ (a, v) :: post) [.setCall a call]
      (pre.map Prod.snd ++ { v with call := some call } :: post.map Prod.snd) := by
  have hresult : applyAll [.setCall a call] m =
      { m with nodes := m.nodes.setVal a { v with call := some call } } := by
    simp only [applyAll, List.foldl_cons, List.foldl_nil, Write.apply, hrep.chain.cell]
  have hset := hrep.ended.setVal { v with call := some call }
  refine ⟨⟨pre ++ (a, { v with call := some call }) :: post, ?_, by simp, ?_⟩,
    by simp [Write.target]⟩
  · rw [hresult]
    refine ⟨hset.chain, hset.last_eq, ?_⟩
    rw [List.length_append]
    exact hrep.num.trans (by simp)
  · intro b hb
    exact Or.inl (by simpa using hb)

/-- A node is appended. -/
private theorem takes_append (hrep : Rep m cells) (e : Entry V) (ws : List (Write V))
    (hws : ws = .alloc e ::
      (match m.reg.last with
        | none => .setFirst (some m.nodes.fresh)
        | some last => .setNext last (some m.nodes.fresh)) ::
      [.setLast (some m.nodes.fresh), .setNum (m.reg.cbNum + 1)]) :
    Takes m cells ws (cells.map Prod.snd ++ [e]) := by
  subst hws
  have hended := hrep.ended
  have hnum : m.reg.cbNum + 1 = ((cells ++ [(m.nodes.fresh, e)]).length : Nat) := by
    rw [hrep.num]
    simp
  have haddrs : ∀ a ∈ addrs (cells ++ [(m.nodes.fresh, e)]),
      a ∈ addrs cells ∨ a = m.nodes.length := by
    intro a ha
    simpa [addrs, Heap.fresh] using ha
  rcases hended.cases with ⟨hfirst, hlast, -⟩ | ⟨-, l, -, hlast⟩
  · rw [hlast]
    rw [hfirst] at hended
    have hnew := hended.append_first e
    exact ⟨⟨_, ⟨hnew.chain, hnew.last_eq, hnum⟩, by simp, haddrs⟩, by simp [Write.target]⟩
  · rw [hlast] at hended ⊢
    have hnew := hended.append_last e
    refine ⟨⟨_, ⟨hnew.chain, hnew.last_eq, hnum⟩, by simp, haddrs⟩, ?_⟩
    intro w hw a ha
    simp only [List.mem_cons, List.not_mem_nil, or_false] at hw
    rcases hw with rfl | rfl | rfl | rfl
    · cases ha
    · cases ha
      exact hended.last_mem
    · cases ha
    · cases ha

/-- The link around a node: in the registry for the first one, and in the node before it
otherwise. -/
private theorem ended_unlink {pre post : List (Nat × Entry V)} {a : Nat} {v : Entry V}
    (hrep : Rep m (pre ++ (a, v) :: post)) {m' : Mem V}
    (hm : m' = applyAll (unlinkWrites m (lastAddr none pre) a (start post)) m) :
    Ended m'.nodes m'.reg.first (if m.reg.last = some a then lastAddr none pre else m.reg.last)
        (pre ++ post) ∧ m'.reg.last = m.reg.last ∧
      ∀ w ∈ unlinkWrites m (lastAddr none pre) a (start post), ∀ b, w.target = some b →
        b ∈ addrs (pre ++ (a, v) :: post) := by
  subst hm
  by_cases hfirst : m.reg.first = some a
  · have hws : unlinkWrites m (lastAddr none pre) a (start post) = [.setFirst (start post)] :=
      if_pos hfirst
    rw [hws]
    exact ⟨hrep.ended.unlink_first hfirst, rfl, by simp [Write.target]⟩
  · obtain ⟨b, hprev, hmem, hunlinked⟩ := hrep.ended.unlink_next hfirst
    have hws : unlinkWrites m (some b) a (start post) = [.setNext b (start post)] :=
      if_neg hfirst
    rw [hprev, hws]
    refine ⟨hunlinked, rfl, ?_⟩
    simp [Write.target, hmem]

private theorem applyAll_append (ws ws' : List (Write V)) (m : Mem V) :
    applyAll (ws ++ ws') m = applyAll ws' (applyAll ws m) := List.foldl_append

/-- A node is removed. -/
private theorem takes_unlink {pre post : List (Nat × Entry V)} {a : Nat} {v : Entry V}
    (hrep : Rep m (pre ++ (a, v) :: post)) :
    Takes m (pre ++ (a, v) :: post)
      (unlinkWrites m (lastAddr none pre) a (start post) ++
        (if m.reg.last = some a then [Write.setLast (lastAddr none pre)] else []) ++
        [.setNum (m.reg.cbNum - 1)])
      (pre.map Prod.snd ++ post.map Prod.snd) := by
  obtain ⟨hunlinked, hlast, htargets⟩ := ended_unlink hrep rfl
  have hnum : m.reg.cbNum - 1 = ((pre ++ post).length : Nat) := by
    rw [hrep.num]
    simp only [List.length_append, List.length_cons]
    omega
  have haddrs : ∀ b ∈ addrs (pre ++ post), b ∈ addrs (pre ++ (a, v) :: post) := by
    intro b hb
    simp only [addrs_append, addrs_cons, List.mem_append, List.mem_cons] at hb ⊢
    rcases hb with hb | hb
    · exact Or.inl hb
    · exact Or.inr (Or.inr hb)
  refine ⟨⟨pre ++ post, ?_, List.map_append, fun b hb => Or.inl (haddrs b hb)⟩, ?_⟩
  · rw [applyAll_append, applyAll_append]
    by_cases ha : m.reg.last = some a
    · rw [if_pos ha]
      exact ⟨hunlinked.chain, hrep.ended.last_unlink ▸ (if_pos ha).symm, hnum⟩
    · rw [if_neg ha]
      exact ⟨hunlinked.chain, hlast.trans (hrep.ended.last_unlink ▸ (if_neg ha).symm), hnum⟩
  · intro w hw b hb
    simp only [List.mem_append, List.mem_singleton] at hw
    rcases hw with (hw | hw) | rfl
    · exact htargets w hw b hb
    · split at hw
      · rw [List.mem_singleton.mp hw] at hb
        cases hb
      · cases hw
    · cases hb

/-! ## What the registry is for -/

variable [AnyValue V]

/-- A callback is replaced in place, or added at the end. -/
def addEntry (handler key : V) (call : Nat) : List (Entry V) → List (Entry V)
  | [] => [⟨handler, key, some call⟩]
  | e :: es =>
      if e.is handler key = some true then { e with call := some call } :: es
      else e :: addEntry handler key call es

/-- The callbacks after an operation. -/
def Op.run (es : List (Entry V)) : Op V → List (Entry V)
  | .add handler key call =>
      if isComparable handler && isComparable key then addEntry handler key call es else es
  | .remove handler key =>
      if isComparable handler && isComparable key then
        es.eraseP fun e => e.is handler key = some true
      else es

/-- The callbacks after some operations. -/
def entriesOf (ops : List (Op V)) : List (Entry V) := ops.foldl Op.run []

theorem entriesOf_append (ops : List (Op V)) (op : Op V) :
    entriesOf (ops ++ [op]) = op.run (entriesOf ops) := by
  rw [entriesOf, List.foldl_append]
  rfl

theorem addEntry_of_none {handler key : V} {es : List (Entry V)} (call : Nat)
    (h : ∀ e ∈ es, e.is handler key ≠ some true) :
    addEntry handler key call es = es ++ [⟨handler, key, some call⟩] := by
  induction es with
  | nil => rfl
  | cons e es ih =>
      obtain ⟨he, hes⟩ := List.forall_mem_cons.mp h
      rw [addEntry, if_neg he, ih hes, List.cons_append]

theorem addEntry_of_found {handler key : V} {pre post : List (Entry V)} {e : Entry V}
    (call : Nat) (hpre : ∀ x ∈ pre, x.is handler key ≠ some true)
    (he : e.is handler key = some true) :
    addEntry handler key call (pre ++ e :: post) = pre ++ { e with call := some call } :: post := by
  induction pre with
  | nil => exact if_pos he
  | cons x pre ih =>
      obtain ⟨hx, hpre⟩ := List.forall_mem_cons.mp hpre
      rw [List.cons_append, addEntry, if_neg hx, ih hpre, List.cons_append]

/-- What the loop over the list comes to, if no comparison panics. -/
theorem find_cases (hrep : Rep m cells) (hdefined : ∀ c ∈ cells, c.2.is handler key ≠ none) :
    (m.find handler key = .absent ∧ ∀ c ∈ cells, c.2.is handler key ≠ some true) ∨
      ∃ pre a v post, cells = pre ++ (a, v) :: post ∧
        (∀ c ∈ pre, c.2.is handler key ≠ some true) ∧ v.is handler key = some true ∧
        m.find handler key = .found (lastAddr none pre) a := by
  have hfuel : cells.length < m.nodes.length + 1 := Nat.lt_succ_of_le hrep.chain.length_le
  have hno : ∀ {c : Nat × Entry V}, c.2.is handler key = some false →
      c.2.is handler key ≠ some true := by
    intro c hc
    rw [hc]
    simp
  rcases hrep.chain.search_eq (Entry.is handler key) hfuel none with ⟨habsent, hall⟩ |
    ⟨pre, a, v, post, rfl, hpre, hstop⟩
  · exact Or.inl ⟨habsent, fun c hc => hno (hall c hc)⟩
  · rcases hstop with ⟨hsame, hfound⟩ | ⟨hfails, -⟩
    · exact Or.inr ⟨pre, a, v, post, rfl, fun c hc => hno (hpre c hc), hsame, hfound⟩
    · exact absurd hfails (hdefined (a, v) (by simp))

/-- **What `Add` writes.** -/
theorem addWrites_spec (hrep : Rep m cells) (hdefined : ∀ c ∈ cells, c.2.is handler key ≠ none)
    (call : Nat) :
    ∃ ws, addWrites m handler key (some call) = .ok ws ∧
      Takes m cells ws ((Op.add handler key call).run (cells.map Prod.snd)) := by
  simp only [addWrites, Op.run]
  rw [← Bool.not_and]
  cases isComparable handler && isComparable key with
  | false => exact ⟨[], rfl, takes_nothing hrep⟩
  | true =>
      simp only [Bool.not_true, Bool.false_eq_true, if_false, if_true]
      rcases find_cases hrep hdefined with ⟨habsent, hall⟩ |
        ⟨pre, a, v, post, rfl, hpre, hv, hfound⟩
      · rw [habsent, addEntry_of_none call (List.forall_mem_map.mpr hall)]
        rcases hrep.ended.cases with ⟨hfirst, hlast, -⟩ | ⟨a, l, hfirst, hlast⟩
        · rw [hfirst]
          exact ⟨_, rfl, takes_append hrep _ _ (by rw [hlast])⟩
        · rw [hfirst, hlast]
          exact ⟨_, rfl, takes_append hrep _ _ (by rw [hlast])⟩
      · rw [hfound]
        refine ⟨_, rfl, ?_⟩
        rw [List.map_append, List.map_cons, addEntry_of_found call
          (List.forall_mem_map.mpr hpre) hv]
        exact takes_setCall call hrep

theorem eraseP_of_found {pre post : List (Entry V)} {e : Entry V}
    (hpre : ∀ x ∈ pre, x.is handler key ≠ some true) (he : e.is handler key = some true) :
    ((pre ++ e :: post).eraseP fun e => e.is handler key = some true) = pre ++ post := by
  rw [List.eraseP_append_right _ (by simpa using hpre), List.eraseP_cons_of_pos (by simpa using he)]

/-- **What `Remove` writes.** -/
theorem removeWrites_spec (hrep : Rep m cells)
    (hdefined : ∀ c ∈ cells, c.2.is handler key ≠ none) :
    ∃ ws, removeWrites m handler key = .ok ws ∧
      Takes m cells ws ((Op.remove handler key).run (cells.map Prod.snd)) := by
  simp only [removeWrites, Op.run]
  rw [← Bool.not_and]
  cases isComparable handler && isComparable key with
  | false => exact ⟨[], rfl, takes_nothing hrep⟩
  | true =>
      simp only [Bool.not_true, Bool.false_eq_true, if_false, if_true]
      rcases find_cases hrep hdefined with ⟨habsent, hall⟩ |
        ⟨pre, a, v, post, rfl, hpre, hv, hfound⟩
      · rw [habsent, List.eraseP_of_forall_not
          (List.forall_mem_map.mpr fun c hc => by simpa using hall c hc)]
        exact ⟨[], rfl, takes_nothing hrep⟩
      · rw [hfound, List.map_append, List.map_cons,
          eraseP_of_found (List.forall_mem_map.mpr hpre) hv]
        simp only [hrep.chain.cell, Option.bind_some]
        exact ⟨_, rfl, takes_unlink hrep⟩

/-- What an operation writes, where no two values make a comparison panic. -/
theorem writes_spec (htotal : ∀ v w : V, AnyValue.eq v w ≠ none) (hrep : Rep m cells)
    (op : Op V) : ∃ ws, op.writes m = .ok ws ∧ Takes m cells ws (op.run (cells.map Prod.snd)) := by
  cases op with
  | add handler key call =>
      exact addWrites_spec hrep (fun _ _ => andAlso_ne_none (htotal _ _) (htotal _ _)) call
  | remove handler key =>
      exact removeWrites_spec hrep (fun _ _ => andAlso_ne_none (htotal _ _) (htotal _ _))

end Getty.Transport.Callbacks
