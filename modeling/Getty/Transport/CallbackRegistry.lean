import Getty.Transport.Callbacks
import Getty.Verified.DynamicEquality

/-!
# The callback registry as an ordered map

`callbacks` finds a callback by its handler and its key, which are values of any type, with the
operator `==`.  `Add` and `Remove` refuse a handler or a key whose type is not comparable, but
the guard looks at the type alone: what an interface inside a value holds is found only when
two values of one type are compared, and the comparison then panics.

As long as the comparisons are defined, the linked list behaves as an ordered map from pairs of
a handler and a key to functions.  The functions are those of `Callbacks`,
for values that are compared as Go compares them.

## Main results

* `registry_is_ordered_map` — every sequence of operations whose comparisons are defined keeps
  the list well formed and answers as the ordered map does.
* `registration_safe_iff` — registering never panics exactly over identifiers whose comparisons
  are defined wherever their types are comparable.
-/

namespace Getty.Transport.CallbackRegistry

open Getty.Verified.LinkedList
open Getty.Verified.DynamicEquality
open Getty.Transport.Callbacks (Registry Entry AnyValue Fault Rep rep_empty addWrites
  removeWrites applyAll addEntry addEntry_of_none addEntry_of_found eraseP_of_found addWrites_spec
  removeWrites_spec)

/-! ## An ordered map

The pairs are kept in the order in which they were added.  Keys are compared by `same`, which
need not be reflexive: a key that differs from itself is never found. -/

section OrderedMap

variable {K F : Type} (same : K → K → Bool)

/-- Replaces the function of a key in place, or adds the key at the end. -/
def insert (k : K) (f : F) (l : List (K × F)) : List (K × F) :=
  if l.any (fun e => same e.1 k) then l.map fun e => if same e.1 k then (e.1, f) else e
  else l ++ [(k, f)]

def erase (k : K) (l : List (K × F)) : List (K × F) := l.filter fun e => !same e.1 k

/-- No two keys are the same. -/
def Distinct (l : List (K × F)) : Prop :=
  (l.map Prod.fst).Pairwise fun a b => same a b = false

variable {same} {k : K} {f : F} {pre post l : List (K × F)} {e : K × F}

private theorem insert_of_absent (f : F) (h : ∀ x ∈ l, same x.1 k = false) :
    insert same k f l = l ++ [(k, f)] := by
  apply if_neg
  simpa using h

theorem erase_of_absent (h : ∀ x ∈ l, same x.1 k = false) : erase same k l = l := by
  apply List.filter_eq_self.mpr
  intro x hx
  rw [h x hx]
  rfl

private theorem replace_of_absent (f : F) (h : ∀ x ∈ l, same x.1 k = false) :
    (l.map fun e => if same e.1 k then (e.1, f) else e) = l := by
  rw [List.map_congr_left (g := id), List.map_id]
  intro x hx
  rw [h x hx]
  rfl

/-- A key that is found is not found again. -/
private theorem absent_after (hcomm : ∀ a b, same a b = same b a)
    (htrans : ∀ {a b c}, same a b = true → same b c = true → same a c = true)
    (hdistinct : Distinct same (pre ++ e :: post)) (he : same e.1 k = true) :
    ∀ x ∈ post, same x.1 k = false := by
  intro x hx
  have hne : same e.1 x.1 = false := by
    rw [Distinct, List.map_append, List.map_cons] at hdistinct
    have hrest := (List.pairwise_append.mp hdistinct).2.1
    exact (List.pairwise_cons.mp hrest).1 x.1 (List.mem_map_of_mem hx)
  cases hxk : same x.1 k with
  | false => rfl
  | true =>
      rw [hcomm] at hxk
      rw [htrans he hxk] at hne
      cases hne

private theorem insert_of_found (f : F) (hpre : ∀ x ∈ pre, same x.1 k = false)
    (he : same e.1 k = true) (hpost : ∀ x ∈ post, same x.1 k = false) :
    insert same k f (pre ++ e :: post) = pre ++ (e.1, f) :: post := by
  have hany : (pre ++ e :: post).any (fun e => same e.1 k) = true := by
    simp [he]
  rw [insert, if_pos hany, List.map_append, List.map_cons, replace_of_absent f hpre,
    replace_of_absent f hpost, if_pos he]

private theorem erase_of_found (hpre : ∀ x ∈ pre, same x.1 k = false)
    (he : same e.1 k = true) (hpost : ∀ x ∈ post, same x.1 k = false) :
    erase same k (pre ++ e :: post) = pre ++ post := by
  have hpre' := erase_of_absent hpre
  have hpost' := erase_of_absent hpost
  rw [erase] at hpre' hpost' ⊢
  rw [List.filter_append, List.filter_cons_of_neg (by simp [he]), hpre', hpost']

theorem keys_replace (k : K) (f : F) (l : List (K × F)) :
    (l.map fun e => if same e.1 k then (e.1, f) else e).map Prod.fst = l.map Prod.fst := by
  rw [List.map_map]
  apply List.map_congr_left
  intro x _
  show (if same x.1 k = true then (x.1, f) else x).1 = x.1
  split
  · rfl
  · rfl

private theorem mem_keys_insert {p : K} (hp : p ∈ (insert same k f l).map Prod.fst) :
    p ∈ l.map Prod.fst ∨ p = k := by
  unfold insert at hp
  split at hp
  · rw [keys_replace] at hp
    exact Or.inl hp
  · simpa [List.map_append] using hp

theorem keys_erase_sublist (k : K) (l : List (K × F)) :
    ((erase same k l).map Prod.fst).Sublist (l.map Prod.fst) := List.filter_sublist.map _

theorem Distinct.insert (hdistinct : Distinct same l) (k : K) (f : F) :
    Distinct same (insert same k f l) := by
  unfold Distinct CallbackRegistry.insert
  split
  · rw [keys_replace]
    exact hdistinct
  · next hany =>
      rw [List.map_append]
      refine List.pairwise_append.mpr ⟨hdistinct, List.pairwise_singleton .., ?_⟩
      intro a ha b hb
      obtain ⟨x, hx, rfl⟩ := List.mem_map.mp ha
      rw [List.mem_singleton.mp hb]
      simp only [List.any_eq_true, not_exists, not_and, Bool.not_eq_true] at hany
      exact hany x hx

theorem Distinct.erase (hdistinct : Distinct same l) (k : K) :
    Distinct same (erase same k l) := hdistinct.sublist (keys_erase_sublist k l)

end OrderedMap

/-! ## The source -/

/-- `isComparable`. -/
def isComparable : Val → Bool
  | .nil => true
  | v => v.type.comparable

instance : AnyValue Val := ⟨isComparable, Val.eq⟩

/-- A `callbackNode` without its link. -/
abbrev Node := Entry Val

abbrev Mem := Callbacks.Mem Val

def Mem.empty : Mem := ⟨[], Registry.empty⟩

/-- `Add`. -/
def add (handler key : Val) (callback : Option Nat) (m : Mem) : Except Fault Mem :=
  (addWrites m handler key callback).map (applyAll · m)

/-- `Remove`. -/
def remove (handler key : Val) (m : Mem) : Except Fault Mem :=
  (removeWrites m handler key).map (applyAll · m)

/-- The loop of `Invoke`: the functions that it calls. -/
def invokeLoop (nodes : Heap Node) : Nat → Option Nat → Except Fault (List Nat)
  | 0, _ => .error .endless
  | _ + 1, none => .ok []
  | fuel + 1, some callback =>
      match nodes[callback]? with
      | none => .error .nilPointer
      | some c =>
          match invokeLoop nodes fuel c.next with
          | .error fault => .error fault
          | .ok calls => .ok (c.val.call.toList ++ calls)

/-- `Invoke`. -/
def invoke (m : Mem) : Except Fault (List Nat) :=
  invokeLoop m.nodes (m.nodes.length + 1) m.reg.first

/-- `Len`. -/
def len (m : Mem) : Int := m.reg.cbNum

/-! ## Sequences of operations -/

/-- A call. -/
inductive Op where
  | add (handler key : Val) (callback : Option Nat)
  | remove (handler key : Val)
  | invoke
  | len
  deriving Repr, DecidableEq

/-- What a call returns, or which functions it calls. -/
inductive Reply where
  | done
  | called (fs : List Nat)
  | number (n : Int)
  deriving Repr, DecidableEq

def Op.run (m : Mem) : Op → Except Fault (Mem × Reply)
  | .add handler key callback => (CallbackRegistry.add handler key callback m).map (·, .done)
  | .remove handler key => (CallbackRegistry.remove handler key m).map (·, .done)
  | .invoke => (CallbackRegistry.invoke m).map fun fs => (m, .called fs)
  | .len => .ok (m, .number (CallbackRegistry.len m))

def run : List Op → Mem → Except Fault (Mem × List Reply)
  | [], m => .ok (m, [])
  | op :: ops, m =>
      match op.run m with
      | .error fault => .error fault
      | .ok (m, reply) =>
          match run ops m with
          | .error fault => .error fault
          | .ok (m, replies) => .ok (m, reply :: replies)

/-- The handlers of a call. -/
def Op.handlers : Op → List Val
  | .add handler _ _ => [handler]
  | .remove handler _ => [handler]
  | .invoke => []
  | .len => []

/-- The keys of a call. -/
def Op.keys : Op → List Val
  | .add _ key _ => [key]
  | .remove _ key => [key]
  | .invoke => []
  | .len => []

/-! ## What the registry is for -/

/-- Two pairs of a handler and a key are equal. -/
def same (p q : Val × Val) : Bool := p.1.eq q.1 == some true && p.2.eq q.2 == some true

/-- Functions by their handler and key. -/
abbrev Pairs := List ((Val × Val) × Nat)

/-- The ordered map after a call, and what the call returns. -/
def Op.spec (l : Pairs) : Op → Pairs × Reply
  | .add _ _ none => (l, .done)
  | .add handler key (some f) => (insert same (handler, key) f l, .done)
  | .remove handler key => (erase same (handler, key) l, .done)
  | .invoke => (l, .called (l.map Prod.snd))
  | .len => (l, .number l.length)

def specRun : List Op → Pairs → Pairs × List Reply
  | [], l => (l, [])
  | op :: ops, l =>
      ((specRun ops (op.spec l).1).1, (op.spec l).2 :: (specRun ops (op.spec l).1).2)

theorem same_eq_true {p q : Val × Val} :
    same p q = true ↔ p.1.eq q.1 = some true ∧ p.2.eq q.2 = some true := by
  simp [same]

private theorem same_comm (p q : Val × Val) : same p q = same q p := by
  rw [same, same, Val.eq_comm p.1, Val.eq_comm p.2]

private theorem same_trans {p q r : Val × Val} (hpq : same p q = true) (hqr : same q r = true) :
    same p r = true := by
  rw [same_eq_true] at hpq hqr ⊢
  exact ⟨Val.eq_trans hpq.1 hqr.1, Val.eq_trans hpq.2 hqr.2⟩

/-! ## The list and the map -/

/-- The node of a pair. -/
def Node.of (e : (Val × Val) × Nat) : Node := ⟨e.1.1, e.1.2, some e.2⟩

/-- The registry's list holds the pairs `l`, with handlers in `H` and keys in `K`. -/
structure Represents (H K : Val → Prop) (m : Mem) (l : Pairs) : Prop where
  list : ∃ cells, Rep m cells ∧ cells.map Prod.snd = l.map Node.of
  distinct : Distinct same l
  known : ∀ p ∈ l.map Prod.fst, H p.1 ∧ K p.2

section Refinement

variable {H K : Val → Prop} {m : Mem} {l : Pairs} {handler key : Val}

theorem represents_empty : Represents H K Mem.empty [] :=
  ⟨⟨[], rep_empty _, rfl⟩, List.Pairwise.nil, by simp⟩

theorem Represents.num (hrep : Represents H K m l) : m.reg.cbNum = l.length := by
  obtain ⟨cells, hlist, hcells⟩ := hrep.list
  have hlength : cells.length = l.length := by
    simpa using congrArg List.length hcells
  rw [hlist.num, hlength]

theorem is_of_eq_true {e : (Val × Val) × Nat} :
    (Node.of e).is handler key = some true ↔ same e.1 (handler, key) = true := by
  rw [same_eq_true]
  exact andAlso_eq_true

theorem is_of_ne_true {e : (Val × Val) × Nat} (h : same e.1 (handler, key) = false) :
    (Node.of e).is handler key ≠ some true := by
  rw [ne_eq, is_of_eq_true, h]
  exact Bool.false_ne_true

/-- The first pair that is the same as this one, if there is any. -/
theorem first_cases (hdistinct : Distinct same l) (p : Val × Val) :
    (∀ e ∈ l, same e.1 p = false) ∨
      ∃ pre e post, l = pre ++ e :: post ∧ (∀ x ∈ pre, same x.1 p = false) ∧
        same e.1 p = true ∧ ∀ x ∈ post, same x.1 p = false := by
  cases hfind : l.find? (fun e => same e.1 p) with
  | none => exact Or.inl (by simpa using hfind)
  | some e =>
      obtain ⟨he, pre, post, rfl, hpre⟩ := List.find?_eq_some_iff_append.mp hfind
      exact Or.inr ⟨pre, e, post, rfl, by simpa using hpre, he,
        absent_after same_comm same_trans hdistinct he⟩

/-- Adding to the nodes adds to the map. -/
private theorem addEntry_eq_insert (hdistinct : Distinct same l) (f : Nat) :
    addEntry handler key f (l.map Node.of) = (insert same (handler, key) f l).map Node.of := by
  rcases first_cases hdistinct (handler, key) with hall | ⟨pre, e, post, rfl, hpre, he, hpost⟩
  · rw [insert_of_absent f hall, List.map_append,
      addEntry_of_none f (List.forall_mem_map.mpr fun x hx => is_of_ne_true (hall x hx))]
    rfl
  · rw [insert_of_found f hpre he hpost, List.map_append, List.map_cons, List.map_append,
      addEntry_of_found f (List.forall_mem_map.mpr fun x hx => is_of_ne_true (hpre x hx))
        (is_of_eq_true.mpr he)]
    rfl

/-- Removing from the nodes removes from the map. -/
private theorem eraseP_eq_erase (hdistinct : Distinct same l) :
    ((l.map Node.of).eraseP fun e => e.is handler key = some true) =
      (erase same (handler, key) l).map Node.of := by
  rcases first_cases hdistinct (handler, key) with hall | ⟨pre, e, post, rfl, hpre, he, hpost⟩
  · rw [erase_of_absent hall, List.eraseP_of_forall_not]
    refine List.forall_mem_map.mpr fun x hx => ?_
    simpa using is_of_ne_true (hall x hx)
  · rw [erase_of_found hpre he hpost, List.map_append, List.map_cons, List.map_append,
      eraseP_of_found (List.forall_mem_map.mpr fun x hx => is_of_ne_true (hpre x hx))
        (is_of_eq_true.mpr he)]

/-- The comparisons with the nodes of a registry are defined. -/
theorem defined_of_known (hrep : Represents H K m l)
    (hhandler : ∀ h, H h → h.eq handler ≠ none) (hkey : ∀ k, K k → k.eq key ≠ none)
    {cells : List (Nat × Node)} (hcells : cells.map Prod.snd = l.map Node.of) :
    ∀ c ∈ cells, c.2.is handler key ≠ none := by
  intro c hc
  obtain ⟨e, he, hce⟩ := List.mem_map.mp (hcells ▸ List.mem_map_of_mem hc)
  obtain ⟨hh, hk⟩ := hrep.known e.1 (List.mem_map_of_mem he)
  rw [← hce]
  exact andAlso_ne_none (hhandler _ hh) (hkey _ hk)

/-- **`Add`** replaces the function of a pair in place, or appends the pair. -/
theorem add_spec (hrep : Represents H K m l) (hh : H handler) (hk : K key)
    (hhandler : ∀ h, H h → h.eq handler ≠ none) (hkey : ∀ k, K k → k.eq key ≠ none)
    (hcomparable : isComparable handler = true ∧ isComparable key = true) (f : Nat) :
    ∃ m', add handler key (some f) m = .ok m' ∧
      Represents H K m' (insert same (handler, key) f l) := by
  obtain ⟨cells, hlist, hcells⟩ := hrep.list
  obtain ⟨ws, hws, htakes⟩ :=
    addWrites_spec hlist (defined_of_known hrep hhandler hkey hcells) f
  obtain ⟨cells', hlist', hcells', -⟩ := htakes.result
  refine ⟨applyAll ws m, by rw [add, hws]; rfl, ⟨cells', hlist', ?_⟩, hrep.distinct.insert _ _,
    fun p hp => ?_⟩
  · rw [hcells', hcells, ← addEntry_eq_insert hrep.distinct]
    exact if_pos (Bool.and_eq_true_iff.mpr hcomparable)
  · rcases mem_keys_insert hp with hp | rfl
    · exact hrep.known p hp
    · exact ⟨hh, hk⟩

/-- **`Remove`** deletes the pair and keeps the order of the others. -/
theorem remove_spec (hrep : Represents H K m l)
    (hhandler : ∀ h, H h → h.eq handler ≠ none) (hkey : ∀ k, K k → k.eq key ≠ none)
    (hcomparable : isComparable handler = true ∧ isComparable key = true) :
    ∃ m', remove handler key m = .ok m' ∧ Represents H K m' (erase same (handler, key) l) := by
  obtain ⟨cells, hlist, hcells⟩ := hrep.list
  obtain ⟨ws, hws, htakes⟩ :=
    removeWrites_spec hlist (defined_of_known hrep hhandler hkey hcells)
  obtain ⟨cells', hlist', hcells', -⟩ := htakes.result
  refine ⟨applyAll ws m, by rw [remove, hws]; rfl, ⟨cells', hlist', ?_⟩, hrep.distinct.erase _,
    fun p hp => hrep.known p ((keys_erase_sublist _ _).subset hp)⟩
  rw [hcells', hcells, ← eraseP_eq_erase hrep.distinct]
  exact if_pos (Bool.and_eq_true_iff.mpr hcomparable)

/-- The loop of `Invoke` calls the functions of a list in order. -/
private theorem invokeLoop_eq {nodes : Heap Node} {cur : Option Nat} {cells : List (Nat × Node)}
    (hc : Chain nodes cur cells) {fuel : Nat} (hfuel : cells.length < fuel) :
    invokeLoop nodes fuel cur = .ok ((cells.map Prod.snd).filterMap Entry.call) := by
  induction hc generalizing fuel with
  | nil =>
      obtain ⟨fuel, rfl⟩ : ∃ k, fuel = k + 1 := ⟨fuel - 1, by simp at hfuel; omega⟩
      rfl
  | @cons a v next cells hcell hrest ih =>
      obtain ⟨fuel, rfl⟩ : ∃ k, fuel = k + 1 := ⟨fuel - 1, by simp at hfuel; omega⟩
      have hlt : cells.length < fuel := by simp at hfuel; omega
      simp only [invokeLoop, hcell, ih hlt, List.map_cons]
      cases hcall : v.call with
      | none =>
          rw [List.filterMap_cons_none hcall]
          rfl
      | some f =>
          rw [List.filterMap_cons_some hcall]
          rfl

/-- **`Invoke`** calls every function once, in the order of the list. -/
theorem invoke_spec (hrep : Represents H K m l) : invoke m = .ok (l.map Prod.snd) := by
  obtain ⟨cells, hlist, hcells⟩ := hrep.list
  rw [invoke, invokeLoop_eq hlist.chain (Nat.lt_succ_of_le hlist.chain.length_le), hcells,
    List.filterMap_map]
  congr 1
  exact congrFun (List.filterMap_eq_map' (f := Prod.snd)) l

/-- A value that can be compared with itself passes the guard. -/
private theorem isComparable_of_eq_self {v : Val} (h : v.eq v ≠ none) : isComparable v = true := by
  unfold isComparable
  split
  · rfl
  · exact Val.comparable_of_eq_self h

/-- One call on a registry whose comparisons are defined. -/
private theorem run_op_spec (hH : ∀ h h', H h → H h' → h.eq h' ≠ none)
    (hK : ∀ k k', K k → K k' → k.eq k' ≠ none) (hrep : Represents H K m l) (op : Op)
    (hhandlers : ∀ h ∈ op.handlers, H h) (hkeys : ∀ k ∈ op.keys, K k) :
    ∃ m', op.run m = .ok (m', (op.spec l).2) ∧ Represents H K m' (op.spec l).1 := by
  cases op with
  | add handler key callback =>
      have hh : H handler := hhandlers handler (by simp [Op.handlers])
      have hk : K key := hkeys key (by simp [Op.keys])
      have hcomparable : isComparable handler = true ∧ isComparable key = true :=
        ⟨isComparable_of_eq_self (hH _ _ hh hh), isComparable_of_eq_self (hK _ _ hk hk)⟩
      cases callback with
      | none => exact ⟨m, rfl, hrep⟩
      | some f =>
          obtain ⟨m', hadd, hrep'⟩ := add_spec hrep hh hk (fun h hh' => hH h handler hh' hh)
            (fun k hk' => hK k key hk' hk) hcomparable f
          refine ⟨m', ?_, hrep'⟩
          simp only [Op.run, hadd]
          rfl
  | remove handler key =>
      have hh : H handler := hhandlers handler (by simp [Op.handlers])
      have hk : K key := hkeys key (by simp [Op.keys])
      have hcomparable : isComparable handler = true ∧ isComparable key = true :=
        ⟨isComparable_of_eq_self (hH _ _ hh hh), isComparable_of_eq_self (hK _ _ hk hk)⟩
      obtain ⟨m', hremove, hrep'⟩ := remove_spec hrep (fun h hh' => hH h handler hh' hh)
        (fun k hk' => hK k key hk' hk) hcomparable
      refine ⟨m', ?_, hrep'⟩
      simp only [Op.run, hremove]
      rfl
  | invoke =>
      refine ⟨m, ?_, hrep⟩
      simp only [Op.run, invoke_spec hrep]
      rfl
  | len =>
      refine ⟨m, ?_, hrep⟩
      simp only [Op.run, len, hrep.num]
      rfl

/-- A whole sequence of calls. -/
private theorem run_spec (hH : ∀ h h', H h → H h' → h.eq h' ≠ none)
    (hK : ∀ k k', K k → K k' → k.eq k' ≠ none) (ops : List Op)
    (hhandlers : ∀ op ∈ ops, ∀ h ∈ op.handlers, H h) (hkeys : ∀ op ∈ ops, ∀ k ∈ op.keys, K k)
    (hrep : Represents H K m l) :
    ∃ m', run ops m = .ok (m', (specRun ops l).2) ∧ Represents H K m' (specRun ops l).1 := by
  induction ops generalizing m l with
  | nil => exact ⟨m, rfl, hrep⟩
  | cons op ops ih =>
      rw [List.forall_mem_cons] at hhandlers hkeys
      obtain ⟨m₁, hop, hrep₁⟩ := run_op_spec hH hK hrep op hhandlers.1 hkeys.1
      obtain ⟨m₂, hops, hrep₂⟩ := ih hhandlers.2 hkeys.2 hrep₁
      refine ⟨m₂, ?_, hrep₂⟩
      simp only [run, hop, hops]
      rfl

end Refinement

/-- The linked list of a registry is in order. -/
structure WellFormed (m : Mem) (cells : List (Nat × Node)) : Prop where
  /-- The links lead from `first` through these cells to nil. -/
  finite : Chain m.nodes m.reg.first cells
  acyclic : (addrs cells).Nodup
  last : m.reg.last = lastAddr none cells
  nil_iff : m.reg.last = none ↔ m.reg.first = none
  cbNum : m.reg.cbNum = cells.length
  distinct : (cells.map Prod.snd).Pairwise fun n n' => n.is n'.handler n'.key ≠ some true

theorem Represents.wellFormed {H K : Val → Prop} {m : Mem} {l : Pairs}
    (hrep : Represents H K m l) :
    ∃ cells, WellFormed m cells ∧ cells.map Prod.snd = l.map Node.of := by
  obtain ⟨cells, hlist, hcells⟩ := hrep.list
  refine ⟨cells, ⟨hlist.chain, hlist.chain.nodup, hlist.last, ?_, hlist.num, ?_⟩, hcells⟩
  · rcases hlist.ended.cases with ⟨hfirst, hlast, -⟩ | ⟨a, b, hfirst, hlast⟩
    · simp [hfirst, hlast]
    · simp [hfirst, hlast]
  · have hdistinct := hrep.distinct
    rw [Distinct, List.pairwise_map] at hdistinct
    rw [hcells, List.pairwise_map]
    refine hdistinct.imp fun {e e'} hne his => ?_
    have hsame : same e.1 e'.1 = true := is_of_eq_true.mp his
    rw [hsame] at hne
    cases hne

/-- **The callback registry is an ordered map.**  Let any two handlers, and any two keys, of
some calls have a comparison that is defined.  On an empty registry the calls then return and
answer as those of the ordered map, the list is well formed, and it holds the pairs of the
map in their order. -/
theorem registry_is_ordered_map (ops : List Op)
    (hhandlers : ∀ h ∈ ops.flatMap Op.handlers, ∀ h' ∈ ops.flatMap Op.handlers, h.eq h' ≠ none)
    (hkeys : ∀ k ∈ ops.flatMap Op.keys, ∀ k' ∈ ops.flatMap Op.keys, k.eq k' ≠ none) :
    ∃ m cells, run ops Mem.empty = .ok (m, (specRun ops []).2) ∧ WellFormed m cells ∧
      cells.map Prod.snd = (specRun ops []).1.map Node.of := by
  obtain ⟨m, hrun, hrep⟩ := run_spec (H := (· ∈ ops.flatMap Op.handlers))
    (K := (· ∈ ops.flatMap Op.keys)) (fun h h' hh hh' => hhandlers h hh h' hh')
    (fun k k' hk hk' => hkeys k hk k' hk') ops
    (fun op hop h hh => List.mem_flatMap.mpr ⟨op, hop, hh⟩)
    (fun op hop k hk => List.mem_flatMap.mpr ⟨op, hop, hk⟩) represents_empty
  obtain ⟨cells, hwellFormed, hcells⟩ := hrep.wellFormed
  exact ⟨m, cells, hrun, hwellFormed, hcells⟩

/-- A function is replaced, the last node removed and another one added after it; a key that
is not a number is added twice. -/
theorem registry_is_ordered_map_tail :
    ∃ m cells,
      run [.add .nil (.basic 0 1) (some 1), .add .nil (.basic 0 2) (some 2),
          .add .nil (.basic 0 1) (some 3), .remove .nil (.basic 0 2),
          .add .nil (.float 0 .nan) (some 4), .add .nil (.float 0 .nan) (some 5), .invoke, .len]
        Mem.empty =
        .ok (m, [.done, .done, .done, .done, .done, .done, .called [3, 4, 5], .number 3]) ∧
      WellFormed m cells ∧
      cells.map Prod.snd = [⟨.nil, .basic 0 1, some 3⟩, ⟨.nil, .float 0 .nan, some 4⟩,
        ⟨.nil, .float 0 .nan, some 5⟩] :=
  registry_is_ordered_map _ (by decide) (by decide)

/-! ## Values that cannot be compared -/

/-- The call is an `Add` or a `Remove` with a handler and a key from `P`. -/
def Op.Registers (P : Val → Prop) : Op → Prop
  | .add handler key _ => P handler ∧ P key
  | .remove handler key => P handler ∧ P key
  | .invoke => False
  | .len => False

theorem guard_of_or {handler key : Val}
    (h : isComparable handler = false ∨ isComparable key = false) :
    (!isComparable handler || !isComparable key) = true := by
  rcases h with h | h
  · simp [h]
  · simp [h]

theorem add_ignored {handler key : Val}
    (h : isComparable handler = false ∨ isComparable key = false) (callback : Option Nat)
    (m : Mem) : add handler key callback m = .ok m := by
  cases callback with
  | none => rfl
  | some f =>
      have hws : addWrites m handler key (some f) = .ok [] := if_pos (guard_of_or h)
      rw [add, hws]
      rfl

theorem remove_ignored {handler key : Val}
    (h : isComparable handler = false ∨ isComparable key = false) (m : Mem) :
    remove handler key m = .ok m := by
  have hws : removeWrites m handler key = .ok [] := if_pos (guard_of_or h)
  rw [remove, hws]
  rfl

section Safety

variable {P : Val → Prop}

/-- Any two values from `P` whose types are comparable can be compared. -/
def Defined (P : Val → Prop) : Prop :=
  ∀ v w, P v → P w → isComparable v = true → isComparable w = true → v.eq w ≠ none

/-- The values from `P` that pass the guard. -/
def Passes (P : Val → Prop) (v : Val) : Prop := P v ∧ isComparable v = true

private theorem isComparable_cases (handler key : Val) :
    (isComparable handler = false ∨ isComparable key = false) ∨
      isComparable handler = true ∧ isComparable key = true := by
  cases isComparable handler with
  | false => exact Or.inl (Or.inl rfl)
  | true => cases isComparable key with
    | false => exact Or.inl (Or.inr rfl)
    | true => exact Or.inr ⟨rfl, rfl⟩

/-- One registration: it is ignored, or its comparisons are defined. -/
private theorem registers_op (hdefined : Defined P) {m : Mem} {l : Pairs}
    (hrep : Represents (Passes P) (Passes P) m l) (op : Op) (hop : op.Registers P) :
    ∃ m' l', op.run m = .ok (m', .done) ∧ Represents (Passes P) (Passes P) m' l' := by
  have heq : ∀ {w}, Passes P w → ∀ v, Passes P v → v.eq w ≠ none :=
    fun hw v hv => hdefined v _ hv.1 hw.1 hv.2 hw.2
  cases op with
  | add handler key callback =>
      rcases isComparable_cases handler key with hignored | hcomparable
      · refine ⟨m, l, ?_, hrep⟩
        simp only [Op.run, add_ignored hignored]
        rfl
      · cases callback with
        | none => exact ⟨m, l, rfl, hrep⟩
        | some f =>
            have hh : Passes P handler := ⟨hop.1, hcomparable.1⟩
            have hk : Passes P key := ⟨hop.2, hcomparable.2⟩
            obtain ⟨m', hadd, hrep'⟩ := add_spec hrep hh hk (heq hh) (heq hk) hcomparable f
            refine ⟨m', _, ?_, hrep'⟩
            simp only [Op.run, hadd]
            rfl
  | remove handler key =>
      rcases isComparable_cases handler key with hignored | hcomparable
      · refine ⟨m, l, ?_, hrep⟩
        simp only [Op.run, remove_ignored hignored]
        rfl
      · obtain ⟨m', hremove, hrep'⟩ := remove_spec hrep (heq ⟨hop.1, hcomparable.1⟩)
          (heq ⟨hop.2, hcomparable.2⟩) hcomparable
        refine ⟨m', _, ?_, hrep'⟩
        simp only [Op.run, hremove]
        rfl
  | invoke => exact absurd hop id
  | len => exact absurd hop id

private theorem registers_run (hdefined : Defined P) (ops : List Op)
    (hops : ∀ op ∈ ops, op.Registers P) {m : Mem} {l : Pairs}
    (hrep : Represents (Passes P) (Passes P) m l) :
    ∃ m' replies, run ops m = .ok (m', replies) := by
  induction ops generalizing m l with
  | nil => exact ⟨m, [], rfl⟩
  | cons op ops ih =>
      rw [List.forall_mem_cons] at hops
      obtain ⟨m₁, l₁, hop, hrep₁⟩ := registers_op hdefined hrep op hops.1
      obtain ⟨m₂, replies, hrun⟩ := ih hops.2 hrep₁
      refine ⟨m₂, .done :: replies, ?_⟩
      simp only [run, hop, hrun]

/-- Two values that pass the guard and cannot be compared: the first one is stored, and the
second one meets it. -/
private theorem run_panics {v w : Val} (hv : isComparable v = true) (hw : isComparable w = true)
    (heq : v.eq w = none) :
    run [.add v v (some 0), .add w w (some 0)] Mem.empty = .error .comparison := by
  have hv' : AnyValue.isComparable v = true := hv
  have hw' : AnyValue.isComparable w = true := hw
  have hstored : add v v (some 0) Mem.empty =
      .ok ⟨[⟨⟨v, v, some 0⟩, none⟩], ⟨some 0, some 0, 1⟩⟩ := by
    simp only [add, addWrites, hv', Bool.not_true, Bool.or_self, Bool.false_eq_true, if_false]
    rfl
  have hfails : (⟨v, v, some 0⟩ : Node).is w w = none := by
    show andAlso (v.eq w) (v.eq w) = none
    rw [heq]
    rfl
  have hmeets : add w w (some 0) ⟨[⟨⟨v, v, some 0⟩, none⟩], ⟨some 0, some 0, 1⟩⟩ =
      .error .comparison := by
    simp only [add, addWrites, hw', Bool.not_true, Bool.or_self, Bool.false_eq_true, if_false,
      Callbacks.Mem.find, Heap.search, List.getElem?_cons_zero, hfails]
    rfl
  simp only [run, Op.run, hstored, Except.map, hmeets]

end Safety

/-- **When registering is safe.**  No sequence of `Add` and `Remove` over identifiers from `P`
panics, and identifiers that cannot be compared with themselves are ignored after it, exactly
if any two of them whose types are comparable can be compared. -/
theorem registration_safe_iff (P : Val → Prop) :
    (∀ ops : List Op, (∀ op ∈ ops, op.Registers P) →
      ∃ m replies, run ops Mem.empty = .ok (m, replies) ∧
        ∀ handler key, P handler → P key → (handler.eq handler = none ∨ key.eq key = none) →
          (∀ callback, add handler key callback m = .ok m) ∧ remove handler key m = .ok m) ↔
      ∀ v w, P v → P w → isComparable v = true → isComparable w = true → v.eq w ≠ none := by
  constructor
  · intro hsafe v w hPv hPw hv hw heq
    obtain ⟨m, replies, hrun, -⟩ := hsafe [.add v v (some 0), .add w w (some 0)]
      (by simp [Op.Registers, hPv, hPw])
    rw [run_panics hv hw heq] at hrun
    cases hrun
  · intro hdefined ops hops
    obtain ⟨m, replies, hrun⟩ := registers_run hdefined ops hops represents_empty
    refine ⟨m, replies, hrun, fun handler key hh hk hself => ?_⟩
    have hguard : ∀ v, P v → v.eq v = none → isComparable v = false := by
      intro v hPv hv
      cases hc : isComparable v with
      | false => rfl
      | true => exact absurd hv (hdefined v v hPv hPv hc hc)
    have hignored : isComparable handler = false ∨ isComparable key = false :=
      hself.imp (hguard handler hh) (hguard key hk)
    exact ⟨fun callback => add_ignored hignored callback m, remove_ignored hignored m⟩

/-- An integer and a slice are identifiers in use.  The integer is registered and removed, and the
slice is ignored. -/
theorem registration_safe_iff_slice :
    ∃ m replies, run [.add (.basic 0 1) (.basic 0 1) (some 1),
        .add (.reference 0 0) (.basic 0 1) (some 2), .remove (.basic 0 1) (.basic 0 1)] Mem.empty =
      .ok (m, replies) ∧ remove (.reference 0 0) (.basic 0 1) m = .ok m := by
  have hsafe := (registration_safe_iff fun v => v = .basic 0 1 ∨ v = .reference 0 0).mpr (by
    rintro v w (rfl | rfl) (rfl | rfl) hv hw
    · decide
    · cases hw
    · cases hv
    · cases hv)
  obtain ⟨m, replies, hrun, hignored⟩ := hsafe [.add (.basic 0 1) (.basic 0 1) (some 1),
    .add (.reference 0 0) (.basic 0 1) (some 2), .remove (.basic 0 1) (.basic 0 1)]
    (by simp [Op.Registers])
  exact ⟨m, replies, hrun, (hignored (.reference 0 0) (.basic 0 1) (Or.inr rfl) (Or.inl rfl)
    (Or.inl rfl)).2⟩

/-- A struct with a field of an interface type that holds a slice. -/
def boxedSlice : Val := .struct 0 (.boxed (.reference 0 0) .nil)

/-- The struct passes the guard and is stored.  Registering it again panics. -/
theorem boxed_slice_panics :
    isComparable boxedSlice = true ∧ boxedSlice.eq boxedSlice = none ∧
      run [.add boxedSlice .nil (some 1), .len] Mem.empty =
        .ok (⟨[⟨⟨boxedSlice, .nil, some 1⟩, none⟩], ⟨some 0, some 0, 1⟩⟩, [.done, .number 1]) ∧
      run [.add boxedSlice .nil (some 1), .add boxedSlice .nil (some 2)] Mem.empty =
        .error .comparison ∧
      run [.add boxedSlice .nil (some 1), .remove boxedSlice .nil] Mem.empty =
        .error .comparison :=
  ⟨by decide, by decide, rfl, rfl, rfl⟩

end Getty.Transport.CallbackRegistry
