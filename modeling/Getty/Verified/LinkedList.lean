import Mathlib.Data.List.Nodup

/-!
# Singly linked lists in a heap

Cells with a value and a link to the next one, in a heap that only grows.  `Chain h p cells`
says that following the links from `p` visits the given addresses with the given values and
ends at nil.

A chain is determined by where it starts, so it visits no address twice, and an update
elsewhere leaves it alone.  Appending and unlinking are two cases of one update: setting the
link of a cell of the chain replaces what follows that cell.

## Main results

* `Chain.frame`, `Chain.alloc` — updates that a chain does not notice.
* `Chain.setVal`, `Chain.splice` — updates of a cell of the chain.
* `Chain.search_eq` — what a search along the links finds.
* `Ended.append_first`, `Ended.append_last`, `Ended.unlink_first`, `Ended.unlink_next` — a list
  with pointers to its first and its last cell.
-/

namespace Getty.Verified.LinkedList

/-- A cell; `next` is nil at the end. -/
structure Cell (α : Type) where
  val : α
  next : Option Nat
  deriving Repr, DecidableEq

/-- The cells by their addresses. -/
abbrev Heap (α : Type) := List (Cell α)

variable {α : Type}

/-! ## Updates -/

/-- The address of the next cell to be allocated. -/
def Heap.fresh (h : Heap α) : Nat := h.length

def Heap.alloc (h : Heap α) (v : α) : Heap α := h ++ [⟨v, none⟩]

def Heap.setVal (h : Heap α) (a : Nat) (v : α) : Heap α := h.modify a ({ · with val := v })

def Heap.setNext (h : Heap α) (a : Nat) (p : Option Nat) : Heap α :=
  h.modify a ({ · with next := p })

theorem setVal_of_ne (h : Heap α) {a b : Nat} (v : α) (hne : b ≠ a) :
    (h.setVal a v)[b]? = h[b]? := by
  exact List.getElem?_modify_ne _ h (Ne.symm hne)

theorem setNext_of_ne (h : Heap α) {a b : Nat} (p : Option Nat) (hne : b ≠ a) :
    (h.setNext a p)[b]? = h[b]? := by
  exact List.getElem?_modify_ne _ h (Ne.symm hne)

private theorem setVal_self {h : Heap α} {a : Nat} {c : Cell α} (v : α) (ha : h[a]? = some c) :
    (h.setVal a v)[a]? = some ⟨v, c.next⟩ := by
  rw [Heap.setVal, List.getElem?_modify_eq, ha]
  rfl

theorem setNext_self {h : Heap α} {a : Nat} {c : Cell α} (p : Option Nat) (ha : h[a]? = some c) :
    (h.setNext a p)[a]? = some ⟨c.val, p⟩ := by
  rw [Heap.setNext, List.getElem?_modify_eq, ha]
  rfl

private theorem alloc_of_some {h : Heap α} {a : Nat} {c : Cell α} (v : α) (ha : h[a]? = some c) :
    (h.alloc v)[a]? = some c := by
  obtain ⟨hlt, -⟩ := List.getElem?_eq_some_iff.mp ha
  rw [Heap.alloc, List.getElem?_append_left hlt, ha]

theorem alloc_fresh (h : Heap α) (v : α) : (h.alloc v)[h.fresh]? = some ⟨v, none⟩ := by
  simp [Heap.alloc, Heap.fresh]

@[simp] theorem length_setVal (h : Heap α) (a : Nat) (v : α) :
    (h.setVal a v).length = h.length := List.length_modify ..

@[simp] theorem length_setNext (h : Heap α) (a : Nat) (p : Option Nat) :
    (h.setNext a p).length = h.length := List.length_modify ..

@[simp] theorem length_alloc (h : Heap α) (v : α) : (h.alloc v).length = h.length + 1 := by
  simp [Heap.alloc]

/-! ## Chains -/

/-- Following the links from `p` visits `cells`. -/
inductive Chain (h : Heap α) : Option Nat → List (Nat × α) → Prop where
  | nil : Chain h none []
  | cons {a : Nat} {v : α} {next : Option Nat} {cells : List (Nat × α)}
      (hcell : h[a]? = some ⟨v, next⟩) (hrest : Chain h next cells) :
      Chain h (some a) ((a, v) :: cells)

/-- The addresses that a chain visits. -/
def addrs (cells : List (Nat × α)) : List Nat := cells.map Prod.fst

@[simp] theorem addrs_cons (c : Nat × α) (cells : List (Nat × α)) :
    addrs (c :: cells) = c.1 :: addrs cells := rfl

@[simp] theorem addrs_append (l r : List (Nat × α)) : addrs (l ++ r) = addrs l ++ addrs r :=
  List.map_append

/-- Where a chain starts. -/
def start : List (Nat × α) → Option Nat
  | [] => none
  | c :: _ => some c.1

theorem Chain.start_eq {h : Heap α} {p : Option Nat} {cells : List (Nat × α)}
    (hc : Chain h p cells) : p = start cells := by
  cases hc with
  | nil => rfl
  | cons _ _ => rfl

/-- A chain is determined by its start. -/
theorem Chain.unique {h : Heap α} {p : Option Nat} {cells cells' : List (Nat × α)}
    (hc : Chain h p cells) (hc' : Chain h p cells') : cells = cells' := by
  induction hc generalizing cells' with
  | nil =>
      cases hc'
      rfl
  | cons hcell hrest ih =>
      cases hc' with
      | cons hcell' hrest' =>
          rw [hcell] at hcell'
          obtain ⟨rfl, rfl⟩ := Cell.mk.inj (Option.some.inj hcell')
          rw [ih hrest']

/-- The rest of a chain, from a cell on. -/
theorem Chain.suffix {h : Heap α} {p : Option Nat} {pre post : List (Nat × α)}
    (hc : Chain h p (pre ++ post)) : Chain h (start post) post := by
  induction pre generalizing p with
  | nil =>
      have hstart := hc.start_eq
      rw [List.nil_append] at hc hstart
      rw [← hstart]
      exact hc
  | cons c pre ih =>
      cases hc with
      | cons hcell hrest => exact ih hrest

/-- No address is visited twice. -/
theorem Chain.nodup {h : Heap α} {p : Option Nat} {cells : List (Nat × α)}
    (hc : Chain h p cells) : (addrs cells).Nodup := by
  induction hc with
  | nil => exact List.nodup_nil
  | @cons a v next cells hcell hrest ih =>
      refine List.nodup_cons.mpr ⟨fun hmem => ?_, ih⟩
      -- a second visit would start the same chain again, which is too short
      obtain ⟨⟨b, w⟩, hbw, rfl⟩ := List.mem_map.mp hmem
      obtain ⟨pre, post, rfl⟩ := List.append_of_mem hbw
      have hagain := hrest.suffix
      have heq := (Chain.cons hcell hrest).unique hagain
      have hlen := congrArg List.length heq
      simp only [List.length_cons, List.length_append] at hlen
      omega

/-- The cell of a chain at one of its addresses. -/
theorem Chain.cell {h : Heap α} {p : Option Nat} {pre post : List (Nat × α)} {a : Nat} {v : α}
    (hc : Chain h p (pre ++ (a, v) :: post)) : h[a]? = some ⟨v, start post⟩ := by
  cases hc.suffix with
  | cons hcell hrest => rw [hcell, hrest.start_eq]

theorem Chain.lt_length {h : Heap α} {p : Option Nat} {cells : List (Nat × α)}
    (hc : Chain h p cells) : ∀ a ∈ addrs cells, a < h.length := by
  intro a ha
  obtain ⟨⟨b, v⟩, hbv, rfl⟩ := List.mem_map.mp ha
  obtain ⟨pre, post, rfl⟩ := List.append_of_mem hbv
  exact (List.getElem?_eq_some_iff.mp hc.cell).1

/-- A chain is at most as long as the heap. -/
theorem Chain.length_le {h : Heap α} {p : Option Nat} {cells : List (Nat × α)}
    (hc : Chain h p cells) : cells.length ≤ h.length := by
  have hsub : (addrs cells) ⊆ List.range h.length :=
    fun a ha => List.mem_range.mpr (hc.lt_length a ha)
  have hle := hc.nodup.length_le_of_subset hsub
  rwa [addrs, List.length_map, List.length_range] at hle

/-! ## Updates of a chain -/

/-- Updates elsewhere leave a chain alone. -/
theorem Chain.frame {h h' : Heap α} {p : Option Nat} {cells : List (Nat × α)}
    (hc : Chain h p cells) (hsame : ∀ a ∈ addrs cells, h'[a]? = h[a]?) : Chain h' p cells := by
  induction hc with
  | nil => exact Chain.nil
  | @cons a v next cells hcell hrest ih =>
      refine Chain.cons ?_ (ih fun b hb => hsame b (List.mem_cons_of_mem _ hb))
      rw [hsame a (List.mem_cons_self ..), hcell]

theorem Chain.alloc {h : Heap α} {p : Option Nat} {cells : List (Nat × α)}
    (hc : Chain h p cells) (v : α) : Chain (h.alloc v) p cells := by
  refine hc.frame fun a ha => ?_
  obtain ⟨⟨b, w⟩, hbw, rfl⟩ := List.mem_map.mp ha
  obtain ⟨pre, post, rfl⟩ := List.append_of_mem hbw
  rw [alloc_of_some v hc.cell, hc.cell]

/-- The value of a cell is replaced. -/
theorem Chain.setVal {h : Heap α} {p : Option Nat} {pre post : List (Nat × α)} {a : Nat} {v : α}
    (hc : Chain h p (pre ++ (a, v) :: post)) (w : α) :
    Chain (h.setVal a w) p (pre ++ (a, w) :: post) := by
  have hnodup := hc.nodup
  induction pre generalizing p with
  | nil =>
      cases hc with
      | cons hcell hrest =>
          refine Chain.cons (setVal_self w hcell) (hrest.frame fun b hb => ?_)
          refine setVal_of_ne h w fun hba => ?_
          exact (List.nodup_cons.mp hnodup).1 (hba ▸ hb)
  | cons c pre ih =>
      cases hc with
      | @cons b u next cells hcell hrest =>
          obtain ⟨hnotin, hrestnodup⟩ := List.nodup_cons.mp hnodup
          refine Chain.cons ?_ (ih hrest hrestnodup)
          rw [setVal_of_ne h w, hcell]
          rintro rfl
          exact hnotin (by simp)

/-- **Splicing.**  Setting the link of a cell replaces what follows it. -/
theorem Chain.splice {h : Heap α} {p q : Option Nat} {pre post post' : List (Nat × α)} {a : Nat}
    {v : α} (hc : Chain h p (pre ++ (a, v) :: post)) (hc' : Chain h q post')
    (hnotin : a ∉ addrs post') : Chain (h.setNext a q) p (pre ++ (a, v) :: post') := by
  have hnodup := hc.nodup
  induction pre generalizing p with
  | nil =>
      cases hc with
      | cons hcell hrest =>
          refine Chain.cons (setNext_self q hcell) (hc'.frame fun b hb => ?_)
          refine setNext_of_ne h q fun hba => ?_
          exact hnotin (hba ▸ hb)
  | cons c pre ih =>
      cases hc with
      | @cons b u next cells hcell hrest =>
          obtain ⟨hb, hrestnodup⟩ := List.nodup_cons.mp hnodup
          refine Chain.cons ?_ (ih hrest hrestnodup)
          rw [setNext_of_ne h q, hcell]
          rintro rfl
          exact hb (by simp)

/-! ## Searching -/

/-- The address of the last cell, or `prev` if there is none. -/
def lastAddr (prev : Option Nat) : List (Nat × α) → Option Nat
  | [] => prev
  | c :: cells => lastAddr (some c.1) cells

@[simp] theorem lastAddr_append (prev : Option Nat) (l r : List (Nat × α)) :
    lastAddr prev (l ++ r) = lastAddr (lastAddr prev l) r := by
  induction l generalizing prev with
  | nil => rfl
  | cons c l ih => exact ih (some c.1)

/-- A chain that is not empty ends at one of its addresses. -/
theorem lastAddr_mem (a : Nat) (cells : List (Nat × α)) :
    ∃ l, lastAddr (some a) cells = some l ∧ (cells = [] ∧ l = a ∨ l ∈ addrs cells) := by
  induction cells generalizing a with
  | nil => exact ⟨a, rfl, Or.inl ⟨rfl, rfl⟩⟩
  | cons c cells ih =>
      obtain ⟨l, hl, hmem⟩ := ih c.1
      refine ⟨l, hl, Or.inr ?_⟩
      rcases hmem with ⟨-, rfl⟩ | hmem
      · exact List.mem_cons_self ..
      · exact List.mem_cons_of_mem _ hmem

/-- What a search comes to. -/
inductive Search where
  /-- The test failed. -/
  | failed
  /-- The links do not end. -/
  | endless
  | absent
  | found (prev : Option Nat) (a : Nat)
  deriving Repr, DecidableEq

/-- Follows the links from `cur` to the first cell whose value satisfies `P`, and returns the
cell before it and its address.  The test may fail, which is `none`. -/
def Heap.search (h : Heap α) (P : α → Option Bool) : Nat → Option Nat → Option Nat → Search
  | 0, _, _ => .endless
  | _ + 1, _, none => .absent
  | fuel + 1, prev, some a =>
      match h[a]? with
      | none => .failed
      | some c =>
          match P c.val with
          | none => .failed
          | some true => .found prev a
          | some false => h.search P fuel (some a) c.next

/-- **What a search finds**: nothing, the first value of the chain that satisfies `P`, or a
value before it on which the test fails. -/
theorem Chain.search_eq {h : Heap α} {cur : Option Nat} {cells : List (Nat × α)}
    (hc : Chain h cur cells) (P : α → Option Bool) {fuel : Nat} (hfuel : cells.length < fuel)
    (prev : Option Nat) :
    (h.search P fuel prev cur = .absent ∧ ∀ c ∈ cells, P c.2 = some false) ∨
      ∃ pre a v post, cells = pre ++ (a, v) :: post ∧ (∀ c ∈ pre, P c.2 = some false) ∧
        (P v = some true ∧ h.search P fuel prev cur = .found (lastAddr prev pre) a ∨
          P v = none ∧ h.search P fuel prev cur = .failed) := by
  induction hc generalizing fuel prev with
  | nil =>
      obtain ⟨fuel, rfl⟩ : ∃ k, fuel = k + 1 := ⟨fuel - 1, by simp at hfuel; omega⟩
      exact Or.inl ⟨rfl, by simp⟩
  | @cons a v next cells hcell hrest ih =>
      obtain ⟨fuel, rfl⟩ : ∃ k, fuel = k + 1 := ⟨fuel - 1, by simp at hfuel; omega⟩
      simp only [Heap.search, hcell]
      rcases hP : P v with _ | _ | _
      · exact Or.inr ⟨[], a, v, cells, rfl, by simp, Or.inr ⟨hP, rfl⟩⟩
      · have hlt : cells.length < fuel := by simp at hfuel; omega
        rcases ih hlt (some a) with ⟨habsent, hall⟩ | ⟨pre, b, w, post, rfl, hpre, hstop⟩
        · exact Or.inl ⟨habsent, List.forall_mem_cons.mpr ⟨hP, hall⟩⟩
        · exact Or.inr ⟨(a, v) :: pre, b, w, post, rfl, List.forall_mem_cons.mpr ⟨hP, hpre⟩, hstop⟩
      · exact Or.inr ⟨[], a, v, cells, rfl, by simp, Or.inl ⟨hP, rfl⟩⟩

/-! ## Lists with two ends -/

/-- A list with pointers to its first and its last cell. -/
structure Ended (h : Heap α) (first last : Option Nat) (cells : List (Nat × α)) : Prop where
  chain : Chain h first cells
  last_eq : last = lastAddr none cells

section Ended

variable {h : Heap α} {first last : Option Nat} {cells pre post : List (Nat × α)} {a : Nat} {v : α}

/-- Both pointers are nil, or none is. -/
theorem Ended.cases (he : Ended h first last cells) :
    first = none ∧ last = none ∧ cells = [] ∨ ∃ a l, first = some a ∧ last = some l := by
  cases cells with
  | nil => exact Or.inl ⟨he.chain.start_eq, he.last_eq, rfl⟩
  | cons c cells =>
      obtain ⟨l, hl, -⟩ := lastAddr_mem c.1 cells
      exact Or.inr ⟨c.1, l, he.chain.start_eq, he.last_eq.trans hl⟩

theorem Ended.last_mem {l : Nat} (he : Ended h first (some l) cells) : l ∈ addrs cells := by
  have hlast := he.last_eq
  cases cells with
  | nil => cases hlast
  | cons c cells =>
      obtain ⟨l', hl, hmem⟩ := lastAddr_mem c.1 cells
      cases hlast.trans hl
      rcases hmem with ⟨-, rfl⟩ | hmem
      · exact List.mem_cons_self ..
      · exact List.mem_cons_of_mem _ hmem

theorem Ended.setVal (he : Ended h first last (pre ++ (a, v) :: post)) (w : α) :
    Ended (h.setVal a w) first last (pre ++ (a, w) :: post) := by
  constructor
  · exact he.chain.setVal w
  · rw [he.last_eq, lastAddr_append, lastAddr_append]
    rfl

/-- A cell is added to an empty list. -/
theorem Ended.append_first (he : Ended h none last cells) (w : α) :
    Ended (h.alloc w) (some h.fresh) (some h.fresh) (cells ++ [(h.fresh, w)]) := by
  cases he.chain
  exact ⟨Chain.cons (alloc_fresh h w) Chain.nil, rfl⟩

/-- A cell is linked to the last one. -/
theorem Ended.append_last {l : Nat} (he : Ended h first (some l) cells) (w : α) :
    Ended ((h.alloc w).setNext l (some h.fresh)) first (some h.fresh)
      (cells ++ [(h.fresh, w)]) := by
  have hlast := he.last_eq
  rcases List.eq_nil_or_concat cells with rfl | ⟨pre, ⟨b, v⟩, hcells⟩
  · cases hlast
  · rw [List.concat_eq_append] at hcells
    subst hcells
    rw [lastAddr_append] at hlast
    cases hlast
    have hnew : Chain (h.alloc w) (some h.fresh) [(h.fresh, w)] :=
      Chain.cons (alloc_fresh h w) Chain.nil
    have hne : b ∉ addrs [(h.fresh, w)] := by
      have hlt := he.chain.lt_length b (by simp)
      simp only [addrs, List.map_cons, List.map_nil, List.mem_singleton, Heap.fresh]
      omega
    constructor
    · rw [List.append_assoc]
      exact (he.chain.alloc w).splice hnew hne
    · rw [lastAddr_append]
      rfl

theorem Ended.first_iff (he : Ended h first last (pre ++ (a, v) :: post)) :
    first = some a ↔ pre = [] := by
  rw [he.chain.start_eq]
  cases pre with
  | nil => simp [start]
  | cons c pre =>
      have hnodup := he.chain.nodup
      simp only [List.cons_append, addrs_cons, addrs_append, List.nodup_cons] at hnodup
      simp only [List.cons_append, start, Option.some.injEq, reduceCtorEq, iff_false]
      intro heq
      exact hnodup.1 (by simp [heq])

theorem Ended.last_iff (he : Ended h first last (pre ++ (a, v) :: post)) :
    last = some a ↔ post = [] := by
  rw [he.last_eq, lastAddr_append]
  show lastAddr (some a) post = some a ↔ post = []
  constructor
  · intro heq
    obtain ⟨l, hl, ⟨hnil, -⟩ | hmem⟩ := lastAddr_mem a post
    · exact hnil
    · rw [hl] at heq
      cases heq
      exact absurd hmem (List.nodup_cons.mp he.chain.suffix.nodup).1
  · rintro rfl
    rfl

/-- The last cell once a cell is gone: the one before it, if it was the last. -/
theorem Ended.last_unlink (he : Ended h first last (pre ++ (a, v) :: post)) :
    (if last = some a then lastAddr none pre else last) = lastAddr none (pre ++ post) := by
  by_cases hpost : post = []
  · rw [if_pos (he.last_iff.mpr hpost), hpost, List.append_nil]
  · rw [if_neg (fun hlast => hpost (he.last_iff.mp hlast)), he.last_eq, lastAddr_append,
      lastAddr_append]
    cases post with
    | nil => exact absurd rfl hpost
    | cons c post => rfl

/-- The first cell is unlinked. -/
theorem Ended.unlink_first (he : Ended h first last (pre ++ (a, v) :: post))
    (hfirst : first = some a) :
    Ended h (start post) (if last = some a then lastAddr none pre else last) (pre ++ post) := by
  refine ⟨?_, he.last_unlink⟩
  have hpre := he.first_iff.mp hfirst
  subst hpre
  exact Chain.suffix (show Chain h first ([(a, v)] ++ post) from he.chain)

/-- A later cell is unlinked from the one before it. -/
theorem Ended.unlink_next (he : Ended h first last (pre ++ (a, v) :: post))
    (hfirst : first ≠ some a) :
    ∃ b, lastAddr none pre = some b ∧ b ∈ addrs pre ∧
      Ended (h.setNext b (start post)) first (if last = some a then some b else last)
        (pre ++ post) := by
  rcases List.eq_nil_or_concat pre with rfl | ⟨front, ⟨b, u⟩, hpre⟩
  · exact absurd (he.first_iff.mpr rfl) hfirst
  · rw [List.concat_eq_append] at hpre
    subst hpre
    have hprev : lastAddr none (front ++ [(b, u)]) = some b := by
      rw [lastAddr_append]
      rfl
    refine ⟨b, hprev, by simp, ?_, ?_⟩
    · have hchain : Chain h first (front ++ (b, u) :: (a, v) :: post) := by
        simpa using he.chain
      have hpost : Chain h (start post) post :=
        Chain.suffix (show Chain h first ((front ++ [(b, u), (a, v)]) ++ post) by
          simpa using he.chain)
      have hnotin : b ∉ addrs post := by
        have hnodup := hchain.suffix.nodup
        simp only [addrs_cons, List.nodup_cons, List.mem_cons, not_or] at hnodup
        exact hnodup.1.2
      rw [List.append_assoc]
      exact hchain.splice hpost hnotin
    · rw [← hprev]
      exact he.last_unlink

end Ended

end Getty.Verified.LinkedList
