import Mathlib.Logic.Basic

/-!
# Comparing dynamically typed values

The operator `==` of Go on values of an interface type.  Values of different dynamic types are
not equal.  Values of one type are compared part by part, in order, until two parts differ, and
a part of an interface type is compared like the values themselves.

Whether a type is comparable says nothing about what an interface inside a value holds: slices,
maps and functions are found there when two values of one type are compared, and the comparison
then panics.

## Main results

* `Val.eq_comm` — the order of the operands does not matter, panics included.
* `Val.eq_trans` — equality is transitive.  It is not reflexive: a NaN differs from itself.
-/

namespace Getty.Verified.DynamicEquality

/-! ## Types and values -/

mutual

/-- A type.  `name` tells apart types that are built alike. -/
inductive Ty where
  /-- What a nil interface has for a type. -/
  | nil
  /-- Booleans, integers, strings, pointers and channels. -/
  | basic (name : Nat)
  | float (name : Nat)
  /-- Slices, maps and functions. -/
  | reference (name : Nat)
  | interface
  | struct (name : Nat) (fields : Tys)
  | array (name : Nat) (length : Nat) (elem : Ty)
  deriving Repr, DecidableEq

inductive Tys where
  | nil
  | cons (t : Ty) (ts : Tys)
  deriving Repr, DecidableEq

end

mutual

/-- The type is comparable; every interface type is. -/
def Ty.comparable : Ty → Bool
  | .nil => true
  | .basic _ => true
  | .float _ => true
  | .reference _ => false
  | .interface => true
  | .struct _ fields => fields.comparable
  | .array _ _ elem => elem.comparable

def Tys.comparable : Tys → Bool
  | .nil => true
  | .cons t ts => t.comparable && ts.comparable

end

/-- A floating-point number; infinities are among the others. -/
inductive Num where
  | nan
  | zero (negative : Bool)
  | other (n : Nat)
  deriving Repr, DecidableEq

def Num.eq : Num → Num → Bool
  | .zero _, .zero _ => true
  | .other n, .other m => n == m
  | _, _ => false

mutual

/-- A value of an interface type. -/
inductive Val where
  | nil
  | basic (name : Nat) (val : Nat)
  | float (name : Nat) (val : Num)
  | reference (name : Nat) (addr : Nat)
  | struct (name : Nat) (fields : Parts)
  | array (name : Nat) (elem : Ty) (elems : Parts)
  deriving Repr, DecidableEq

/-- Fields of a struct, or elements of an array. -/
inductive Parts where
  | nil
  /-- A part of a type that is not an interface. -/
  | direct (v : Val) (rest : Parts)
  /-- A part of an interface type, and what it holds. -/
  | boxed (v : Val) (rest : Parts)
  deriving Repr, DecidableEq

end

def Parts.length : Parts → Nat
  | .nil => 0
  | .direct _ rest => rest.length + 1
  | .boxed _ rest => rest.length + 1

mutual

/-- The dynamic type. -/
def Val.type : Val → Ty
  | .nil => .nil
  | .basic name _ => .basic name
  | .float name _ => .float name
  | .reference name _ => .reference name
  | .struct name fields => .struct name fields.types
  | .array name elem elems => .array name elems.length elem

def Parts.types : Parts → Tys
  | .nil => .nil
  | .direct v rest => .cons v.type rest.types
  | .boxed _ rest => .cons .interface rest.types

end

/-! ## Equality -/

/-- The operator `&&` on operands that may panic, which is `none`. -/
def andAlso : Option Bool → Option Bool → Option Bool
  | some true, b => b
  | a, _ => a

theorem andAlso_eq_true {a b : Option Bool} :
    andAlso a b = some true ↔ a = some true ∧ b = some true := by
  rcases a with _ | _ | _
  · simp [andAlso]
  · simp [andAlso]
  · simp [andAlso]

theorem andAlso_ne_none {a b : Option Bool} (ha : a ≠ none) (hb : b ≠ none) :
    andAlso a b ≠ none := by
  rcases a with _ | _ | _
  · exact absurd rfl ha
  · simp [andAlso]
  · exact hb

/-- Two interfaces that hold values of types `t` and `u`; `contents` compares the values. -/
def guarded (t u : Ty) (contents : Option Bool) : Option Bool :=
  if t = u then if t.comparable then contents else none else some false

theorem guarded_comm (t u : Ty) (contents : Option Bool) :
    guarded t u contents = guarded u t contents := by
  unfold guarded
  by_cases h : t = u
  · rw [h]
  · rw [if_neg h, if_neg (Ne.symm h)]

theorem guarded_eq_true {t u : Ty} {contents : Option Bool} :
    guarded t u contents = some true ↔
      t = u ∧ t.comparable = true ∧ contents = some true := by
  unfold guarded
  by_cases h : t = u
  · by_cases hc : t.comparable = true
    · simp [h, h ▸ hc]
    · simp [h, h ▸ hc]
  · simp [h]

mutual

/-- Two values of one comparable type. -/
def Val.contents : Val → Val → Option Bool
  | .nil, .nil => some true
  | .basic _ a, .basic _ b => some (a == b)
  | .float _ a, .float _ b => some (a.eq b)
  | .struct _ fs, .struct _ gs => fs.contents gs
  | .array _ _ fs, .array _ _ gs => fs.contents gs
  | .reference _ _, .reference _ _ => none
  | _, _ => some false

/-- The parts are compared in order, until two of them differ. -/
def Parts.contents : Parts → Parts → Option Bool
  | .nil, .nil => some true
  | .direct v fs, .direct w gs => andAlso (v.contents w) (fs.contents gs)
  | .boxed v fs, .boxed w gs => andAlso (guarded v.type w.type (v.contents w)) (fs.contents gs)
  | _, _ => some false

end

/-- The operator `==` on values of an interface type; `none` is a panic. -/
def Val.eq (v w : Val) : Option Bool := guarded v.type w.type (v.contents w)

/-- A value that can be compared with itself is of a comparable type. -/
theorem Val.comparable_of_eq_self {v : Val} (h : v.eq v ≠ none) : v.type.comparable = true := by
  cases hc : v.type.comparable with
  | true => rfl
  | false => exact absurd (by simp [Val.eq, guarded, hc]) h

/-! ## The order of the operands -/

theorem Num.eq_comm (a b : Num) : a.eq b = b.eq a := by
  cases a with
  | nan => cases b with
    | nan | zero _ | other _ => rfl
  | zero _ => cases b with
    | nan | zero _ | other _ => rfl
  | other n => cases b with
    | nan | zero _ => rfl
    | other m => exact Bool.beq_comm

mutual

theorem Val.contents_comm (v w : Val) : v.contents w = w.contents v := by
  cases v with
  | nil => cases w with
    | nil | basic | float | reference | struct | array => simp only [Val.contents]
  | basic _ a => cases w with
    | basic _ b => simp only [Val.contents, Bool.beq_comm]
    | nil | float | reference | struct | array => simp only [Val.contents]
  | float _ a => cases w with
    | float _ b => simp only [Val.contents, Num.eq_comm a b]
    | nil | basic | reference | struct | array => simp only [Val.contents]
  | reference => cases w with
    | nil | basic | float | reference | struct | array => simp only [Val.contents]
  | struct _ fs => cases w with
    | struct _ gs => simp only [Val.contents, Parts.contents_comm fs gs]
    | nil | basic | float | reference | array => simp only [Val.contents]
  | array _ _ fs => cases w with
    | array _ _ gs => simp only [Val.contents, Parts.contents_comm fs gs]
    | nil | basic | float | reference | struct => simp only [Val.contents]

theorem Parts.contents_comm (fs gs : Parts) : fs.contents gs = gs.contents fs := by
  cases fs with
  | nil => cases gs with
    | nil | direct | boxed => simp only [Parts.contents]
  | direct v fs => cases gs with
    | direct w gs => simp only [Parts.contents, Val.contents_comm v w, Parts.contents_comm fs gs]
    | nil | boxed => simp only [Parts.contents]
  | boxed v fs => cases gs with
    | boxed w gs =>
        simp only [Parts.contents, Val.contents_comm v w, Parts.contents_comm fs gs,
          guarded_comm v.type w.type]
    | nil | direct => simp only [Parts.contents]

end

/-- **Symmetry.**  The order of the operands does not matter, panics included. -/
theorem Val.eq_comm (v w : Val) : v.eq w = w.eq v := by
  rw [Val.eq, Val.eq, Val.contents_comm v w, guarded_comm]

/-! ## Transitivity -/

theorem Num.eq_trans {a b c : Num} (hab : a.eq b = true) (hbc : b.eq c = true) :
    a.eq c = true := by
  cases a with
  | nan => cases hab
  | zero _ => cases b with
    | zero _ => cases c with
      | zero _ => rfl
      | nan | other _ => cases hbc
    | nan | other _ => cases hab
  | other n => cases b with
    | other m =>
        rw [show n = m from eq_of_beq hab]
        exact hbc
    | nan | zero _ => cases hab

mutual

theorem Val.contents_trans {u v w : Val} (huv : u.contents v = some true)
    (hvw : v.contents w = some true) : u.contents w = some true := by
  cases u with
  | nil => cases v with
    | nil => exact hvw
    | basic | float | reference | struct | array => simp [Val.contents] at huv
  | basic _ a => cases v with
    | basic _ b => cases w with
      | basic _ c =>
          simp only [Val.contents, Option.some.injEq, beq_iff_eq] at huv hvw ⊢
          exact huv.trans hvw
      | nil | float | reference | struct | array => simp [Val.contents] at hvw
    | nil | float | reference | struct | array => simp [Val.contents] at huv
  | float _ a => cases v with
    | float _ b => cases w with
      | float _ c =>
          simp only [Val.contents, Option.some.injEq] at huv hvw ⊢
          exact Num.eq_trans huv hvw
      | nil | basic | reference | struct | array => simp [Val.contents] at hvw
    | nil | basic | reference | struct | array => simp [Val.contents] at huv
  | reference => cases v with
    | nil | basic | float | reference | struct | array => simp [Val.contents] at huv
  | struct _ fs => cases v with
    | struct _ gs => cases w with
      | struct _ hs =>
          simp only [Val.contents] at huv hvw ⊢
          exact Parts.contents_trans huv hvw
      | nil | basic | float | reference | array => simp [Val.contents] at hvw
    | nil | basic | float | reference | array => simp [Val.contents] at huv
  | array _ _ fs => cases v with
    | array _ _ gs => cases w with
      | array _ _ hs =>
          simp only [Val.contents] at huv hvw ⊢
          exact Parts.contents_trans huv hvw
      | nil | basic | float | reference | struct => simp [Val.contents] at hvw
    | nil | basic | float | reference | struct => simp [Val.contents] at huv

theorem Parts.contents_trans {fs gs hs : Parts} (hfg : fs.contents gs = some true)
    (hgh : gs.contents hs = some true) : fs.contents hs = some true := by
  cases fs with
  | nil => cases gs with
    | nil => exact hgh
    | direct | boxed => simp [Parts.contents] at hfg
  | direct u fs => cases gs with
    | direct v gs => cases hs with
      | direct w hs =>
          simp only [Parts.contents, andAlso_eq_true] at hfg hgh ⊢
          exact ⟨Val.contents_trans hfg.1 hgh.1, Parts.contents_trans hfg.2 hgh.2⟩
      | nil | boxed => simp [Parts.contents] at hgh
    | nil | boxed => simp [Parts.contents] at hfg
  | boxed u fs => cases gs with
    | boxed v gs => cases hs with
      | boxed w hs =>
          simp only [Parts.contents, andAlso_eq_true, guarded_eq_true] at hfg hgh ⊢
          obtain ⟨⟨htype, hcomparable, huv⟩, hfg⟩ := hfg
          obtain ⟨⟨htype', -, hvw⟩, hgh⟩ := hgh
          exact ⟨⟨htype.trans htype', hcomparable, Val.contents_trans huv hvw⟩,
            Parts.contents_trans hfg hgh⟩
      | nil | direct => simp [Parts.contents] at hgh
    | nil | direct => simp [Parts.contents] at hfg

end

/-- **Transitivity.** -/
theorem Val.eq_trans {u v w : Val} (huv : u.eq v = some true) (hvw : v.eq w = some true) :
    u.eq w = some true := by
  obtain ⟨htype, hcomparable, huv⟩ := guarded_eq_true.mp huv
  obtain ⟨htype', -, hvw⟩ := guarded_eq_true.mp hvw
  exact guarded_eq_true.mpr ⟨htype.trans htype', hcomparable, Val.contents_trans huv hvw⟩

end Getty.Verified.DynamicEquality
