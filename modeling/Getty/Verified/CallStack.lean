import Mathlib.Data.List.Basic
import Mathlib.Tactic.Linarith

/-!
# Call stacks with deferred calls, panics and recovery

The control flow of a goroutine.  The code of a function is a list of actions, calls and
deferred calls; an action is whatever the program does at that point, and its outcome says how
the function goes on.  A function that ends, normally or by a panic, makes its deferred calls,
the last one first.  A panic that is still there when they are over goes on in the caller,
and crashes the program when there is none.  `recover` in a deferred call stops the panic of
the function that deferred it, which then returns to its caller as usual.

`silent` makes one step between two actions, and `settle` all of them up to the next action.

## Main results

* `size_silent` — there are finitely many steps between two actions.
* `settle_eq_of_silent` — where a goroutine gets to does not change on the way.
-/

namespace Getty.Verified.CallStack

/-- The code of a function. -/
inductive Code (α : Type) where
  | ret
  | act (a : α) (rest : Code α)
  | call (body rest : Code α)
  | defer (body rest : Code α)
  | recover (rest : Code α)
  deriving Repr, DecidableEq

variable {α : Type}

/-- Code in front of other code of the same function. -/
def Code.append : Code α → Code α → Code α
  | .ret, rest => rest
  | .act a code, rest => .act a (code.append rest)
  | .call body code, rest => .call body (code.append rest)
  | .defer body code, rest => .defer body (code.append rest)
  | .recover code, rest => .recover (code.append rest)

/-- A call in progress: the code that is left, the deferred calls, and whether it is
panicking. -/
structure Frame (α : Type) where
  code : Code α
  defers : List (Code α)
  panicking : Bool
  deriving Repr, DecidableEq

/-- The calls in progress, the innermost first. -/
abbrev Stack (α : Type) := List (Frame α)

inductive Goroutine (α : Type) where
  | running (stack : Stack α)
  | crashed
  deriving Repr, DecidableEq

/-- A call begins. -/
def Frame.enter (body : Code α) : Frame α := ⟨body, [], false⟩

/-- The caller of a function that has panicked. -/
def propagate : Stack α → Goroutine α
  | [] => .crashed
  | f :: fs => .running (⟨.ret, f.defers, true⟩ :: fs)

/-- `recover` in a deferred call. -/
def recovered : Stack α → Stack α
  | [] => []
  | f :: fs => { f with panicking := false } :: fs

/-- A step that is not an action; none if the goroutine is at an action, or has ended. -/
def silent : Stack α → Option (Goroutine α)
  | [] => none
  | ⟨.act _ _, _, _⟩ :: _ => none
  | ⟨.call body rest, ds, p⟩ :: fs => some (.running (.enter body :: ⟨rest, ds, p⟩ :: fs))
  | ⟨.defer body rest, ds, p⟩ :: fs => some (.running (⟨rest, body :: ds, p⟩ :: fs))
  | ⟨.recover rest, ds, p⟩ :: fs => some (.running (⟨rest, ds, p⟩ :: recovered fs))
  | ⟨.ret, d :: ds, p⟩ :: fs => some (.running (.enter d :: ⟨.ret, ds, p⟩ :: fs))
  | ⟨.ret, [], false⟩ :: fs => some (.running fs)
  | ⟨.ret, [], true⟩ :: fs => some (propagate fs)

/-- How a function goes on after an action: with some code in front of the rest, with a
return, or with a panic. -/
inductive Outcome (α : Type) where
  | next (code : Code α)
  | ret
  | panic
  deriving Repr, DecidableEq

/-- The stack after the action at which the goroutine stands. -/
def answer (o : Outcome α) : Stack α → Stack α
  | ⟨.act _ rest, ds, p⟩ :: fs =>
      match o with
      | .next code => ⟨code.append rest, ds, p⟩ :: fs
      | .ret => ⟨.ret, ds, p⟩ :: fs
      | .panic => ⟨.ret, ds, true⟩ :: fs
  | st => st

/-- The action at which the goroutine stands. -/
def action : Stack α → Option α
  | ⟨.act a _, _, _⟩ :: _ => some a
  | _ => none

/-! ## The steps between two actions -/

def Code.size : Code α → Nat
  | .ret => 0
  | .act _ rest => rest.size + 1
  | .call body rest => body.size + rest.size + 2
  | .defer body rest => body.size + rest.size + 3
  | .recover rest => rest.size + 1

def Frame.size (f : Frame α) : Nat :=
  f.code.size + (f.defers.map (fun d => d.size + 2)).sum + 1

def size (st : Stack α) : Nat := (st.map Frame.size).sum

@[simp] theorem size_cons (f : Frame α) (fs : Stack α) : size (f :: fs) = f.size + size fs := by
  simp [size]

private theorem size_recovered (fs : Stack α) : size (recovered fs) = size fs := by
  cases fs with
  | nil => rfl
  | cons f fs => rfl

/-- A step that is not an action makes the stack smaller. -/
theorem size_silent {st st' : Stack α} (h : silent st = some (.running st')) :
    size st' < size st := by
  unfold silent at h
  split at h
  · cases h
  · cases h
  · cases h
    simp only [size_cons, Frame.size, Frame.enter, Code.size, List.map_nil, List.sum_nil]
    omega
  · cases h
    simp only [size_cons, Frame.size, Code.size, List.map_cons, List.sum_cons]
    omega
  · cases h
    simp only [size_cons, Frame.size, Code.size, size_recovered]
    omega
  · cases h
    simp only [size_cons, Frame.size, Frame.enter, Code.size, List.map_cons, List.sum_cons,
      List.map_nil, List.sum_nil]
    omega
  · cases h
    simp only [size_cons, Frame.size]
    omega
  · next fs =>
      cases fs with
      | nil => cases h
      | cons f fs =>
          cases h
          simp only [size_cons, Frame.size, Code.size]
          omega

/-- At most `n` steps that are not actions. -/
def settleWithin : Nat → Stack α → Goroutine α
  | 0, st => .running st
  | n + 1, st =>
      match silent st with
      | none => .running st
      | some .crashed => .crashed
      | some (.running st') => settleWithin n st'

/-- Where the goroutine gets to without an action. -/
def settle (st : Stack α) : Goroutine α := settleWithin (size st) st

private theorem settleWithin_nil (n : Nat) : settleWithin n ([] : Stack α) = .running [] := by
  cases n <;> rfl

private theorem eq_nil_of_size {st : Stack α} (h : size st = 0) : st = [] := by
  cases st with
  | nil => rfl
  | cons f fs =>
      simp only [size_cons, Frame.size] at h
      omega

/-- More steps than the size of the stack make no difference. -/
theorem settleWithin_eq {n m : Nat} {st : Stack α} (hn : size st ≤ n) (hm : size st ≤ m) :
    settleWithin n st = settleWithin m st := by
  induction n generalizing m st with
  | zero =>
      rw [eq_nil_of_size (Nat.le_zero.mp hn), settleWithin_nil, settleWithin_nil]
  | succ n ih =>
      cases m with
      | zero => rw [eq_nil_of_size (Nat.le_zero.mp hm), settleWithin_nil, settleWithin_nil]
      | succ m =>
          simp only [settleWithin]
          cases hs : silent st with
          | none => rfl
          | some g =>
              cases g with
              | crashed => rfl
              | running st' =>
                  have hlt := size_silent hs
                  exact ih (by omega) (by omega)

theorem settle_succ (st : Stack α) : settle st = settleWithin (size st + 1) st :=
  settleWithin_eq (Nat.le_refl _) (Nat.le_succ _)

theorem settle_of_none {st : Stack α} (h : silent st = none) : settle st = .running st := by
  rw [settle_succ, settleWithin, h]

theorem settle_of_crashed {st : Stack α} (h : silent st = some .crashed) :
    settle st = .crashed := by
  rw [settle_succ, settleWithin, h]

/-- **Settling is unchanged on the way.** -/
theorem settle_eq_of_silent {st st' : Stack α} (h : silent st = some (.running st')) :
    settle st = settle st' := by
  have hlt := size_silent h
  rw [settle_succ, settleWithin, h]
  exact settleWithin_eq (by omega) (Nat.le_refl _)

/-- A goroutine that makes no step on its own is at an action, or has ended. -/
theorem silent_eq_none {st : Stack α} (h : silent st = none) :
    st = [] ∨ ∃ a rest ds p fs, st = ⟨.act a rest, ds, p⟩ :: fs := by
  cases st with
  | nil => exact Or.inl rfl
  | cons f fs =>
      obtain ⟨code, ds, p⟩ := f
      cases code with
      | act a rest => exact Or.inr ⟨a, rest, ds, p, fs, rfl⟩
      | ret =>
          cases ds with
          | cons d ds => cases h
          | nil => cases p <;> cases h
      | call body rest => cases h
      | defer body rest => cases h
      | recover rest => cases h

end Getty.Verified.CallStack
