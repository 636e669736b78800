import Mathlib.Logic.Basic

/-!
# Statements with deferred calls

Go code on one state.  A statement ends by going on to the next one, by a return or by a panic,
or it waits forever.  `deferring d rest` is `defer d` in front of the rest of a function: the
deferred call is made however the rest ends.  `recovering h rest` is a deferred function that
calls `recover` and, if there was a panic, runs `h`.

A total rule of pre- and postconditions: from a state with `P`, the statement ends, in a way and
in a state with `Q`.  There is one rule for each construct, so that a proof about a program
follows its text.

## Main results

* `Ends.seq`, `Ends.cond`, `Ends.deferring`, `Ends.recovering`, `Ends.call` — the rules.
* `Ends.bracket` — a change that a deferred call takes back.
-/

namespace Getty.Verified.Deferred

/-- How a statement ends. -/
inductive Ctl where
  | next
  | ret
  | panic
  deriving Repr, DecidableEq

/-- A statement; `none` if it waits forever. -/
abbrev Stmt (σ : Type) := σ → Option (Ctl × σ)

variable {σ : Type}

namespace Stmt

/-- An assignment. -/
def assign (f : σ → σ) : Stmt σ := fun s => some (.next, f s)

/-- A return, after the results are set. -/
def ret (f : σ → σ) : Stmt σ := fun s => some (.ret, f s)

/-- Wait until `c` holds; nobody else runs. -/
def await (c : σ → Bool) : Stmt σ := fun s => if c s then some (.next, s) else none

/-- One statement after the other. -/
def seq (a b : Stmt σ) : Stmt σ := fun s =>
  match a s with
  | some (.next, s') => b s'
  | out => out

def cond (c : σ → Bool) (a b : Stmt σ) : Stmt σ := fun s => if c s then a s else b s

/-- A function call: its return ends the function and not its caller. -/
def call (body : Stmt σ) : Stmt σ := fun s =>
  match body s with
  | some (.ret, s') => some (.next, s')
  | out => out

/-- `defer d`, and the rest of the function. -/
def deferring (d rest : Stmt σ) : Stmt σ := fun s =>
  match rest s with
  | none => none
  | some (c, s') =>
      match d s' with
      | none => none
      | some (.panic, s'') => some (.panic, s'')
      | some (_, s'') => some (c, s'')

/-- A deferred function that recovers from a panic, and the rest of the function. -/
def recovering (h rest : Stmt σ) : Stmt σ := fun s =>
  match rest s with
  | some (.panic, s') =>
      match h s' with
      | some (.panic, s'') => some (.panic, s'')
      | some (_, s'') => some (.ret, s'')
      | none => none
  | out => out

end Stmt

open Stmt

/-- From a state with `P` the statement ends with `Q`. -/
def Ends (P : σ → Prop) (a : Stmt σ) (Q : Ctl → σ → Prop) : Prop :=
  ∀ s, P s → ∃ c s', a s = some (c, s') ∧ Q c s'

variable {P : σ → Prop} {Q Q' : Ctl → σ → Prop} {a b : Stmt σ}

theorem Ends.mono (h : Ends P a Q) (hpost : ∀ c s, Q c s → Q' c s) : Ends P a Q' := by
  intro s hs
  obtain ⟨c, s', hrun, hq⟩ := h s hs
  exact ⟨c, s', hrun, hpost c s' hq⟩

theorem Ends.assign {f : σ → σ} (h : ∀ s, P s → Q .next (f s)) : Ends P (assign f) Q :=
  fun s hs => ⟨.next, f s, rfl, h s hs⟩

theorem Ends.ret {f : σ → σ} (h : ∀ s, P s → Q .ret (f s)) : Ends P (ret f) Q :=
  fun s hs => ⟨.ret, f s, rfl, h s hs⟩

theorem Ends.await {c : σ → Bool} (hfree : ∀ s, P s → c s = true) (h : ∀ s, P s → Q .next s) :
    Ends P (await c) Q :=
  fun s hs => ⟨.next, s, if_pos (hfree s hs), h s hs⟩

/-- What ends the first statement also ends the sequence. -/
theorem Ends.seq {R : σ → Prop}
    (ha : Ends P a fun c s => if c = .next then R s else Q c s) (hb : Ends R b Q) :
    Ends P (seq a b) Q := by
  intro s hs
  obtain ⟨c, s', hrun, hmid⟩ := ha s hs
  cases c with
  | next =>
      obtain ⟨c', s'', hrest, hq⟩ := hb s' hmid
      exact ⟨c', s'', by rw [Stmt.seq, hrun, ← hrest], hq⟩
  | ret => exact ⟨.ret, s', by rw [Stmt.seq, hrun], hmid⟩
  | panic => exact ⟨.panic, s', by rw [Stmt.seq, hrun], hmid⟩

theorem Ends.cond {c : σ → Bool} (ha : Ends (fun s => P s ∧ c s = true) a Q)
    (hb : Ends (fun s => P s ∧ c s = false) b Q) : Ends P (cond c a b) Q := by
  intro s hs
  cases hc : c s with
  | true =>
      obtain ⟨ctl, s', hrun, hq⟩ := ha s ⟨hs, hc⟩
      exact ⟨ctl, s', by rw [Stmt.cond, hc, if_pos rfl, hrun], hq⟩
  | false =>
      obtain ⟨ctl, s', hrun, hq⟩ := hb s ⟨hs, hc⟩
      exact ⟨ctl, s', by rw [Stmt.cond, hc, if_neg Bool.false_ne_true, hrun], hq⟩

theorem Ends.call (h : Ends P a fun c s => Q (if c = .ret then .next else c) s) :
    Ends P (call a) Q := by
  intro s hs
  obtain ⟨c, s', hrun, hq⟩ := h s hs
  cases c with
  | next => exact ⟨.next, s', by rw [Stmt.call, hrun], hq⟩
  | ret => exact ⟨.next, s', by rw [Stmt.call, hrun], hq⟩
  | panic => exact ⟨.panic, s', by rw [Stmt.call, hrun], hq⟩

/-- The deferred call is made however the rest ends. -/
theorem Ends.deferring {d rest : Stmt σ} {R : Ctl → σ → Prop} (hrest : Ends P rest R)
    (hd : ∀ c, Ends (R c) d fun c' s => Q (if c' = .panic then .panic else c) s) :
    Ends P (deferring d rest) Q := by
  intro s hs
  obtain ⟨c, s', hrun, hmid⟩ := hrest s hs
  obtain ⟨c', s'', hdrun, hq⟩ := hd c s' hmid
  cases c' with
  | next => exact ⟨c, s'', by rw [Stmt.deferring, hrun]; simp only [hdrun], hq⟩
  | ret => exact ⟨c, s'', by rw [Stmt.deferring, hrun]; simp only [hdrun], hq⟩
  | panic => exact ⟨.panic, s'', by rw [Stmt.deferring, hrun]; simp only [hdrun], hq⟩

/-- After a panic the function returns. -/
theorem Ends.recovering {h rest : Stmt σ} {R : σ → Prop}
    (hrest : Ends P rest fun c s => if c = .panic then R s else Q c s)
    (hh : Ends R h fun c s => Q (if c = .panic then .panic else .ret) s) :
    Ends P (recovering h rest) Q := by
  intro s hs
  obtain ⟨c, s', hrun, hmid⟩ := hrest s hs
  cases c with
  | next => exact ⟨.next, s', by rw [Stmt.recovering, hrun], hmid⟩
  | ret => exact ⟨.ret, s', by rw [Stmt.recovering, hrun], hmid⟩
  | panic =>
      obtain ⟨c', s'', hhrun, hq⟩ := hh s' hmid
      cases c' with
      | next => exact ⟨.ret, s'', by rw [Stmt.recovering, hrun]; simp only [hhrun], hq⟩
      | ret => exact ⟨.ret, s'', by rw [Stmt.recovering, hrun]; simp only [hhrun], hq⟩
      | panic => exact ⟨.panic, s'', by rw [Stmt.recovering, hrun]; simp only [hhrun], hq⟩

/-- **A change that a deferred call takes back.**  The rest of the function finds the changed
state and may end in any way. -/
theorem Ends.bracket {f g : σ → σ} {rest : Stmt σ} {R : Ctl → σ → Prop}
    (hrest : Ends (fun s' => ∃ s, P s ∧ s' = f s) rest R) (hback : ∀ c s, R c s → Q c (g s)) :
    Ends P (Stmt.seq (Stmt.assign f) (Stmt.deferring (Stmt.assign g) rest)) Q := by
  refine Ends.seq (R := fun s' => ∃ s, P s ∧ s' = f s) ?_ ?_
  · apply Ends.assign
    intro s hs
    rw [if_pos rfl]
    exact ⟨s, hs, rfl⟩
  · refine Ends.deferring hrest ?_
    intro c
    apply Ends.assign
    intro s hs
    rw [if_neg (by decide)]
    exact hback c s hs

end Getty.Verified.Deferred
