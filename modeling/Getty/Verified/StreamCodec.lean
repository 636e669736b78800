import Mathlib.Data.List.Flatten
import Mathlib.Data.List.Infix

/-!
# Stream codecs

An encoder is a state machine: each operation on it hands a list of chunks to a sink.
A decoder is one that asks a source for bytes, in pieces of a size it chooses or one at
a time, and gives decoded data to whoever calls it with a buffer.

What a decoder may come to depends on the answers of its source, so that its states are
described by a relation, `Decoder.Reached`: the bytes it has been fed, what it has given
so far, and whether a call is in progress.  A codec is `Transparent` when a decoder fed
with a part of the encoder's output never gives anything else than what was written, has
given all of it once it has read the whole output and asks for more, and does not idle.

## Main results

* `Encoder.run_append` — the output of operations in a row.
* `Transparent.stored` — the codec that changes nothing is transparent.
-/

namespace Getty.Verified.StreamCodec

universe u v w

variable {α : Type u} {κ : Type v} {δ : Type w}

/-! ## Encoders -/

/-- An operation on an encoder. -/
inductive Op (α : Type u) where
  | write (p : List α)
  | flush
  | close
  deriving Repr, DecidableEq

/-- An encoder: the state after an operation, and the chunks it hands to the sink. -/
structure Encoder (α : Type u) (κ : Type v) where
  init : κ
  apply : κ → Op α → κ × List (List α)

/-- The state after some operations, and their output. -/
def Encoder.run (E : Encoder α κ) (k : κ) : List (Op α) → κ × List α
  | [] => (k, [])
  | op :: ops =>
      ((E.run (E.apply k op).1 ops).1,
        (E.apply k op).2.flatten ++ (E.run (E.apply k op).1 ops).2)

theorem Encoder.run_append (E : Encoder α κ) (k : κ) (xs ys : List (Op α)) :
    E.run k (xs ++ ys) =
      ((E.run (E.run k xs).1 ys).1, (E.run k xs).2 ++ (E.run (E.run k xs).1 ys).2) := by
  induction xs generalizing k with
  | nil => rfl
  | cons op xs ih => simp only [List.cons_append, Encoder.run, ih, List.append_assoc]

/-- One more operation. -/
theorem Encoder.run_snoc (E : Encoder α κ) (k : κ) (ops : List (Op α)) (op : Op α) :
    E.run k (ops ++ [op]) = ((E.apply (E.run k ops).1 op).1,
      (E.run k ops).2 ++ (E.apply (E.run k ops).1 op).2.flatten) := by
  rw [E.run_append]
  simp only [Encoder.run, List.append_nil]

/-- Some writes and one flush. -/
def block (ps : List (List α)) : List (Op α) := ps.map .write ++ [.flush]

theorem block_ne_nil (ps : List (List α)) : block ps ≠ [] := by
  simp [block]

/-- The output for a sequence of flushed blocks. -/
def Encoder.output (E : Encoder α κ) (blocks : List (List (List α))) : List α :=
  (E.run E.init (blocks.flatMap block)).2

/-! ## Decoders -/

/-- What a decoder does next: read up to `n` bytes or one byte from its source, or
return data to its caller. -/
inductive Ask (α : Type u) where
  | read (n : Nat)
  | byte
  | give (out : List α)
  deriving Repr, DecidableEq

/-- The decoder waits for its source. -/
def Ask.waits : Ask α → Bool
  | .give _ => false
  | _ => true

/-- A decoder: what it does next when called with a buffer of some size, and its states
after its source has delivered, and after it has returned. -/
structure Decoder (α : Type u) (δ : Type w) where
  init : δ
  next : δ → Nat → Ask α
  fed : δ → Nat → List α → δ
  gave : δ → Nat → δ

/-- The decoder can have read `i` and given `o`, and be in state `d`; `call` is the size
of the buffer of the call in progress. -/
inductive Decoder.Reached (D : Decoder α δ) : List α → List α → δ → Option Nat → Prop where
  | init : D.Reached [] [] D.init none
  | call {i o d} (m : Nat) : D.Reached i o d none → D.Reached i o d (some m)
  | read {i o d m n} (b : List α) : D.Reached i o d (some m) → D.next d m = .read n →
      b.length ≤ n → (b = [] → n = 0) → D.Reached (i ++ b) o (D.fed d m b) (some m)
  | byte {i o d m} (a : α) : D.Reached i o d (some m) → D.next d m = .byte →
      D.Reached (i ++ [a]) o (D.fed d m [a]) (some m)
  | give {i o d m out} : D.Reached i o d (some m) → D.next d m = .give out →
      D.Reached i (o ++ out) (D.gave d m) none

/-- A step of the decoder, called with room for data, that reads nothing and gives
nothing. -/
def Decoder.Idle (D : Decoder α δ) (d' d : δ) : Prop :=
  ∃ m, 0 < m ∧ (D.next d m = .give [] ∧ d' = D.gave d m ∨ D.next d m = .read 0 ∧ d' = D.fed d m [])

/-- **Transparency.**  Whatever the source answers, decoding the output for a sequence
of flushed blocks yields what was written, and the decoder does not idle forever. -/
structure Transparent (E : Encoder α κ) (D : Decoder α δ) : Prop where
  sound : ∀ {blocks i o d call}, D.Reached i o d call → i <+: E.output blocks →
    o <+: blocks.flatten.flatten
  complete : ∀ {blocks o d m}, D.Reached (E.output blocks) o d (some m) →
    (D.next d m).waits = true → o = blocks.flatten.flatten
  live : WellFounded D.Idle

/-! ## The codec that changes nothing -/

/-- Hands every write to the sink as it is. -/
def stored : Encoder α Unit where
  init := ()
  apply _ op := ((), match op with | .write p => [p] | _ => [])

/-- Reads one byte and gives it back when there is room for it. -/
def unstored : Decoder α (Option α) where
  init := none
  next d m :=
    match d, m with
    | none, _ => .byte
    | some _, 0 => .give []
    | some a, _ + 1 => .give [a]
  fed _ _ b := b.head?
  gave d m := if m = 0 then d else none

private theorem stored_block (ps : List (List α)) : (stored.run () (block ps)).2 = ps.flatten := by
  induction ps with
  | nil => rfl
  | cons p ps ih =>
      have hp : (stored.run () (block (p :: ps))).2 = [p].flatten ++
          (stored.run () (block ps)).2 := rfl
      rw [hp, ih]
      simp

private theorem stored_output (blocks : List (List (List α))) :
    stored.output blocks = blocks.flatten.flatten := by
  induction blocks with
  | nil => rfl
  | cons ps blocks ih =>
      have hhead : stored.output (ps :: blocks) =
          (stored.run () (block ps)).2 ++ stored.output blocks := by
        simp only [Encoder.output, List.flatMap_cons]
        rw [Encoder.run_append]
      rw [hhead, stored_block, ih]
      simp

/-- The decoder keeps at most the last byte it has read. -/
private theorem unstored_reached {i o : List α} {d : Option α} {call : Option Nat}
    (h : unstored.Reached i o d call) : i = o ++ d.toList := by
  induction h with
  | init => rfl
  | call m _ ih => exact ih
  | read b hr hnext hle hne ih =>
      next d m n =>
        cases d <;> cases m <;> cases hnext
  | byte a hr hnext ih =>
      next d m =>
        cases d with
        | none => simpa [unstored] using ih
        | some b => cases m <;> cases hnext
  | give hr hnext ih =>
      next d m out =>
        cases d with
        | none => cases hnext
        | some b =>
            cases m with
            | zero =>
                cases hnext
                simpa [unstored] using ih
            | succ m =>
                cases hnext
                simpa [unstored] using ih

/-- Transparency can be had: the codec that changes nothing has it. -/
theorem Transparent.stored : Transparent (StreamCodec.stored : Encoder α Unit) unstored where
  sound := by
    intro blocks i o d call hr hi
    rw [stored_output] at hi
    rw [unstored_reached hr] at hi
    exact (List.prefix_append o d.toList).trans hi
  complete := by
    intro blocks o d m hr hwaits
    have hread := unstored_reached hr
    rw [stored_output] at hread
    cases d with
    | none => simpa using hread.symm
    | some b => cases m <;> cases hwaits
  live := by
    refine ⟨fun d => ⟨d, ?_⟩⟩
    rintro d' ⟨m, hm, h⟩
    obtain ⟨m, rfl⟩ := Nat.exists_eq_succ_of_ne_zero hm.ne'
    cases d with
    | none => rcases h with ⟨h, -⟩ | ⟨h, -⟩ <;> cases h
    | some b => rcases h with ⟨h, -⟩ | ⟨h, -⟩ <;> cases h

end Getty.Verified.StreamCodec
