import Mathlib.Algebra.Group.Nat.Defs
import Mathlib.Data.List.Basic

/-!
# Little-endian fields

Unsigned numbers in a fixed number of bytes, the least significant byte first, and the
reading of such fields one after the other from the front of a buffer.

## Main results

* `read_put` — a field that was written is read back, and the rest of the buffer is left.
* `put_read` — what is read is what stands there.
-/

namespace Getty.Verified.LittleEndian

/-- The lowest `w` bytes of a number. -/
def put : Nat → Nat → List UInt8
  | 0, _ => []
  | w + 1, n => UInt8.ofNat n :: put w (n / 256)

/-- The number in some bytes. -/
def value : List UInt8 → Nat
  | [] => 0
  | b :: bs => b.toNat + 256 * value bs

/-- A field of `w` bytes at the front of a buffer, and the rest of the buffer. -/
def read (w : Nat) (buf : List UInt8) : Nat × List UInt8 := (value (buf.take w), buf.drop w)

@[simp] theorem length_put (w n : Nat) : (put w n).length = w := by
  induction w generalizing n with
  | zero => rfl
  | succ w ih => rw [put, List.length_cons, ih]

private theorem value_put (w n : Nat) (h : n < 256 ^ w) : value (put w n) = n := by
  induction w generalizing n with
  | zero =>
      rw [Nat.pow_zero] at h
      have hn : n = 0 := by omega
      subst hn
      rfl
  | succ w ih =>
      have hdiv : n / 256 < 256 ^ w := by
        rw [Nat.pow_succ] at h
        exact Nat.div_lt_of_lt_mul (by omega)
      rw [put, value, ih _ hdiv, UInt8.toNat_ofNat']
      omega

private theorem value_lt (bs : List UInt8) : value bs < 256 ^ bs.length := by
  induction bs with
  | nil => exact Nat.one_pos
  | cons b bs ih =>
      have hb := b.toNat_lt
      rw [value, List.length_cons, Nat.pow_succ]
      omega

private theorem put_value (bs : List UInt8) : put bs.length (value bs) = bs := by
  induction bs with
  | nil => rfl
  | cons b bs ih =>
      have hb := b.toNat_lt
      have hlow : UInt8.ofNat (b.toNat + 256 * value bs) = b := by
        apply UInt8.toNat_inj.mp
        rw [UInt8.toNat_ofNat']
        omega
      have hhigh : (b.toNat + 256 * value bs) / 256 = value bs := by omega
      rw [List.length_cons, value, put, hlow, hhigh, ih]

/-- **A field that was written is read back.** -/
theorem read_put {w n : Nat} (h : n < 256 ^ w) (rest : List UInt8) :
    read w (put w n ++ rest) = (n, rest) := by
  rw [read, List.take_left' (length_put w n), List.drop_left' (length_put w n), value_put w n h]

/-- **What is read is what stands there.** -/
theorem put_read {w : Nat} {buf : List UInt8} (h : w ≤ buf.length) :
    put w (read w buf).1 ++ (read w buf).2 = buf := by
  have hlen : (buf.take w).length = w := by rw [List.length_take, Nat.min_eq_left h]
  have hput := put_value (buf.take w)
  rw [hlen] at hput
  rw [read, hput, List.take_append_drop]

@[simp] theorem read_snd (w : Nat) (buf : List UInt8) : (read w buf).2 = buf.drop w := rfl

theorem read_fst_lt (w : Nat) (buf : List UInt8) : (read w buf).1 < 256 ^ w := by
  refine Nat.lt_of_lt_of_le (value_lt (buf.take w)) ?_
  exact Nat.pow_le_pow_right (by decide) (by rw [List.length_take]; omega)

end Getty.Verified.LittleEndian
