/-
# 32-bit words and alignment

Unsigned 32-bit arithmetic on `ℕ` with an explicit reduction, and the mask trick
for rounding up to a power of two.  `land_not_mask` is the one bitwise fact:
clearing the low `k` bits of a word rounds it down to a multiple of `2 ^ k`.
-/
import Mathlib

namespace Word32

/-- The largest value of an unsigned 32-bit word. -/
def uint32Max : ℕ := 2 ^ 32 - 1

/-- Reduction of an unsigned 32-bit result. -/
def u32 (n : ℕ) : ℕ := n % 2 ^ 32

/-- Bitwise complement of a word. -/
def not32 (n : ℕ) : ℕ := uint32Max ^^^ n

/-- A number that fits is not cut. -/
theorem u32_of_le {n : ℕ} (h : n ≤ uint32Max) : u32 n = n := by
  unfold u32 uint32Max at *
  omega

/-- A number below `2 ^ 32` is not cut. -/
theorem u32_of_lt {n : ℕ} (h : n < 2 ^ 32) : u32 n = n := Nat.mod_eq_of_lt h

/-- Decrement of a word; `0` wraps to the largest value. -/
def dec32 (n : ℕ) : ℕ := u32 (n + uint32Max)

/-- Above 0 a decrement does not wrap around. -/
theorem dec32_succ {n : ℕ} (h : n < 2 ^ 32) : dec32 (n + 1) = n := by
  unfold dec32 u32 uint32Max
  omega

/-- The exact result of an operation, if it is a word. -/
def checked (n : ℕ) : Option ℕ := if n ≤ uint32Max then some n else none

/-- The exact difference, if there is one. -/
def checkedSub (a b : ℕ) : Option ℕ := if b ≤ a then some (a - b) else none

/-- A sum or product that fits does not wrap around. -/
theorem checked_of_le {n : ℕ} (h : n ≤ uint32Max) : checked n = some n := if_pos h

/-- A difference of a number and a smaller one does not wrap around. -/
theorem checkedSub_of_le {a b : ℕ} (h : b ≤ a) : checkedSub a b = some (a - b) := if_pos h

/-- Clearing the low `k` bits. -/
theorem land_not_mask (x k : ℕ) (hx : x < 2 ^ 32) :
    x &&& not32 (2 ^ k - 1) = 2 ^ k * (x / 2 ^ k) := by
  apply Nat.eq_of_testBit_eq
  intro i
  rw [Nat.testBit_and, not32, uint32Max, Nat.testBit_xor, Nat.testBit_two_pow_sub_one,
    Nat.testBit_two_pow_sub_one, Nat.testBit_two_pow_mul]
  by_cases hi : i < 32
  · by_cases hk : k ≤ i
    · rw [Nat.testBit_div_two_pow, Nat.sub_add_cancel hk]
      simp [hi, hk, Nat.not_lt.mpr hk]
    · simp [hi, hk, Nat.lt_of_not_le hk]
  · have hbit : x.testBit i = false :=
      Nat.testBit_lt_two_pow (hx.trans_le (Nat.pow_le_pow_right (by omega) (by omega)))
    by_cases hk : k ≤ i
    · rw [Nat.testBit_div_two_pow, Nat.sub_add_cancel hk]
      simp [hbit]
    · simp [hbit, hk]

/-- The least multiple of `align` that is not below `value`. -/
def roundUp (value align : ℕ) : ℕ := align * ((value + (align - 1)) / align)

/-- Rounding up does not make a number smaller. -/
theorem le_roundUp (value : ℕ) {align : ℕ} (ha : 0 < align) : value ≤ roundUp value align := by
  have h1 := Nat.div_add_mod (value + (align - 1)) align
  have h2 := Nat.mod_lt (value + (align - 1)) ha
  unfold roundUp
  omega

end Word32
