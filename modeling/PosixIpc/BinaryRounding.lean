/-
# Rounding to a binary format

Rational numbers rounded to the nearest number of a binary floating-point format, ties to the
even significand, as IEEE 754 has it.  Numbers are not negative here, and there is no largest
exponent.

* `roundEven` : the nearest integer;
* `roundTo q` : the nearest multiple of `2 ^ q`;
* `roundBinary p e` : the nearest number with `p` significant bits and no bit below `2 ^ e`;
* `Rounding p` : what proofs use of a rounding.  It is monotone, and exact on the integers of at
  most `p` bits; `Rounding.none` rounds nothing and `Rounding.binary` is `roundBinary`.
-/
import Mathlib

namespace BinaryRounding

/-! ## To an integer -/

/-- The nearest integer, ties to the even one. -/
def roundEven (x : ℚ) : ℤ :=
  if 1 / 2 < Int.fract x ∨ (Int.fract x = 1 / 2 ∧ ¬ Even ⌊x⌋) then ⌊x⌋ + 1 else ⌊x⌋

/-- Integers are not rounded. -/
@[simp] theorem roundEven_intCast (n : ℤ) : roundEven n = n := by
  norm_num [roundEven]

/-- Rounding goes to one of the two next integers. -/
theorem floor_le_roundEven (x : ℚ) : ⌊x⌋ ≤ roundEven x := by
  unfold roundEven
  split_ifs <;> omega

/-- Rounding goes to one of the two next integers. -/
theorem roundEven_le_floor_add_one (x : ℚ) : roundEven x ≤ ⌊x⌋ + 1 := by
  unfold roundEven
  split_ifs <;> omega

/-- A larger number is not rounded to a smaller integer. -/
theorem roundEven_mono {x y : ℚ} (h : x ≤ y) : roundEven x ≤ roundEven y := by
  rcases eq_or_lt_of_le (Int.floor_le_floor h) with hfloor | hlt
  · -- in one unit interval the fractions decide
    have hfract : Int.fract x ≤ Int.fract y := by
      rw [Int.fract, Int.fract, hfloor]
      linarith
    unfold roundEven
    rw [hfloor]
    split_ifs with hx hy hy
    · exact le_rfl
    · exfalso
      apply hy
      rcases hx with hx | ⟨hx, hodd⟩
      · exact Or.inl (lt_of_lt_of_le hx hfract)
      · rcases eq_or_lt_of_le hfract with heq | hgt
        · exact Or.inr ⟨heq ▸ hx, hodd⟩
        · exact Or.inl (hx ▸ hgt)
    · omega
    · exact le_rfl
  · calc roundEven x ≤ ⌊x⌋ + 1 := roundEven_le_floor_add_one x
      _ ≤ ⌊y⌋ := hlt
      _ ≤ roundEven y := floor_le_roundEven y

/-! ## To a grid -/

/-- The nearest multiple of `2 ^ q`. -/
def roundTo (q : ℤ) (x : ℚ) : ℚ := roundEven (x / 2 ^ q) * 2 ^ q

/-- Rounding at one exponent is monotone. -/
theorem roundTo_mono (q : ℤ) {x y : ℚ} (h : x ≤ y) : roundTo q x ≤ roundTo q y := by
  have hpos : (0 : ℚ) < 2 ^ q := by positivity
  have hdiv : x / 2 ^ q ≤ y / 2 ^ q := div_le_div_of_nonneg_right h hpos.le
  have hround : ((roundEven (x / 2 ^ q) : ℤ) : ℚ) ≤ roundEven (y / 2 ^ q) := by
    exact_mod_cast roundEven_mono hdiv
  exact mul_le_mul_of_nonneg_right hround hpos.le

/-- A multiple of `2 ^ q` stays what it is. -/
theorem roundTo_mul (q k : ℤ) : roundTo q (k * 2 ^ q) = k * 2 ^ q := by
  have hne : (2 : ℚ) ^ q ≠ 0 := by positivity
  rw [roundTo, mul_div_assoc, div_self hne, mul_one, roundEven_intCast]

/-- A coarser power of two is on the grid. -/
theorem roundTo_zpow {q e : ℤ} (h : q ≤ e) : roundTo q (2 ^ e) = 2 ^ e := by
  obtain ⟨n, hn⟩ := Int.eq_ofNat_of_zero_le (sub_nonneg.mpr h)
  have heq : (2 : ℚ) ^ e = ((2 ^ n : ℤ) : ℚ) * 2 ^ q := by
    push_cast
    rw [← zpow_natCast, ← zpow_add₀ two_ne_zero]
    congr 1
    omega
  rw [heq, roundTo_mul]

/-! ## To a format -/

/-- The exponent of the last bit of the numbers near `x`. -/
def lastBit (p : ℕ) (e : ℤ) (x : ℚ) : ℤ := max (Int.log 2 x - (p - 1)) e

/-- The nearest number with `p` significant bits and no bit below `2 ^ e`. -/
def roundBinary (p : ℕ) (e : ℤ) (x : ℚ) : ℚ := roundTo (lastBit p e x) x

/-- Zero is not rounded. -/
@[simp] theorem roundBinary_zero (p : ℕ) (e : ℤ) : roundBinary p e 0 = 0 := by
  simpa [roundBinary] using roundTo_mul (lastBit p e 0) 0

/-- **Rounding is monotone**, also where the grid becomes coarser. -/
theorem roundBinary_mono {p : ℕ} {e : ℤ} (hp : 0 < p) {x y : ℚ} (hx : 0 ≤ x) (h : x ≤ y) :
    roundBinary p e x ≤ roundBinary p e y := by
  rcases eq_or_lt_of_le hx with rfl | hpos
  · have hzero := roundTo_mono (lastBit p e y) h
    have hfix : roundTo (lastBit p e y) 0 = 0 := by simpa using roundTo_mul (lastBit p e y) 0
    rw [roundBinary_zero]
    rwa [hfix] at hzero
  · have hlog : Int.log 2 x ≤ Int.log 2 y := Int.log_mono_right hpos h
    by_cases hsame : lastBit p e x = lastBit p e y
    · rw [roundBinary, roundBinary, hsame]
      exact roundTo_mono _ h
    · -- the power of two below `y` separates the two and is on both grids
      have hgrid : lastBit p e x ≤ Int.log 2 y ∧ lastBit p e y ≤ Int.log 2 y ∧
          Int.log 2 x + 1 ≤ Int.log 2 y := by
        unfold lastBit at hsame ⊢
        omega
      have hbelow : ((2 : ℕ) : ℚ) ^ Int.log 2 y ≤ y :=
        Int.zpow_log_le_self one_lt_two (hpos.trans_le h)
      have habove : x < ((2 : ℕ) : ℚ) ^ (Int.log 2 x + 1) :=
        Int.lt_zpow_succ_log_self one_lt_two x
      have hstep : ((2 : ℕ) : ℚ) ^ (Int.log 2 x + 1) ≤ ((2 : ℕ) : ℚ) ^ Int.log 2 y :=
        zpow_le_zpow_right₀ (by norm_num) hgrid.2.2
      push_cast at hbelow habove hstep
      calc roundBinary p e x ≤ roundTo (lastBit p e x) (2 ^ Int.log 2 y) :=
            roundTo_mono _ (habove.le.trans hstep)
        _ = 2 ^ Int.log 2 y := roundTo_zpow hgrid.1
        _ = roundTo (lastBit p e y) (2 ^ Int.log 2 y) := (roundTo_zpow hgrid.2.1).symm
        _ ≤ roundBinary p e y := roundTo_mono _ hbelow

/-- An integer of at most `p` bits is a number of the format. -/
theorem roundBinary_natCast {p : ℕ} {e : ℤ} (hp : 0 < p) (he : e ≤ 0) {n : ℕ} (hn : n < 2 ^ p) :
    roundBinary p e n = n := by
  have hlog : Nat.log 2 n < p := by
    rcases Nat.eq_zero_or_pos n with rfl | hpos
    · simpa using hp
    · exact Nat.log_lt_of_lt_pow hpos.ne' hn
  have hlast : lastBit p e (n : ℚ) ≤ 0 := by
    rw [lastBit, Int.log_natCast]
    omega
  -- every integer is on a grid that is at least as fine
  obtain ⟨k, hk⟩ := Int.eq_ofNat_of_zero_le (neg_nonneg.mpr hlast)
  have hone : ((2 ^ k : ℤ) : ℚ) * 2 ^ lastBit p e n = 1 := by
    push_cast
    rw [← zpow_natCast, ← zpow_add₀ two_ne_zero, ← hk, neg_add_cancel, zpow_zero]
  have heq : (n : ℚ) = ((n * 2 ^ k : ℤ) : ℚ) * 2 ^ lastBit p e n := by
    push_cast at hone ⊢
    rw [mul_assoc, hone, mul_one]
  calc roundBinary p e n = roundTo (lastBit p e n) (((n * 2 ^ k : ℤ) : ℚ) * 2 ^ lastBit p e n) := by
        rw [← heq, roundBinary]
    _ = n := by rw [roundTo_mul, ← heq]

/-! ## What proofs use -/

/-- A rounding that is monotone and exact on the integers of at most `p` bits. -/
structure Rounding (p : ℕ) where
  round : ℚ → ℚ
  mono : ∀ {x y : ℚ}, 0 ≤ x → x ≤ y → round x ≤ round y
  natCast : ∀ {n : ℕ}, n < 2 ^ p → round n = n

namespace Rounding

/-- Exact arithmetic. -/
def none (p : ℕ) : Rounding p where
  round := id
  mono _ h := h
  natCast _ := rfl

/-- The nearest number of a binary format, ties to even. -/
def binary (p : ℕ) (e : ℤ) (hp : 0 < p) (he : e ≤ 0) : Rounding p where
  round := roundBinary p e
  mono hx h := roundBinary_mono hp hx h
  natCast hn := roundBinary_natCast hp he hn

variable {p : ℕ} (rnd : Rounding p) {x : ℚ}

/-- What is not negative is not rounded below zero. -/
theorem round_nonneg (h : 0 ≤ x) : 0 ≤ rnd.round x := by
  have hzero : rnd.round 0 = 0 := by exact_mod_cast rnd.natCast (n := 0) (by positivity)
  exact hzero ▸ rnd.mono le_rfl h

/-- An integer above a number is above the rounded one. -/
theorem round_le (h : 0 ≤ x) {n : ℕ} (hn : n < 2 ^ p) (hx : x ≤ n) : rnd.round x ≤ n :=
  (rnd.mono h hx).trans (rnd.natCast hn).le

end Rounding

end BinaryRounding
