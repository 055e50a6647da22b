import CallGuard.Proofs.Binary64

/-!
# The order of floats and their whole parts

Without their signs the patterns of finite floats stand in the order of the numbers that they
denote, so floats are compared without finding those numbers.  A float without fractional part
denotes its whole part, and no bound stops that part on the way to a 64-bit integer unless it is out
of range.
-/

namespace CallGuard

namespace Binary64

variable {x y : Binary64}

/-! ## Order -/

theorem units_lt_of_field (x : Binary64) : x.units < 2 ^ 52 * 2 ^ (x.magnitude / 2 ^ 52) := by
  rw [units_eq, scale_eq, significand_eq]
  split
  · next subnormal =>
    rw [subnormal]
    omega
  · next normal =>
    obtain ⟨field, next⟩ := Nat.exists_eq_succ_of_ne_zero normal
    have double : 2 ^ 52 * 2 ^ field.succ = (2 ^ 52 + 2 ^ 52) * 2 ^ field := by
      rw [Nat.pow_succ' (n := field), ← Nat.mul_assoc, ← Nat.mul_two]
    rw [next, Nat.succ_sub_one, double]
    apply Nat.mul_lt_mul_of_pos_right _ (Nat.two_pow_pos _)
    omega

theorem le_units_of_field (normal : x.magnitude / 2 ^ 52 ≠ 0) :
    2 ^ 52 * 2 ^ (x.magnitude / 2 ^ 52 - 1) ≤ x.units := by
  rw [units_eq, scale_eq, significand_eq, if_neg normal]
  exact Nat.mul_le_mul_right _ (Nat.le_add_right _ _)

theorem units_lt_units (below : x.magnitude < y.magnitude) : x.units < y.units := by
  have fields : x.magnitude / 2 ^ 52 ≤ y.magnitude / 2 ^ 52 := Nat.div_le_div_right below.le
  -- Between different fields lies a power of two; floats of one field differ by their significands.
  rcases Nat.lt_or_eq_of_le fields with less | same
  · calc x.units < 2 ^ 52 * 2 ^ (x.magnitude / 2 ^ 52) := units_lt_of_field x
      _ ≤ 2 ^ 52 * 2 ^ (y.magnitude / 2 ^ 52 - 1) :=
        Nat.mul_le_mul_left _ (Nat.pow_le_pow_right Nat.two_pos (by omega))
      _ ≤ y.units := le_units_of_field (by omega)
  · rw [units_eq, units_eq, scale_eq, scale_eq, same]
    apply Nat.mul_lt_mul_of_pos_right _ (Nat.two_pow_pos _)
    rw [significand_eq, significand_eq, same]
    split <;> omega

theorem units_eq_units (same : x.magnitude = y.magnitude) : x.units = y.units := by
  rw [units_eq, units_eq, scale_eq, scale_eq, significand_eq, significand_eq, same]

theorem units_lt_units_iff : x.units < y.units ↔ x.magnitude < y.magnitude := by
  refine ⟨fun less => ?_, units_lt_units⟩
  rcases Nat.lt_trichotomy x.magnitude y.magnitude with below | same | above
  · exact below
  · exact absurd (units_eq_units same) less.ne
  · exact absurd (units_lt_units above) less.asymm

theorem units_eq_zero_iff : x.units = 0 ↔ x.magnitude = 0 := by
  rw [units_eq, Nat.mul_eq_zero, or_iff_left (Nat.two_pow_pos _).ne', significand_eq]
  split <;> omega

/-- The number that a finite float denotes, in the units in which magnitudes are told. -/
def signedUnits (x : Binary64) : ℤ := if x.isNegative then -(x.units : ℤ) else x.units

theorem toRat_eq (x : Binary64) : x.toRat = x.signedUnits / unitsOfOne := by
  rw [toRat, signedQuotient, signedUnits]
  split
  · rw [Int.cast_neg, Int.cast_natCast, neg_div]
  · rw [Int.cast_natCast]

theorem signedUnits_lt_iff : x.signedUnits < y.signedUnits ↔ x.rank < y.rank := by
  have less := @units_lt_units_iff x y
  have more := @units_lt_units_iff y x
  have zero := @units_eq_zero_iff x
  have zero' := @units_eq_zero_iff y
  unfold signedUnits rank
  split <;> split <;> omega

theorem toRat_lt_iff : x.toRat < y.toRat ↔ x.rank < y.rank := by
  have positive : (0 : ℚ) < unitsOfOne := Nat.cast_pos.mpr unitsOfOne_pos
  rw [toRat_eq, toRat_eq, div_lt_div_iff_of_pos_right positive, Int.cast_lt, signedUnits_lt_iff]

theorem isNaN_of_isFinite (finite : x.isFinite = true) : x.isNaN = false := by
  rw [isFinite, decide_eq_true_eq] at finite
  rw [isNaN, decide_eq_false_iff_not]
  omega

theorem not_isFinite (special : x.isNaN = true ∨ x.isInfinite = true) : x.isFinite ≠ true := by
  simp only [isNaN, isInfinite, decide_eq_true_eq] at special
  rw [isFinite, Ne, decide_eq_true_eq]
  omega

theorem toRat_of_isZero (zero : x.isZero = true) : x.isFinite = true ∧ x.toRat = 0 := by
  rw [isZero, decide_eq_true_eq] at zero
  constructor
  · rw [isFinite_iff, zero]
    decide
  · rw [toRat_eq, signedUnits, units_eq_zero_iff.mpr zero]
    simp

theorem below_iff (finite : x.isFinite = true) (finite' : y.isFinite = true) :
    x.below y = true ↔ x.toRat < y.toRat := by
  rw [toRat_lt_iff, below, isNaN_of_isFinite finite, isNaN_of_isFinite finite']
  simp only [Bool.not_false, Bool.true_and, decide_eq_true_eq]

theorem atMost_iff (finite : x.isFinite = true) (finite' : y.isFinite = true) :
    x.atMost y = true ↔ x.toRat ≤ y.toRat := by
  rw [← not_lt, toRat_lt_iff, atMost, isNaN_of_isFinite finite, isNaN_of_isFinite finite']
  simp only [Bool.not_false, Bool.true_and, decide_eq_true_eq, not_lt]

/-! ## Whole parts -/

theorem shiftRight_unitPower (n : Nat) : n >>> 1074 = n / unitsOfOne := by
  rw [show 1074 = unitPower by rw [unitPower], Nat.shiftRight_eq_div_pow, unitsOfOne]

theorem toRat_eq_int_iff {i : ℤ} : x.toRat = i ↔ x.signedUnits = i * unitsOfOne := by
  have nonzero : (unitsOfOne : ℚ) ≠ 0 := Nat.cast_ne_zero.mpr unitsOfOne_pos.ne'
  rw [toRat_eq, div_eq_iff nonzero]
  norm_cast

theorem dvd_signedUnits_iff : (unitsOfOne : ℤ) ∣ x.signedUnits ↔ unitsOfOne ∣ x.units := by
  unfold signedUnits
  split
  · rw [Int.dvd_neg, Int.natCast_dvd_natCast]
  · exact Int.natCast_dvd_natCast

/-- A float has no fractional part if and only if it denotes an integer. -/
theorem isWhole_iff : x.isWhole = true ↔ x.isFinite = true ∧ ∃ i : ℤ, x.toRat = i := by
  rw [isWhole, shiftLeft_unitPower, Nat.one_mul, Bool.and_eq_true, beq_iff_eq,
    ← Nat.dvd_iff_mod_eq_zero, ← dvd_signedUnits_iff]
  apply and_congr_right
  intro _
  constructor
  · rintro ⟨i, split⟩
    exact ⟨i, toRat_eq_int_iff.mpr (by rw [split, Int.mul_comm])⟩
  · rintro ⟨i, denotes⟩
    exact ⟨i, by rw [toRat_eq_int_iff.mp denotes, Int.mul_comm]⟩

theorem wholePart_eq {i : ℤ} (denotes : x.toRat = i) : x.wholePart = i := by
  have split := toRat_eq_int_iff.mp denotes
  have one := unitsOfOne_pos
  simp only [wholePart, shiftRight_unitPower]
  unfold signedUnits at split
  by_cases negative : x.isNegative = true
  · rw [if_pos negative] at split ⊢
    have units : (x.units : ℤ) = -i * unitsOfOne := by rw [Int.neg_mul, ← split, Int.neg_neg]
    rw [Int.natCast_ediv, units, Int.mul_ediv_cancel _ (by omega), Int.neg_neg]
  · rw [if_neg negative] at split ⊢
    rw [Int.natCast_ediv, split, Int.mul_ediv_cancel _ (by omega)]

/-- A whole part in the range of the integers is kept as it is. -/
theorem toInt_toInt64 (finite : x.isFinite = true) (least : -2 ^ 63 ≤ x.wholePart)
    (most : x.wholePart < 2 ^ 63) : x.toInt64.toInt = x.wholePart := by
  have inRange : max Int64.minValue.toInt (min x.wholePart Int64.maxValue.toInt) = x.wholePart := by
    have lowest : Int64.minValue.toInt = -2 ^ 63 := rfl
    have highest : Int64.maxValue.toInt = 2 ^ 63 - 1 := rfl
    omega
  rw [toInt64, isNaN_of_isFinite finite, if_neg Bool.false_ne_true, inRange]
  exact Int64.toInt_ofInt_of_le least most

end Binary64

end CallGuard
