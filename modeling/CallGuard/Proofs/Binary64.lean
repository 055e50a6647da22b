import CallGuard.Number.Binary64
import Mathlib.Algebra.Order.Field.Rat
import Mathlib.Algebra.Order.Ring.Abs
import Mathlib.Tactic.Linarith
import Mathlib.Tactic.Positivity
import Mathlib.Tactic.Ring

/-!
# The numbers that floats denote

A finite float denotes a rational number, a significand of at most fifty-three bits times a power
of two under a sign.  The pattern that is put together from a sign, a significand and a power has
just that value, also where the significand runs over into the next power.
-/

namespace CallGuard

namespace Binary64

variable {x : Binary64} {negative : Bool} {magnitude significand scale : Nat}

/-! ## Parts of a pattern -/

theorem toNat_bits_ofMagnitude (small : magnitude < 2 ^ 63) :
    (ofMagnitude negative magnitude).bits.toNat =
      if negative then 2 ^ 63 + magnitude else magnitude := by
  rw [ofMagnitude, UInt64.toNat_ofNat', Nat.shiftLeft_eq, Nat.one_mul]
  refine Nat.mod_eq_of_lt ?_
  split <;> omega

theorem isNegative_ofMagnitude (small : magnitude < 2 ^ 63) :
    (ofMagnitude negative magnitude).isNegative = negative := by
  rw [isNegative, toNat_bits_ofMagnitude small, Nat.shiftLeft_eq, Nat.one_mul]
  cases negative
  · simpa using small
  · simp

theorem magnitude_ofMagnitude (small : magnitude < 2 ^ 63) :
    (ofMagnitude negative magnitude).magnitude = magnitude := by
  rw [Binary64.magnitude, toNat_bits_ofMagnitude small, Nat.shiftLeft_eq, Nat.one_mul]
  split <;> omega

theorem infiniteMagnitude_eq : infiniteMagnitude = 2047 * 2 ^ 52 := Nat.shiftLeft_eq 2047 52

theorem isFinite_iff : x.isFinite = true ↔ x.magnitude < 2047 * 2 ^ 52 := by
  rw [isFinite, decide_eq_true_iff, infiniteMagnitude_eq]

theorem exponentField_eq (x : Binary64) : x.exponentField = x.magnitude / 2 ^ 52 :=
  Nat.shiftRight_eq_div_pow _ _

theorem fraction_eq (x : Binary64) : x.fraction = x.magnitude % 2 ^ 52 := by
  rw [fraction, Nat.shiftLeft_eq, Nat.one_mul]

theorem significand_eq (x : Binary64) : x.significand =
    if x.magnitude / 2 ^ 52 = 0 then x.magnitude % 2 ^ 52 else 2 ^ 52 + x.magnitude % 2 ^ 52 := by
  rw [Binary64.significand, exponentField_eq, fraction_eq, Nat.shiftLeft_eq, Nat.one_mul]

theorem scale_eq (x : Binary64) : x.scale = x.magnitude / 2 ^ 52 - 1 := by
  rw [Binary64.scale, exponentField_eq]

theorem units_eq (x : Binary64) : x.units = x.significand * 2 ^ x.scale := Nat.shiftLeft_eq _ _

theorem significand_lt (x : Binary64) : x.significand < 2 ^ 53 := by
  rw [significand_eq]
  split <;> omega

/-- The magnitude that a significand and a scale are put together to.  A significand of `2 ^ 53`
    is the least one at the next scale. -/
theorem units_ofMagnitude (most : significand ≤ 2 ^ 53) (least : 2 ^ 52 ≤ significand ∨ scale = 0)
    (finite : scale * 2 ^ 52 + significand < 2047 * 2 ^ 52) :
    (ofMagnitude negative (scale * 2 ^ 52 + significand)).units = significand * 2 ^ scale := by
  have same : (ofMagnitude negative (scale * 2 ^ 52 + significand)).magnitude =
      scale * 2 ^ 52 + significand := magnitude_ofMagnitude (by omega)
  rw [units_eq, significand_eq, scale_eq, same]
  -- The exponent field is zero, one above the scale, or two above it where the significand runs
  -- over.
  rcases Nat.lt_or_ge significand (2 ^ 52) with subnormal | normal
  · have zero : scale = 0 := least.resolve_left (by omega)
    have field : (scale * 2 ^ 52 + significand) / 2 ^ 52 = 0 := by omega
    rw [field, if_pos rfl, zero]
    congr 1
    omega
  · rcases Nat.lt_or_ge significand (2 ^ 53) with normal' | past
    · have field : (scale * 2 ^ 52 + significand) / 2 ^ 52 = scale + 1 := by omega
      rw [field, if_neg (Nat.succ_ne_zero _), Nat.add_sub_cancel]
      congr 1
      omega
    · have field : (scale * 2 ^ 52 + significand) / 2 ^ 52 = scale + 2 := by omega
      have exact : significand = 2 ^ 52 * 2 := by omega
      have rest : (scale * 2 ^ 52 + significand) % 2 ^ 52 = 0 := by omega
      rw [field, if_neg (Nat.succ_ne_zero _), rest, exact, Nat.add_zero, Nat.mul_assoc,
        ← Nat.pow_succ']
      rfl

/-! ## Values -/

/-- The power of two in one of the units in which magnitudes are told. -/
@[irreducible]
def unitPower : Nat := 1074

/-- One, in the units in which magnitudes are told. -/
def unitsOfOne : Nat := 2 ^ unitPower

theorem unitsOfOne_pos : 0 < unitsOfOne := Nat.two_pow_pos unitPower

theorem shiftLeft_unitPower (n : Nat) : n <<< 1074 = n * unitsOfOne := by
  rw [show 1074 = unitPower by rw [unitPower], Nat.shiftLeft_eq, unitsOfOne]

/-- A quotient under a sign. -/
def signedQuotient (negative : Bool) (numerator denominator : Nat) : ℚ :=
  if negative then -(numerator / denominator) else numerator / denominator

theorem abs_signedQuotient (negative : Bool) (numerator denominator : Nat) :
    |signedQuotient negative numerator denominator| = numerator / denominator := by
  have nonneg : (0 : ℚ) ≤ numerator / denominator := by positivity
  rw [signedQuotient]
  split
  · rw [abs_neg, abs_of_nonneg nonneg]
  · exact abs_of_nonneg nonneg

theorem abs_signedQuotient_sub {m n p q : Nat} :
    |signedQuotient negative m p - signedQuotient negative n q| = |(m : ℚ) / p - n / q| := by
  cases negative
  · rfl
  · rw [signedQuotient, signedQuotient, if_pos rfl, if_pos rfl, neg_sub_neg, abs_sub_comm]

theorem signedQuotient_int (i : ℤ) : signedQuotient (decide (i < 0)) i.natAbs 1 = i := by
  have magnitude : ((i.natAbs : ℕ) : ℚ) = |(i : ℚ)| := by rw [Nat.cast_natAbs, Int.cast_abs]
  rw [signedQuotient, Nat.cast_one, div_one, magnitude]
  rcases lt_or_ge i 0 with negative | nonneg
  · rw [if_pos (by simpa using negative), abs_of_neg (Int.cast_lt_zero.mpr negative), neg_neg]
  · rw [if_neg (by simpa using nonneg), abs_of_nonneg (Int.cast_nonneg nonneg)]

/-- The number that a finite float denotes. -/
def toRat (x : Binary64) : ℚ := signedQuotient x.isNegative x.units unitsOfOne

/-- A multiple of a power of two that is a magnitude is a multiple of it by a significand of at most
    fifty-three bits and a power of two. -/
theorem exists_of_units_eq {n power : Nat} (same : x.units = n * 2 ^ power) :
    ∃ m k, m < 2 ^ 53 ∧ n = m * 2 ^ k := by
  rw [units_eq] at same
  rcases Nat.lt_or_ge x.scale power with below | above
  · obtain ⟨k, rfl⟩ := Nat.exists_eq_add_of_le' (Nat.le_of_lt below)
    rw [Nat.pow_add, ← Nat.mul_assoc] at same
    have whole : x.significand = n * 2 ^ k := Nat.eq_of_mul_eq_mul_right (Nat.two_pow_pos _) same
    refine ⟨n, 0, ?_, (Nat.mul_one n).symm⟩
    calc n ≤ n * 2 ^ k := Nat.le_mul_of_pos_right n (Nat.two_pow_pos _)
      _ = x.significand := whole.symm
      _ < 2 ^ 53 := x.significand_lt
  · obtain ⟨k, split⟩ := Nat.exists_eq_add_of_le' above
    rw [split, Nat.pow_add, ← Nat.mul_assoc] at same
    exact ⟨x.significand, k, x.significand_lt,
      (Nat.eq_of_mul_eq_mul_right (Nat.two_pow_pos _) same).symm⟩

end Binary64

end CallGuard
