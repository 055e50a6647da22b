import CallGuard.Proofs.Binary64
import Mathlib.Algebra.Order.Field.Basic
import Mathlib.Data.Nat.Dist

/-!
# Rounding to the nearest float

Magnitudes are told in units of `2 ^ -1074`, so that a quotient lies in a binade told by its scale,
where the floats are the multiples of one power of two.  The nearest multiple is the nearest float,
since the floats below the binade are further away than its lower end.
-/

namespace CallGuard

namespace Binary64

variable {numerator denominator : Nat} {negative : Bool}

/-! ## The nearest multiple -/

theorem roundQuotient_cases (numerator denominator : Nat) :
    (roundQuotient numerator denominator = numerator / denominator ∧
      2 * (numerator % denominator) ≤ denominator) ∨
    (roundQuotient numerator denominator = numerator / denominator + 1 ∧
      denominator ≤ 2 * (numerator % denominator)) := by
  simp only [roundQuotient]
  split
  · exact .inl ⟨rfl, by omega⟩
  · split
    · exact .inr ⟨rfl, by omega⟩
    · rcases Nat.mod_two_eq_zero_or_one (numerator / denominator) with even | odd
      · exact .inl ⟨by omega, by omega⟩
      · exact .inr ⟨by omega, by omega⟩

/-- Rounding finds the multiple nearest to the numerator. -/
theorem roundQuotient_nearest (numerator : Nat) (positive : 0 < denominator) (k : Nat) :
    Nat.dist numerator (roundQuotient numerator denominator * denominator) ≤
      Nat.dist numerator (k * denominator) := by
  have parts : numerator / denominator * denominator + numerator % denominator = numerator := by
    rw [Nat.mul_comm]
    exact Nat.div_add_mod _ _
  have rest := Nat.mod_lt numerator positive
  have apart : k * denominator ≤ numerator / denominator * denominator ∨
      numerator / denominator * denominator + denominator ≤ k * denominator := by
    rcases Nat.lt_or_ge (numerator / denominator) k with above | below
    · have := Nat.mul_le_mul_right denominator above
      exact .inr (by rwa [Nat.succ_mul] at this)
    · exact .inl (Nat.mul_le_mul_right denominator below)
  unfold Nat.dist
  rcases roundQuotient_cases numerator denominator with ⟨same, near⟩ | ⟨same, near⟩
  · rw [same]
    omega
  · rw [same, Nat.succ_mul]
    omega

theorem roundQuotient_mul (positive : 0 < denominator) (k : Nat) :
    roundQuotient (k * denominator) denominator = k := by
  have none : k * denominator % denominator = 0 := Nat.mul_mod_left _ _
  have whole : k * denominator / denominator = k := Nat.mul_div_cancel _ positive
  rcases roundQuotient_cases (k * denominator) denominator with ⟨same, -⟩ | ⟨-, near⟩
  · rw [same, whole]
  · omega

/-! ## Scales -/

/-- At its scale a quotient has at most fifty-three significant bits, and no fewer unless the
    scale is the smallest. -/
theorem scaleOf_spec (numerator : Nat) (positive : 0 < denominator) :
    numerator < denominator * 2 ^ (scaleOf numerator denominator + 53) ∧
      (scaleOf numerator denominator = 0 ∨
        denominator * 2 ^ (scaleOf numerator denominator + 52) ≤ numerator) := by
  have above : numerator < 2 ^ (numerator.log2 + 1) := Nat.lt_log2_self
  have below' : 2 ^ denominator.log2 ≤ denominator := Nat.log2_self_le positive.ne'
  have above' : denominator < 2 ^ (denominator.log2 + 1) := Nat.lt_log2_self
  generalize estimated : numerator.log2 - (denominator.log2 + 53) = estimate
  have scale : scaleOf numerator denominator =
      if numerator < denominator * 2 ^ (estimate + 53) then estimate else estimate + 1 := by
    simp only [scaleOf, estimated, Nat.shiftLeft_eq]
  rw [scale]
  -- The logarithms tell the scale up to one, and the comparison decides.
  split
  · next fits =>
    refine ⟨fits, or_iff_not_imp_left.mpr fun more => ?_⟩
    have nonzero : numerator ≠ 0 := by
      rintro rfl
      simp at estimated
      omega
    have same : denominator.log2 + 1 + (estimate + 52) = numerator.log2 := by omega
    calc denominator * 2 ^ (estimate + 52)
        ≤ 2 ^ (denominator.log2 + 1) * 2 ^ (estimate + 52) := Nat.mul_le_mul_right _ above'.le
      _ = 2 ^ numerator.log2 := by rw [← Nat.pow_add, same]
      _ ≤ numerator := Nat.log2_self_le nonzero
  · next past =>
    refine ⟨?_, .inr (Nat.le_of_not_lt past)⟩
    calc numerator < 2 ^ (numerator.log2 + 1) := above
      _ ≤ 2 ^ (denominator.log2 + (estimate + 1 + 53)) :=
        Nat.pow_le_pow_right (by decide) (by omega)
      _ = 2 ^ denominator.log2 * 2 ^ (estimate + 1 + 53) := Nat.pow_add ..
      _ ≤ denominator * 2 ^ (estimate + 1 + 53) := Nat.mul_le_mul_right _ below'

/-- The significand that a quotient is rounded to at its scale. -/
def rounded (numerator denominator : Nat) : Nat :=
  roundQuotient numerator (denominator * 2 ^ scaleOf numerator denominator)

theorem rounded_bounds (numerator : Nat) (positive : 0 < denominator) :
    rounded numerator denominator ≤ 2 ^ 53 ∧
      (2 ^ 52 ≤ rounded numerator denominator ∨ scaleOf numerator denominator = 0) := by
  obtain ⟨most, least⟩ := scaleOf_spec numerator positive
  have step : 0 < denominator * 2 ^ scaleOf numerator denominator :=
    Nat.mul_pos positive (Nat.two_pow_pos _)
  rw [Nat.pow_add, ← Nat.mul_assoc, Nat.mul_comm, ← Nat.div_lt_iff_lt_mul step] at most
  rw [Nat.pow_add, ← Nat.mul_assoc, Nat.mul_comm _ (2 ^ 52), ← Nat.le_div_iff_mul_le step] at least
  rw [rounded]
  rcases roundQuotient_cases numerator (denominator * 2 ^ scaleOf numerator denominator) with
    ⟨same, -⟩ | ⟨same, -⟩ <;> omega

theorem magnitudeOfUnits_eq (numerator denominator : Nat) :
    magnitudeOfUnits numerator denominator =
      min (scaleOf numerator denominator * 2 ^ 52 + rounded numerator denominator)
        (2047 * 2 ^ 52) := by
  simp only [magnitudeOfUnits, rounded, Nat.shiftLeft_eq, infiniteMagnitude_eq]

theorem magnitudeOfUnits_lt (numerator denominator : Nat) :
    magnitudeOfUnits numerator denominator < 2 ^ 63 := by
  rw [magnitudeOfUnits_eq]
  omega

/-! ## The nearest float -/

/-- A float is a multiple of a power of two or lies below the binade in which the floats are the
    multiples of it. -/
theorem exists_units_eq_or_lt (x : Binary64) (scale : Nat) :
    (∃ k, x.units = k * 2 ^ scale) ∨ (0 < scale ∧ x.units < 2 ^ 52 * 2 ^ scale) := by
  rw [units_eq]
  rcases Nat.lt_or_ge x.scale scale with below | above
  · refine .inr ⟨by omega, ?_⟩
    calc x.significand * 2 ^ x.scale < 2 ^ 53 * 2 ^ x.scale :=
          Nat.mul_lt_mul_of_pos_right x.significand_lt (Nat.two_pow_pos _)
      _ = 2 ^ 52 * 2 ^ (x.scale + 1) := by rw [Nat.pow_succ, Nat.pow_succ]; ring
      _ ≤ 2 ^ 52 * 2 ^ scale := Nat.mul_le_mul_left _ (Nat.pow_le_pow_right (by decide) below)
  · obtain ⟨k, split⟩ := Nat.exists_eq_add_of_le' above
    exact .inl ⟨x.significand * 2 ^ k, by rw [split, Nat.pow_add, Nat.mul_assoc]⟩

/-- No float is nearer to a quotient than what the quotient is rounded to. -/
theorem rounded_nearest (numerator : Nat) (positive : 0 < denominator) (x : Binary64) :
    Nat.dist numerator
        (rounded numerator denominator * 2 ^ scaleOf numerator denominator * denominator) ≤
      Nat.dist numerator (x.units * denominator) := by
  obtain ⟨-, least⟩ := scaleOf_spec numerator positive
  generalize scale : scaleOf numerator denominator = s at least
  have step : 0 < denominator * 2 ^ s := Nat.mul_pos positive (Nat.two_pow_pos _)
  have regroup (k : Nat) : k * 2 ^ s * denominator = k * (denominator * 2 ^ s) := by ring
  have nearest := roundQuotient_nearest numerator step
  rw [rounded, scale, regroup]
  rcases x.exists_units_eq_or_lt s with ⟨k, multiple⟩ | ⟨scaled, below⟩
  · rw [multiple, regroup]
    exact nearest k
  · -- A float below the binade is further away than the lower end of the binade, which is a
    -- multiple.
    have inside : 2 ^ 52 * (denominator * 2 ^ s) ≤ numerator := by
      rw [Nat.mul_left_comm, ← Nat.pow_add, Nat.add_comm]
      exact least.resolve_left scaled.ne'
    have below' : x.units * denominator < 2 ^ 52 * (denominator * 2 ^ s) := by
      rw [← regroup]
      exact Nat.mul_lt_mul_of_pos_right below positive
    calc Nat.dist numerator (roundQuotient numerator (denominator * 2 ^ s) * (denominator * 2 ^ s))
        ≤ Nat.dist numerator (2 ^ 52 * (denominator * 2 ^ s)) := nearest _
      _ ≤ Nat.dist numerator (x.units * denominator) := by unfold Nat.dist; omega

theorem ofRatio_eq (negative : Bool) (numerator denominator : Nat) :
    ofRatio negative numerator denominator =
      ofMagnitude negative (magnitudeOfUnits (numerator * unitsOfOne) denominator) := by
  rw [ofRatio, shiftLeft_unitPower]

theorem isNegative_ofRatio (negative : Bool) (numerator denominator : Nat) :
    (ofRatio negative numerator denominator).isNegative = negative := by
  rw [ofRatio_eq, isNegative_ofMagnitude (magnitudeOfUnits_lt _ _)]

theorem isFinite_ofRatio_iff : (ofRatio negative numerator denominator).isFinite = true ↔
    scaleOf (numerator * unitsOfOne) denominator * 2 ^ 52 +
      rounded (numerator * unitsOfOne) denominator < 2047 * 2 ^ 52 := by
  rw [isFinite_iff, ofRatio_eq, magnitude_ofMagnitude (magnitudeOfUnits_lt _ _),
    magnitudeOfUnits_eq, min_lt_iff]
  exact or_iff_left (lt_irrefl _)

theorem units_ofRatio (positive : 0 < denominator)
    (finite : (ofRatio negative numerator denominator).isFinite = true) :
    (ofRatio negative numerator denominator).units =
      rounded (numerator * unitsOfOne) denominator *
        2 ^ scaleOf (numerator * unitsOfOne) denominator := by
  rw [isFinite_ofRatio_iff] at finite
  obtain ⟨most, least⟩ := rounded_bounds (numerator * unitsOfOne) positive
  rw [ofRatio_eq, magnitudeOfUnits_eq, Nat.min_eq_left finite.le]
  exact units_ofMagnitude most least finite

theorem abs_sub_eq_dist (m n : Nat) : |(m : ℚ) - n| = Nat.dist m n := by
  rcases Nat.le_total m n with below | above
  · rw [Nat.dist_eq_sub_of_le below, Nat.cast_sub below, abs_sub_comm]
    exact abs_of_nonneg (sub_nonneg.mpr (Nat.cast_le.mpr below))
  · rw [Nat.dist_eq_sub_of_le_right above, Nat.cast_sub above]
    exact abs_of_nonneg (sub_nonneg.mpr (Nat.cast_le.mpr above))

/-- Distances of quotients, over a common denominator. -/
theorem abs_sub_div_eq {m n p q : Nat} (positive : 0 < p) (positive' : 0 < q) :
    |(m : ℚ) / p - n / q| = Nat.dist (n * p) (m * q) / (p * q) := by
  have nonzero : (p : ℚ) ≠ 0 := Nat.cast_ne_zero.mpr positive.ne'
  have nonzero' : (q : ℚ) ≠ 0 := Nat.cast_ne_zero.mpr positive'.ne'
  rw [div_sub_div _ _ nonzero nonzero', abs_div, abs_of_pos (by positivity : (0 : ℚ) < p * q),
    Nat.dist_comm, ← abs_sub_eq_dist, Nat.cast_mul, Nat.cast_mul, mul_comm (n : ℚ)]

/-- No float is nearer to a quotient under a sign than the float made of it, if that is finite. -/
theorem ofRatio_nearest (positive : 0 < denominator)
    (finite : (ofRatio negative numerator denominator).isFinite = true) (x : Binary64) :
    |(ofRatio negative numerator denominator).toRat -
        signedQuotient negative numerator denominator| ≤
      |x.toRat - signedQuotient negative numerator denominator| := by
  have nearest := rounded_nearest (numerator * unitsOfOne) positive x
  rw [← units_ofRatio positive finite] at nearest
  rw [toRat, isNegative_ofRatio, abs_signedQuotient_sub]
  -- Of a float under the other sign the magnitude is nearer still.
  calc |((ofRatio negative numerator denominator).units : ℚ) / unitsOfOne - numerator / denominator|
      ≤ |(x.units : ℚ) / unitsOfOne - numerator / denominator| := by
        rw [abs_sub_div_eq unitsOfOne_pos positive, abs_sub_div_eq unitsOfOne_pos positive]
        exact div_le_div_of_nonneg_right (Nat.cast_le.mpr nearest)
          (mul_nonneg (Nat.cast_nonneg _) (Nat.cast_nonneg _))
    _ = |(|x.toRat| - |signedQuotient negative numerator denominator|)| := by
        rw [toRat, abs_signedQuotient, abs_signedQuotient]
    _ ≤ |x.toRat - signedQuotient negative numerator denominator| := abs_abs_sub_abs_le _ _

/-! ## Integers -/

/-- An integer is finite as a float unless it has more than a thousand and twenty-three bits. -/
theorem isFinite_ofInt {i : ℤ} {bits : Nat} (few : bits ≤ 1023) (small : i.natAbs < 2 ^ bits) :
    (ofInt i).isFinite = true := by
  refine isFinite_ofRatio_iff.mpr ?_
  obtain ⟨most, -⟩ := rounded_bounds (i.natAbs * unitsOfOne) Nat.one_pos
  obtain ⟨-, least⟩ := scaleOf_spec (i.natAbs * unitsOfOne) Nat.one_pos
  have scale : scaleOf (i.natAbs * unitsOfOne) 1 < 2045 := by
    rcases least with zero | least
    · rw [zero]
      decide
    · have below : i.natAbs * unitsOfOne < 2 ^ (bits + unitPower) := by
        rw [unitsOfOne, Nat.pow_add]
        exact Nat.mul_lt_mul_of_pos_right small (Nat.two_pow_pos _)
      rw [Nat.one_mul] at least
      have := (Nat.pow_lt_pow_iff_right (by decide)).mp (Nat.lt_of_le_of_lt least below)
      have : unitPower = 1074 := by rw [unitPower]
      omega
  omega

/-- No finite float is nearer to an integer than the float made of it. -/
theorem ofInt_nearest {i : ℤ} (finite : (ofInt i).isFinite = true) (x : Binary64) :
    |(ofInt i).toRat - i| ≤ |x.toRat - i| := by
  have nearest := ofRatio_nearest Nat.one_pos finite x
  rwa [signedQuotient_int] at nearest

/-- The float made of an integer is that integer if any float is. -/
theorem toRat_ofInt_eq_iff_exists {i : ℤ} (finite : (ofInt i).isFinite = true) :
    (ofInt i).toRat = i ↔ ∃ x : Binary64, x.isFinite = true ∧ x.toRat = i := by
  refine ⟨fun exact => ⟨ofInt i, finite, exact⟩, ?_⟩
  rintro ⟨x, -, exact⟩
  have nearest := ofInt_nearest finite x
  rw [exact, sub_self, abs_zero] at nearest
  exact sub_eq_zero.mp (abs_nonpos_iff.mp nearest)

/-- A significand of at most fifty-three bits times a power of two is a multiple of the power of
    two at its scale, so that nothing is rounded. -/
theorem scaleOf_dvd {m k : Nat} (small : m < 2 ^ 53) : 2 ^ scaleOf (m * 2 ^ k) 1 ∣ m * 2 ^ k := by
  obtain ⟨-, least⟩ := scaleOf_spec (m * 2 ^ k) Nat.one_pos
  refine (Nat.pow_dvd_pow 2 ?_).trans (Nat.dvd_mul_left _ _)
  rcases least with zero | least
  · exact zero ▸ Nat.zero_le k
  · rw [Nat.one_mul] at least
    have most : m * 2 ^ k < 2 ^ (53 + k) := by
      rw [Nat.pow_add]
      exact Nat.mul_lt_mul_of_pos_right small (Nat.two_pow_pos _)
    have := (Nat.pow_lt_pow_iff_right (by decide)).mp (Nat.lt_of_le_of_lt least most)
    omega

theorem rounded_of_dvd {numerator : Nat} (multiple : 2 ^ scaleOf numerator 1 ∣ numerator) :
    rounded numerator 1 * 2 ^ scaleOf numerator 1 = numerator := by
  obtain ⟨k, split⟩ := multiple
  generalize scale : scaleOf numerator 1 = s at split ⊢
  rw [rounded, scale, Nat.one_mul, split, Nat.mul_comm (2 ^ s) k,
    roundQuotient_mul (Nat.two_pow_pos _)]

theorem toRat_ofInt_eq_iff_units {i : ℤ} :
    (ofInt i).toRat = i ↔ (ofInt i).units = i.natAbs * unitsOfOne := by
  have distance : |(ofInt i).toRat - i| =
      Nat.dist (i.natAbs * unitsOfOne) (ofInt i).units / unitsOfOne := by
    rw [← signedQuotient_int i, toRat, ofInt, isNegative_ofRatio, abs_signedQuotient_sub,
      abs_sub_div_eq unitsOfOne_pos Nat.one_pos, Nat.mul_one, Nat.cast_one, mul_one]
  have nonzero : (unitsOfOne : ℚ) ≠ 0 := Nat.cast_ne_zero.mpr unitsOfOne_pos.ne'
  rw [← sub_eq_zero, ← abs_eq_zero, distance, div_eq_zero_iff, or_iff_left nonzero,
    Nat.cast_eq_zero]
  exact ⟨fun none => (Nat.eq_of_dist_eq_zero none).symm, fun same => Nat.dist_eq_zero same.symm⟩

/-- An integer is exact as a float if and only if fifty-three of its bits are enough. -/
theorem toRat_ofInt_eq_iff {i : ℤ} (finite : (ofInt i).isFinite = true) :
    (ofInt i).toRat = i ↔ ∃ m k, m < 2 ^ 53 ∧ i.natAbs = m * 2 ^ k := by
  rw [toRat_ofInt_eq_iff_units]
  constructor
  · exact exists_of_units_eq
  · rintro ⟨m, k, small, split⟩
    have units : i.natAbs * unitsOfOne = m * 2 ^ (k + unitPower) := by
      rw [split, unitsOfOne, Nat.mul_assoc, Nat.pow_add]
    rw [ofInt, units_ofRatio Nat.one_pos finite]
    exact rounded_of_dvd (units ▸ scaleOf_dvd small)

end Binary64

end CallGuard
