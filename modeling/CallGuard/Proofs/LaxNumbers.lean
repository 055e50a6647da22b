import CallGuard.Proofs.Conformance
import CallGuard.Proofs.FloatOrder
import CallGuard.Proofs.FloatRounding

/-!
# Numbers in lax mode

What lax mode makes of a number where a number of the other kind is asked for.  An integer always
becomes a float, the nearest one, and so it is another number afterwards unless fifty-three of its
bits are enough.  A float becomes an integer only if it denotes one in the range of 64 bits, and
then it becomes just that one.
-/

namespace CallGuard

namespace Binary64

/-! ## The range of the integers -/

theorem cast_inRange_iff {n : ℤ} :
    (-2 ^ 63 ≤ (n : ℚ) ∧ (n : ℚ) < 2 ^ 63) ↔ -2 ^ 63 ≤ n ∧ n < 2 ^ 63 := by
  have least : (-2 ^ 63 : ℚ) = ((-2 ^ 63 : ℤ) : ℚ) := by norm_num
  have most : (2 ^ 63 : ℚ) = ((2 ^ 63 : ℤ) : ℚ) := by norm_num
  rw [least, most, Int.cast_le, Int.cast_lt]

theorem ofInt_minValue :
    (ofInt Int64.minValue.toInt).isFinite = true ∧
      (ofInt Int64.minValue.toInt).toRat = -2 ^ 63 := by
  have finite : (ofInt Int64.minValue.toInt).isFinite = true := by decide +kernel
  have exact := (toRat_ofInt_eq_iff finite).mpr ⟨1, 63, by decide, by decide⟩
  refine ⟨finite, exact.trans ?_⟩
  rw [show Int64.minValue.toInt = -2 ^ 63 from rfl]
  norm_num

/-- The greatest integer has too many bits, and as a float it is the integer after it. -/
theorem ofInt_maxValue :
    (ofInt Int64.maxValue.toInt).isFinite = true ∧ (ofInt Int64.maxValue.toInt).toRat = 2 ^ 63 := by
  have roundedUp : ofInt Int64.maxValue.toInt = ofInt (2 ^ 63) := by decide +kernel
  have finite : (ofInt (2 ^ 63)).isFinite = true := by decide +kernel
  have exact := (toRat_ofInt_eq_iff finite).mpr ⟨1, 63, by decide, by decide⟩
  rw [roundedUp]
  refine ⟨finite, exact.trans ?_⟩
  norm_num

/-- The bounds on floats are the range of the integers, although one of them is rounded. -/
theorem inRange_iff {x : Binary64} {n : ℤ} (finite : x.isFinite = true) (denotes : x.toRat = n) :
    (atMost (ofInt Int64.minValue.toInt) x && x.below (ofInt Int64.maxValue.toInt)) = true ↔
      -2 ^ 63 ≤ n ∧ n < 2 ^ 63 := by
  obtain ⟨finiteLeast, least⟩ := ofInt_minValue
  obtain ⟨finiteMost, most⟩ := ofInt_maxValue
  rw [Bool.and_eq_true, atMost_iff finiteLeast finite, below_iff finite finiteMost, least, most,
    denotes, cast_inRange_iff]

end Binary64

namespace Coercion

/-- A float is taken for an integer if and only if that is the number it denotes. -/
theorem intOfFloat?_eq_some_iff {x : Binary64} {i : Int64} :
    intOfFloat? x = some i ↔ x.isFinite = true ∧ x.toRat = i.toInt := by
  have least := i.le_toInt
  have most := i.toInt_lt
  unfold intOfFloat?
  rw [Bool.and_assoc, Option.ite_none_right_eq_some, Bool.and_eq_true, Binary64.isWhole_iff,
    Option.some.injEq, ← Int64.toInt_inj]
  constructor
  · rintro ⟨⟨⟨finite, n, denotes⟩, inRange⟩, same⟩
    have whole := Binary64.wholePart_eq denotes
    obtain ⟨lower, upper⟩ := (Binary64.inRange_iff finite denotes).mp inRange
    have kept := Binary64.toInt_toInt64 finite (whole ▸ lower) (whole ▸ upper)
    refine ⟨finite, ?_⟩
    rw [denotes, ← same, kept, whole]
  · rintro ⟨finite, denotes⟩
    have whole := Binary64.wholePart_eq denotes
    refine ⟨⟨⟨finite, i.toInt, denotes⟩,
      (Binary64.inRange_iff finite denotes).mpr ⟨least, most⟩⟩, ?_⟩
    rw [Binary64.toInt_toInt64 finite (whole ▸ least) (whole ▸ most), whole]

theorem isSome_intOfFloat?_iff {x : Binary64} : (intOfFloat? x).isSome ↔
    x.isFinite = true ∧ (∃ n : ℤ, x.toRat = n) ∧ -2 ^ 63 ≤ x.toRat ∧ x.toRat < 2 ^ 63 := by
  rw [Option.isSome_iff_exists]
  constructor
  · rintro ⟨i, taken⟩
    obtain ⟨finite, denotes⟩ := intOfFloat?_eq_some_iff.mp taken
    refine ⟨finite, ⟨i.toInt, denotes⟩, ?_⟩
    rw [denotes]
    exact Binary64.cast_inRange_iff.mpr ⟨i.le_toInt, i.toInt_lt⟩
  · rintro ⟨finite, ⟨n, denotes⟩, inRange⟩
    rw [denotes, Binary64.cast_inRange_iff] at inRange
    have kept := Int64.toInt_ofInt_of_le inRange.1 inRange.2
    exact ⟨Int64.ofInt n, intOfFloat?_eq_some_iff.mpr ⟨finite, by rw [denotes, kept]⟩⟩

theorem intOfFloat?_of_isZero {x : Binary64} (zero : x.isZero = true) : intOfFloat? x = some 0 := by
  obtain ⟨finite, denotes⟩ := Binary64.toRat_of_isZero zero
  apply intOfFloat?_eq_some_iff.mpr
  exact ⟨finite, by simpa using denotes⟩

theorem intOfFloat?_eq_none {x : Binary64} (special : x.isNaN = true ∨ x.isInfinite = true) :
    intOfFloat? x = none := by
  apply Option.eq_none_iff_forall_ne_some.mpr
  intro i taken
  exact Binary64.not_isFinite special (intOfFloat?_eq_some_iff.mp taken).1

end Coercion

namespace TypeExpr

theorem natAbs_toInt_lt (i : Int64) : i.toInt.natAbs < 2 ^ 64 := by
  have least := i.le_toInt
  have most := i.toInt_lt
  omega

theorem normal?_float_int (i : Int64) (allowExtra : Bool) :
    TypeExpr.float.normal? (.lax allowExtra) (.int i) = some (.float (.ofInt i.toInt)) := by
  rw [normal?_float]
  rfl

/-- Where a float is asked for, lax mode takes every integer for the float nearest to it.  That
    float is the integer if and only if some float is, which takes at most fifty-three significant
    bits. -/
theorem check_lax_float_of_int (i : Int64) (allowExtra : Bool) (path : Path) :
    ∃ f : Binary64,
      (TypeExpr.float.check (.lax allowExtra) (.int i) path).normal? = some (.float f) ∧
      f.isFinite = true ∧
      (∀ x : Binary64, x.isFinite = true → |f.toRat - i.toInt| ≤ |x.toRat - i.toInt|) ∧
      (f.toRat = i.toInt ↔ ∃ x : Binary64, x.isFinite = true ∧ x.toRat = i.toInt) ∧
      (f.toRat = i.toInt ↔ ∃ m k, m < 2 ^ 53 ∧ i.toInt.natAbs = m * 2 ^ k) := by
  have finite : (Binary64.ofInt i.toInt).isFinite = true :=
    Binary64.isFinite_ofInt (by decide) (natAbs_toInt_lt i)
  refine ⟨.ofInt i.toInt, ?_, finite, fun x _ => Binary64.ofInt_nearest finite x, ?_, ?_⟩
  · rw [normal?_check, normal?_float_int]
  · exact Binary64.toRat_ofInt_eq_iff_exists finite
  · exact Binary64.toRat_ofInt_eq_iff finite

/-- The least integer above zero that is no float is taken for the float below it. -/
theorem not_check_lax_float_of_int_exact :
    let i : Int64 := 9007199254740993
    let f : Binary64 := ⟨0x4340000000000000⟩
    (TypeExpr.float.check (.lax false) (.int i) .empty).normal? = some (.float f) ∧
      f.toRat = 9007199254740992 ∧ f.toRat ≠ i.toInt := by
  intro i f
  have made : Binary64.ofInt i.toInt = f := by decide +kernel
  have below : Binary64.ofInt 9007199254740992 = f := by decide +kernel
  have exact : f.toRat = (9007199254740992 : ℤ) := by
    have finite : f.isFinite = true := by decide +kernel
    rw [← below] at finite ⊢
    exact (Binary64.toRat_ofInt_eq_iff finite).mpr ⟨2 ^ 52, 1, by decide, by decide⟩
  refine ⟨?_, exact, ?_⟩
  · rw [normal?_check, normal?_float_int, made]
  · rw [exact, Ne, Int.cast_inj]
    decide

/-- Where an integer is asked for, lax mode takes the floats that denote an integer in the range of
    64 bits, and no others.  What it makes of them is the number that they denote. -/
theorem check_lax_int_of_float (f : Binary64) (allowExtra : Bool) (path : Path) :
    ((TypeExpr.int.check (.lax allowExtra) (.float f) path).normal?.isSome ↔
      f.isFinite = true ∧ (∃ i : ℤ, f.toRat = i) ∧ -2 ^ 63 ≤ f.toRat ∧ f.toRat < 2 ^ 63) ∧
    (∀ normal, (TypeExpr.int.check (.lax allowExtra) (.float f) path).normal? = some normal →
      ∃ i : Int64, normal = .int i ∧ (i.toInt : ℚ) = f.toRat) ∧
    (f.isZero = true →
      TypeExpr.int.check (.lax allowExtra) (.float f) path = .pass (.int 0)) ∧
    (f.isNaN = true ∨ f.isInfinite = true →
      TypeExpr.int.check (.lax allowExtra) (.float f) path =
        .reject path (.wrongKind .int (.float f))) := by
  have converts : TypeExpr.int.normal? (.lax allowExtra) (.float f) =
      (Coercion.intOfFloat? f).map .int := normal?_int_lax rfl
  refine ⟨?_, ?_, ?_, ?_⟩
  · rw [normal?_check, converts, Option.isSome_map, Coercion.isSome_intOfFloat?_iff]
  · intro normal passed
    rw [normal?_check, converts] at passed
    obtain ⟨i, taken, rfl⟩ := Option.map_eq_some_iff.mp passed
    obtain ⟨-, denotes⟩ := Coercion.intOfFloat?_eq_some_iff.mp taken
    exact ⟨i, rfl, denotes.symm⟩
  · intro zero
    rw [check_eq_pass_iff, converts, Coercion.intOfFloat?_of_isZero zero]
    rfl
  · intro special
    exact check_int_lax_eq_reject rfl (Coercion.intOfFloat?_eq_none special)

/-- Zero is taken whatever its sign, and a float that is no number is not. -/
theorem check_lax_int_of_float_zeros :
    (TypeExpr.int.check (.lax false) (.float (.zero true)) .empty = .pass (.int 0) ∧
      TypeExpr.int.check (.lax false) (.float (.zero false)) .empty = .pass (.int 0)) ∧
    TypeExpr.int.check (.lax false) (.float .nan) .empty =
      .reject .empty (.wrongKind .int (.float .nan)) := by
  have plus := (check_lax_int_of_float (.zero false) false .empty).2.2.1
  have minus := (check_lax_int_of_float (.zero true) false .empty).2.2.1
  have none := (check_lax_int_of_float .nan false .empty).2.2.2
  exact ⟨⟨minus (by decide), plus (by decide)⟩, none (.inl (by decide))⟩

end TypeExpr

end CallGuard
