import CallGuard.Proofs.Conformance
import CallGuard.Proofs.Numerals

/-!
# Texts in lax mode

What lax mode makes of a text where an integer or a truth value is asked for, and of those where a
text is asked for.  The text of an integer is a numeral of it and that of a truth value is its word,
so each comes back from its text, with any blanks around it.
-/

namespace CallGuard

/-! ## Blanks around a text -/

/-- A text with any blanks before and after it. -/
def Padded (text padded : String) : Prop :=
  ∃ before after : String, (∀ c ∈ before.toList, isBlank c = true) ∧
    (∀ c ∈ after.toList, isBlank c = true) ∧ padded = before ++ text ++ after

theorem trim_of_padded {text padded : String} (visible : ∀ c ∈ text.toList, isBlank c = false)
    (around : Padded text padded) : trim padded.toList = text.toList := by
  obtain ⟨before, after, blanks, blanks', rfl⟩ := around
  rw [String.toList_append, String.toList_append]
  exact trim_padded blanks visible blanks'

/-! ## Reading back -/

namespace Coercion

theorem intOfText?_eq_some_iff {text : String} {i : Int64} :
    intOfText? text = some i ↔ IsNumeral (trim text.toList) i.toInt := by
  rw [intOfText?, readInt64?, Option.bind_eq_some_iff]
  simp only [readInt?_eq_some_iff, int64?_eq_some_iff, exists_eq_right]

theorem isSome_intOfText?_iff {text : String} : (intOfText? text).isSome ↔
    ∃ n, IsNumeral (trim text.toList) n ∧ -2 ^ 63 ≤ n ∧ n < 2 ^ 63 := by
  rw [Option.isSome_iff_exists]
  simp only [intOfText?_eq_some_iff, ← exists_toInt_iff]
  constructor
  · rintro ⟨i, numeral⟩
    exact ⟨i.toInt, numeral, i, rfl⟩
  · rintro ⟨_, numeral, i, rfl⟩
    exact ⟨i, numeral⟩

theorem intOfText?_of_padded {i : Int64} {padded : String} (around : Padded (int64Text i) padded) :
    intOfText? padded = some i := by
  have numeral := isNumeral_int64Text i
  rw [intOfText?_eq_some_iff, trim_of_padded numeral.visible around]
  exact numeral

theorem boolOfText?_of_padded {b : Bool} {padded : String}
    (around : Padded (if b then "true" else "false") padded) : boolOfText? padded = some b := by
  cases b
  all_goals
    rw [boolOfText?, trim_of_padded (visible_iff.mpr (by decide)) around]
    decide

end Coercion

namespace TypeExpr

/-- In lax mode integers and truth values come back from their texts, with any blanks around them.
    A text is taken for an integer if and only if without such blanks it is a numeral of one in the
    range of 64 bits, and then for that one. -/
theorem check_lax_through_text (allowExtra : Bool) (path : Path) :
    (∀ i : Int64, ∃ s : String,
      TypeExpr.str.check (.lax allowExtra) (.int i) path = .pass (.str s) ∧
      ∀ padded, Padded s padded →
        TypeExpr.int.check (.lax allowExtra) (.str padded) path = .pass (.int i)) ∧
    (∀ b : Bool, ∃ s : String,
      TypeExpr.str.check (.lax allowExtra) (.bool b) path = .pass (.str s) ∧
      ∀ padded, Padded s padded →
        TypeExpr.bool.check (.lax allowExtra) (.str padded) path = .pass (.bool b)) ∧
    (∀ s : String, (TypeExpr.int.check (.lax allowExtra) (.str s) path).normal?.isSome ↔
      ∃ n, IsNumeral (trim s.toList) n ∧ -2 ^ 63 ≤ n ∧ n < 2 ^ 63) ∧
    (∀ s normal, (TypeExpr.int.check (.lax allowExtra) (.str s) path).normal? = some normal →
      ∃ i : Int64, normal = .int i ∧ IsNumeral (trim s.toList) i.toInt) := by
  have converts (s : String) : TypeExpr.int.normal? (.lax allowExtra) (.str s) =
      (Coercion.intOfText? s).map .int := normal?_int_lax rfl
  refine ⟨fun i => ⟨int64Text i, rfl, ?_⟩, fun b => ⟨if b then "true" else "false", rfl, ?_⟩,
    ?_, ?_⟩
  · intro padded around
    rw [check_eq_pass_iff, converts, Coercion.intOfText?_of_padded around]
    rfl
  · intro padded around
    have taken : Coercion.toBool? (.str padded) = some b := Coercion.boolOfText?_of_padded around
    rw [check_eq_pass_iff, normal?_bool, taken]
    rfl
  · intro s
    rw [normal?_check, converts, Option.isSome_map, Coercion.isSome_intOfText?_iff]
  · intro s normal passed
    rw [normal?_check, converts] at passed
    obtain ⟨i, taken, rfl⟩ := Option.map_eq_some_iff.mp passed
    exact ⟨i, rfl, Coercion.intOfText?_eq_some_iff.mp taken⟩

/-- The least integer, whose magnitude is out of range, comes back from its text as well. -/
theorem check_lax_through_text_least : ∃ s : String,
    TypeExpr.str.check (.lax false) (.int Int64.minValue) .empty = .pass (.str s) ∧
      TypeExpr.int.check (.lax false) (.str ("\t" ++ s ++ " ")) .empty =
        .pass (.int Int64.minValue) := by
  obtain ⟨s, written, back⟩ := (check_lax_through_text false .empty).1 Int64.minValue
  have around : Padded s ("\t" ++ s ++ " ") :=
    ⟨"\t", " ", List.all_eq_true.mp (by decide), List.all_eq_true.mp (by decide), rfl⟩
  exact ⟨s, written, back _ around⟩

end TypeExpr

end CallGuard
