import CallGuard.Proofs.StrictNormalForm
import CallGuard.Proofs.Validation

/-!
# Lax mode extends strict mode

What conforms strictly conforms in lax mode and has the same normal form there, whatever the
types hold, so lax validation of it comes to the same replacements.
-/

namespace CallGuard

/-- A value that passes strictly passes in lax mode with the same normal form. -/
theorem TypeExpr.check_lax_of_strict {allowExtra : Bool} {type : TypeExpr} {value normal : Value}
    {path : Path} (passed : type.check (.strict allowExtra) value path = .pass normal) :
    type.check (.lax allowExtra) value path = .pass normal :=
  check_eq_pass_iff.mpr (normal?_lax_of_strict (check_eq_pass_iff.mp passed))

namespace Schema

variable {allowExtra : Bool} {types : FieldTypes} {values : Values}

/-- Values that conform strictly conform in lax mode. -/
theorem Conforms.lax (conforms : Conforms (.strict allowExtra) types values) :
    Conforms (.lax allowExtra) types values := by
  refine ⟨fun name type typed => ?_, conforms.expected⟩
  obtain ⟨value, found, fits⟩ := conforms.fits name type typed
  obtain ⟨normal, h⟩ := Option.isSome_iff_exists.mp fits
  exact ⟨value, found, by simp [TypeExpr.normal?_lax_of_strict h]⟩

/-- A value that passes strictly has the same verdict in lax mode. -/
theorem verdictAt_lax {name : String} {type : TypeExpr} {value : Value}
    (found : values.get? name = some value)
    (fits : (type.normal? (.strict allowExtra) value).isSome) :
    verdictAt (.lax allowExtra) values name type =
      verdictAt (.strict allowExtra) values name type := by
  obtain ⟨normal, h⟩ := Option.isSome_iff_exists.mp fits
  have passed : type.check (.strict allowExtra) value (.root name) = .pass normal :=
    TypeExpr.check_eq_pass_iff.mpr h
  simp only [verdictAt, found, passed, TypeExpr.check_lax_of_strict passed]

/-- Values that conform strictly have the same verdicts in both modes. -/
theorem Conforms.verdicts_lax (conforms : Conforms (.strict allowExtra) types values) :
    verdicts (.lax allowExtra) types values = verdicts (.strict allowExtra) types values := by
  change types.mapValues (verdictAt (.lax allowExtra) values) =
    types.mapValues (verdictAt (.strict allowExtra) values)
  refine OrderedMap.mapValues_congr fun name type typed => ?_
  obtain ⟨value, found, fits⟩ := conforms.fits name type typed
  exact verdictAt_lax found fits

/-- What strict validation accepts lax validation accepts with the same replacements, and lax
    mode leaves the normal form of each value that conforms strictly as it is. -/
theorem validate_lax_of_strict :
    (∀ (types : FieldTypes) (values : Values) (replace : Bool) (options : Options)
        (replacements? : Option Replacements),
      validate .strict types values replace options = .ok replacements? →
        validate .lax types values replace options = .ok replacements?) ∧
    ∀ (allowExtra : Bool) (type : TypeExpr) (value normal : Value) (path : Path),
      type.check (.strict allowExtra) value path = .pass normal →
        type.check (.lax allowExtra) value path = .pass normal := by
  constructor
  · intro types values replace options replacements? accepted
    obtain ⟨conforms, result⟩ := validate_eq_ok_iff.mp accepted
    refine validate_eq_ok_iff.mpr ⟨conforms.lax, ?_⟩
    rw [result, changed, changed, conforms.verdicts_lax]
  · intro allowExtra type value normal path passed
    exact TypeExpr.check_lax_of_strict passed

/-- A text among numbers stays a text, and a mapping becomes the record that it becomes strictly. -/
theorem validate_lax_of_strict_codes :
    let type : TypeExpr := .list (.union [.int, .str])
    let types : FieldTypes :=
      .ofList [("codes", type), ("owner", .record "Owner" [⟨"age", .int, none⟩])]
    let codes : Value := .list [.str "7", .int 7]
    let values : Values := .ofList [("codes", codes), ("owner", .map [("age", .int 40)])]
    let replacements : Replacements := .ofList [("owner", .record "Owner" [("age", .int 40)])]
    validate .strict types values true .empty = .ok (some replacements) ∧
      validate .lax types values true .empty = .ok (some replacements) ∧
      type.check (.strict false) codes .empty = .pass codes ∧
      type.check (.lax false) codes .empty = .pass codes := by
  intro type types codes values replacements
  have accepted : validate .strict types values true .empty = .ok (some replacements) := by rfl
  have passed : type.check (.strict false) codes .empty = .pass codes := by rfl
  exact ⟨accepted, validate_lax_of_strict.1 _ _ _ _ _ accepted, passed,
    validate_lax_of_strict.2 _ _ _ _ _ passed⟩

end Schema

end CallGuard
