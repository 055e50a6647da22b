import CallGuard.Proofs.FailClosed

/-!
# Allowing undeclared names

Where records may hold names that their types do not declare, a check accepts every value that it
accepts otherwise, and it meets a fault only where it meets one otherwise.  The normal form may be
another one: a record type that refused a value accepts it now, and a union takes that variant.
-/

namespace CallGuard

/-- What an attempt may come to under weaker rules: a match stays a match, and where all variants
    were refused there is no fault. -/
def Attempt.RelaxesTo : Attempt → Attempt → Prop
  | matched _, loose => ∃ normal, loose = matched normal
  | broken _, _ => True
  | refused, loose => ∀ fault, loose ≠ broken fault

namespace Attempt

theorem relaxesTo_matched (tight : Attempt) (normal : Value) :
    tight.RelaxesTo (matched normal) := by
  cases tight <;> simp [RelaxesTo]

theorem RelaxesTo.orElse {first first' second second' : Attempt} (relaxes : first.RelaxesTo first')
    (relaxes' : second.RelaxesTo second') :
    (first.orElse second).RelaxesTo (first'.orElse second') := by
  cases first with
  | matched normal =>
    obtain ⟨normal', rfl⟩ := relaxes
    exact ⟨normal', rfl⟩
  | broken fault => trivial
  | refused =>
    cases first' with
    | matched normal => exact relaxesTo_matched _ normal
    | broken fault => exact absurd rfl (relaxes fault)
    | refused => exact relaxes'

end Attempt

namespace TypeExpr

open Verdict

variable {mode : Mode} {rules : Rules} {type : TypeExpr} {value : Value} {path : Path}
  {variants : List TypeExpr}

/-- Allowing undeclared names refuses no value and meets no fault that is new. -/
structure Relaxes (mode : Mode) (type : TypeExpr) (value : Value) (path : Path) : Prop where
  fits : (type.normal? ⟨mode, false⟩ value).isSome → (type.normal? ⟨mode, true⟩ value).isSome
  sound : (type.check ⟨mode, false⟩ value path).fault? = none →
    (type.check ⟨mode, true⟩ value path).fault? = none

/-! ## One position -/

/-- A check that settles accepts a value exactly if it does not refuse it and nothing is wrong at
    its stops. -/
theorem Settles.isSome_normal?_iff (settles : Settles rules type value path) :
    (type.normal? rules value).isSome ↔ (∀ reason, ¬ Refuses rules type value reason) ∧
      ∀ stop ∈ stops rules type value,
        (stop.verdict rules path).issues = [] ∧ (stop.verdict rules path).fault? = none := by
  rw [TypeExpr.isSome_normal?_iff path]
  rcases settles with ⟨reason, refuses, refused, -⟩ | ⟨passes, gathers⟩
  · rw [refused, issues_reject]
    exact iff_of_false (fun clean => by cases clean.1) (fun accepted => accepted.1 reason refuses)
  · rw [gathers.issues, gathers.fault?, List.flatMap_eq_nil_iff, List.forall_mem_map,
      List.forall_mem_map, ← forall₂_and]
    exact (and_iff_right passes).symm

/-- With undeclared names allowed a walk stops nowhere else. -/
theorem stops_allowing_subset : stops ⟨mode, true⟩ type value ⊆ stops ⟨mode, false⟩ type value := by
  cases type with
  | record name fields =>
    simp only [stops]
    cases Conformance.recordInput? mode name value with
    | none => exact List.Subset.refl _
    | some input => simp
  | _ => exact List.Subset.refl _

/-- Whether undeclared names are allowed plays no part in refusing a value at its own position. -/
theorem Refuses.of_allowing (notUnion : ∀ variants, type ≠ .union variants) {reason : IssueReason}
    (refuses : Refuses ⟨mode, true⟩ type value reason) :
    Refuses ⟨mode, false⟩ type value reason := by
  cases refuses
  case union variants _ => exact absurd rfl (notUnion variants)
  all_goals constructor <;> assumption

theorem relaxes_of_settles (notUnion : ∀ variants, type ≠ .union variants)
    (tight : Settles ⟨mode, false⟩ type value path) (loose : Settles ⟨mode, true⟩ type value path)
    (each : ∀ step t v, Enters ⟨mode, false⟩ type value step t v →
      Relaxes mode t v (path.extend [step])) : Relaxes mode type value path where
  fits accepted := by
    rw [tight.isSome_normal?_iff] at accepted
    obtain ⟨passes, clean⟩ := accepted
    refine loose.isSome_normal?_iff.mpr ⟨fun reason refuses => ?_, fun stop listed => ?_⟩
    · exact passes reason (refuses.of_allowing notUnion)
    · have listed' := stops_allowing_subset listed
      cases stop with
      | inner step t v =>
        have inside := (TypeExpr.isSome_normal?_iff _).mpr (clean _ listed')
        have relaxes := each step t v (inner_mem_stops_iff.mp listed')
        exact (TypeExpr.isSome_normal?_iff _).mp (relaxes.fits inside)
      | missing name => exact clean _ listed'
      | undeclared name => exact clean _ listed'
  sound := by
    contrapose!
    rw [loose.fault?_ne_none_iff, tight.fault?_ne_none_iff]
    rintro ⟨step, t, v, enters, broken⟩
    have enters' := inner_mem_stops_iff.mp (stops_allowing_subset (inner_mem_stops_iff.mpr enters))
    exact ⟨step, t, v, enters', mt (each step t v enters').sound broken⟩

/-! ## Unions -/

theorem relaxesTo_tryVariants
    (each : ∀ variant ∈ variants, Relaxes mode variant value .empty) :
    (tryVariants ⟨mode, false⟩ variants value .empty).RelaxesTo
      (tryVariants ⟨mode, true⟩ variants value .empty) := by
  induction variants with
  | nil => simp [tryVariants, Attempt.RelaxesTo]
  | cons variant rest ih =>
    obtain ⟨here, later⟩ := List.forall_mem_cons.mp each
    simp only [tryVariants, normal?_check]
    cases tight : (variant.check ⟨mode, false⟩ value .empty).fault? with
    | some fault => trivial
    | none =>
      -- Without a fault the variant matches as before, or it matches now, or it is refused again.
      rw [here.sound tight]
      cases fits : variant.normal? ⟨mode, true⟩ value with
      | some normal => exact Attempt.relaxesTo_matched _ normal
      | none =>
        have refused : variant.normal? ⟨mode, false⟩ value = none := by
          by_contra accepted
          have accepted' := here.fits (Option.isSome_iff_ne_none.mpr accepted)
          simp [fits] at accepted'
        rw [refused]
        exact ih later

/-- In lax mode both rounds of a union relax. -/
theorem relaxesTo_attempt
    (each : ∀ mode, ∀ variant ∈ variants, Relaxes mode variant value .empty) (mode : Mode) :
    (attempt ⟨mode, false⟩ variants value).RelaxesTo (attempt ⟨mode, true⟩ variants value) := by
  cases mode with
  | strict => exact relaxesTo_tryVariants (each .strict)
  | lax => exact (relaxesTo_tryVariants (each .strict)).orElse (relaxesTo_tryVariants (each .lax))

theorem relaxes_union (each : ∀ mode, ∀ variant ∈ variants, Relaxes mode variant value .empty) :
    Relaxes mode (.union variants) value path := by
  have relaxes := relaxesTo_attempt each mode
  constructor
  · simp only [Option.isSome_iff_exists, normal?_union_eq_some_iff]
    rintro ⟨normal, matched⟩
    rwa [matched] at relaxes
  · by_cases empty : variants = []
    · simp [TypeExpr.check, empty]
    · contrapose!
      rw [fault?_check_union empty, fault?_check_union empty]
      rintro ⟨fault, broken⟩
      rw [broken] at relaxes
      cases tight : attempt ⟨mode, false⟩ variants value with
      | broken fault' => exact ⟨fault', rfl⟩
      | matched normal =>
        rw [tight] at relaxes
        obtain ⟨normal', impossible⟩ := relaxes
        cases impossible
      | refused =>
        rw [tight] at relaxes
        exact absurd rfl (relaxes fault)

/-- Allowing undeclared names relaxes the check of every type in both modes. -/
theorem relaxes (mode : Mode) (type : TypeExpr) (value : Value) (path : Path) :
    Relaxes mode type value path := by
  induction type using walk_induction generalizing mode value path with
  | optional inner ih =>
    constructor
    · simp only [normal?_optional]
      cases value.isNull with
      | true => simp
      | false => simpa using (ih mode value path).fits
    · simp only [check_optional]
      cases value.isNull with
      | true => simp
      | false => simpa using (ih mode value path).sound
  | union variants ih =>
    exact relaxes_union fun mode variant member => ih variant member mode value .empty
  | other type notOptional notUnion ih =>
    by_cases empty : type = .literal []
    · subst empty
      exact ⟨id, id⟩
    · exact relaxes_of_settles notUnion (settles_check notOptional notUnion empty)
        (settles_check notOptional notUnion empty)
        fun step t v enters => ih _ _ _ t v enters mode v _

end TypeExpr

/-! ## Validation -/

namespace Schema

variable {mode : Mode} {rules : Rules} {types : FieldTypes} {values : Values} {replace : Bool}
  {options : Options}

/-- Values that conform still conform where undeclared names are allowed. -/
theorem Conforms.allowing (conforms : Conforms rules types values) :
    Conforms ⟨rules.mode, true⟩ types values := by
  obtain ⟨mode, _ | _⟩ := rules
  · refine ⟨fun name type typed => ?_, conforms.expected⟩
    obtain ⟨value, found, fits⟩ := conforms.fits name type typed
    exact ⟨value, found, (type.relaxes mode value .empty).fits fits⟩
  · exact conforms

/-- Validation ends in a schema error exactly if a check notes a fault. -/
theorem exists_schema_error_iff :
    (∃ message, validate mode types values replace options = .error (.schema message)) ↔
      ∃ name type value, types.get? name = some type ∧ values.get? name = some value ∧
        (type.check ⟨mode, allowsExtra options⟩ value .empty).fault? ≠ none := by
  calc (∃ message, validate mode types values replace options = .error (.schema message))
    _ ↔ (noted ⟨mode, allowsExtra options⟩ types values).fault? ≠ none := by
      rw [Option.ne_none_iff_exists']
      simp [validate_eq_error_iff]
    _ ↔ _ := noted_fault?_ne_none_iff
    _ ↔ _ := by simp only [TypeExpr.fault?_ne_none_iff]

@[simp] theorem allowsExtra_insert (options : Options) :
    allowsExtra (options.insert allowExtraFields (.bool true)) = true := by
  simp [allowsExtra, Value.asBool?]

/-- Allowing undeclared names only relaxes validation: what passes without still passes, and where
    there is a schema error there is one without. -/
theorem validate_allowing (mode : Mode) (types : FieldTypes) (values : Values) (replace : Bool)
    (options : Options) :
    let allowing := options.insert allowExtraFields (.bool true)
    ((∃ replacements?, validate mode types values replace options = .ok replacements?) →
      ∃ replacements?, validate mode types values replace allowing = .ok replacements?) ∧
    ((∃ message, validate mode types values replace allowing = .error (.schema message)) →
      ∃ message, validate mode types values replace options = .error (.schema message)) := by
  intro allowing
  constructor
  · rintro ⟨replacements?, accepted⟩
    have conforms := (validate_eq_ok_iff.mp accepted).1.allowing
    exact ⟨_, validate_eq_ok_iff.mpr ⟨by rwa [allowsExtra_insert], rfl⟩⟩
  · rw [exists_schema_error_iff, exists_schema_error_iff, allowsExtra_insert]
    rintro ⟨name, type, value, typed, found, broken⟩
    refine ⟨name, type, value, typed, found, ?_⟩
    cases allowsExtra options with
    | true => exact broken
    | false => exact mt (type.relaxes mode value .empty).sound broken

/-- A mapping with a name too many stays a mapping, and becomes a record where the name is allowed.
    A fault behind a record type that refuses the mapping in any case is reported either way. -/
theorem validate_allowing_person :
    let person (name : TypeExpr) : TypeExpr := .record "Person" [⟨"name", name, none⟩]
    let values : Values := .ofList [("who", .map [("name", .str "Ann"), ("age", .int 3)])]
    let types : FieldTypes := .ofList [("who", .union [person .str, .map .any])]
    let faulty : FieldTypes := .ofList [("who", .union [person .int, .map (.union [])])]
    let allowing : Options := .insert .empty allowExtraFields (.bool true)
    validate .strict types values true .empty = .ok none ∧
      (∃ replacements?, validate .strict types values true allowing = .ok replacements?) ∧
      (∃ message, validate .lax faulty values false allowing = .error (.schema message)) ∧
      ∃ message, validate .lax faulty values false .empty = .error (.schema message) := by
  intro person values types faulty allowing
  have accepted : validate .strict types values true .empty = .ok none := by rfl
  have broken : ∃ message, validate .lax faulty values false allowing = .error (.schema message) :=
    ⟨_, by rfl⟩
  exact ⟨accepted, (validate_allowing _ _ _ _ _).1 ⟨_, accepted⟩, broken,
    (validate_allowing _ _ _ _ _).2 broken⟩

end Schema

end CallGuard
