import CallGuard.Proofs.Stops
import CallGuard.Proofs.Validation

/-!
# Failing closed

A check without a normal form leaves an issue or a fault behind, and a check with one leaves
nothing.  A fault comes from a union without variants or a literal without members that the walk
visits, also inside a variant that a union tries.  So validation succeeds only where every value
was normalized, and it reports no fault that was not met and no empty list of issues.
-/

namespace CallGuard

/-- What a walk has noted so far: the issues in order and the last fault. -/
structure Notes where
  issues : List Issue
  fault? : Option SchemaFault

/-- The notes after one more verdict. -/
def Notes.after {α : Type} (notes : Notes) (verdict : Verdict α) : Notes where
  issues := notes.issues ++ verdict.issues
  fault? := verdict.fault?.or notes.fault?

namespace Attempt

theorem orElse_eq_broken_iff {first second : Attempt} {fault : SchemaFault} :
    first.orElse second = .broken fault ↔
      first = .broken fault ∨ first = .refused ∧ second = .broken fault := by
  cases first <;> simp [Attempt.orElse]

theorem fault?_verdict_ne_none_iff {attempt : Attempt} {path : Path} {reason : IssueReason} :
    (attempt.verdict path reason).fault? ≠ none ↔ ∃ fault, attempt = .broken fault := by
  cases attempt <;> simp [Attempt.verdict]

end Attempt

namespace TypeExpr

open Verdict

/-- A type that no value can be checked against. -/
def Hollow (type : TypeExpr) : Prop := type = .union [] ∨ type = .literal []

/-- A variant neither fits a value nor meets a fault in it. -/
structure Refused (rules : Rules) (value : Value) (variant : TypeExpr) : Prop where
  normal? : variant.normal? rules value = none
  fault? : (variant.check rules value .empty).fault? = none

/-- Trying variants one after another gets to a variant if all before it are refused. -/
inductive GetsTo (rules : Rules) (value : Value) : List TypeExpr → TypeExpr → Prop
  | here {variant : TypeExpr} {rest : List TypeExpr} : GetsTo rules value (variant :: rest) variant
  | later {first variant : TypeExpr} {rest : List TypeExpr} (refused : Refused rules value first)
      (getsTo : GetsTo rules value rest variant) : GetsTo rules value (first :: rest) variant

/-- The variants that a union tries: strictly first, and in lax mode once more in lax mode if all
    were refused strictly. -/
inductive Tries (rules : Rules) (variants : List TypeExpr) (value : Value) : Mode → TypeExpr → Prop
  | strict {variant : TypeExpr}
      (getsTo : GetsTo (.strict rules.allowExtra) value variants variant) :
      Tries rules variants value .strict variant
  | lax {variant : TypeExpr} (mode : rules.mode = .lax)
      (strictly : ∀ other ∈ variants, Refused (.strict rules.allowExtra) value other)
      (getsTo : GetsTo (.lax rules.allowExtra) value variants variant) :
      Tries rules variants value .lax variant

/-- The positions that a walk visits, those inside the variants that are tried among them. -/
inductive Visits : Rules → TypeExpr → Value → Rules → TypeExpr → Value → Prop
  | here (rules : Rules) (type : TypeExpr) (value : Value) :
      Visits rules type value rules type value
  | enter {rules rules' : Rules} {type t type' : TypeExpr} {value v value' : Value}
      {step : PathSegment} (enters : Enters rules type value step t v)
      (rest : Visits rules t v rules' type' value') : Visits rules type value rules' type' value'
  | present {rules rules' : Rules} {inner type' : TypeExpr} {value value' : Value}
      (present : value.isNull = false) (rest : Visits rules inner value rules' type' value') :
      Visits rules (.optional inner) value rules' type' value'
  | variant {rules rules' : Rules} {variants : List TypeExpr} {variant type' : TypeExpr}
      {value value' : Value} {mode : Mode} (tries : Tries rules variants value mode variant)
      (rest : Visits ⟨mode, rules.allowExtra⟩ variant value rules' type' value') :
      Visits rules (.union variants) value rules' type' value'

/-- A walk visits a type that no value can be checked against. -/
def MeetsHollow (rules : Rules) (type : TypeExpr) (value : Value) : Prop :=
  ∃ rules' type' value', Visits rules type value rules' type' value' ∧ type'.Hollow

variable {rules : Rules} {type : TypeExpr} {variants : List TypeExpr} {value : Value} {path : Path}

/-! ## Trying variants -/

theorem GetsTo.mem {variant : TypeExpr} (getsTo : GetsTo rules value variants variant) :
    variant ∈ variants := by
  induction getsTo with
  | here => exact List.mem_cons_self
  | later _ _ ih => exact List.mem_cons_of_mem _ ih

theorem Tries.mem {mode : Mode} {variant : TypeExpr}
    (tries : Tries rules variants value mode variant) : variant ∈ variants := by
  cases tries with
  | strict getsTo => exact getsTo.mem
  | lax _ _ getsTo => exact getsTo.mem

theorem tryVariants_eq_refused_iff : tryVariants rules variants value .empty = .refused ↔
    ∀ variant ∈ variants, Refused rules value variant := by
  induction variants with
  | nil => simp [tryVariants]
  | cons variant rest ih =>
    simp only [tryVariants, normal?_check, List.forall_mem_cons, ← ih]
    cases fault : (variant.check rules value .empty).fault? with
    | some found =>
      have broken : ¬ Refused rules value variant := fun refused => by
        simpa [fault] using refused.fault?
      simp [broken]
    | none =>
      cases normal : variant.normal? rules value with
      | some found =>
        have fits : ¬ Refused rules value variant := fun refused => by
          simpa [normal] using refused.normal?
        simp [fits]
      | none => simp [show Refused rules value variant from ⟨normal, fault⟩]

/-- An attempt breaks exactly if it gets to a variant with a fault. -/
theorem exists_broken_iff : (∃ fault, tryVariants rules variants value .empty = .broken fault) ↔
    ∃ variant, GetsTo rules value variants variant ∧
      (variant.check rules value .empty).fault? ≠ none := by
  induction variants with
  | nil =>
    simp only [tryVariants, reduceCtorEq, exists_false, false_iff]
    rintro ⟨variant, ⟨⟩, -⟩
  | cons first rest ih =>
    simp only [tryVariants, normal?_check]
    cases fault : (first.check rules value .empty).fault? with
    | some found => exact iff_of_true ⟨found, rfl⟩ ⟨first, .here, by simp [fault]⟩
    | none =>
      cases normal : first.normal? rules value with
      | some found =>
        simp only [reduceCtorEq, exists_false, false_iff]
        rintro ⟨variant, _ | ⟨refused, -⟩, broken⟩
        · exact broken fault
        · simp [refused.normal?] at normal
      | none =>
        rw [ih]
        constructor
        · intro later
          obtain ⟨variant, getsTo, broken⟩ := later
          exact ⟨variant, .later ⟨normal, fault⟩ getsTo, broken⟩
        · rintro ⟨variant, _ | ⟨-, getsTo⟩, broken⟩
          · exact absurd fault broken
          · exact ⟨variant, getsTo, broken⟩

/-- The attempt of a union breaks exactly if it tries a variant with a fault. -/
theorem exists_attempt_broken_iff : (∃ fault, attempt rules variants value = .broken fault) ↔
    ∃ mode variant, Tries rules variants value mode variant ∧
      (variant.check ⟨mode, rules.allowExtra⟩ value .empty).fault? ≠ none := by
  obtain ⟨mode, allowExtra⟩ := rules
  have breaks_iff := fun rules => @exists_broken_iff rules variants value
  have strictly := breaks_iff (.strict allowExtra)
  have laxly := breaks_iff (.lax allowExtra)
  constructor
  · intro breaks
    cases mode with
    | strict =>
      obtain ⟨variant, getsTo, broken⟩ := strictly.mp breaks
      exact ⟨.strict, variant, .strict getsTo, broken⟩
    | lax =>
      obtain ⟨fault, breaks⟩ := breaks
      rcases Attempt.orElse_eq_broken_iff.mp breaks with first | ⟨refused, second⟩
      · obtain ⟨variant, getsTo, broken⟩ := strictly.mp ⟨fault, first⟩
        exact ⟨.strict, variant, .strict getsTo, broken⟩
      · obtain ⟨variant, getsTo, broken⟩ := laxly.mp ⟨fault, second⟩
        exact ⟨.lax, variant, .lax rfl (tryVariants_eq_refused_iff.mp refused) getsTo, broken⟩
  · -- A strict attempt that breaks is not repeated in lax mode.
    rintro ⟨_, variant, ⟨getsTo⟩ | ⟨isLax, refused, getsTo⟩, broken⟩
    · obtain ⟨fault, first⟩ := strictly.mpr ⟨variant, getsTo, broken⟩
      cases mode with
      | strict => exact ⟨fault, first⟩
      | lax => exact ⟨fault, Attempt.orElse_eq_broken_iff.mpr (.inl first)⟩
    · obtain rfl : mode = .lax := isLax
      obtain ⟨fault, second⟩ := laxly.mpr ⟨variant, getsTo, broken⟩
      exact ⟨fault, Attempt.orElse_eq_broken_iff.mpr
        (.inr ⟨tryVariants_eq_refused_iff.mpr refused, second⟩)⟩

theorem check_union_empty (present : variants ≠ []) : (union variants).check rules value .empty =
    (attempt rules variants value).verdict .empty (.noVariant (.union variants)) := by
  rcases rules with ⟨_ | _, _⟩ <;> simp [TypeExpr.check, attempt, present]

/-- A union with variants has a fault exactly if its attempt breaks. -/
theorem fault?_check_union (present : variants ≠ []) :
    ((union variants).check rules value path).fault? ≠ none ↔
      ∃ fault, attempt rules variants value = .broken fault := by
  rw [Ne, (uniform_check rules _ value).fault? path .empty, check_union_empty present,
    ← Ne, Attempt.fault?_verdict_ne_none_iff]

/-- A union with variants has a fault exactly if it tries a variant with one. -/
theorem fault?_check_union_iff (present : variants ≠ []) :
    ((union variants).check rules value path).fault? ≠ none ↔
      ∃ mode variant, Tries rules variants value mode variant ∧
        (variant.check ⟨mode, rules.allowExtra⟩ value path).fault? ≠ none := by
  rw [fault?_check_union present, exists_attempt_broken_iff]
  simp only [Ne, fun mode (variant : TypeExpr) =>
    (uniform_check ⟨mode, rules.allowExtra⟩ variant value).fault? path .empty]

/-! ## Faults -/

theorem check_optional {inner : TypeExpr} : (TypeExpr.optional inner).check rules value path =
    if value.isNull then .pass .null else inner.check rules value path := by
  cases value <;> simp [TypeExpr.check, Value.isNull]

/-- A check that settles has a fault exactly if one that it enters has. -/
theorem Settles.fault?_ne_none_iff (settles : Settles rules type value path) :
    (type.check rules value path).fault? ≠ none ↔ ∃ step t v, Enters rules type value step t v ∧
      (t.check rules v (path.extend [step])).fault? ≠ none := by
  rcases settles with ⟨reason, -, refused, leaf⟩ | ⟨-, gathers⟩
  · simp only [refused, fault?_reject, ne_eq, not_true, false_iff, ← inner_mem_stops_iff, leaf]
    simp
  · simp only [ne_eq, gathers.fault?, List.forall_mem_map, not_forall]
    constructor
    · rintro ⟨stop, listed, broken⟩
      cases stop with
      | inner step t v => exact ⟨step, t, v, inner_mem_stops_iff.mp listed, broken⟩
      | missing name => exact absurd rfl broken
      | undeclared name => exact absurd rfl broken
    · rintro ⟨step, t, v, enters, broken⟩
      exact ⟨.inner step t v, inner_mem_stops_iff.mpr enters, broken⟩

theorem Hollow.meetsHollow (hollow : type.Hollow) : MeetsHollow rules type value :=
  ⟨rules, type, value, .here rules type value, hollow⟩

theorem MeetsHollow.enter {t : TypeExpr} {v : Value} {step : PathSegment}
    (enters : Enters rules type value step t v) (met : MeetsHollow rules t v) :
    MeetsHollow rules type value := by
  obtain ⟨rules', t', v', visits, hollow⟩ := met
  exact ⟨rules', t', v', .enter enters visits, hollow⟩

theorem meetsHollow_optional_iff {inner : TypeExpr} : MeetsHollow rules (.optional inner) value ↔
    value.isNull = false ∧ MeetsHollow rules inner value := by
  constructor
  · rintro ⟨rules', t, v, visits, hollow⟩
    cases visits with
    | here => rcases hollow with hollow | hollow <;> cases hollow
    | enter enters => cases enters
    | present present rest => exact ⟨present, rules', t, v, rest, hollow⟩
  · rintro ⟨present, rules', t, v, visits, hollow⟩
    exact ⟨rules', t, v, .present present visits, hollow⟩

theorem meetsHollow_union_iff : MeetsHollow rules (.union variants) value ↔
    variants = [] ∨ ∃ mode variant, Tries rules variants value mode variant ∧
      MeetsHollow ⟨mode, rules.allowExtra⟩ variant value := by
  constructor
  · rintro ⟨rules', t, v, visits, hollow⟩
    cases visits with
    | here => exact .inl (by simpa [Hollow] using hollow)
    | enter enters => cases enters
    | variant tries rest => exact .inr ⟨_, _, tries, rules', t, v, rest, hollow⟩
  · rintro (rfl | ⟨mode, variant, tries, rules', t, v, visits, hollow⟩)
    · exact Hollow.meetsHollow (.inl rfl)
    · exact ⟨rules', t, v, .variant tries visits, hollow⟩

theorem meetsHollow_iff_of_ne (notOptional : ∀ inner, type ≠ .optional inner)
    (notUnion : ∀ variants, type ≠ .union variants) : MeetsHollow rules type value ↔
      type = .literal [] ∨ ∃ step t v, Enters rules type value step t v ∧
        MeetsHollow rules t v := by
  constructor
  · rintro ⟨rules', t, v, visits, hollow⟩
    cases visits with
    | here => exact .inl (hollow.resolve_left (notUnion []))
    | enter enters rest => exact .inr ⟨_, _, _, enters, rules', t, v, rest, hollow⟩
    | present => exact absurd rfl (notOptional _)
    | variant => exact absurd rfl (notUnion _)
  · rintro (rfl | ⟨step, t, v, enters, met⟩)
    · exact Hollow.meetsHollow (.inr rfl)
    · exact met.enter enters

/-- A check has a fault exactly if its walk visits a type that no value can be checked against. -/
theorem fault?_ne_none_iff :
    (type.check rules value path).fault? ≠ none ↔ MeetsHollow rules type value := by
  induction type using walk_induction generalizing rules value path with
  | optional inner ih =>
    rw [meetsHollow_optional_iff, check_optional]
    cases value.isNull with
    | true => simp
    | false => simpa using ih
  | union variants ih =>
    rw [meetsHollow_union_iff]
    by_cases empty : variants = []
    · simp [TypeExpr.check, empty]
    · simp only [fault?_check_union_iff empty, empty, false_or]
      constructor
      · intro tried
        obtain ⟨mode, variant, tries, broken⟩ := tried
        exact ⟨mode, variant, tries, (ih variant tries.mem).mp broken⟩
      · intro tried
        obtain ⟨mode, variant, tries, meets⟩ := tried
        exact ⟨mode, variant, tries, (ih variant tries.mem).mpr meets⟩
  | other type notOptional notUnion ih =>
    rw [meetsHollow_iff_of_ne notOptional notUnion]
    by_cases empty : type = .literal []
    · simp [TypeExpr.check, Conformance.oneOf, empty]
    · rw [(settles_check notOptional notUnion empty).fault?_ne_none_iff]
      simp only [empty, false_or]
      constructor
      · intro entered
        obtain ⟨step, t, v, enters, broken⟩ := entered
        exact ⟨step, t, v, enters, (ih _ _ _ _ _ enters).mp broken⟩
      · intro entered
        obtain ⟨step, t, v, enters, meets⟩ := entered
        exact ⟨step, t, v, enters, (ih _ _ _ _ _ enters).mpr meets⟩

/-- A check without a normal form leaves an issue or a fault. -/
theorem normal?_eq_none_iff : type.normal? rules value = none ↔
    (type.check rules value path).issues ≠ [] ∨ (type.check rules value path).fault? ≠ none := by
  rw [← not_iff_not, ← ne_eq, ← Option.isSome_iff_ne_none, isSome_normal?_iff path]
  simp only [not_or, ne_eq, not_not]

end TypeExpr

/-! ## Validation -/

namespace Schema

open TypeExpr

variable {rules : Rules} {mode : Mode} {types : FieldTypes} {values : Values} {replace : Bool}
  {options : Options}

theorem verdictAt_fault?_ne_none_iff {name : String} {type : TypeExpr} :
    (verdictAt rules values name type).fault? ≠ none ↔
      ∃ value, values.get? name = some value ∧ MeetsHollow rules type value := by
  unfold verdictAt
  cases values.get? name with
  | some value =>
    have met : (type.check rules value (Path.root name)).fault? ≠ none ↔ _ := fault?_ne_none_iff
    simpa using met
  | none => simp

/-- What the checks of a validation note, one after the other. -/
def noted (rules : Rules) (types : FieldTypes) (values : Values) : Notes :=
  (verdicts rules types values).entries.foldl (fun notes entry => notes.after entry.2) ⟨[], none⟩

theorem noted_eq : noted rules types values =
    ⟨(verdicts rules types values).entries.flatMap fun entry => entry.2.issues,
      lastFault? (verdicts rules types values).entries⟩ := by
  have run : ∀ (entries : Entries (Verdict Value)) (notes : Notes),
      entries.foldl (fun notes entry => notes.after entry.2) notes =
        ⟨notes.issues ++ entries.flatMap fun entry => entry.2.issues,
          entries.foldl (fun fault? entry => entry.2.fault?.or fault?) notes.fault?⟩ := by
    intro entries
    induction entries with
    | nil => simp
    | cons entry rest ih =>
      intro notes
      rw [List.foldl_cons, ih]
      simp [Notes.after]
  simpa [lastFault?, noted] using run (verdicts rules types values).entries ⟨[], none⟩

/-- A fault is noted exactly if the walk of a value visits a type that no value can be checked
    against. -/
theorem noted_fault?_ne_none_iff : (noted rules types values).fault? ≠ none ↔
    ∃ name type value, types.get? name = some type ∧ values.get? name = some value ∧
      MeetsHollow rules type value := by
  rw [noted_eq, ne_eq, lastFault?_eq_none_iff,
    forall_verdicts_iff (p := fun verdict => verdict.fault? = none)]
  simp only [not_forall, exists_prop, ← ne_eq, verdictAt_fault?_ne_none_iff]
  constructor
  · intro met
    obtain ⟨name, type, typed, value, supplied, meets⟩ := met
    exact ⟨name, type, value, typed, supplied, meets⟩
  · intro met
    obtain ⟨name, type, value, typed, supplied, meets⟩ := met
    exact ⟨name, type, typed, value, supplied, meets⟩

/-- What a validation fails with, told from what was noted. -/
theorem validate_eq_error_iff {error : ValidatorError} :
    validate mode types values replace options = .error error ↔
      (∃ fault, (noted ⟨mode, allowsExtra options⟩ types values).fault? = some fault ∧
        error = .schema fault.message) ∨
      (noted ⟨mode, allowsExtra options⟩ types values).fault? = none ∧
        ∃ issue rest, issues ⟨mode, allowsExtra options⟩ types values = issue :: rest ∧
          error = .invalid (issue :: rest) := by
  rw [noted_eq, validate]
  cases lastFault? (verdicts ⟨mode, allowsExtra options⟩ types values).entries with
  | some fault => simp [eq_comm]
  | none =>
    cases found : issues ⟨mode, allowsExtra options⟩ types values with
    | nil => simp [found]
    | cons issue rest => simp [found, eq_comm]

/-- Validation fails closed.  A check without a normal form adds an issue to what was noted or
    notes a fault, and a check with one leaves the notes as they are.  So success means that every
    name with a type has a value with a normal form and every value has a type; a fault of a type
    is reported exactly if a walk visits a union without variants or a literal without members; and
    there is no report without issues. -/
theorem fail_closed :
    (∀ (rules : Rules) (type : TypeExpr) (value : Value) (path : Path) (notes : Notes),
      ((type.check rules value path).normal? = none ↔
        (∃ issue rest, (notes.after (type.check rules value path)).issues =
          notes.issues ++ issue :: rest) ∨
        ∃ fault, (type.check rules value path).fault? = some fault ∧
          (notes.after (type.check rules value path)).fault? = some fault) ∧
      ((type.check rules value path).normal? ≠ none →
        notes.after (type.check rules value path) = notes)) ∧
    ∀ (mode : Mode) (types : FieldTypes) (values : Values) (replace : Bool) (options : Options),
      (∀ replacements?, validate mode types values replace options = .ok replacements? →
        Conforms ⟨mode, allowsExtra options⟩ types values) ∧
      ((∃ message, validate mode types values replace options = .error (.schema message)) ↔
        ∃ name type value, types.get? name = some type ∧ values.get? name = some value ∧
          MeetsHollow ⟨mode, allowsExtra options⟩ type value) ∧
      validate mode types values replace options ≠ .error (.invalid []) := by
  refine ⟨fun rules type value path notes => ⟨?_, fun passed => ?_⟩,
    fun mode types values replace options => ⟨fun replacements? ok => ?_, ?_, ?_⟩⟩
  · rw [normal?_check, normal?_eq_none_iff, List.ne_nil_iff_exists_cons,
      Option.ne_none_iff_exists']
    simp only [Notes.after, List.append_cancel_left_eq]
    exact or_congr_right (exists_congr fun fault => by simp +contextual)
  · rw [normal?_check, ← Option.isSome_iff_ne_none, isSome_normal?_iff path] at passed
    simp [Notes.after, passed]
  · exact (validate_eq_ok_iff.mp ok).1
  · rw [← noted_fault?_ne_none_iff, Option.ne_none_iff_exists']
    simp [validate_eq_error_iff]
  · intro empty
    simp [validate_eq_error_iff] at empty

/-- A list that is no integer is tried against a list of nothing: the fault inside the second
    variant is reported. -/
theorem fail_closed_second_variant :
    ∃ message, validate .strict (.ofList [("x", .union [.int, .list (.union [])])])
      (.ofList [("x", .list [.null])]) false .empty = .error (.schema message) := by
  have inside : Visits (.strict false) (.list (.union [])) (.list [.null]) (.strict false)
      (.union []) .null := .enter (.item List.getElem?_cons_zero) (.here _ _ _)
  refine (fail_closed.2 _ _ _ _ _).2.1.mpr ⟨"x", _, _, rfl, rfl, _, _, _,
    .variant (.strict (.later ⟨?_, ?_⟩ .here)) inside, .inl rfl⟩
  · simp [normal?_int, Value.asInt?]
  · simp [TypeExpr.check, Conformance.scalar, Value.asInt?]

end Schema

end CallGuard
