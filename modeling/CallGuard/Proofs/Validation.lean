import CallGuard.Proofs.Conformance
import CallGuard.Validation.Validator

/-!
# What the schema validator accepts

The schema validator accepts exactly the values that conform, one by one, to the types of
their names, and asks for the normal forms that differ from their values.
-/

namespace CallGuard

namespace Schema

/-- Every type has a value that conforms to it, and every value has a type. -/
structure Conforms (rules : Rules) (types : FieldTypes) (values : Values) : Prop where
  fits : ∀ name type, types.get? name = some type →
    ∃ value, values.get? name = some value ∧ (type.normal? rules value).isSome
  expected : ∀ name ∈ values.keys, name ∈ types.keys

variable {mode : Mode} {rules : Rules} {types : FieldTypes} {values : Values} {options : Options}
  {replace : Bool}

theorem lastFault?_eq_none_iff {verdicts : Entries (Verdict Value)} :
    lastFault? verdicts = none ↔ ∀ entry ∈ verdicts, entry.2.fault? = none := by
  have run : ∀ fault? : Option SchemaFault,
      verdicts.foldl (fun fault? entry => entry.2.fault?.or fault?) fault? = none ↔
        fault? = none ∧ ∀ entry ∈ verdicts, entry.2.fault? = none := by
    induction verdicts with
    | nil => simp
    | cons entry rest ih =>
      intro fault?
      rw [List.foldl_cons, ih, Option.or_eq_none_iff, List.forall_mem_cons]
      constructor
      · intro both
        rcases both with ⟨⟨head, start⟩, tail⟩
        exact ⟨start, head, tail⟩
      · intro both
        rcases both with ⟨start, head, tail⟩
        exact ⟨⟨head, start⟩, tail⟩
  simpa [lastFault?] using run none

theorem unexpected_eq_nil_iff :
    unexpected types values = [] ↔ ∀ name ∈ values.keys, name ∈ types.keys := by
  simp [unexpected, OrderedMap.contains_iff]

/-- The verdict on what is found at a name. -/
def verdictAt (rules : Rules) (values : Values) (name : String) (type : TypeExpr) :
    Verdict Value :=
  match values.get? name with
  | some value => type.check rules value (Path.root name)
  | none => .reject (Path.root name) .missing

theorem get?_verdicts (name : String) : (verdicts rules types values).get? name =
    (types.get? name).map (verdictAt rules values name) :=
  types.get?_mapValues (verdictAt rules values) name

/-- A verdict without issues and faults has a normal form. -/
theorem verdictAt_closed_iff {name : String} {type : TypeExpr} :
    (verdictAt rules values name type).issues = [] ∧
        (verdictAt rules values name type).fault? = none ↔
      ∃ value, values.get? name = some value ∧ (type.normal? rules value).isSome := by
  unfold verdictAt
  cases values.get? name with
  | some value => simp [TypeExpr.isSome_normal?_iff (Path.root name)]
  | none => simp [Verdict.reject]

theorem forall_verdicts_iff {p : Verdict Value → Prop} :
    (∀ entry ∈ (verdicts rules types values).entries, p entry.2) ↔
      ∀ name type, types.get? name = some type → p (verdictAt rules values name type) := by
  constructor
  · intro each name type found
    have found' : (verdicts rules types values).get? name =
        some (verdictAt rules values name type) := by rw [get?_verdicts, found, Option.map_some]
    exact each _ (Entries.mem_of_get? found')
  · rintro each ⟨name, verdict⟩ member
    have found := OrderedMap.get?_of_mem member
    rw [get?_verdicts, Option.map_eq_some_iff] at found
    obtain ⟨type, found, rfl⟩ := found
    exact each name type found

/-- The normal forms that a validation asks for. -/
abbrev changed (rules : Rules) (types : FieldTypes) (values : Values) : Replacements :=
  changes (verdicts rules types values) values

/-- All issues, in the order in which they are reported. -/
abbrev issues (rules : Rules) (types : FieldTypes) (values : Values) : List Issue :=
  (verdicts rules types values).entries.flatMap (fun entry => entry.2.issues)
    ++ unexpected types values

/-- Values conform exactly if there is neither a fault nor an issue. -/
theorem conforms_iff : Conforms rules types values ↔
    lastFault? (verdicts rules types values).entries = none ∧ issues rules types values = [] := by
  rw [lastFault?_eq_none_iff, List.append_eq_nil_iff, List.flatMap_eq_nil_iff,
    forall_verdicts_iff (p := fun verdict => verdict.fault? = none),
    forall_verdicts_iff (p := fun verdict => verdict.issues = []), unexpected_eq_nil_iff]
  constructor
  · intro conforms
    have closed := fun name type found => verdictAt_closed_iff.mpr (conforms.fits name type found)
    exact ⟨fun name type found => (closed name type found).2,
      fun name type found => (closed name type found).1, conforms.expected⟩
  · intro conforms
    rcases conforms with ⟨sound, clean, expected⟩
    refine ⟨fun name type found => ?_, expected⟩
    exact verdictAt_closed_iff.mp ⟨clean name type found, sound name type found⟩

/-- Validation succeeds exactly on values that conform. -/
theorem validate_eq_ok_iff {replacements? : Option Replacements} :
    validate mode types values replace options = .ok replacements? ↔
      Conforms ⟨mode, allowsExtra options⟩ types values ∧ replacements? =
        if replace && !(changed ⟨mode, allowsExtra options⟩ types values).isEmpty then
          some (changed ⟨mode, allowsExtra options⟩ types values)
        else none := by
  rw [conforms_iff, validate]
  cases lastFault? (verdicts ⟨mode, allowsExtra options⟩ types values).entries with
  | some fault => simp
  | none =>
    by_cases clean : issues ⟨mode, allowsExtra options⟩ types values = []
    · simp only [clean, List.isEmpty_nil, Bool.not_true, Bool.false_eq_true, if_false, true_and,
        Except.ok.injEq]
      exact eq_comm
    · simp [clean]

/-- The normal forms that differ from their values, by name. -/
theorem get?_changed_eq_some_iff {name : String} {normal : Value} :
    (changed rules types values).get? name = some normal ↔
      ∃ type value, types.get? name = some type ∧ values.get? name = some value ∧
        type.normal? rules value = some normal ∧ ¬ normal.Equal value := by
  rw [changed, changes, OrderedMap.get?_filterMap, get?_verdicts]
  constructor
  · intro found
    obtain ⟨verdict, there, kept⟩ := Option.bind_eq_some_iff.mp found
    obtain ⟨type, typed, rfl⟩ := Option.map_eq_some_iff.mp there
    simp only [verdictAt] at kept
    cases supplied : values.get? name with
    | none => simp [supplied] at kept
    | some value =>
      simp only [supplied, TypeExpr.normal?_check] at kept
      cases here : type.normal? rules value with
      | none => simp [here] at kept
      | some other =>
        simp only [here, Option.ite_none_left_eq_some, Option.some.injEq] at kept
        obtain ⟨differs, rfl⟩ := kept
        exact ⟨type, value, typed, rfl, here, differs⟩
  · intro changed
    rcases changed with ⟨type, value, typed, supplied, here, differs⟩
    simp [typed, verdictAt, supplied, TypeExpr.normal?_check, here, differs]

/-- Nothing is asked for at a name whose value, if it conforms, equals its normal form. -/
theorem get?_changed_eq_none_iff {name : String} :
    (changed rules types values).get? name = none ↔
      ∀ type value normal, types.get? name = some type → values.get? name = some value →
        type.normal? rules value = some normal → normal.Equal value := by
  rw [Option.eq_none_iff_forall_ne_some]
  constructor
  · intro unchanged type value normal typed supplied here
    by_contra differs
    exact unchanged normal
      (get?_changed_eq_some_iff.mpr ⟨type, value, typed, supplied, here, differs⟩)
  · intro settled normal found
    obtain ⟨type, value, typed, supplied, here, differs⟩ := get?_changed_eq_some_iff.mp found
    exact differs (settled type value normal typed supplied here)

end Schema

end CallGuard
