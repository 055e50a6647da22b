import CallGuard.Guard
import CallGuard.Proofs.Rewriting
import CallGuard.Proofs.Validation

/-!
# Calls of guarded functions

What a function with a guard that uses the schema validator is called with and what comes back:
each selected argument is checked on its own and passed on in its own place, and so is the
result.
-/

namespace CallGuard

/-- What a value that is checked is passed on as: its normal form where replacements are made
    and it differs, otherwise the value itself, and nothing where the value does not conform. -/
def TypeExpr.settle? (rules : Rules) (replace : Bool) (type : TypeExpr) (value : Value) :
    Option Value :=
  (type.normal? rules value).map fun normal =>
    if replace && !(normal == value) then normal else value

/-- A guard with the schema validator. -/
structure SchemaGuard where
  signature : Signature
  selection : Selection
  mode : Mode
  replaceArguments : Bool
  replaceResult : Bool
  options : Options

namespace SchemaGuard

/-- The rules of the validator. -/
def rules (guarded : SchemaGuard) : Rules :=
  ⟨guarded.mode, Schema.allowsExtra guarded.options⟩

/-- The settings of the guard. -/
def settings (guarded : SchemaGuard) : Settings :=
  ⟨Schema.validator guarded.mode, guarded.replaceArguments, guarded.replaceResult,
    guarded.options⟩

@[simp] theorem settings_replaceArguments (guarded : SchemaGuard) :
    guarded.settings.replaceArguments = guarded.replaceArguments := rfl

@[simp] theorem settings_replaceResult (guarded : SchemaGuard) :
    guarded.settings.replaceResult = guarded.replaceResult := rfl

/-- The guard itself. -/
def guard (guarded : SchemaGuard) : Guard :=
  ⟨guarded.signature, guarded.selection, guarded.settings⟩

/-- The type that the argument of a name is checked against. -/
def checkedType? (guarded : SchemaGuard) (name : String) : Option TypeExpr :=
  if guarded.selection.includes name then
    (guarded.signature.parameter? name).bind Parameter.boundType?
  else none

/-- What an argument is passed on as. -/
def settleArgument? (guarded : SchemaGuard) (name : String) (value : Value) : Option Value :=
  match guarded.checkedType? name with
  | some type => type.settle? guarded.rules guarded.replaceArguments value
  | none => some value

/-- What a result is passed on as. -/
def settleResult? (guarded : SchemaGuard) (result : Value) : Option Value :=
  if guarded.selection.includes returnName then
    guarded.signature.effectiveReturn.settle? guarded.rules guarded.replaceResult result
  else some result

variable {guarded : SchemaGuard} {call : CallArguments} {bound : BoundArguments}

/-! ## Validating fields -/

/-- The fields that conform to their types. -/
def Fits (guarded : SchemaGuard) (fields : List Field) : Prop :=
  ∀ field ∈ fields, (field.type.normal? guarded.rules field.value).isSome

/-- Replacements of exactly the fields whose normal forms differ, if any are made. -/
def Replaces (guarded : SchemaGuard) (replace : Bool) (fields : List Field)
    (replacements : Replacements) : Prop :=
  ∀ name normal, replacements.get? name = some normal ↔ replace = true ∧
    ∃ field ∈ fields, field.name = name ∧
      field.type.normal? guarded.rules field.value = some normal ∧ ¬ normal.Equal field.value

section Fields

variable {fields : List Field} (distinct : (fields.map Field.name).Nodup)

include distinct

theorem nodup_keys_map {α : Type} (f : Field → α) :
    (Entries.keys (fields.map fun field => (field.name, f field))).Nodup := by
  simpa [Entries.keys, Function.comp_def] using distinct

/-- What is read from a part of each field, collected by name. -/
theorem get?_ofList_map_eq_some_iff {α : Type} (f : Field → α) {name : String} {v : α} :
    (OrderedMap.ofList (fields.map fun field => (field.name, f field))).get? name = some v ↔
      ∃ field ∈ fields, field.name = name ∧ f field = v := by
  rw [OrderedMap.get?_ofList_eq_some_iff (nodup_keys_map distinct f), List.mem_map]
  simp only [Prod.mk.injEq]

theorem get?_types_eq_some_iff {name : String} {type : TypeExpr} :
    (Field.split fields).1.get? name = some type ↔
      ∃ field ∈ fields, field.name = name ∧ field.type = type :=
  get?_ofList_map_eq_some_iff distinct Field.type

theorem get?_values_of_mem {field : Field} (member : field ∈ fields) :
    (Field.split fields).2.get? field.name = some field.value :=
  (get?_ofList_map_eq_some_iff distinct Field.value).mpr ⟨field, member, rfl, rfl⟩

theorem keys_split : (Field.split fields).2.keys = (Field.split fields).1.keys := by
  simp only [Field.split, OrderedMap.keys]
  rw [OrderedMap.entries_ofList (nodup_keys_map distinct Field.value),
    OrderedMap.entries_ofList (nodup_keys_map distinct Field.type)]
  simp [Entries.keys, Function.comp_def]

/-- Fields conform together exactly if each does. -/
theorem conforms_split_iff :
    Schema.Conforms guarded.rules (Field.split fields).1 (Field.split fields).2 ↔
      guarded.Fits fields := by
  constructor
  · intro conforms field member
    obtain ⟨value, found, fits⟩ := conforms.fits _ _
      ((get?_types_eq_some_iff distinct).mpr ⟨field, member, rfl, rfl⟩)
    cases (get?_values_of_mem distinct member).symm.trans found
    exact fits
  · intro fits
    refine ⟨fun name type found => ?_, fun name member => keys_split distinct ▸ member⟩
    obtain ⟨field, member, rfl, rfl⟩ := (get?_types_eq_some_iff distinct).mp found
    exact ⟨field.value, get?_values_of_mem distinct member, fits field member⟩

theorem get?_changed_split_iff {rules : Rules} {name : String} {normal : Value} :
    (Schema.changed rules (Field.split fields).1 (Field.split fields).2).get? name = some normal ↔
      ∃ field ∈ fields, field.name = name ∧
        field.type.normal? rules field.value = some normal ∧ ¬ normal.Equal field.value := by
  rw [Schema.get?_changed_eq_some_iff]
  constructor
  · intro changed
    rcases changed with ⟨type, value, typed, found, fits, differs⟩
    obtain ⟨field, member, rfl, rfl⟩ := (get?_types_eq_some_iff distinct).mp typed
    cases (get?_values_of_mem distinct member).symm.trans found
    exact ⟨field, member, rfl, fits, differs⟩
  · intro changed
    rcases changed with ⟨field, member, rfl, fits, differs⟩
    have typed := (get?_types_eq_some_iff distinct).mpr ⟨field, member, rfl, rfl⟩
    exact ⟨field.type, field.value, typed, get?_values_of_mem distinct member, fits, differs⟩

/-- Fields that conform are replaced where their normal forms differ. -/
theorem exists_validate_of_fits (fits : guarded.Fits fields) (replace : Bool) (stage : Stage) :
    ∃ replacements?, (guarded.settings.validate fields replace stage).outcome =
        .ok replacements? ∧
      guarded.Replaces replace fields (replacements?.getD .empty) := by
  obtain ⟨changed, changes, passed⟩ : ∃ changed : Replacements,
      (∀ name normal, changed.get? name = some normal ↔ ∃ field ∈ fields, field.name = name ∧
        field.type.normal? guarded.rules field.value = some normal ∧
          ¬ normal.Equal field.value) ∧
      Schema.validate guarded.mode (Field.split fields).1 (Field.split fields).2 replace
        guarded.options = .ok (if replace && !changed.isEmpty then some changed else none) :=
    ⟨Schema.changed guarded.rules _ _, fun _ _ => get?_changed_split_iff distinct,
      Schema.validate_eq_ok_iff.mpr ⟨(conforms_split_iff distinct).mpr fits, rfl⟩⟩
  refine ⟨(if replace && !changed.isEmpty then some changed else none).filter
    fun r => !r.isEmpty, by simp only [Settings.validate, settings, Schema.validator, passed], ?_⟩
  intro name normal
  rw [← changes]
  cases replace with
  | false => simp
  | true =>
    cases empty : changed.isEmpty with
    | false => simp [Option.filter, empty]
    | true => simp [Option.filter, OrderedMap.isEmpty_iff.mp empty name]

/-- Fields of which one does not conform are refused. -/
theorem exists_validate_of_not_fits (misfit : ¬ guarded.Fits fields) (replace : Bool)
    (stage : Stage) : ∃ message, (guarded.settings.validate fields replace stage).outcome =
      .error (.validation stage message) := by
  simp only [Settings.validate, settings, Schema.validator]
  cases h : Schema.validate guarded.mode (Field.split fields).1 (Field.split fields).2 replace
      guarded.options with
  | error error => exact ⟨_, rfl⟩
  | ok replacements? =>
    exact absurd ((conforms_split_iff distinct).mp (Schema.validate_eq_ok_iff.mp h).1) misfit

end Fields

/-! ## Before the call -/

/-- The bound arguments that are checked, with their types. -/
def selected (guarded : SchemaGuard) (bound : BoundArguments) : List Field :=
  bound.entries.filterMap fun entry =>
    (guarded.checkedType? entry.1).map fun type => ⟨entry.1, entry.2, type⟩

theorem mem_selected_iff {field : Field} : field ∈ guarded.selected bound ↔
    bound.get? field.name = some field.value ∧
      guarded.checkedType? field.name = some field.type := by
  simp only [selected, List.mem_filterMap, Option.map_eq_some_iff]
  constructor
  · intro selected
    rcases selected with ⟨entry, member, type, checked, rfl⟩
    exact ⟨OrderedMap.get?_of_mem member, checked⟩
  · intro typed
    rcases typed with ⟨found, checked⟩
    exact ⟨_, Entries.mem_of_get? found, field.type, checked, rfl⟩

theorem nodup_selected (guarded : SchemaGuard) (bound : BoundArguments) :
    ((guarded.selected bound).map Field.name).Nodup := by
  refine List.Sublist.nodup ?_ bound.nodup
  rw [selected]
  induction bound.entries with
  | nil => simp
  | cons entry rest ih =>
    cases checked : guarded.checkedType? entry.1 with
    | none => simpa [List.filterMap_cons, checked] using ih.cons entry.1
    | some type => simpa [List.filterMap_cons, checked] using ih.cons_cons entry.1

theorem exists_fields_select (binds : guarded.signature.bind call = .ok bound) :
    ∃ fields, guarded.signature.fields call = .ok fields ∧
      guarded.selection.select fields = guarded.selected bound := by
  refine ⟨_, by rw [Signature.fields, binds]; rfl, ?_⟩
  rw [Selection.select, List.filter_filterMap, selected]
  refine List.filterMap_congr fun entry _ => ?_
  simp only [checkedType?]
  cases included : guarded.selection.includes entry.1 <;>
    cases guarded.signature.parameter? entry.1 with
    | none => simp
    | some p => cases typed : p.boundType? <;> simp [typed, Option.filter, included]

/-- Where every checked argument conforms, the call goes on with the differing ones replaced. -/
theorem exists_before_of_fits (binds : guarded.signature.bind call = .ok bound)
    (fits : guarded.Fits (guarded.selected bound)) :
    ∃ replacements : Replacements, (guarded.guard.before call).outcome =
        .ok (call.replaceAll guarded.signature replacements.entries).1 ∧
      guarded.Replaces guarded.replaceArguments (guarded.selected bound) replacements := by
  obtain ⟨fields, read, select⟩ := exists_fields_select binds
  by_cases nothing : guarded.selected bound = []
  · refine ⟨.empty, ?_, ?_⟩
    · simp only [Guard.before, guard, read, select, nothing, List.isEmpty_nil, if_true]
      rfl
    · intro name normal
      simp [nothing]
  · obtain ⟨replacements?, passed, replaces⟩ := exists_validate_of_fits
      (guarded.nodup_selected bound) fits guarded.replaceArguments .arguments
    refine ⟨replacements?.getD .empty, ?_, replaces⟩
    simp only [Guard.before, guard, read, select, List.isEmpty_iff, nothing, if_false,
      Guard.validateFields, settings_replaceArguments, passed]
    cases replacements? <;> rfl

/-- Where a checked argument does not conform, the call is refused. -/
theorem exists_before_of_not_fits (binds : guarded.signature.bind call = .ok bound)
    (misfit : ¬ guarded.Fits (guarded.selected bound)) :
    ∃ message, (guarded.guard.before call).outcome =
      .error (.validation .arguments message) := by
  obtain ⟨fields, read, select⟩ := exists_fields_select binds
  obtain ⟨message, refused⟩ := exists_validate_of_not_fits (guarded.nodup_selected bound) misfit
    guarded.replaceArguments .arguments
  have something : guarded.selected bound ≠ [] := by
    intro nothing
    simp [Fits, nothing] at misfit
  refine ⟨message, ?_⟩
  simp only [Guard.before, guard, read, select, List.isEmpty_iff, something, if_false,
    Guard.validateFields, settings_replaceArguments, refused]

/-! ## The call that reaches the function -/

/-- The bound arguments as they are passed on. -/
def settle (guarded : SchemaGuard) (bound : BoundArguments) : BoundArguments :=
  bound.mapValues fun name value => (guarded.settleArgument? name value).getD value

theorem fits_selected_iff : guarded.Fits (guarded.selected bound) ↔
    ∀ name value, bound.get? name = some value →
      (guarded.settleArgument? name value).isSome := by
  constructor
  · intro fits name value found
    unfold settleArgument?
    cases checked : guarded.checkedType? name with
    | none => rfl
    | some type =>
      simpa [TypeExpr.settle?] using
        fits ⟨name, value, type⟩ (mem_selected_iff.mpr ⟨found, checked⟩)
  · intro settles field member
    obtain ⟨found, checked⟩ := mem_selected_iff.mp member
    simpa [settleArgument?, checked, TypeExpr.settle?] using settles field.name field.value found

theorem exists_parameter_of_checkedType? {name : String} {type : TypeExpr}
    (checked : guarded.checkedType? name = some type) :
    ∃ p ∈ guarded.signature.parameters, p.name = name ∧ p.boundType? = some type := by
  simp only [checkedType?, Option.ite_none_right_eq_some, Option.bind_eq_some_iff] at checked
  obtain ⟨-, p, found, typed⟩ := checked
  obtain ⟨member, same⟩ := Signature.parameter?_eq_some_iff.mp found
  exact ⟨p, member, same, typed⟩

/-- The type of a tail of positional arguments is a list type. -/
theorem boundType?_varPositional {p : Parameter} {type : TypeExpr} (kind : p.kind = .varPositional)
    (typed : p.boundType? = some type) : ∃ item, type = .list item := by
  simp only [Parameter.boundType?, kind, Option.map_eq_some_iff] at typed
  obtain ⟨item, -, rfl⟩ := typed
  exact ⟨item, rfl⟩

/-- The type of surplus keywords is a mapping type. -/
theorem boundType?_varKeyword {p : Parameter} {type : TypeExpr} (kind : p.kind = .varKeyword)
    (typed : p.boundType? = some type) : ∃ item, type = .map item := by
  simp only [Parameter.boundType?, kind, Option.map_eq_some_iff] at typed
  obtain ⟨item, -, rfl⟩ := typed
  exact ⟨item, rfl⟩

/-- The normal form of what a parameter is bound to has a place in the call, and being written
    there is all that it takes. -/
theorem admissible_of_normal? (binds : guarded.signature.bind call = .ok bound) {p : Parameter}
    (member : p ∈ guarded.signature.parameters) {type : TypeExpr} {value normal : Value}
    (typed : p.boundType? = some type) (found : bound.get? p.name = some value)
    (fits : type.normal? guarded.rules value = some normal) :
    guarded.signature.Admissible call p normal ∧
      guarded.signature.revised p.name value normal = normal := by
  rw [Signature.get?_bound binds member] at found
  cases kind : p.kind with
  | positionalOnly | positionalOrKeyword | keywordOnly =>
    refine ⟨⟨by simp [found], by simp [kind], by simp [kind]⟩, ?_⟩
    exact Signature.revised_of_not_varKeyword member (by simp [kind]) _ _
  | varPositional =>
    obtain ⟨item, rfl⟩ := boundType?_varPositional kind typed
    obtain ⟨items, rfl, nonempty⟩ := Signature.exists_items_of_supplied? kind found
    obtain ⟨_, normals, ⟨⟩, rfl, each⟩ := TypeExpr.normal?_list_eq_some_iff.mp fits
    have nonempty' : normals ≠ [] := by
      intro empty
      subst empty
      exact nonempty (List.forall₂_nil_right_iff.mp each)
    refine ⟨⟨by simp [found], fun _ => ⟨normals, rfl, nonempty'⟩, by simp [kind]⟩, ?_⟩
    exact Signature.revised_of_not_varKeyword member (by simp [kind]) _ _
  | varKeyword =>
    obtain ⟨item, rfl⟩ := boundType?_varKeyword kind typed
    obtain rfl := Signature.eq_map_of_supplied? kind found
    obtain ⟨_, normals, ⟨⟩, rfl, aligned⟩ := TypeExpr.normal?_map_eq_some_iff.mp fits
    have names := aligned.keys_eq
    have distinct : (Entries.keys (guarded.signature.surplusKeyword call)).Nodup :=
      (List.filter_sublist.map Prod.fst).nodup call.keyword.nodup
    refine ⟨⟨by simp [found], by simp [kind], fun _ => ⟨normals, rfl, ?_⟩⟩, ?_⟩
    · intro name listed
      rw [← names, Signature.surplusKeyword, Entries.keys_filter, List.mem_filter] at listed
      exact listed
    · rw [Signature.revised_of_varKeyword member kind _ normals rfl,
        Entries.putAll_of_keys_eq distinct names.symm]

/-- An argument that is checked is replaced exactly where it is passed on as something else. -/
theorem revisedBy_eq_settle {replacements : Replacements}
    (binds : guarded.signature.bind call = .ok bound)
    (fits : guarded.Fits (guarded.selected bound))
    (replaces : guarded.Replaces guarded.replaceArguments (guarded.selected bound) replacements)
    {name : String} {value : Value} (found : bound.get? name = some value) :
    guarded.signature.revisedBy replacements.entries name value =
      (guarded.settleArgument? name value).getD value := by
  cases replaced : replacements.get? name with
  | some normal =>
    obtain ⟨replace, field, member, rfl, fits, differs⟩ := (replaces name normal).mp replaced
    obtain ⟨found', checked⟩ := mem_selected_iff.mp member
    cases found.symm.trans found'
    obtain ⟨p, memberP, same, typed⟩ := exists_parameter_of_checkedType? checked
    rw [← same] at found
    have written := (admissible_of_normal? binds memberP typed found fits).2
    rw [same] at written
    rw [Signature.revisedBy_of_some replaced]
    simp [written, settleArgument?, checked, TypeExpr.settle?, fits, replace, differs]
  | none =>
    rw [Signature.revisedBy_of_none replaced, id, settleArgument?]
    cases checked : guarded.checkedType? name with
    | none => rfl
    | some type =>
      have member : (⟨name, value, type⟩ : Field) ∈ guarded.selected bound :=
        mem_selected_iff.mpr ⟨found, checked⟩
      obtain ⟨normal, fit⟩ := Option.isSome_iff_exists.mp (fits _ member)
      simp only [TypeExpr.settle?, fit, Option.map_some, Option.getD_some]
      split
      next differs =>
        simp only [Bool.and_eq_true, Bool.not_eq_true'] at differs
        have there := (replaces name normal).mpr
          ⟨differs.1, _, member, rfl, fit, by simp [differs.2]⟩
        rw [replaced] at there
        cases there
      · rfl

/-- The call with its replacements binds to the arguments as they are passed on. -/
theorem bind_replaceAll_settle {replacements : Replacements}
    (binds : guarded.signature.bind call = .ok bound)
    (fits : guarded.Fits (guarded.selected bound))
    (replaces : guarded.Replaces guarded.replaceArguments (guarded.selected bound)
      replacements) :
    guarded.signature.bind (call.replaceAll guarded.signature replacements.entries).1 =
      .ok (guarded.settle bound) := by
  have fitting := (Signature.bind_eq_ok_iff.mp binds).1
  have rewritten := (Signature.rewritten_replaceAll fitting replacements.nodup
    fun name normal listed => by
      obtain ⟨-, field, member, rfl, fits, -⟩ :=
        (replaces name normal).mp (OrderedMap.get?_of_mem listed)
      obtain ⟨found, checked⟩ := mem_selected_iff.mp member
      obtain ⟨p, memberP, same, typed⟩ := exists_parameter_of_checkedType? checked
      rw [← same] at found
      exact ⟨p, memberP, same, (admissible_of_normal? binds memberP typed found fits).1⟩).1
  rw [rewritten.bind binds, Signature.revise, settle]
  congr 1
  exact OrderedMap.mapValues_congr fun name value found =>
    revisedBy_eq_settle binds fits replaces found

/-! ## After the call -/

/-- The result as a field of its own. -/
abbrev resultField (guarded : SchemaGuard) (result : Value) : Field :=
  ⟨resultKey, result, guarded.signature.effectiveReturn⟩

theorem outcome_after_of_excluded (excluded : guarded.selection.includes returnName = false)
    (result : Value) : (guarded.guard.after result).outcome = .ok result := by
  simp [Guard.after, guard, excluded]

/-- A result that is selected and conforms is replaced where its normal form differs. -/
theorem outcome_after_of_fits {result normal : Value}
    (included : guarded.selection.includes returnName = true)
    (fit : guarded.signature.effectiveReturn.normal? guarded.rules result = some normal) :
    (guarded.guard.after result).outcome =
      .ok (if guarded.replaceResult && !(normal == result) then normal else result) := by
  have fits : guarded.Fits [guarded.resultField result] := by simp [Fits, fit]
  obtain ⟨replacements?, passed, replaces⟩ :=
    exists_validate_of_fits (by simp) fits guarded.replaceResult .result
  have there : ∀ value, (replacements?.bind fun r => r.get? resultKey) = some value ↔
      guarded.replaceResult = true ∧ normal = value ∧ ¬ value.Equal result := by
    intro value
    have read := replaces resultKey value
    simp only [List.mem_singleton, exists_eq_left, true_and, fit, Option.some.injEq] at read
    rw [← read]
    cases replacements? <;> simp
  simp only [Guard.after, guard, included, if_true, settings_replaceResult, passed]
  cases replaced : replacements?.bind fun r => r.get? resultKey with
  | some value =>
    obtain ⟨replace, rfl, differs⟩ := (there value).mp replaced
    simp [replace, differs]
  | none =>
    have kept : ¬ (guarded.replaceResult = true ∧ ¬ normal.Equal result) := by
      intro revises
      rcases revises with ⟨replace, differs⟩
      have found := (there normal).mpr ⟨replace, rfl, differs⟩
      rw [replaced] at found
      cases found
    have kept' : (guarded.replaceResult && !(normal == result)) = false := by
      simpa using kept
    simp [kept']

/-- A result that is selected and does not conform is refused. -/
theorem exists_outcome_after_of_not_fits {result : Value}
    (included : guarded.selection.includes returnName = true)
    (misfit : guarded.signature.effectiveReturn.normal? guarded.rules result = none) :
    ∃ message, (guarded.guard.after result).outcome =
      .error (.validation .result message) := by
  have misfits : ¬ guarded.Fits [guarded.resultField result] := by simp [Fits, misfit]
  obtain ⟨message, refused⟩ :=
    exists_validate_of_not_fits (by simp) misfits guarded.replaceResult .result
  refine ⟨message, ?_⟩
  simp only [Guard.after, guard, included, if_true, settings_replaceResult, refused]

/-- A result is passed on as its check says, or refused. -/
theorem outcome_after (guarded : SchemaGuard) (result : Value) :
    match guarded.settleResult? result with
    | some value => (guarded.guard.after result).outcome = .ok value
    | none => ∃ message, (guarded.guard.after result).outcome =
        .error (.validation .result message) := by
  cases included : guarded.selection.includes returnName with
  | false =>
    simp only [settleResult?, included, Bool.false_eq_true, if_false]
    exact outcome_after_of_excluded included result
  | true =>
    simp only [settleResult?, included, if_true, TypeExpr.settle?]
    cases fit : guarded.signature.effectiveReturn.normal? guarded.rules result with
    | none => exact exists_outcome_after_of_not_fits included fit
    | some normal => exact outcome_after_of_fits included fit

/-! ## The whole call -/

/-- A guarded call.  A call that does not bind fails with the error of binding, and one with an
    argument that is checked and does not conform fails validation; neither runs the function.
    Any other call runs it once, on a call that binds to the same names with every argument
    passed on as its check says, and passes the result on as its own check says. -/
theorem call_eq {m : Type → Type} [Monad m] (guarded : SchemaGuard) (function : Callee m)
    (call : CallArguments) :
    match guarded.signature.bind call with
    | .error error =>
      GuardedFunction.call ⟨guarded.guard, function⟩ call = pure ⟨.error (.binding error), []⟩
    | .ok bound =>
      ((∃ name value, bound.get? name = some value ∧
          guarded.settleArgument? name value = none) →
        ∃ message events, GuardedFunction.call ⟨guarded.guard, function⟩ call =
          pure ⟨.error (.validation .arguments message), events⟩) ∧
      ((∀ name value, bound.get? name = some value →
          (guarded.settleArgument? name value).isSome) →
        ∃ (next : CallArguments) (events : List Event) (released : Value → Logged Value),
          guarded.signature.bind next = .ok (guarded.settle bound) ∧
          (guarded.settle bound).keys = bound.keys ∧
          GuardedFunction.call ⟨guarded.guard, function⟩ call = (do
            match ← function next with
            | .error failure => return ⟨.error (.invocation failure), events⟩
            | .ok result => return released result) ∧
          ∀ result, match guarded.settleResult? result with
            | some value => (released result).outcome = .ok value
            | none => ∃ message,
              (released result).outcome = .error (.validation .result message)) := by
  cases binds : guarded.signature.bind call with
  | error error =>
    have refused : guarded.guard.before call = ⟨.error (.binding error), []⟩ := by
      simp [Guard.before, guard, Signature.fields, binds, Except.map]
    simp [GuardedFunction.call, refused]
  | ok bound =>
    refine ⟨?_, ?_⟩
    · intro rejection
      rcases rejection with ⟨name, value, found, rejected⟩
      have misfit : ¬ guarded.Fits (guarded.selected bound) := by
        intro fits
        simpa [rejected] using fits_selected_iff.mp fits name value found
      obtain ⟨message, refused⟩ := exists_before_of_not_fits binds misfit
      exact ⟨message, (guarded.guard.before call).events, by simp [GuardedFunction.call, refused]⟩
    · intro settles
      have fits := fits_selected_iff.mpr settles
      obtain ⟨replacements, admitted, replaces⟩ := exists_before_of_fits binds fits
      refine ⟨_, (guarded.guard.before call).events, fun result =>
        { guarded.guard.after result with
          events := (guarded.guard.before call).events ++ (guarded.guard.after result).events },
        bind_replaceAll_settle binds fits replaces, OrderedMap.keys_mapValues _ _, ?_, ?_⟩
      · dsimp only [GuardedFunction.call]
        split
        · next refused =>
          cases admitted.symm.trans refused
        · next rewritten =>
          cases admitted.symm.trans rewritten
          rfl
      · exact outcome_after guarded

/-- Integers, checked in lax mode, with texts for everything that is not named. -/
def tally : SchemaGuard where
  signature :=
    { parameters := [⟨"first", .positionalOrKeyword, some .int, none⟩,
        ⟨"rest", .varPositional, some .int, none⟩, ⟨"labels", .varKeyword, some .str, none⟩]
      returns := some .int
      orderly := by decide }
  selection := .all
  mode := .lax
  replaceArguments := true
  replaceResult := true
  options := .empty

/-- A function that answers with a text. -/
def answerSeven : Callee Id := fun _ => .ok (.str "7")

/-- An argument, a tail and surplus keywords, some of which are converted; one of the surplus
    keywords bears the name of the tail.  The result is converted, too. -/
theorem call_eq_tally :
    ∃ (next : CallArguments) (released : Logged Value),
      tally.signature.bind next = .ok (.ofList [("first", .int 1),
        ("rest", .list [.int 2, .int 3]), ("labels", .map [("rest", .str "4")])]) ∧
      GuardedFunction.call ⟨tally.guard, answerSeven⟩
        ⟨[.str "1", .int 2, .str "3"], .ofList [("rest", .int 4)]⟩ = released ∧
      released.outcome = .ok (.int 7) := by
  have law := call_eq tally answerSeven
    ⟨[.str "1", .int 2, .str "3"], .ofList [("rest", .int 4)]⟩
  have binds : tally.signature.bind
      ⟨[.str "1", .int 2, .str "3"], .ofList [("rest", .int 4)]⟩ =
        .ok (.ofList [("first", .str "1"), ("rest", .list [.int 2, .str "3"]),
          ("labels", .map [("rest", .int 4)])]) := by rfl
  rw [binds] at law
  obtain ⟨next, events, released, bound, -, ran, out⟩ := law.2 <| by
    intro name value found
    rw [OrderedMap.get?_ofList_eq_some_iff (by decide)] at found
    simp only [List.mem_cons, Prod.mk.injEq, List.not_mem_nil, or_false] at found
    rcases found with ⟨rfl, rfl⟩ | ⟨rfl, rfl⟩ | ⟨rfl, rfl⟩ <;> rfl
  exact ⟨next, released (.str "7"), bound, ran, out (.str "7")⟩

end SchemaGuard

end CallGuard
