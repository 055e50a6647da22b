import CallGuard.Proofs.TypeExpr
import CallGuard.Proofs.Value
import CallGuard.Proofs.Verdict
import CallGuard.Validation.Conformance

/-!
# Normal forms

The normal form that a check finds does not depend on the position of the value, and a check
without a normal form has an issue or a fault.  For each kind of type one lemma says which
values have a normal form and what it is; where a type is plain, a union takes the first
variant that fits.
-/

namespace CallGuard

open Conformance

namespace Rules

/-- The rules of strict mode. -/
abbrev strict (allowExtra : Bool) : Rules := ⟨.strict, allowExtra⟩

/-- The rules of lax mode. -/
abbrev lax (allowExtra : Bool) : Rules := ⟨.lax, allowExtra⟩

end Rules

namespace Conformance

open Verdict

theorem uniform_scalar (mode : Mode) (type : TypeExpr) (value : Value) (own : Bool)
    (converted? : Option Value) :
    Uniform fun path => scalar mode type value path own converted? := by
  unfold scalar
  split
  · exact .pass _
  · split
    · exact .pass _
    · exact .reject _

theorem uniform_formatted (format : StringFormat) (value : Value) :
    Uniform (formatted format value) := by
  unfold formatted
  split
  · split
    · exact .pass _
    · exact .reject _
  · exact .reject _

theorem uniform_oneOf (members : List Value) (value : Value) : Uniform (oneOf members value) := by
  unfold oneOf
  split
  · exact .broken _
  · split
    · exact .pass _
    · exact .reject _

theorem uniform_foreign (type : ForeignType) (value : Value) :
    Uniform (Conformance.foreign type value) := by
  unfold Conformance.foreign
  split
  · split <;> exact .pass _
  · exact .reject _

theorem uniform_extras (allowed : Bool) (entries : Entries Value) :
    Uniform fun path => extras allowed path entries := by
  unfold extras
  split
  · exact .pass _
  next refused =>
    have present : entries ≠ [] := by
      intro empty
      subst empty
      simp at refused
    exact ⟨fun _ => by simp [present], fun _ _ => rfl, fun _ _ => Iff.rfl⟩

end Conformance

namespace TypeExpr

open Verdict

attribute [local simp] TypeExpr.check

theorem uniform_checkTuple {rules : Rules} {types : List TypeExpr}
    (uniform : ∀ type ∈ types, ∀ value, Uniform (type.check rules value)) (items : List Value)
    (i : Nat) : Uniform fun path => checkTuple rules types items path i := by
  induction types generalizing items i with
  | nil =>
    simp only [checkTuple]
    exact .pass _
  | cons type rest ih =>
    cases items with
    | nil =>
      simp only [checkTuple]
      exact .pass _
    | cons item items =>
      simp only [checkTuple]
      exact ((uniform type List.mem_cons_self item).comp fun path => path.index i).both
        (ih (fun t member => uniform t (List.mem_cons_of_mem _ member)) items (i + 1)) _

theorem uniform_checkFields {rules : Rules} {fields : List (RecordField TypeExpr)}
    (uniform : ∀ field ∈ fields, ∀ value, Uniform (field.type.check rules value))
    (input : Entries Value) : Uniform fun path => checkFields rules fields input path := by
  induction fields with
  | nil =>
    simp only [checkFields]
    exact .pass _
  | cons field rest ih =>
    have later := ih fun f member => uniform f (List.mem_cons_of_mem _ member)
    simp only [checkFields]
    refine Uniform.both ?_ later _
    cases input.get? field.name with
    | some value =>
      exact (uniform field List.mem_cons_self value).comp fun path => path.key field.name
    | none =>
      cases field.default with
      | some default => exact .pass default
      | none => exact (Uniform.reject .missing).comp fun path => path.key field.name

theorem agrees_tryVariants {rules : Rules} {variants : List TypeExpr} {value : Value}
    (uniform : ∀ variant ∈ variants, Uniform (variant.check rules value)) (path path' : Path) :
    (tryVariants rules variants value path).Agrees
      (tryVariants rules variants value path') := by
  induction variants with
  | nil => simp [tryVariants, Attempt.Agrees]
  | cons variant rest ih =>
    have here := uniform variant List.mem_cons_self
    have later := ih fun t member => uniform t (List.mem_cons_of_mem _ member)
    have normal := here.normal? path path'
    have fault := here.fault? path path'
    simp only [tryVariants]
    cases hf : (variant.check rules value path).fault? <;>
      cases hf' : (variant.check rules value path').fault? <;>
      cases hn : (variant.check rules value path').normal? <;>
      simp_all [Attempt.Agrees]

/-- Every check is uniform in the position of the value. -/
theorem uniform_check (rules : Rules) (type : TypeExpr) (value : Value) :
    Uniform (type.check rules value) := by
  induction type using TypeExpr.induction generalizing rules value with
  | any =>
    simp only [TypeExpr.check]
    exact .pass value
  | null => cases value <;> simp only [TypeExpr.check] <;> first | exact .pass _ | exact .reject _
  | bool | int | float | str =>
    simp only [TypeExpr.check]
    exact uniform_scalar _ _ _ _ _
  | format f =>
    simp only [TypeExpr.check]
    exact uniform_formatted f value
  | list item ih =>
    cases value <;> simp only [TypeExpr.check]
    case list items => exact (Uniform.ofItems (ih rules) 0 items).map _
    all_goals exact .reject _
  | tuple types ih =>
    cases value <;> simp only [TypeExpr.check]
    case list items =>
      split
      · exact (uniform_checkTuple (fun t member v => ih t member rules v) items 0).map _
      · exact .reject _
    all_goals exact .reject _
  | map inner ih =>
    simp only [TypeExpr.check]
    split
    · exact (Uniform.ofEntries (ih rules) _).map _
    · exact .reject _
  | optional inner ih =>
    cases value <;> simp only [TypeExpr.check]
    case null => exact .pass _
    all_goals exact ih rules _
  | union variants ih =>
    simp only [TypeExpr.check]
    split
    · exact .broken _
    · refine Attempt.uniform_verdict (fun path path' => ?_) _
      have tried := fun rules =>
        agrees_tryVariants (fun t member => ih t member rules value) path path'
      cases rules.mode
      · exact tried _
      · exact (tried _).orElse (tried _)
  | literal members =>
    simp only [TypeExpr.check]
    exact uniform_oneOf members value
  | record name fields ih =>
    simp only [TypeExpr.check]
    split
    next input _ =>
      exact (uniform_checkFields (fun f member v => ih f member rules v) input).both
        (uniform_extras _ _) _
    · exact .reject _
  | foreign type =>
    simp only [TypeExpr.check]
    exact uniform_foreign type value

/-! ## Normal forms -/

/-- The normal form of a value, where it conforms. -/
def normal? (rules : Rules) (type : TypeExpr) (value : Value) : Option Value :=
  (type.check rules value .empty).normal?

variable {rules : Rules} {value normal : Value}

/-- The normal form does not depend on the position. -/
theorem normal?_check (type : TypeExpr) (value : Value) (path : Path) :
    (type.check rules value path).normal? = type.normal? rules value :=
  (uniform_check rules type value).normal? path .empty

/-- A conforming value leaves neither issues nor a fault. -/
theorem isSome_normal?_iff {type : TypeExpr} (path : Path) : (type.normal? rules value).isSome ↔
    (type.check rules value path).issues = [] ∧ (type.check rules value path).fault? = none := by
  rw [← normal?_check type value path]
  exact (uniform_check rules type value).closed path

theorem check_eq_pass_iff {type : TypeExpr} {path : Path} :
    type.check rules value path = .pass normal ↔ type.normal? rules value = some normal := by
  constructor
  · intro passed
    rw [← normal?_check type value path, passed, Verdict.normal?_pass]
  · intro h
    obtain ⟨issues, fault⟩ := (isSome_normal?_iff path).mp (Option.isSome_iff_exists.mpr ⟨_, h⟩)
    rw [← normal?_check type value path] at h
    cases verdict : type.check rules value path
    simp_all [Verdict.pass]

theorem normal?_scalar (mode : Mode) (type : TypeExpr) (value : Value) (path : Path) (own : Bool)
    (converted? : Option Value) : (scalar mode type value path own converted?).normal? =
      if own then some value else if mode = .lax then converted? else none := by
  unfold scalar
  cases own <;> cases mode <;> cases converted? <;> rfl

theorem normal?_any : TypeExpr.any.normal? rules value = some value := by
  simp [normal?]

theorem normal?_null : TypeExpr.null.normal? rules value =
    if value.isNull then some .null else none := by
  cases value <;> simp [normal?, Value.isNull]

theorem normal?_bool : TypeExpr.bool.normal? rules value =
    if value.asBool?.isSome then some value
    else if rules.mode = .lax then (Coercion.toBool? value).map .bool else none := by
  simp only [normal?, TypeExpr.check, normal?_scalar]

theorem normal?_int : TypeExpr.int.normal? rules value =
    if value.asInt?.isSome then some value
    else if rules.mode = .lax then (Coercion.toInt? value).map .int else none := by
  simp only [normal?, TypeExpr.check, normal?_scalar]

theorem normal?_float : TypeExpr.float.normal? rules value =
    if value.asFloat?.isSome then some value
    else if rules.mode = .lax then (Coercion.toFloat? value).map .float else none := by
  simp only [normal?, TypeExpr.check, normal?_scalar]

theorem normal?_str : TypeExpr.str.normal? rules value =
    if value.asStr?.isSome then some value
    else if rules.mode = .lax then (Coercion.toStr? value).map .str else none := by
  simp only [normal?, TypeExpr.check, normal?_scalar]

/-- Lax mode takes a value of another kind for the integer that it converts to. -/
theorem normal?_int_lax {allowExtra : Bool} (other : value.asInt? = none) :
    TypeExpr.int.normal? (.lax allowExtra) value = (Coercion.toInt? value).map .int := by
  rw [normal?_int, other]
  rfl

/-- Lax mode refuses a value of another kind if it does not convert to an integer. -/
theorem check_int_lax_eq_reject {allowExtra : Bool} {path : Path} (other : value.asInt? = none)
    (refused : Coercion.toInt? value = none) :
    TypeExpr.int.check (.lax allowExtra) value path = .reject path (.wrongKind .int value) := by
  rw [TypeExpr.check, other, refused]
  rfl

/-- A string of a format is its own normal form. -/
theorem normal?_format_eq_some_iff {format : StringFormat} :
    (TypeExpr.format format).normal? rules value = some normal ↔
      normal = value ∧ ∃ s, value = .str s ∧ format.accepts s = true := by
  cases value
  case str s =>
    cases h : format.accepts s <;>
      simp [normal?, formatted, h, @eq_comm _ normal]
  all_goals simp [normal?, formatted]

/-- A member of a literal is its own normal form. -/
theorem normal?_literal_eq_some_iff {members : List Value} :
    (TypeExpr.literal members).normal? rules value = some normal ↔
      normal = value ∧ members.any (fun member => member == value) = true := by
  simp only [normal?, TypeExpr.check, oneOf]
  cases members with
  | nil => simp
  | cons first rest =>
    cases h : (first :: rest).any fun member => member == value <;> simp [@eq_comm _ normal]

theorem normal?_list_eq_some_iff {item : TypeExpr} :
    (TypeExpr.list item).normal? rules value = some normal ↔
      ∃ items normals, value = .list items ∧ normal = .list normals ∧
        List.Forall₂ (fun v n => item.normal? rules v = some n) items normals := by
  cases value
  case list items =>
    simp only [normal?, TypeExpr.check, Verdict.normal?_map, Option.map_eq_some_iff,
      normal?_ofItems_eq_some_iff (normal?_check item)]
    constructor
    · intro found
      rcases found with ⟨normals, each, rfl⟩
      exact ⟨items, normals, rfl, rfl, each⟩
    · intro found
      rcases found with ⟨_, normals, ⟨⟩, rfl, each⟩
      exact ⟨normals, each, rfl⟩
  all_goals simp [normal?]

/-- A list fits where each of its items fits. -/
theorem isSome_normal?_list_iff {item : TypeExpr} :
    ((TypeExpr.list item).normal? rules value).isSome ↔
      ∃ items, value = .list items ∧ ∀ v ∈ items, (item.normal? rules v).isSome := by
  rw [Option.isSome_iff_exists]
  constructor
  · intro fits
    rcases fits with ⟨normal, h⟩
    obtain ⟨items, normals, rfl, rfl, each⟩ := normal?_list_eq_some_iff.mp h
    refine ⟨items, rfl, fun v member => ?_⟩
    obtain ⟨n, -, found⟩ := Entries.exists_mem_of_forall₂ each member
    simp [found]
  · intro fits
    rcases fits with ⟨items, rfl, each⟩
    have fits := fun v member => Option.isSome_iff_exists.mp (each v member)
    obtain ⟨normals, found⟩ := Entries.exists_forall₂ fits
    exact ⟨_, normal?_list_eq_some_iff.mpr ⟨items, normals, rfl, rfl, found⟩⟩

/-- The items of a list with their normal forms, each against the type of its position. -/
inductive Itemwise (rules : Rules) : List TypeExpr → List Value → List Value → Prop
  | nil : Itemwise rules [] [] []
  | cons {type : TypeExpr} {types : List TypeExpr} {item normal : Value}
      {items normals : List Value} (head : type.normal? rules item = some normal)
      (tail : Itemwise rules types items normals) :
      Itemwise rules (type :: types) (item :: items) (normal :: normals)

theorem normal?_checkTuple_eq_some_iff {types : List TypeExpr} {items normals : List Value}
    {path : Path} {i : Nat} (length : items.length = types.length) :
    (checkTuple rules types items path i).normal? = some normals ↔
      Itemwise rules types items normals := by
  induction types generalizing items normals i with
  | nil =>
    obtain rfl := List.length_eq_zero_iff.mp length
    simp only [checkTuple, Verdict.normal?_pass, Option.some.injEq]
    constructor
    · intro empty
      subst empty
      exact .nil
    · intro itemwise
      cases itemwise
      rfl
  | cons type rest ih =>
    cases items with
    | nil => cases length
    | cons item items =>
      simp only [checkTuple, normal?_both_eq_some_iff, normal?_check, ih (Nat.succ.inj length)]
      constructor
      · intro found
        rcases found with ⟨head, tail, here, later, rfl⟩
        exact .cons here later
      · intro itemwise
        cases itemwise with
        | cons here later => exact ⟨_, _, here, later, rfl⟩

theorem Itemwise.length_eq {types : List TypeExpr} {items normals : List Value}
    (itemwise : Itemwise rules types items normals) : items.length = types.length := by
  induction itemwise with
  | nil => rfl
  | cons _ _ ih => simp [ih]

theorem Itemwise.length_normals_eq {types : List TypeExpr} {items normals : List Value}
    (itemwise : Itemwise rules types items normals) : normals.length = types.length := by
  induction itemwise with
  | nil => rfl
  | cons _ _ ih => simp [ih]

theorem normal?_tuple_eq_some_iff {types : List TypeExpr} :
    (TypeExpr.tuple types).normal? rules value = some normal ↔
      ∃ items normals, value = .list items ∧ normal = .list normals ∧
        Itemwise rules types items normals := by
  cases value
  case list items =>
    simp only [normal?, TypeExpr.check]
    by_cases length : items.length = types.length
    · simp only [length, if_true, Verdict.normal?_map, Option.map_eq_some_iff,
        normal?_checkTuple_eq_some_iff length]
      constructor
      · intro found
        rcases found with ⟨normals, each, rfl⟩
        exact ⟨items, normals, rfl, rfl, each⟩
      · intro found
        rcases found with ⟨_, normals, ⟨⟩, rfl, each⟩
        exact ⟨normals, each, rfl⟩
    · simp only [length, if_false, normal?_reject, reduceCtorEq, false_iff]
      intro found
      rcases found with ⟨_, normals, ⟨⟩, rfl, each⟩
      exact length each.length_eq
  all_goals simp [normal?]

/-- Items have normal forms position by position exactly if there is one for each type and each
    fits. -/
theorem exists_itemwise_iff {types : List TypeExpr} {items : List Value} :
    (∃ normals, Itemwise rules types items normals) ↔ items.length = types.length ∧
      ∀ pair ∈ types.zip items, (pair.1.normal? rules pair.2).isSome := by
  induction types generalizing items with
  | nil =>
    constructor
    · intro itemwise
      rcases itemwise with ⟨_, ⟨⟩⟩
      simp
    · intro both
      obtain rfl := List.length_eq_zero_iff.mp both.1
      exact ⟨[], .nil⟩
  | cons type rest ih =>
    constructor
    · intro passed
      rcases passed with ⟨normals, itemwise⟩
      cases itemwise with
      | cons head tail =>
        have others := ih.mp ⟨_, tail⟩
        refine ⟨congrArg Nat.succ others.1, List.forall_mem_cons.mpr ⟨?_, others.2⟩⟩
        exact Option.isSome_iff_exists.mpr ⟨_, head⟩
    · intro both
      rcases both with ⟨length, each⟩
      cases items with
      | nil => cases length
      | cons v items =>
        have ⟨first, others⟩ := List.forall_mem_cons.mp each
        obtain ⟨n, head⟩ := Option.isSome_iff_exists.mp first
        obtain ⟨normals, tail⟩ := ih.mpr ⟨Nat.succ.inj length, others⟩
        exact ⟨n :: normals, .cons head tail⟩

/-- A list fits position by position where there is one item for each type and each fits. -/
theorem isSome_normal?_tuple_iff {types : List TypeExpr} :
    ((TypeExpr.tuple types).normal? rules value).isSome ↔
      ∃ items, value = .list items ∧ items.length = types.length ∧
        ∀ pair ∈ types.zip items, (pair.1.normal? rules pair.2).isSome := by
  rw [Option.isSome_iff_exists]
  constructor
  · intro fits
    rcases fits with ⟨normal, h⟩
    obtain ⟨items, normals, rfl, rfl, itemwise⟩ := normal?_tuple_eq_some_iff.mp h
    exact ⟨items, rfl, exists_itemwise_iff.mp ⟨normals, itemwise⟩⟩
  · intro fits
    rcases fits with ⟨items, rfl, each⟩
    obtain ⟨normals, itemwise⟩ := exists_itemwise_iff.mpr each
    exact ⟨_, normal?_tuple_eq_some_iff.mpr ⟨items, normals, rfl, rfl, itemwise⟩⟩

theorem normal?_map_eq_some_iff {inner : TypeExpr} :
    (TypeExpr.map inner).normal? rules value = some normal ↔
      ∃ entries normals, mappingInput? rules.mode value = some entries ∧ normal = .map normals ∧
        Entries.Aligned (fun v n => inner.normal? rules v = some n) entries normals := by
  simp only [normal?, TypeExpr.check]
  cases mappingInput? rules.mode value with
  | none => simp
  | some entries =>
    simp only [Verdict.normal?_map, Option.map_eq_some_iff,
      normal?_ofEntries_eq_some_iff (normal?_check inner)]
    constructor
    · intro found
      rcases found with ⟨normals, aligned, rfl⟩
      exact ⟨entries, normals, rfl, rfl, aligned⟩
    · intro found
      rcases found with ⟨_, normals, ⟨⟩, rfl, aligned⟩
      exact ⟨normals, aligned, rfl⟩

/-- What is read as a mapping fits where each of its values fits. -/
theorem isSome_normal?_map_iff {inner : TypeExpr} :
    ((TypeExpr.map inner).normal? rules value).isSome ↔
      ∃ entries, mappingInput? rules.mode value = some entries ∧
        ∀ entry ∈ entries, (inner.normal? rules entry.2).isSome := by
  rw [Option.isSome_iff_exists]
  constructor
  · intro fits
    rcases fits with ⟨normal, h⟩
    obtain ⟨entries, normals, read, rfl, aligned⟩ := normal?_map_eq_some_iff.mp h
    refine ⟨entries, read, fun entry member => ?_⟩
    obtain ⟨n, -, -, found⟩ := Entries.exists_mem_of_forall₂ aligned member
    simp [found]
  · intro fits
    rcases fits with ⟨entries, read, each⟩
    have fits : ∀ e ∈ entries, ∃ f : String × Value,
        e.1 = f.1 ∧ inner.normal? rules e.2 = some f.2 := by
      intro e member
      obtain ⟨n, found⟩ := Option.isSome_iff_exists.mp (each e member)
      exact ⟨(e.1, n), rfl, found⟩
    obtain ⟨normals, aligned⟩ := Entries.exists_forall₂ fits
    exact ⟨_, normal?_map_eq_some_iff.mpr ⟨entries, normals, read, rfl, aligned⟩⟩

theorem normal?_optional {inner : TypeExpr} : (TypeExpr.optional inner).normal? rules value =
    if value.isNull then some .null else inner.normal? rules value := by
  cases value <;> simp [normal?, Value.isNull]

/-! ## Records -/

/-- The names that fields declare. -/
abbrev declaredNames (fields : List (RecordField TypeExpr)) : List String :=
  fields.map RecordField.name

/-- What a declared field is filled with: the normal form of its value, or its default. -/
def fieldNormal? (rules : Rules) (field : RecordField TypeExpr) (input : Entries Value) :
    Option Value :=
  match input.get? field.name with
  | some value => field.type.normal? rules value
  | none => field.default

/-- Declared fields side by side with the entries that they are filled with. -/
def Filled (rules : Rules) (input : Entries Value) (fields : List (RecordField TypeExpr))
    (declared : Entries Value) : Prop :=
  List.Forall₂ (fun field entry => entry.1 = field.name ∧
    fieldNormal? rules field input = some entry.2) fields declared

theorem Filled.keys_eq {input declared : Entries Value} {fields : List (RecordField TypeExpr)}
    (filled : Filled rules input fields declared) :
    declared.keys = declaredNames fields := by
  induction filled with
  | nil => rfl
  | cons head _ ih => simp [head.1, ih]

/-- The first declared field is filled on its own. -/
theorem normal?_checkFields_cons_eq_some_iff {field : RecordField TypeExpr}
    {rest : List (RecordField TypeExpr)} {input declared : Entries Value} {path : Path} :
    (checkFields rules (field :: rest) input path).normal? = some declared ↔
      ∃ v others, fieldNormal? rules field input = some v ∧
        (checkFields rules rest input path).normal? = some others ∧
        (field.name, v) :: others = declared := by
  simp only [checkFields, normal?_both_eq_some_iff, fieldNormal?]
  cases input.get? field.name with
  | some value => simp only [normal?_check]
  | none => cases field.default <;> simp

theorem normal?_checkFields_eq_some_iff {fields : List (RecordField TypeExpr)}
    {input declared : Entries Value} {path : Path} :
    (checkFields rules fields input path).normal? = some declared ↔
      Filled rules input fields declared := by
  induction fields generalizing declared with
  | nil =>
    simp only [checkFields, Verdict.normal?_pass, Filled, List.forall₂_nil_left_iff,
      Option.some.injEq]
    exact eq_comm
  | cons field rest ih =>
    simp only [normal?_checkFields_cons_eq_some_iff, ih, Filled, List.forall₂_cons_left_iff]
    constructor
    · intro filled
      rcases filled with ⟨v, others, here, later, rfl⟩
      exact ⟨(field.name, v), others, ⟨rfl, here⟩, later, rfl⟩
    · intro filled
      rcases filled with ⟨⟨_, v⟩, others, ⟨rfl, here⟩, later, rfl⟩
      exact ⟨v, others, here, later, rfl⟩

theorem normal?_extras_eq_some_iff {allowed : Bool} {path : Path} {entries kept : Entries Value} :
    (extras allowed path entries).normal? = some kept ↔
      kept = entries ∧ (allowed = true ∨ entries = []) := by
  unfold extras
  cases allowed <;> cases entries <;> simp
  all_goals exact eq_comm

/-- A record has a normal form if every declared field can be filled and no name is left over
    that is not allowed: the fields as declared, then what is left over. -/
theorem normal?_record_eq_some_iff {name : String} {fields : List (RecordField TypeExpr)} :
    (TypeExpr.record name fields).normal? rules value = some normal ↔
      ∃ input declared, recordInput? rules.mode name value = some input ∧
        Filled rules input fields declared ∧
        (rules.allowExtra = true ∨ undeclared fields input = []) ∧
        normal = .recordOf name (declared ++ undeclared fields input) := by
  simp only [normal?, TypeExpr.check]
  cases recordInput? rules.mode name value with
  | none => simp
  | some input =>
    simp only [normal?_both_eq_some_iff, normal?_checkFields_eq_some_iff,
      normal?_extras_eq_some_iff]
    constructor
    · intro found
      rcases found with ⟨declared, _, filled, ⟨rfl, allowed⟩, rfl⟩
      exact ⟨input, declared, rfl, filled, allowed, rfl⟩
    · intro found
      rcases found with ⟨_, declared, ⟨⟩, filled, allowed, rfl⟩
      exact ⟨declared, _, filled, ⟨rfl, allowed⟩, rfl⟩

variable {fields : List (RecordField TypeExpr)} {input declared : Entries Value}

/-- A record fits where its fields can be filled and nothing is left over that is not allowed. -/
theorem isSome_normal?_record_iff {name : String} :
    ((TypeExpr.record name fields).normal? rules value).isSome ↔
      ∃ input, recordInput? rules.mode name value = some input ∧
        (∀ field ∈ fields, (fieldNormal? rules field input).isSome) ∧
        (rules.allowExtra = true ∨ undeclared fields input = []) := by
  rw [Option.isSome_iff_exists]
  constructor
  · intro fits
    rcases fits with ⟨normal, h⟩
    obtain ⟨input, declared, read, filled, allowed, -⟩ := normal?_record_eq_some_iff.mp h
    refine ⟨input, read, ?_, allowed⟩
    intro field member
    obtain ⟨entry, -, -, found⟩ := Entries.exists_mem_of_forall₂ filled member
    simp [found]
  · intro fits
    rcases fits with ⟨input, read, fits, allowed⟩
    have each : ∀ field ∈ fields, ∃ entry : String × Value, entry.1 = field.name ∧
        fieldNormal? rules field input = some entry.2 := by
      intro field member
      obtain ⟨v, found⟩ := Option.isSome_iff_exists.mp (fits field member)
      exact ⟨(field.name, v), rfl, found⟩
    obtain ⟨declared, filled⟩ := Entries.exists_forall₂ each
    exact ⟨_, normal?_record_eq_some_iff.mpr ⟨input, declared, read, filled, allowed, rfl⟩⟩

theorem mem_undeclared_iff {entry : String × Value} : entry ∈ undeclared fields input ↔
    entry ∈ input ∧ entry.1 ∉ declaredNames fields := by
  simp [undeclared]

theorem undeclared_eq_nil_iff :
    undeclared fields input = [] ↔ ∀ name ∈ input.keys, name ∈ declaredNames fields := by
  simp [undeclared, Entries.keys]

theorem undeclared_append_self (names : declared.keys = declaredNames fields) :
    undeclared fields (declared ++ undeclared fields input) = undeclared fields input := by
  have none : undeclared fields declared = [] := by
    rw [List.eq_nil_iff_forall_not_mem]
    intro entry member
    obtain ⟨inside, fresh⟩ := mem_undeclared_iff.mp member
    exact fresh (names ▸ Entries.mem_keys_of_mem inside)
  have again : undeclared fields (undeclared fields input) = undeclared fields input := by
    simp [undeclared]
  simp only [undeclared, List.filter_append] at none again ⊢
  rw [none, again, List.nil_append]

/-- Declared fields and what is left over have no name in common. -/
theorem nodup_keys_append_undeclared (distinct : (declaredNames fields).Nodup)
    (names : declared.keys = declaredNames fields) (distinct' : input.keys.Nodup) :
    Entries.keys (declared ++ undeclared fields input) |>.Nodup := by
  rw [Entries.keys_append, List.nodup_append, names]
  refine ⟨distinct, (List.filter_sublist.map Prod.fst).nodup distinct', ?_⟩
  rintro name member _ later rfl
  obtain ⟨entry, inside, rfl⟩ := List.mem_map.mp later
  exact (mem_undeclared_iff.mp inside).2 member

theorem entries?_of_mappingInput? {mode : Mode} (h : mappingInput? mode value = some input) :
    value.entries? = some input := by
  cases value <;> simp_all [mappingInput?, Value.entries?]

theorem entries?_of_recordInput? {mode : Mode} {name : String}
    (h : recordInput? mode name value = some input) : value.entries? = some input := by
  cases value <;> simp_all [recordInput?, Value.entries?]

/-- Where names are distinct nothing is merged in a normal form. -/
theorem exists_filled_of_normal?_record {name : String} (distinct : (declaredNames fields).Nodup)
    (distinct' : value.DistinctNames)
    (h : (TypeExpr.record name fields).normal? rules value = some normal) :
    ∃ input declared, recordInput? rules.mode name value = some input ∧ input.keys.Nodup ∧
      Filled rules input fields declared ∧
      (rules.allowExtra = true ∨ undeclared fields input = []) ∧
      normal = .record name (declared ++ undeclared fields input) := by
  obtain ⟨input, declared, read, filled, allowed, rfl⟩ := normal?_record_eq_some_iff.mp h
  have nodup := distinct' input (entries?_of_recordInput? read)
  refine ⟨input, declared, read, nodup, filled, allowed, ?_⟩
  rw [Value.recordOf, Entries.merged_of_nodup]
  exact nodup_keys_append_undeclared distinct filled.keys_eq nodup

/-- Filling again what was filled once, from entries that hold it. -/
theorem Filled.exists_again {rules' : Rules} {entries : Entries Value}
    (rel : Value → Value → Prop) (astray : RecordField TypeExpr → Prop)
    (filled : Filled rules input fields declared)
    (holds : ∀ entry ∈ declared, entries.get? entry.1 = some entry.2)
    (step : ∀ field ∈ fields, ∀ v, fieldNormal? rules field input = some v →
      ∃ v', field.type.normal? rules' v = some v' ∧ (rel v' v ↔ ¬ astray field)) :
    ∃ again, Filled rules' entries fields again ∧
      (Entries.Aligned rel again declared ↔ ∀ field ∈ fields, ¬ astray field) := by
  obtain ⟨again, -, refilled, agrees⟩ := Entries.exists_forall₂_step (s := fun _ _ => True)
    (q := fun (e : String × Value) (f : String × Value) => e.1 = f.1 ∧ rel e.2 f.2)
    (t := fun (field : RecordField TypeExpr) (e : String × Value) =>
      e.1 = field.name ∧ fieldNormal? rules' field entries = some e.2)
    astray filled fun field member entry inside both => by
      obtain ⟨v', found, agree⟩ := step field member entry.2 both.2
      refine ⟨(field.name, v'), trivial, ⟨rfl, ?_⟩, by simp [agree, both.1]⟩
      rw [fieldNormal?, ← both.1, holds entry inside]
      exact found
  exact ⟨again, refilled, agrees⟩

/-- A record that was filled once is filled again from its own entries. -/
theorem normal?_record_of_filled {rules rules' : Rules} {name : String}
    {again : Entries Value} (distinct : (declaredNames fields).Nodup)
    (distinct' : input.keys.Nodup) (filled : Filled rules input fields declared)
    (refilled : Filled rules' (declared ++ undeclared fields input) fields again)
    (allowed : rules'.allowExtra = true ∨ undeclared fields input = []) :
    (TypeExpr.record name fields).normal? rules'
      (.record name (declared ++ undeclared fields input)) =
        some (.record name (again ++ undeclared fields input)) := by
  rw [normal?_record_eq_some_iff]
  refine ⟨_, again, ?_, refilled, ?_, ?_⟩
  · simp [recordInput?]
  · rwa [undeclared_append_self filled.keys_eq]
  · rw [undeclared_append_self filled.keys_eq, Value.recordOf, Entries.merged_of_nodup]
    exact nodup_keys_append_undeclared distinct refilled.keys_eq distinct'

/-! ## Unions -/

/-- What trying variants comes to, told from the variants. -/
theorem tryVariants_cases (rules : Rules) (variants : List TypeExpr) (value : Value)
    (path : Path) : match tryVariants rules variants value path with
      | .matched normal => ∃ variant ∈ variants, variant.normal? rules value = some normal
      | .broken _ => ∃ variant ∈ variants, (variant.check rules value path).fault? ≠ none
      | .refused => ∀ variant ∈ variants, variant.normal? rules value = none := by
  induction variants with
  | nil => simp [tryVariants]
  | cons variant rest ih =>
    simp only [tryVariants, normal?_check]
    cases fault : (variant.check rules value path).fault? with
    | some found => exact ⟨variant, List.mem_cons_self, by simp [fault]⟩
    | none =>
      cases here : variant.normal? rules value with
      | some normal => exact ⟨variant, List.mem_cons_self, here⟩
      | none =>
        dsimp only
        split at ih
        next =>
          obtain ⟨other, member, found⟩ := ih
          exact ⟨other, List.mem_cons_of_mem _ member, found⟩
        next =>
          obtain ⟨other, member, found⟩ := ih
          exact ⟨other, List.mem_cons_of_mem _ member, found⟩
        next => exact List.forall_mem_cons.mpr ⟨here, ih⟩

/-- The attempt of a union: in lax mode the variants are tried strictly first. -/
def attempt (rules : Rules) (variants : List TypeExpr) (value : Value) : Attempt :=
  match rules with
  | ⟨.strict, allowExtra⟩ => tryVariants (.strict allowExtra) variants value .empty
  | ⟨.lax, allowExtra⟩ => (tryVariants (.strict allowExtra) variants value .empty).orElse
      (tryVariants (.lax allowExtra) variants value .empty)

/-- A union makes what its attempt matches. -/
theorem normal?_union_eq_some_iff {variants : List TypeExpr} :
    (union variants).normal? rules value = some normal ↔
      attempt rules variants value = .matched normal := by
  cases variants with
  | nil => rcases rules with ⟨_ | _, _⟩ <;> simp [normal?, attempt, tryVariants, Attempt.orElse]
  | cons first rest =>
    rcases rules with ⟨_ | _, _⟩ <;> simp [normal?, attempt, Attempt.normal?_verdict_eq_some_iff]

theorem fault?_checkTuple {types : List TypeExpr} (sound : ∀ type ∈ types, ∀ value path,
    (type.check rules value path).fault? = none) (items : List Value) (path : Path) (i : Nat) :
    (checkTuple rules types items path i).fault? = none := by
  induction types generalizing items i with
  | nil => simp [checkTuple]
  | cons type rest ih =>
    cases items with
    | nil => simp [checkTuple]
    | cons item items =>
      have later := ih (fun t member => sound t (List.mem_cons_of_mem _ member)) items (i + 1)
      simp [checkTuple, later, sound type List.mem_cons_self]

theorem fault?_checkFields {fields : List (RecordField TypeExpr)} (sound : ∀ field ∈ fields,
    ∀ value path, (field.type.check rules value path).fault? = none) (input : Entries Value)
    (path : Path) : (checkFields rules fields input path).fault? = none := by
  induction fields with
  | nil => simp [checkFields]
  | cons field rest ih =>
    have later := ih fun f member => sound f (List.mem_cons_of_mem _ member)
    simp only [checkFields, Verdict.fault?_both, later, Option.none_or]
    cases input.get? field.name with
    | some value => exact sound field List.mem_cons_self _ _
    | none => cases field.default <;> simp

/-- Where no variant is at fault, the first one that fits decides. -/
theorem tryVariants_eq {variants : List TypeExpr} {path : Path} (sound : ∀ variant ∈ variants,
    (variant.check rules value path).fault? = none) : tryVariants rules variants value path =
      .ofNormal? (variants.findSome? fun variant => variant.normal? rules value) := by
  induction variants with
  | nil => simp [tryVariants, Attempt.ofNormal?]
  | cons variant rest ih =>
    have later := ih fun t member => sound t (List.mem_cons_of_mem _ member)
    simp only [tryVariants, sound variant List.mem_cons_self, normal?_check, List.findSome?_cons]
    cases variant.normal? rules value with
    | some normal => rfl
    | none => exact later

variable {whole type : TypeExpr}

/-- The part of a plain type is never at fault. -/
theorem fault?_check (plain : Plain whole) (inside : type.parts ⊆ whole.parts) (rules : Rules)
    (value : Value) (path : Path) : (type.check rules value path).fault? = none := by
  induction type using TypeExpr.induction generalizing rules value path with
  | any => simp
  | null => cases value <;> simp
  | bool | int | float | str =>
    simp only [TypeExpr.check, scalar]
    split
    · rfl
    · split <;> rfl
  | format f =>
    simp only [TypeExpr.check, formatted]
    split
    · split <;> rfl
    · rfl
  | list item ih =>
    cases value <;> simp
    case list items => exact fault?_ofItems (ih (parts_list_subset inside) rules) _ _ _
  | tuple types ih =>
    cases value <;> simp only [TypeExpr.check, Verdict.fault?_reject]
    case list items =>
      split
      · exact fault?_checkTuple
          (fun t member => ih t member (parts_tuple_subset inside member) rules) items path 0
      · rfl
  | map inner ih =>
    simp only [TypeExpr.check]
    split
    · exact fault?_ofEntries (ih (parts_map_subset inside) rules) _ _
    · rfl
  | optional inner ih =>
    cases value <;> simp only [TypeExpr.check]
    case null => rfl
    all_goals exact ih (parts_optional_subset inside) rules _ path
  | union variants ih =>
    have sound := fun rules variant member =>
      ih variant member (parts_union_subset inside member) rules value path
    have present := plain.variants_ne_nil inside
    simp only [TypeExpr.check, List.isEmpty_iff, present, if_false, tryVariants_eq (sound _)]
    cases rules.mode <;> simp
  | literal members =>
    have present := plain.members_ne_nil inside
    simp only [TypeExpr.check, oneOf, List.isEmpty_iff, present, if_false]
    split <;> rfl
  | record name fields ih =>
    simp only [TypeExpr.check]
    split
    next input _ =>
      have sound := fun f member => ih f member (parts_record_subset inside member) rules
      simp [fault?_checkFields sound, extras, apply_ite Verdict.fault?]
    · rfl
  | foreign foreignType => exact absurd (mem_of_parts_subset inside) (plain.foreign foreignType)

/-- In strict mode the first variant that fits decides. -/
theorem normal?_union_strict {variants : List TypeExpr} (plain : Plain whole)
    (inside : (union variants).parts ⊆ whole.parts) (allowExtra : Bool) (value : Value) :
    (union variants).normal? (.strict allowExtra) value =
      variants.findSome? fun variant => variant.normal? (.strict allowExtra) value := by
  have sound := fun (variant : TypeExpr) (member : variant ∈ variants) =>
    fault?_check plain (parts_union_subset inside member) (.strict allowExtra) value .empty
  have present := plain.variants_ne_nil inside
  rw [← normal?_check _ value .empty]
  simp only [TypeExpr.check, List.isEmpty_iff, present, if_false, tryVariants_eq sound,
    Attempt.normal?_verdict_ofNormal?]

/-- In lax mode a variant that fits strictly takes precedence over one that converts. -/
theorem normal?_union_lax {variants : List TypeExpr} (plain : Plain whole)
    (inside : (union variants).parts ⊆ whole.parts) (allowExtra : Bool) (value : Value) :
    (union variants).normal? (.lax allowExtra) value =
      (variants.findSome? fun variant => variant.normal? (.strict allowExtra) value).or
        (variants.findSome? fun variant => variant.normal? (.lax allowExtra) value) := by
  have sound := fun (rules : Rules) (variant : TypeExpr) (member : variant ∈ variants) =>
    fault?_check plain (parts_union_subset inside member) rules value .empty
  have present := plain.variants_ne_nil inside
  rw [← normal?_check _ value .empty]
  simp only [TypeExpr.check, List.isEmpty_iff, present, if_false, tryVariants_eq (sound _),
    Attempt.orElse_ofNormal?, Attempt.normal?_verdict_ofNormal?]

end TypeExpr

end CallGuard
