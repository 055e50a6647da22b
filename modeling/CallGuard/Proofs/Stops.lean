import CallGuard.Proofs.Conformance

/-!
# Positions that a walk stops at

Below a position a check stops at the members of the value, at the declared fields that are
missing and at the names that are not declared, in a fixed order.  A check that neither refuses
the value itself nor decides by variants gathers the verdicts of these stops: their issues in
order, and a fault if one of them has one.
-/

namespace CallGuard

open Conformance

/-- The position at the end of some steps from another. -/
def Path.extend (path : Path) (steps : List PathSegment) : Path := ⟨path.segments ++ steps⟩

namespace Path

theorem extend_extend (path : Path) (steps others : List PathSegment) :
    (path.extend steps).extend others = path.extend (steps ++ others) := by
  simp [extend]

theorem extend_injective (path : Path) : Function.Injective path.extend := by
  intro steps others same
  simpa [extend] using same

end Path

namespace Verdict

variable {α β γ : Type}

@[simp] theorem issues_pass (a : α) : (pass a).issues = [] := rfl
@[simp] theorem issues_reject (path : Path) (reason : IssueReason) :
    (reject path reason : Verdict α).issues = [⟨path, reason⟩] := rfl
@[simp] theorem issues_both (f : α → β → γ) (first : Verdict α) (second : Verdict β) :
    (both f first second).issues = first.issues ++ second.issues := rfl

/-- A verdict has the issues of others in their order, and a fault exactly if one of them has. -/
structure Gathers (verdict : Verdict α) (parts : List (Verdict β)) : Prop where
  issues : verdict.issues = parts.flatMap Verdict.issues
  fault? : verdict.fault? = none ↔ ∀ part ∈ parts, part.fault? = none

namespace Gathers

theorem pass (a : α) : (Verdict.pass a).Gathers ([] : List (Verdict β)) := ⟨rfl, by simp⟩

theorem self (verdict : Verdict α) : verdict.Gathers [verdict] := ⟨by simp, by simp⟩

theorem map {verdict : Verdict α} {parts : List (Verdict γ)} (gathers : verdict.Gathers parts)
    (f : α → β) : (verdict.map f).Gathers parts := ⟨gathers.issues, gathers.fault?⟩

theorem both {δ : Type} {first : Verdict α} {second : Verdict β} {parts parts' : List (Verdict δ)}
    (gathers : first.Gathers parts) (gathers' : second.Gathers parts') (f : α → β → γ) :
    (Verdict.both f first second).Gathers (parts ++ parts') where
  issues := by simp [gathers.issues, gathers'.issues]
  fault? := by
    rw [fault?_both, Option.or_eq_none_iff, gathers.fault?, gathers'.fault?, and_comm,
      List.forall_mem_append]

theorem ofItems (check : Value → Path → Verdict α) (path : Path) (i : Nat) (items : List Value) :
    (Verdict.ofItems check path i items).Gathers
      ((items.zipIdx i).map fun item => check item.1 (path.index item.2)) := by
  induction items generalizing i with
  | nil => exact pass []
  | cons item rest ih => exact (self _).both (ih (i + 1)) List.cons

theorem ofEntries (check : Value → Path → Verdict α) (path : Path) (entries : Entries Value) :
    (Verdict.ofEntries check path entries).Gathers
      (entries.map fun entry => check entry.2 (path.key entry.1)) := by
  induction entries with
  | nil => exact pass []
  | cons entry rest ih => exact (self _).both ih _

end Gathers

end Verdict

/-- What a walk stops at directly below a position. -/
inductive Stop where
  /-- A member of the value. -/
  | inner (step : PathSegment) (type : TypeExpr) (value : Value)
  /-- A required field that is missing. -/
  | missing (name : String)
  /-- A name that is not declared. -/
  | undeclared (name : String)

namespace Stop

/-- The step to a stop. -/
def step : Stop → PathSegment
  | inner step _ _ => step
  | missing name | undeclared name => .key name

/-- The verdict at a stop below a position. -/
def verdict (rules : Rules) (path : Path) : Stop → Verdict Value
  | inner step type value => type.check rules value (path.extend [step])
  | missing name => .reject (path.extend [.key name]) .missing
  | undeclared name => .reject (path.extend [.key name]) .undeclared

end Stop

namespace TypeExpr

open Verdict

/-- The stop at a declared field; there is none where a default is filled in. -/
def fieldStop? (input : Entries Value) (field : RecordField TypeExpr) : Option Stop :=
  match input.get? field.name, field.default with
  | some value, _ => some (.inner (.key field.name) field.type value)
  | none, none => some (.missing field.name)
  | none, some _ => none

/-- The stops directly below a position in the order of the walk: the items of a list, the entries
    of a mapping, the fields of a record as declared and then the undeclared names that are not
    allowed.  A value that its type can not read has none, and neither have unions and foreign
    types. -/
def stops (rules : Rules) (type : TypeExpr) (value : Value) : List Stop :=
  match type with
  | .list item =>
    match value with
    | .list items => items.zipIdx.map fun (v, i) => .inner (.index i) item v
    | _ => []
  | .tuple types =>
    match value with
    | .list items =>
      if items.length = types.length then
        (types.zip items).zipIdx.map fun (pair, i) => .inner (.index i) pair.1 pair.2
      else []
    | _ => []
  | .map item =>
    match mappingInput? rules.mode value with
    | some entries => entries.map fun (name, v) => .inner (.key name) item v
    | none => []
  | .record name fields =>
    match recordInput? rules.mode name value with
    | some input => fields.filterMap (fieldStop? input) ++
        if rules.allowExtra then [] else (undeclared fields input).map fun entry =>
          .undeclared entry.1
    | none => []
  | _ => []

variable {rules : Rules} {path : Path}

theorem gathers_checkTuple {types : List TypeExpr} {items : List Value} {i : Nat} :
    (checkTuple rules types items path i).Gathers
      (((types.zip items).zipIdx i).map fun (pair, j) =>
        pair.1.check rules pair.2 (path.index j)) := by
  induction types generalizing items i with
  | nil =>
    simp only [checkTuple]
    exact .pass []
  | cons type rest ih =>
    cases items with
    | nil =>
      simp only [checkTuple]
      exact .pass []
    | cons item items =>
      simp only [checkTuple]
      exact (Gathers.self _).both ih List.cons

theorem gathers_checkFields {fields : List (RecordField TypeExpr)} {input : Entries Value} :
    (checkFields rules fields input path).Gathers
      ((fields.filterMap (fieldStop? input)).map (Stop.verdict rules path)) := by
  induction fields with
  | nil =>
    simp only [checkFields]
    exact .pass []
  | cons field rest ih =>
    simp only [checkFields, List.filterMap_eq_flatMap_toList, List.flatMap_cons,
      List.map_append] at ih ⊢
    refine Gathers.both ?_ ih _
    unfold fieldStop?
    cases input.get? field.name with
    | some value => exact .self _
    | none =>
      cases field.default with
      | some default => exact .pass default
      | none => exact .self _

theorem gathers_extras {allowed : Bool} {entries : Entries Value} :
    (extras allowed path entries).Gathers
      ((if allowed then [] else entries.map fun entry => Stop.undeclared entry.1).map
        (Stop.verdict rules path)) := by
  unfold extras
  cases allowed with
  | true => exact .pass entries
  | false =>
    cases entries with
    | nil => exact .pass []
    | cons entry rest =>
      simp only [Bool.false_eq_true, List.isEmpty_cons, Bool.or_self, if_false]
      constructor
      · rw [List.flatMap_map, List.flatMap_map, List.map_eq_flatMap]
        rfl
      · simp only [List.forall_mem_map]
        exact iff_of_true trivial fun _ _ => rfl

/-! ## Stops told from type and value -/

/-- A walk goes from a position with a type and a value one step down to others: into the items of
    a list, against one type or against as many types, into the entries of what is read as a
    mapping, and into the declared fields that are present in what is read as a record. -/
inductive Enters (rules : Rules) : TypeExpr → Value → PathSegment → TypeExpr → Value → Prop
  | item {item : TypeExpr} {items : List Value} {i : Nat} {v : Value}
      (found : items[i]? = some v) : Enters rules (.list item) (.list items) (.index i) item v
  | position {types : List TypeExpr} {items : List Value} {i : Nat} {t : TypeExpr} {v : Value}
      (length : items.length = types.length) (typed : types[i]? = some t)
      (found : items[i]? = some v) : Enters rules (.tuple types) (.list items) (.index i) t v
  | entry {item : TypeExpr} {value v : Value} {entries : Entries Value} {name : String}
      (read : mappingInput? rules.mode value = some entries) (member : (name, v) ∈ entries) :
      Enters rules (.map item) value (.key name) item v
  | field {name : String} {fields : List (RecordField TypeExpr)} {field : RecordField TypeExpr}
      {value v : Value} {input : Entries Value}
      (read : recordInput? rules.mode name value = some input) (member : field ∈ fields)
      (found : input.get? field.name = some v) :
      Enters rules (.record name fields) value (.key field.name) field.type v

/-- What is read as a record lacks a declared field that has no default. -/
inductive Lacks (rules : Rules) : TypeExpr → Value → String → Prop
  | field {name : String} {fields : List (RecordField TypeExpr)} {field : RecordField TypeExpr}
      {value : Value} {input : Entries Value}
      (read : recordInput? rules.mode name value = some input) (member : field ∈ fields)
      (absent : field.name ∉ input.keys) (required : field.default = none) :
      Lacks rules (.record name fields) value field.name

/-- What is read as a record holds a name that is neither declared nor allowed. -/
inductive Forbids (rules : Rules) : TypeExpr → Value → String → Prop
  | name {name key : String} {fields : List (RecordField TypeExpr)} {value : Value}
      {input : Entries Value} (read : recordInput? rules.mode name value = some input)
      (closed : rules.allowExtra = false) (present : key ∈ input.keys)
      (unknown : key ∉ declaredNames fields) : Forbids rules (.record name fields) value key

variable {type t : TypeExpr} {value v : Value} {step : PathSegment} {key : String}

theorem mem_stops_record_iff {name : String} {fields : List (RecordField TypeExpr)} {stop : Stop} :
    stop ∈ stops rules (.record name fields) value ↔
      ∃ input, recordInput? rules.mode name value = some input ∧
        ((∃ field ∈ fields, fieldStop? input field = some stop) ∨
          rules.allowExtra = false ∧ ∃ entry ∈ undeclared fields input,
            .undeclared entry.1 = stop) := by
  simp only [stops]
  cases recordInput? rules.mode name value with
  | none => simp
  | some input => cases rules.allowExtra <;> simp

/-- The members of a value among the stops are those that the walk enters. -/
theorem inner_mem_stops_iff :
    .inner step t v ∈ stops rules type value ↔ Enters rules type value step t v := by
  constructor
  · intro listed
    cases type with
    | list item =>
      cases value <;> simp only [stops, List.not_mem_nil] at listed
      obtain ⟨⟨v, i⟩, inside, same⟩ := List.mem_map.mp listed
      cases same
      exact .item (List.mem_zipIdx_iff_getElem?.mp inside)
    | tuple types =>
      cases value <;> simp only [stops, List.not_mem_nil] at listed
      split at listed
      next length =>
        obtain ⟨⟨⟨t, v⟩, i⟩, inside, same⟩ := List.mem_map.mp listed
        cases same
        have found := List.mem_zipIdx_iff_getElem?.mp inside
        rw [List.getElem?_zip_eq_some] at found
        exact .position length found.1 found.2
      next => cases listed
    | map item =>
      simp only [stops] at listed
      split at listed
      next entries read =>
        obtain ⟨⟨name, v⟩, inside, same⟩ := List.mem_map.mp listed
        cases same
        exact .entry read inside
      next => cases listed
    | record name fields =>
      obtain ⟨input, read, ⟨field, member, here⟩ | ⟨-, _, -, same⟩⟩ :=
        mem_stops_record_iff.mp listed
      · unfold fieldStop? at here
        split at here <;> cases here
        next found => exact .field read member found
      · cases same
    | _ => cases listed
  · intro enters
    cases enters with
    | item found =>
      exact List.mem_map.mpr ⟨(v, _), List.mem_zipIdx_iff_getElem?.mpr found, rfl⟩
    | position length typed found =>
      simp only [stops, length, if_true]
      refine List.mem_map.mpr ⟨((t, v), _), List.mem_zipIdx_iff_getElem?.mpr ?_, rfl⟩
      exact List.getElem?_zip_eq_some.mpr ⟨typed, found⟩
    | entry read member =>
      simp only [stops, read]
      exact List.mem_map.mpr ⟨_, member, rfl⟩
    | field read member found =>
      refine mem_stops_record_iff.mpr ⟨_, read, .inl ⟨_, member, ?_⟩⟩
      simp [fieldStop?, found]

/-- Only records have stops other than members of their values. -/
theorem exists_record_of_mem_stops {stop : Stop} (listed : stop ∈ stops rules type value)
    (notInner : ∀ step t v, stop ≠ .inner step t v) :
    ∃ name fields, type = .record name fields := by
  cases type with
  | list item =>
    cases value <;> simp only [stops, List.not_mem_nil] at listed
    obtain ⟨_, -, same⟩ := List.mem_map.mp listed
    exact absurd same.symm (notInner _ _ _)
  | tuple types =>
    cases value <;> simp only [stops, List.not_mem_nil] at listed
    split at listed
    · obtain ⟨_, -, same⟩ := List.mem_map.mp listed
      exact absurd same.symm (notInner _ _ _)
    · cases listed
  | map item =>
    simp only [stops] at listed
    split at listed
    · obtain ⟨_, -, same⟩ := List.mem_map.mp listed
      exact absurd same.symm (notInner _ _ _)
    · cases listed
  | record name fields => exact ⟨name, fields, rfl⟩
  | _ => cases listed

theorem missing_mem_stops_iff : .missing key ∈ stops rules type value ↔
    Lacks rules type value key := by
  constructor
  · intro listed
    obtain ⟨name, fields, rfl⟩ := exists_record_of_mem_stops listed (by simp)
    obtain ⟨input, read, ⟨field, member, here⟩ | ⟨-, _, -, same⟩⟩ :=
      mem_stops_record_iff.mp listed
    · unfold fieldStop? at here
      split at here <;> cases here
      next absent required => exact .field read member (Entries.get?_eq_none_iff.mp absent) required
    · cases same
  · intro lacks
    cases lacks with
    | field read member absent required =>
      refine mem_stops_record_iff.mpr ⟨_, read, .inl ⟨_, member, ?_⟩⟩
      simp [fieldStop?, Entries.get?_eq_none_iff.mpr absent, required]

theorem undeclared_mem_stops_iff : .undeclared key ∈ stops rules type value ↔
    Forbids rules type value key := by
  constructor
  · intro listed
    obtain ⟨name, fields, rfl⟩ := exists_record_of_mem_stops listed (by simp)
    obtain ⟨input, read, ⟨field, member, here⟩ | ⟨closed, entry, member, same⟩⟩ :=
      mem_stops_record_iff.mp listed
    · unfold fieldStop? at here
      split at here <;> cases here
    · cases same
      obtain ⟨present, unknown⟩ := mem_undeclared_iff.mp member
      exact .name read closed (Entries.mem_keys_of_mem present) unknown
  · intro forbids
    cases forbids with
    | name read closed present unknown =>
      obtain ⟨entry, member, rfl⟩ := List.mem_map.mp present
      refine mem_stops_record_iff.mpr ⟨_, read, .inr ⟨closed, entry, ?_, rfl⟩⟩
      exact mem_undeclared_iff.mpr ⟨member, unknown⟩

/-- Induction along a walk: a motive that holds of every type that a walk enters, of the inner type
    of an optional and of the variants of a union holds of the type. -/
@[elab_as_elim]
theorem walk_induction {motive : TypeExpr → Prop}
    (optional : ∀ inner, motive inner → motive (.optional inner))
    (union : ∀ variants, (∀ variant ∈ variants, motive variant) → motive (.union variants))
    (other : ∀ type : TypeExpr, (∀ inner, type ≠ .optional inner) →
      (∀ variants, type ≠ .union variants) →
      (∀ rules value step t v, Enters rules type value step t v → motive t) → motive type)
    (type : TypeExpr) : motive type := by
  induction type using TypeExpr.induction with
  | optional inner ih => exact optional inner ih
  | union variants ih => exact union variants ih
  | list item ih =>
    refine other _ (by simp) (by simp) fun rules value step t v enters => ?_
    cases enters
    exact ih
  | tuple types ih =>
    refine other _ (by simp) (by simp) fun rules value step t v enters => ?_
    cases enters with
    | position length typed found => exact ih t (List.mem_of_getElem? typed)
  | map item ih =>
    refine other _ (by simp) (by simp) fun rules value step t v enters => ?_
    cases enters
    exact ih
  | record name fields ih =>
    refine other _ (by simp) (by simp) fun rules value step t v enters => ?_
    cases enters with
    | field read member found => exact ih _ member
  | _ => exact other _ (by simp) (by simp) fun rules value step t v enters => by cases enters

/-! ## The check at one position -/

/-- Why the check of a type refuses a value at its own position. -/
inductive Refuses (rules : Rules) : TypeExpr → Value → IssueReason → Prop
  | null {value : Value} (other : value.isNull = false) :
      Refuses rules .null value (.wrongKind .null value)
  | bool {value : Value} (other : value.asBool? = none)
      (fixed : rules.mode = .lax → Coercion.toBool? value = none) :
      Refuses rules .bool value (.wrongKind .bool value)
  | int {value : Value} (other : value.asInt? = none)
      (fixed : rules.mode = .lax → Coercion.toInt? value = none) :
      Refuses rules .int value (.wrongKind .int value)
  | float {value : Value} (other : value.asFloat? = none)
      (fixed : rules.mode = .lax → Coercion.toFloat? value = none) :
      Refuses rules .float value (.wrongKind .float value)
  | str {value : Value} (other : value.asStr? = none)
      (fixed : rules.mode = .lax → Coercion.toStr? value = none) :
      Refuses rules .str value (.wrongKind .str value)
  | notText {format : StringFormat} {value : Value} (other : value.asStr? = none) :
      Refuses rules (.format format) value (.wrongKind (.format format) value)
  | format {format : StringFormat} {s : String} (other : format.accepts s = false) :
      Refuses rules (.format format) (.str s) (.wrongFormat format)
  | list {item : TypeExpr} {value : Value} (other : value.asList? = none) :
      Refuses rules (.list item) value (.wrongKind (.list item) value)
  | tuple {types : List TypeExpr} {value : Value} (other : value.asList? = none) :
      Refuses rules (.tuple types) value (.wrongKind (.tuple types) value)
  | length {types : List TypeExpr} {items : List Value} (other : items.length ≠ types.length) :
      Refuses rules (.tuple types) (.list items) (.wrongLength types.length items.length)
  | map {item : TypeExpr} {value : Value} (unread : mappingInput? rules.mode value = none) :
      Refuses rules (.map item) value (.wrongKind (.map item) value)
  | union {variants : List TypeExpr} {value : Value}
      (unmatched : ∀ variant ∈ variants, variant.normal? rules value = none) :
      Refuses rules (.union variants) value (.noVariant (.union variants))
  | literal {members : List Value} {value : Value}
      (unlisted : ∀ member ∈ members, ¬ member.Equal value) :
      Refuses rules (.literal members) value (.noMember (.literal members) value)
  | record {name : String} {fields : List (RecordField TypeExpr)} {value : Value}
      (unread : recordInput? rules.mode name value = none) :
      Refuses rules (.record name fields) value (.wrongRecord name value)
  | foreign {type : ForeignType} {value : Value} {message : String}
      (failed : type.check value.toJson = .error message) :
      Refuses rules (.foreign type) value (.custom message)

/-- A check refuses the value at its position and stops nowhere below, or it does not refuse it and
    gathers the verdicts of its stops. -/
def Settles (rules : Rules) (type : TypeExpr) (value : Value) (path : Path) : Prop :=
  (∃ reason, Refuses rules type value reason ∧ type.check rules value path = .reject path reason ∧
    stops rules type value = []) ∨
  ((∀ reason, ¬ Refuses rules type value reason) ∧
    (type.check rules value path).Gathers ((stops rules type value).map (Stop.verdict rules path)))

attribute [local simp] TypeExpr.check

theorem settles_of_pass (normal : Value) (passes : ∀ reason, ¬ Refuses rules type value reason)
    (passed : type.check rules value path = .pass normal) (leaf : stops rules type value = []) :
    Settles rules type value path := by
  refine .inr ⟨passes, ?_⟩
  rw [passed, leaf]
  exact .pass normal

theorem settles_null : Settles rules .null value path := by
  cases value
  case null =>
    refine settles_of_pass .null (fun _ refuses => ?_) (by simp) rfl
    cases refuses with
    | null other => cases other
  all_goals exact .inl ⟨_, .null rfl, by simp, rfl⟩

theorem settles_of_scalar {own : Bool} {converted? : Option Value}
    (checked : type.check rules value path = scalar rules.mode type value path own converted?)
    (refuses : ∀ reason, Refuses rules type value reason ↔ reason = .wrongKind type value ∧
      own = false ∧ (rules.mode = .lax → converted? = none))
    (leaf : stops rules type value = []) : Settles rules type value path := by
  unfold scalar at checked
  cases own with
  | true => exact settles_of_pass value (fun reason => by simp [refuses]) checked leaf
  | false =>
    cases mode : rules.mode with
    | strict =>
      refine .inl ⟨_, (refuses _).mpr ⟨rfl, rfl, by simp [mode]⟩, ?_, leaf⟩
      simpa [mode] using checked
    | lax =>
      cases converted? with
      | some converted =>
        refine settles_of_pass converted (fun reason => by simp [refuses, mode]) ?_ leaf
        simpa [mode] using checked
      | none =>
        refine .inl ⟨_, (refuses _).mpr ⟨rfl, rfl, fun _ => rfl⟩, ?_, leaf⟩
        simpa [mode] using checked

theorem settles_scalar (scalar : type = .bool ∨ type = .int ∨ type = .float ∨ type = .str) :
    Settles rules type value path := by
  rcases scalar with rfl | rfl | rfl | rfl
  all_goals
    refine settles_of_scalar (by rw [TypeExpr.check]) (fun reason => ?_) rfl
    simp only [Option.isSome_eq_false_iff, Option.isNone_iff_eq_none, Option.map_eq_none_iff]
    constructor
    · intro refuses
      cases refuses
      exact ⟨rfl, by assumption, by assumption⟩
    · intro refuses
      obtain ⟨rfl, other, fixed⟩ := refuses
      constructor <;> assumption

theorem settles_format (format : StringFormat) : Settles rules (.format format) value path := by
  cases value
  case str s =>
    cases written : format.accepts s with
    | true =>
      refine settles_of_pass (.str s) (fun _ refuses => ?_) ?_ rfl
      · cases refuses with
        | notText other => cases other
        | format other => simp [written] at other
      · simp [formatted, written]
    | false => exact .inl ⟨_, .format written, by simp [formatted, written], rfl⟩
  all_goals exact .inl ⟨_, .notText rfl, by simp [formatted], rfl⟩

theorem settles_literal {members : List Value} (present : members ≠ []) :
    Settles rules (.literal members) value path := by
  by_cases listed : members.any (fun member => member == value) = true
  · refine settles_of_pass value (fun _ refuses => ?_) ?_ rfl
    · cases refuses with
      | literal unlisted =>
        obtain ⟨member, inside, equal⟩ := List.any_eq_true.mp listed
        exact unlisted member inside equal
    · simp [oneOf, present, listed]
  · have unlisted : ∀ member ∈ members, ¬ member.Equal value := by
      simpa using listed
    refine .inl ⟨_, .literal unlisted, ?_, rfl⟩
    simp [oneOf, present, listed]

theorem settles_list {item : TypeExpr} : Settles rules (.list item) value path := by
  cases value
  case list items =>
    refine .inr ⟨fun _ refuses => ?_, ?_⟩
    · cases refuses with
      | list other => cases other
    · simp only [TypeExpr.check, stops, List.map_map]
      exact (Gathers.ofItems (fun v p => item.check rules v p) path 0 items).map _
  all_goals exact .inl ⟨_, .list rfl, by simp, rfl⟩

theorem settles_tuple {types : List TypeExpr} : Settles rules (.tuple types) value path := by
  cases value
  case list items =>
    by_cases length : items.length = types.length
    · refine .inr ⟨fun _ refuses => ?_, ?_⟩
      · cases refuses with
        | tuple other => cases other
        | length other => exact other length
      · simp only [TypeExpr.check, stops, length, if_true, List.map_map]
        exact gathers_checkTuple.map _
    · exact .inl ⟨_, .length length, by simp [length], by simp [stops, length]⟩
  all_goals exact .inl ⟨_, .tuple rfl, by simp, rfl⟩

theorem settles_map {item : TypeExpr} : Settles rules (.map item) value path := by
  cases read : mappingInput? rules.mode value with
  | some entries =>
    refine .inr ⟨fun _ refuses => ?_, ?_⟩
    · cases refuses with
      | map unread => simp [read] at unread
    · simp only [TypeExpr.check, stops, read, List.map_map]
      exact (Gathers.ofEntries (fun v p => item.check rules v p) path entries).map _
  | none => exact .inl ⟨_, .map read, by simp [read], by simp [stops, read]⟩

theorem settles_record {name : String} {fields : List (RecordField TypeExpr)} :
    Settles rules (.record name fields) value path := by
  cases read : recordInput? rules.mode name value with
  | some input =>
    refine .inr ⟨fun _ refuses => ?_, ?_⟩
    · cases refuses with
      | record unread => simp [read] at unread
    · simp only [TypeExpr.check, stops, read, List.map_append]
      exact gathers_checkFields.both gathers_extras _
  | none => exact .inl ⟨_, .record read, by simp [read], by simp [stops, read]⟩

theorem settles_foreign (type : ForeignType) : Settles rules (.foreign type) value path := by
  cases checked : type.check value.toJson with
  | ok document =>
    obtain ⟨normal, passed⟩ : ∃ normal, (TypeExpr.foreign type).check rules value path =
        .pass normal := by
      simp only [TypeExpr.check, Conformance.foreign, checked]
      split
      · exact ⟨_, rfl⟩
      · exact ⟨_, rfl⟩
    refine settles_of_pass normal (fun _ refuses => ?_) passed rfl
    cases refuses with
    | foreign failed => simp [checked] at failed
  | error message =>
    exact .inl ⟨_, .foreign checked, by simp [Conformance.foreign, checked], rfl⟩

/-- A type that is neither optional, a union nor a literal without members settles its check. -/
theorem settles_check (notOptional : ∀ inner, type ≠ .optional inner)
    (notUnion : ∀ variants, type ≠ .union variants) (present : type ≠ .literal []) :
    Settles rules type value path := by
  cases type with
  | any =>
    refine settles_of_pass value (fun _ refuses => ?_) (by simp) rfl
    cases refuses
  | null => exact settles_null
  | bool | int | float | str => exact settles_scalar (by simp)
  | format f => exact settles_format f
  | list item => exact settles_list
  | tuple types => exact settles_tuple
  | map item => exact settles_map
  | optional inner => exact absurd rfl (notOptional inner)
  | union variants => exact absurd rfl (notUnion variants)
  | literal members => exact settles_literal fun empty => present (by rw [empty])
  | record name fields => exact settles_record
  | foreign type => exact settles_foreign type

end TypeExpr

end CallGuard
