import CallGuard.Proofs.Renormalization

/-!
# What a check makes and accepts

A check fills missing fields with their defaults as they stand, so what it makes of a value need
not be something that it accepts.  A normal form is accepted by the check that made it exactly if
nothing in the value is disowned: no default, no foreign document and no variant of a union that
the check refuses once it stands in the normal form.
-/

namespace CallGuard

open Conformance

namespace TypeExpr

/-- Somewhere in a value a check makes something that it refuses itself. -/
inductive Disowns (rules : Rules) : TypeExpr → Value → Prop
  /-- A field that was left out is filled with a default that its type refuses. -/
  | leftOut {name : String} {fields : List (RecordField TypeExpr)} {value default : Value}
      {input : Entries Value} {field : RecordField TypeExpr}
      (read : recordInput? rules.mode name value = some input) (member : field ∈ fields)
      (missing : input.get? field.name = none) (given : field.default = some default)
      (refused : field.type.normal? rules default = none) :
      Disowns rules (.record name fields) value
  | field {name : String} {fields : List (RecordField TypeExpr)} {value v : Value}
      {input : Entries Value} {field : RecordField TypeExpr}
      (read : recordInput? rules.mode name value = some input) (member : field ∈ fields)
      (found : input.get? field.name = some v) (inner : Disowns rules field.type v) :
      Disowns rules (.record name fields) value
  | item {type : TypeExpr} {items : List Value} {v : Value} (member : v ∈ items)
      (inner : Disowns rules type v) : Disowns rules (.list type) (.list items)
  | position {types : List TypeExpr} {items : List Value} {pair : TypeExpr × Value}
      (member : pair ∈ types.zip items) (inner : Disowns rules pair.1 pair.2) :
      Disowns rules (.tuple types) (.list items)
  | entry {type : TypeExpr} {value : Value} {entries : Entries Value} {entry : String × Value}
      (read : mappingInput? rules.mode value = some entries) (member : entry ∈ entries)
      (inner : Disowns rules type entry.2) : Disowns rules (.map type) value
  | present {type : TypeExpr} {value normal : Value} (present : value.isNull = false)
      (made : type.normal? rules value = some normal) (kept : normal.isNull = false)
      (inner : Disowns rules type value) : Disowns rules (.optional type) value
  /-- The variant that was taken disowns what it made, and so do the others. -/
  | variant {variants : List TypeExpr} {variant : TypeExpr} {value normal : Value}
      (taken : (union variants).normal? rules value = some normal) (member : variant ∈ variants)
      (made : variant.normal? rules value = some normal) (inner : Disowns rules variant value)
      (refused : (union variants).normal? rules normal = none) :
      Disowns rules (.union variants) value
  /-- A fault of a variant comes to light in what was made. -/
  | fault {variants : List TypeExpr} {variant : TypeExpr} {value normal : Value} {mode : Mode}
      (taken : (union variants).normal? rules value = some normal) (member : variant ∈ variants)
      (pass : mode = .strict ∨ mode = rules.mode)
      (met : (variant.check ⟨mode, rules.allowExtra⟩ normal .empty).fault? ≠ none)
      (refused : (union variants).normal? rules normal = none) :
      Disowns rules (.union variants) value
  /-- A foreign type refuses what it wrote. -/
  | foreign {type : ForeignType} {value normal : Value}
      (made : (TypeExpr.foreign type).normal? rules value = some normal)
      (refused : (TypeExpr.foreign type).normal? rules normal = none) :
      Disowns rules (.foreign type) value

variable {rules : Rules} {whole type : TypeExpr} {value normal : Value}

theorem disowns_list_iff {item : TypeExpr} {items : List Value} :
    Disowns rules (.list item) (.list items) ↔ ∃ v ∈ items, Disowns rules item v := by
  constructor
  · intro disowns
    cases disowns with
    | item member inner => exact ⟨_, member, inner⟩
  · intro inner
    rcases inner with ⟨v, member, inner⟩
    exact .item member inner

theorem disowns_tuple_iff {types : List TypeExpr} {items : List Value} :
    Disowns rules (.tuple types) (.list items) ↔
      ∃ pair ∈ types.zip items, Disowns rules pair.1 pair.2 := by
  constructor
  · intro disowns
    cases disowns with
    | position member inner => exact ⟨_, member, inner⟩
  · intro inner
    rcases inner with ⟨pair, member, inner⟩
    exact .position member inner

theorem disowns_map_iff {item : TypeExpr} {entries : Entries Value}
    (read : mappingInput? rules.mode value = some entries) :
    Disowns rules (.map item) value ↔ ∃ entry ∈ entries, Disowns rules item entry.2 := by
  constructor
  · intro disowns
    cases disowns with
    | entry read' member inner =>
      cases read.symm.trans read'
      exact ⟨_, member, inner⟩
  · intro inner
    rcases inner with ⟨entry, member, inner⟩
    exact .entry read member inner

theorem disowns_optional_iff {inner : TypeExpr} (present : value.isNull = false)
    (made : inner.normal? rules value = some normal) :
    Disowns rules (.optional inner) value ↔ normal.isNull = false ∧ Disowns rules inner value := by
  constructor
  · intro disowns
    cases disowns with
    | present _ made' kept disowns =>
      cases made.symm.trans made'
      exact ⟨kept, disowns⟩
  · intro both
    exact .present present made both.1 both.2

/-- A field of a record, supplied or left out, is disowned. -/
def DisownsField (rules : Rules) (input : Entries Value) (field : RecordField TypeExpr) : Prop :=
  match input.get? field.name with
  | some v => Disowns rules field.type v
  | none => ∃ default, field.default = some default ∧ field.type.normal? rules default = none

theorem disowns_record_iff {name : String} {fields : List (RecordField TypeExpr)}
    {input : Entries Value} (read : recordInput? rules.mode name value = some input) :
    Disowns rules (.record name fields) value ↔
      ∃ field ∈ fields, DisownsField rules input field := by
  simp only [DisownsField]
  constructor
  · intro disowns
    cases disowns with
    | @leftOut _ _ _ default _ field read' member missing given refused =>
      cases read.symm.trans read'
      exact ⟨field, member, by rw [missing]; exact ⟨default, given, refused⟩⟩
    | @field _ _ _ v _ field read' member found inner =>
      cases read.symm.trans read'
      exact ⟨field, member, by rw [found]; exact inner⟩
  · intro disowned
    rcases disowned with ⟨field, member, disowned⟩
    cases found : input.get? field.name with
    | some v =>
      rw [found] at disowned
      exact .field read member found disowned
    | none =>
      rw [found] at disowned
      obtain ⟨default, given, refused⟩ := disowned
      exact .leftOut read member found given refused

/-! ## One case for each kind of type -/

/-- What a check makes of a value it accepts again unless the value is disowned. -/
def Recognizes (rules : Rules) (type : TypeExpr) (value : Value) : Prop :=
  ∀ normal, type.normal? rules value = some normal →
    ((type.normal? rules normal).isSome ↔ ¬ Disowns rules type value)

theorem recognizes_any : Recognizes rules .any value := by
  intro normal h
  refine iff_of_true (by simp [normal?_any]) fun disowns => ?_
  cases disowns

theorem recognizes_null : Recognizes rules .null value := by
  intro normal h
  rw [normal?_null] at h
  split at h <;> cases h
  refine iff_of_true (by simp [normal?_null, Value.isNull]) fun disowns => ?_
  cases disowns

theorem recognizes_scalar (scalar : type = .bool ∨ type = .int ∨ type = .float ∨ type = .str) :
    Recognizes rules type value := by
  intro normal h
  refine iff_of_true (by simp [(normal?_atom scalar h).1]) fun disowns => ?_
  rcases scalar with rfl | rfl | rfl | rfl <;> cases disowns

theorem recognizes_format (format : StringFormat) : Recognizes rules (.format format) value := by
  intro normal h
  obtain ⟨rfl, -⟩ := normal?_format_eq_some_iff.mp h
  refine iff_of_true (by simp [h]) fun disowns => ?_
  cases disowns

theorem recognizes_literal (members : List Value) :
    Recognizes rules (.literal members) value := by
  intro normal h
  obtain ⟨rfl, -⟩ := normal?_literal_eq_some_iff.mp h
  refine iff_of_true (by simp [h]) fun disowns => ?_
  cases disowns

theorem recognizes_list {item : TypeExpr}
    (inner : ∀ items, value = .list items → ∀ v ∈ items, Recognizes rules item v) :
    Recognizes rules (.list item) value := by
  intro normal h
  obtain ⟨items, normals, rfl, rfl, each⟩ := normal?_list_eq_some_iff.mp h
  have agree : (∀ v ∈ items, ¬ Disowns rules item v) ↔
      ∀ n ∈ normals, (item.normal? rules n).isSome :=
    Entries.forall_mem_iff_of_forall₂ each fun v member n made =>
      (inner items rfl v member n made).symm
  simp [isSome_normal?_list_iff, disowns_list_iff, ← agree]

theorem forall_zip_iff_of_itemwise {types : List TypeExpr} {items normals : List Value}
    (itemwise : Itemwise rules types items normals)
    (inner : ∀ type ∈ types, ∀ v ∈ items, Recognizes rules type v) :
    (∀ pair ∈ types.zip normals, (pair.1.normal? rules pair.2).isSome) ↔
      ∀ pair ∈ types.zip items, ¬ Disowns rules pair.1 pair.2 := by
  induction itemwise with
  | nil => simp
  | cons head _ ih =>
    have here := inner _ List.mem_cons_self _ List.mem_cons_self _ head
    have later := ih fun type member v member' =>
      inner type (List.mem_cons_of_mem _ member) v (List.mem_cons_of_mem _ member')
    simp only [List.zip_cons_cons, List.forall_mem_cons, here, later]

theorem recognizes_tuple {types : List TypeExpr}
    (inner : ∀ items, value = .list items → ∀ type ∈ types, ∀ v ∈ items,
      Recognizes rules type v) : Recognizes rules (.tuple types) value := by
  intro normal h
  obtain ⟨items, normals, rfl, rfl, itemwise⟩ := normal?_tuple_eq_some_iff.mp h
  have agree := forall_zip_iff_of_itemwise itemwise (inner items rfl)
  rw [isSome_normal?_tuple_iff, disowns_tuple_iff]
  simp only [Value.list.injEq, exists_eq_left', itemwise.length_normals_eq, true_and, agree,
    not_exists, not_and]

theorem recognizes_map {item : TypeExpr}
    (inner : ∀ entries, value.entries? = some entries → ∀ entry ∈ entries,
      Recognizes rules item entry.2) : Recognizes rules (.map item) value := by
  intro normal h
  obtain ⟨entries, normals, read, rfl, aligned⟩ := normal?_map_eq_some_iff.mp h
  have agree : (∀ entry ∈ entries, ¬ Disowns rules item entry.2) ↔
      ∀ entry ∈ normals, (item.normal? rules entry.2).isSome :=
    Entries.forall_mem_iff_of_forall₂ aligned fun entry member entry' made =>
      (inner entries (entries?_of_mappingInput? read) entry member entry'.2 made.2).symm
  rw [isSome_normal?_map_iff, disowns_map_iff read]
  simp only [mappingInput?, Option.some.injEq, exists_eq_left', ← agree]
  simp

theorem recognizes_optional {item : TypeExpr} (inner : Recognizes rules item value) :
    Recognizes rules (.optional item) value := by
  intro normal h
  rw [normal?_optional] at h
  split at h
  next isNull =>
    cases h
    refine iff_of_true (by simp [normal?_optional, Value.isNull]) fun disowns => ?_
    cases disowns with
    | present present => simp [present] at isNull
  next isPresent =>
    rw [disowns_optional_iff (by simpa using isPresent) h, normal?_optional]
    cases normal.isNull <;> simp [inner normal h]

theorem recognizes_union {variants : List TypeExpr}
    (inner : ∀ variant ∈ variants, Recognizes rules variant value) :
    Recognizes rules (.union variants) value := by
  intro normal h
  constructor
  · intro accepted disowns
    cases disowns with
    | variant taken _ _ _ refused | fault taken _ _ _ refused =>
      cases h.symm.trans taken
      simp [refused] at accepted
  · intro owned
    by_contra refused
    rw [Option.not_isSome_iff_eq_none] at refused
    obtain ⟨variant, member, made⟩ := exists_variant_of_normal?_union h
    have tried := attempt_cases rules variants normal
    split at tried
    next again matched => simp [normal?_union_eq_some_iff.mpr matched] at refused
    next =>
      obtain ⟨mode, pass, other, member', met⟩ := tried
      exact owned (.fault h member' pass met refused)
    next =>
      -- The variant that was taken refuses its own normal form, so it disowns it.
      have disowns : Disowns rules variant value := by
        by_contra kept
        have accepted := (inner variant member normal made).mpr kept
        simp [tried variant member] at accepted
      exact owned (.variant h member made disowns refused)

theorem recognizes_foreign (foreignType : ForeignType) :
    Recognizes rules (.foreign foreignType) value := by
  intro normal h
  constructor
  · intro accepted disowns
    cases disowns with
    | foreign made refused =>
      cases h.symm.trans made
      simp [refused] at accepted
  · intro owned
    by_contra refused
    exact owned (.foreign h (Option.not_isSome_iff_eq_none.mp refused))

/-- Each declared field of a record that was made holds a value that its type accepts unless the
    field is disowned. -/
theorem exists_fields_of_normal?_record {name : String} {fields : List (RecordField TypeExpr)}
    (names : (declaredNames fields).Nodup) (distinct : value.DistinctNames)
    (inner : ∀ field ∈ fields, ∀ input, value.entries? = some input → ∀ v,
      input.get? field.name = some v → Recognizes rules field.type v)
    (h : (record name fields).normal? rules value = some normal) :
    ∃ (input entries : Entries Value), recordInput? rules.mode name value = some input ∧
      normal = .record name entries ∧
      (rules.allowExtra = true ∨ undeclared fields entries = []) ∧
      ∀ field ∈ fields, ∃ w, entries.get? field.name = some w ∧
        ((field.type.normal? rules w).isSome ↔ ¬ DisownsField rules input field) := by
  obtain ⟨input, declared, read, nodup, filled, allowed, rfl⟩ :=
    exists_filled_of_normal?_record names distinct h
  refine ⟨input, _, read, rfl, ?_, fun field member => ?_⟩
  · rwa [undeclared_append_self filled.keys_eq]
  have distinct' := nodup_keys_append_undeclared names filled.keys_eq nodup
  obtain ⟨⟨_, w⟩, member', rfl, made⟩ := Entries.exists_mem_of_forall₂ filled member
  refine ⟨w, Entries.get?_of_mem distinct' (List.mem_append_left _ member'), ?_⟩
  simp only [fieldNormal?] at made
  simp only [DisownsField]
  cases found : input.get? field.name with
  | some v =>
    rw [found] at made
    exact inner field member input (entries?_of_recordInput? read) v found w made
  | none =>
    rw [found] at made
    simp [made, Option.isSome_iff_ne_none]

theorem recognizes_record {name : String} {fields : List (RecordField TypeExpr)}
    (names : (declaredNames fields).Nodup) (distinct : value.DistinctNames)
    (inner : ∀ field ∈ fields, ∀ input, value.entries? = some input → ∀ v,
      input.get? field.name = some v → Recognizes rules field.type v) :
    Recognizes rules (.record name fields) value := by
  intro normal h
  obtain ⟨input, entries, read, rfl, allowed, each⟩ :=
    exists_fields_of_normal?_record names distinct inner h
  have again : ∀ field ∈ fields,
      (fieldNormal? rules field entries).isSome ↔ ¬ DisownsField rules input field := by
    intro field member
    obtain ⟨w, found, agree⟩ := each field member
    simpa [fieldNormal?, found] using agree
  rw [isSome_normal?_record_iff, disowns_record_iff read]
  simp only [recordInput?, decide_true, Bool.true_or, if_true, Option.some.injEq, exists_eq_left',
    allowed, and_true, not_exists, not_and]
  exact forall₂_congr again

/-- Every part of a type with distinct names in its record types recognizes what it makes of
    values, unless they are disowned. -/
theorem recognizes_of_names
    (names : ∀ name fields, .record name fields ∈ whole.parts → (declaredNames fields).Nodup)
    (inside : type.parts ⊆ whole.parts) (distinct : value.Every Value.DistinctNames) :
    Recognizes rules type value := by
  induction type using TypeExpr.induction generalizing value with
  | any => exact recognizes_any
  | null => exact recognizes_null
  | bool | int | float | str => exact recognizes_scalar (by simp)
  | format f => exact recognizes_format f
  | list item ih =>
    apply recognizes_list
    rintro items rfl v member
    exact ih (parts_list_subset inside) (distinct.item member)
  | tuple types ih =>
    apply recognizes_tuple
    rintro items rfl type member v member'
    exact ih type member (parts_tuple_subset inside member) (distinct.item member')
  | map item ih =>
    apply recognizes_map
    intro entries read entry member
    exact ih (parts_map_subset inside) (distinct.entry read member)
  | optional item ih => exact recognizes_optional (ih (parts_optional_subset inside) distinct)
  | union variants ih =>
    apply recognizes_union
    exact fun variant member => ih variant member (parts_union_subset inside member) distinct
  | literal members => exact recognizes_literal members
  | record name fields ih =>
    apply recognizes_record (names name fields (mem_of_parts_subset inside)) distinct.self
    intro field member input read v found
    exact ih field member (parts_record_subset inside member)
      (distinct.entry read (Entries.mem_of_get? found))
  | foreign foreignType => exact recognizes_foreign foreignType

/-- A plain type whose defaults are all accepted where they stand disowns nothing. -/
theorem not_disowns_of_plain (plain : Plain whole) (inside : type.parts ⊆ whole.parts)
    (defaults : ∀ name fields, .record name fields ∈ whole.parts → ∀ field ∈ fields,
      ∀ default, field.default = some default → (field.type.normal? rules default).isSome) :
    ¬ Disowns rules type value := by
  intro disowns
  induction disowns with
  | @leftOut name fields _ default _ field _ member _ given refused =>
    have accepted := defaults name fields (mem_of_parts_subset inside) field member default given
    simp [refused] at accepted
  | field _ member _ _ ih => exact ih (parts_record_subset inside member)
  | item _ _ ih => exact ih (parts_list_subset inside)
  | position member _ ih => exact ih (parts_tuple_subset inside (List.of_mem_zip member).1)
  | entry _ _ _ ih => exact ih (parts_map_subset inside)
  | present _ _ _ _ ih => exact ih (parts_optional_subset inside)
  | variant _ member _ _ _ ih => exact ih (parts_union_subset inside member)
  | fault _ member _ met =>
    exact met (fault?_check plain (parts_union_subset inside member) _ _ .empty)
  | foreign => exact plain.foreign _ (mem_of_parts_subset inside)

/-- The record that a check makes holds in each declared field a value that the type of the field
    accepts, and is itself accepted again, exactly if nothing in the value is disowned. -/
theorem check_record_again_iff {name : String} {fields : List (RecordField TypeExpr)}
    {path path' : Path} (names : ∀ name' fields', .record name' fields' ∈
      (record name fields).parts → (declaredNames fields').Nodup)
    (distinct : value.Every Value.DistinctNames)
    (passed : (record name fields).check rules value path = .pass normal) :
    ∃ entries : Entries Value, normal = .record name entries ∧
      ((∀ field ∈ fields, ∃ v again, entries.get? field.name = some v ∧
          field.type.check rules v path' = .pass again) ↔
        ¬ Disowns rules (.record name fields) value) ∧
      ((∃ again, (record name fields).check rules normal path' = .pass again) ↔
        ¬ Disowns rules (.record name fields) value) := by
  have whole : (record name fields).parts ⊆ (record name fields).parts := fun _ inside => inside
  have h := check_eq_pass_iff.mp passed
  obtain ⟨input, entries, read, rfl, -, each⟩ :=
    exists_fields_of_normal?_record (names name fields (self_mem_parts _)) distinct.self
      (fun field member input read v found => recognizes_of_names names
        (parts_record_subset whole member) (distinct.entry read (Entries.mem_of_get? found))) h
  refine ⟨entries, rfl, ?_, ?_⟩
  · rw [disowns_record_iff read]
    simp only [check_eq_pass_iff, not_exists, not_and]
    refine forall₂_congr fun field member => ?_
    obtain ⟨w, found, agree⟩ := each field member
    simp [found, ← agree, Option.isSome_iff_exists]
  · simp only [check_eq_pass_iff, ← Option.isSome_iff_exists]
    exact recognizes_of_names names whole distinct _ h

/-- The fields of a position of an order: a count, 1 unless told otherwise. -/
def itemFields : List (RecordField TypeExpr) := [⟨"count", .int, some (.int 1)⟩]

/-- The fields of an order: its positions and a note. -/
def orderFields : List (RecordField TypeExpr) :=
  [⟨"items", .list (.record "Item" itemFields), none⟩, ⟨"note", .optional .str, some .null⟩]

theorem plain_order : (record "Order" orderFields).Plain where
  foreign := by simp [orderFields, itemFields, parts, partsFields]
  union := by simp [orderFields, itemFields, parts, partsFields]
  literal := by simp [orderFields, itemFields, parts, partsFields]

theorem fields_of_mem_parts_order {name : String} {fields : List (RecordField TypeExpr)}
    (inside : .record name fields ∈ (record "Order" orderFields).parts) :
    fields = orderFields ∨ fields = itemFields := by
  have cases : name = "Order" ∧ fields = orderFields ∨ name = "Item" ∧ fields = itemFields := by
    simpa [orderFields, itemFields, parts, partsFields] using inside
  exact cases.imp And.right And.right

/-- The defaults of an order are accepted, so what is made of a draft is accepted again. -/
theorem check_record_again_iff_order :
    let draft : Value := .map [("items", .list [.map [], .map [("count", .str "3")]])]
    let made : Value := .record "Order"
      [("items", .list [.record "Item" [("count", .int 1)], .record "Item" [("count", .int 3)]]),
        ("note", .null)]
    (record "Order" orderFields).check (.lax false) draft .empty = .pass made ∧
      ∃ again, (record "Order" orderFields).check (.lax false) made .empty = .pass again := by
  intro draft made
  have passed : (record "Order" orderFields).check (.lax false) draft .empty = .pass made := by rfl
  have names : ∀ name fields, .record name fields ∈ (record "Order" orderFields).parts →
      (declaredNames fields).Nodup := by
    intro name fields inside
    rcases fields_of_mem_parts_order inside with rfl | rfl <;> decide
  have distinct : draft.Every Value.DistinctNames := by
    simp [draft, Value.Every, Value.parts, Value.partsItems, Value.partsEntries,
      Value.DistinctNames, Value.entries?]
  have owned : ¬ Disowns (.lax false) (.record "Order" orderFields) draft := by
    apply not_disowns_of_plain plain_order fun _ inside => inside
    intro name fields inside
    rcases fields_of_mem_parts_order inside with rfl | rfl <;>
      simp [orderFields, itemFields, normal?_int, normal?_optional, Value.asInt?, Value.isNull]
  obtain ⟨-, -, -, again⟩ := check_record_again_iff names distinct passed
  exact ⟨passed, again.mpr owned⟩

/-- A field of integers that is left out is filled with a text, and the record that results is
    refused. -/
theorem not_check_record_again : ¬ ∀ (rules : Rules) (name : String)
    (fields : List (RecordField TypeExpr)) (value normal : Value),
      (∀ name' fields', .record name' fields' ∈ (record name fields).parts →
        (declaredNames fields').Nodup) →
      value.Every Value.DistinctNames →
      (record name fields).check rules value .empty = .pass normal →
      (∀ field ∈ fields, ∃ v again, normal.field? field.name = some v ∧
        field.type.check rules v .empty = .pass again) ∧
      ∃ again, (record name fields).check rules normal .empty = .pass again := by
  intro closed
  have passed : (record "P" [⟨"x", .int, some (.str "oops")⟩]).check (.strict false) (.map [])
      .empty = .pass (.record "P" [("x", .str "oops")]) := by rfl
  obtain ⟨-, again, accepted⟩ := closed _ _ _ _ _ (by simp [parts, partsFields])
    (by simp [Value.Every, Value.parts, Value.partsEntries, Value.DistinctNames, Value.entries?])
    passed
  have refused : (record "P" [⟨"x", .int, some (.str "oops")⟩]).normal? (.strict false)
      (.record "P" [("x", .str "oops")]) = none := by rfl
  rw [check_eq_pass_iff, refused] at accepted
  cases accepted

end TypeExpr

end CallGuard
