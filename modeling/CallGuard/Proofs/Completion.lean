import CallGuard.Proofs.Acceptance
import CallGuard.Proofs.Report

/-!
# Strict normal forms complete their values

In strict mode a check tags mappings as records and fills in fields that are missing, and it
changes nothing else.  Scalars stay as they are, lists keep their items and mappings their entries
in order, a record keeps its name and loses no field, and what a normal form has beyond its value
is a declared default.
-/

namespace CallGuard

namespace TypeExpr

open Conformance

/-- A value completed along a type: a mapping may become a record of a record type that occurs in
    the type, and a record of such a type may get declared fields that it lacks with their
    defaults.  Nothing else changes but the order of the fields of records. -/
inductive Completes (whole : TypeExpr) : Value → Value → Prop
  | null : Completes whole .null .null
  | bool (b : Bool) : Completes whole (.bool b) (.bool b)
  | int (i : Int64) : Completes whole (.int i) (.int i)
  | float (x : Binary64) : Completes whole (.float x) (.float x)
  | str (s : String) : Completes whole (.str s) (.str s)
  | list {items normals : List Value} (each : List.Forall₂ (Completes whole) items normals) :
      Completes whole (.list items) (.list normals)
  | map {entries normals : Entries Value} (names : entries.keys = normals.keys)
      (each : List.Forall₂ (Completes whole) (entries.map Prod.snd) (normals.map Prod.snd)) :
      Completes whole (.map entries) (.map normals)
  /-- A record that no record type was applied to. -/
  | untouched (typeName : String) (fields : Entries Value) :
      Completes whole (.record typeName fields) (.record typeName fields)
  /-- A mapping, or a record of the same name, that a record type was applied to. -/
  | record {typeName : String} {schema : List (RecordField TypeExpr)} {value : Value}
      {input fields : Entries Value} (declared : .record typeName schema ∈ whole.parts)
      (source : value = .map input ∨ value = .record typeName input)
      (distinct : fields.keys.Nodup) (kept : ∀ name ∈ input.keys, name ∈ fields.keys)
      (each : ∀ name v w, (name, v) ∈ input → (name, w) ∈ fields → Completes whole v w)
      (added : ∀ name w, (name, w) ∈ fields → name ∉ input.keys →
        ∃ field ∈ schema, field.name = name ∧ field.default = some w) :
      Completes whole value (.record typeName fields)

variable {whole type : TypeExpr} {value v normal n : Value} {allowExtra : Bool}
  {step : PathSegment} {steps : List PathSegment}

theorem Completes.refl (value : Value) : Completes whole value value := by
  induction value using Value.induction with
  | null => exact .null
  | bool b => exact .bool b
  | int i => exact .int i
  | float x => exact .float x
  | str s => exact .str s
  | list items ih => exact .list (List.forall₂_same.mpr ih)
  | map entries ih =>
    refine .map rfl (List.forall₂_same.mpr fun v member => ?_)
    obtain ⟨entry, inside, rfl⟩ := List.mem_map.mp member
    exact ih entry inside
  | record typeName fields _ => exact .untouched typeName fields

/-! ## Positions in a completed value -/

/-- A default that a record type occurring in a type declares for the name of a step. -/
def IsDefault (whole : TypeExpr) (step : PathSegment) (default : Value) : Prop :=
  ∃ typeName schema, .record typeName schema ∈ whole.parts ∧
    ∃ field ∈ schema, step = .key field.name ∧ field.default = some default

/-- What is neither a list nor has entries is not changed. -/
theorem Completes.eq_of_scalar (completes : Completes whole value normal)
    (noItems : value.asList? = none) (noEntries : value.entries? = none) : normal = value := by
  cases completes with
  | null | bool | int | float | str | untouched => rfl
  | list => cases noItems
  | map => cases noEntries
  | record declared source => rcases source with rfl | rfl <;> cases noEntries

theorem aligned_of_completes {entries normals : Entries Value}
    (names : entries.keys = normals.keys)
    (each : List.Forall₂ (Completes whole) (entries.map Prod.snd) (normals.map Prod.snd)) :
    Entries.Aligned (Completes whole) entries normals := by
  rw [List.forall₂_map_left_iff, List.forall₂_map_right_iff] at each
  rw [Entries.keys, Entries.keys, ← List.forall₂_eq_eq_eq, List.forall₂_map_left_iff,
    List.forall₂_map_right_iff] at names
  exact names.mp (fun _ _ name both => ⟨name, both⟩) each

theorem step?_list_eq_some_iff {items : List Value} :
    (Value.list items).step? step = some v ↔ ∃ i, step = .index i ∧ items[i]? = some v := by
  cases step <;> simp [Value.step?, Value.field?, Value.item?, Value.entries?, Value.asList?]

theorem step?_eq_some_iff_of_entries {entries : Entries Value}
    (read : value.entries? = some entries) : value.step? step = some v ↔
      ∃ name, step = .key name ∧ entries.get? name = some v := by
  cases value <;> cases read
  all_goals cases step <;>
    simp [Value.step?, Value.field?, Value.item?, Value.entries?, Value.asList?]

/-- What is one step inside a value is completed there. -/
theorem Completes.step?_some (completes : Completes whole value normal)
    (found : value.step? step = some v) :
    ∃ n, normal.step? step = some n ∧ Completes whole v n := by
  cases completes with
  | null | bool | int | float | str | untouched => exact ⟨v, found, .refl v⟩
  | list each =>
    obtain ⟨i, rfl, found⟩ := step?_list_eq_some_iff.mp found
    obtain ⟨n, found', completes⟩ := Entries.exists_getElem?_of_forall₂ each found
    exact ⟨n, step?_list_eq_some_iff.mpr ⟨i, rfl, found'⟩, completes⟩
  | map names each =>
    obtain ⟨name, rfl, found⟩ := (step?_eq_some_iff_of_entries rfl).mp found
    obtain ⟨n, found', completes⟩ := (aligned_of_completes names each).get? found
    exact ⟨n, (step?_eq_some_iff_of_entries rfl).mpr ⟨name, rfl, found'⟩, completes⟩
  | @record _ _ _ input fields _ source _ kept each _ =>
    have read : value.entries? = some input := by rcases source with rfl | rfl <;> rfl
    obtain ⟨name, rfl, supplied⟩ := (step?_eq_some_iff_of_entries read).mp found
    have member := Entries.mem_of_get? supplied
    have present := kept name (Entries.mem_keys_of_mem member)
    obtain ⟨n, found'⟩ := Option.isSome_iff_exists.mp (Entries.isSome_get?_iff.mpr present)
    exact ⟨n, (step?_eq_some_iff_of_entries rfl).mpr ⟨name, rfl, found'⟩,
      each name v n member (Entries.mem_of_get? found')⟩

/-- What is one step inside a completed value was there before, or is a default. -/
theorem Completes.of_step? (completes : Completes whole value normal)
    (found : normal.step? step = some n) : (∃ v, value.step? step = some v ∧ Completes whole v n) ∨
      value.step? step = none ∧ IsDefault whole step n := by
  cases completes with
  | null | bool | int | float | str | untouched => exact .inl ⟨n, found, .refl n⟩
  | list each =>
    obtain ⟨i, rfl, found⟩ := step?_list_eq_some_iff.mp found
    obtain ⟨v, found', completes⟩ := Entries.exists_getElem?_of_forall₂ each.flip found
    exact .inl ⟨v, step?_list_eq_some_iff.mpr ⟨i, rfl, found'⟩, completes⟩
  | map names each =>
    obtain ⟨name, rfl, found⟩ := (step?_eq_some_iff_of_entries rfl).mp found
    obtain ⟨v, found', completes⟩ := (aligned_of_completes names each).swap.get? found
    exact .inl ⟨v, (step?_eq_some_iff_of_entries rfl).mpr ⟨name, rfl, found'⟩, completes⟩
  | @record typeName schema _ input fields declared source _ _ each added =>
    have read : value.entries? = some input := by rcases source with rfl | rfl <;> rfl
    obtain ⟨name, rfl, found⟩ := (step?_eq_some_iff_of_entries rfl).mp found
    have member := Entries.mem_of_get? found
    cases supplied : input.get? name with
    | some v =>
      exact .inl ⟨v, (step?_eq_some_iff_of_entries read).mpr ⟨name, rfl, supplied⟩,
        each name v n (Entries.mem_of_get? supplied) member⟩
    | none =>
      obtain ⟨field, here, rfl, default⟩ :=
        added name n member (Entries.get?_eq_none_iff.mp supplied)
      refine .inr ⟨?_, typeName, schema, declared, field, here, rfl, default⟩
      simp [Value.step?, Value.field?, read, supplied]

/-- What is anywhere inside a value is completed there. -/
theorem Completes.at?_some (completes : Completes whole value normal)
    (found : value.at? steps = some v) :
    ∃ n, normal.at? steps = some n ∧ Completes whole v n := by
  induction steps generalizing value normal with
  | nil =>
    cases found
    exact ⟨normal, rfl, completes⟩
  | cons step rest ih =>
    obtain ⟨inner, first, found⟩ := Option.bind_eq_some_iff.mp found
    obtain ⟨inner', first', completes'⟩ := completes.step?_some first
    rw [Value.at?, first', Option.bind_some]
    exact ih completes' found

/-- What is anywhere inside a completed value was there before, or lies in a default at a position
    where nothing was. -/
theorem Completes.of_at? (completes : Completes whole value normal)
    (found : normal.at? steps = some n) : (∃ v, value.at? steps = some v ∧ Completes whole v n) ∨
      ∃ before step rest default, steps = before ++ step :: rest ∧
        value.at? (before ++ [step]) = none ∧ normal.at? (before ++ [step]) = some default ∧
        IsDefault whole step default := by
  induction steps generalizing value normal with
  | nil =>
    cases found
    exact .inl ⟨value, rfl, completes⟩
  | cons step rest ih =>
    obtain ⟨inner', first', found⟩ := Option.bind_eq_some_iff.mp found
    rcases completes.of_step? first' with ⟨inner, first, completes'⟩ | ⟨absent, isDefault⟩
    · rcases ih completes' found with ⟨v, found, completed⟩ |
        ⟨before, last, rest, default, rfl, absent, present, isDefault⟩
      · exact .inl ⟨v, by rw [Value.at?, first, Option.bind_some, found], completed⟩
      · refine .inr ⟨step :: before, last, rest, default, rfl, ?_, ?_, isDefault⟩
        · rw [List.cons_append, Value.at?, first, Option.bind_some, absent]
        · rw [List.cons_append, Value.at?, first', Option.bind_some, present]
    · refine .inr ⟨[], step, rest, inner', rfl, ?_, ?_, isDefault⟩
      · rw [List.nil_append, Value.at?, absent, Option.bind_none]
      · rw [List.nil_append, Value.at?, first', Option.bind_some, Value.at?]

/-! ## What a strict check makes -/

/-- A declared entry belongs to a field that it fills. -/
theorem Filled.exists_field {rules : Rules} {input declared : Entries Value}
    {fields : List (RecordField TypeExpr)} (filled : Filled rules input fields declared)
    {entry : String × Value} (member : entry ∈ declared) :
    ∃ field ∈ fields, entry.1 = field.name ∧ fieldNormal? rules field input = some entry.2 :=
  Entries.exists_mem_of_forall₂ (List.Forall₂.flip filled) member

theorem completes_itemwise {types : List TypeExpr} {items normals : List Value}
    (itemwise : Itemwise (.strict allowExtra) types items normals)
    (completes : ∀ type ∈ types, ∀ v ∈ items, ∀ n, type.normal? (.strict allowExtra) v = some n →
      Completes whole v n) : List.Forall₂ (Completes whole) items normals := by
  induction itemwise with
  | nil => exact .nil
  | cons head _ ih =>
    refine .cons (completes _ List.mem_cons_self _ List.mem_cons_self _ head) (ih ?_)
    intro type member v inside
    exact completes type (List.mem_cons_of_mem _ member) v (List.mem_cons_of_mem _ inside)

theorem completes_aligned {entries normals : Entries Value}
    (aligned : Entries.Aligned (Completes whole) entries normals) :
    Completes whole (.map entries) (.map normals) := by
  refine .map aligned.keys_eq ?_
  rw [List.forall₂_map_left_iff, List.forall₂_map_right_iff]
  exact List.Forall₂.imp (fun _ _ both => both.2) aligned

/-- A record keeps every name of its input and gets nothing but defaults. -/
theorem completes_record {name : String} {fields : List (RecordField TypeExpr)}
    (inside : (record name fields).parts ⊆ whole.parts) (distinct : value.DistinctNames)
    (completes : ∀ field ∈ fields, ∀ entries, value.entries? = some entries →
      ∀ v, entries.get? field.name = some v → ∀ n,
        field.type.normal? (.strict allowExtra) v = some n → Completes whole v n)
    (h : (record name fields).normal? (.strict allowExtra) value = some normal) :
    Completes whole value normal := by
  obtain ⟨input, declared, read, filled, -, rfl⟩ := normal?_record_eq_some_iff.mp h
  have distinct' : input.keys.Nodup := distinct input (entries?_of_recordInput? read)
  have once : (Entries.merged (declared ++ undeclared fields input)).keys.Nodup :=
    Entries.nodup_keys_putAll (by simp) _
  -- Merging keeps, of entries with one name, the value of one of them.
  have origin : ∀ key w, (key, w) ∈ Entries.merged (declared ++ undeclared fields input) →
      (∃ field ∈ fields, key = field.name ∧
        fieldNormal? (.strict allowExtra) field input = some w) ∨ (key, w) ∈ input := by
    intro key w member
    have found := Entries.mem_of_get?_merged (Entries.get?_of_mem once member)
    rcases List.mem_append.mp found with early | late
    · exact .inl (filled.exists_field early)
    · exact .inr (mem_undeclared_iff.mp late).1
  have source := recordInput?_strict_eq_some_iff.mp read
  refine .record (mem_of_parts_subset inside) source once ?_ ?_ ?_
  · intro key present
    rw [Entries.mem_keys_merged_iff, Entries.keys_append, List.mem_append, filled.keys_eq]
    by_cases known : key ∈ declaredNames fields
    · exact .inl known
    · obtain ⟨entry, member, rfl⟩ := List.mem_map.mp present
      exact .inr (Entries.mem_keys_of_mem (mem_undeclared_iff.mpr ⟨member, known⟩))
  · intro key v w supplied member
    have found := Entries.get?_of_mem distinct' supplied
    rcases origin key w member with ⟨field, here, rfl, fits⟩ | kept
    · rw [fieldNormal?, found] at fits
      exact completes field here input (entries?_of_recordInput? read) v found w fits
    · rw [Entries.get?_of_mem distinct' kept] at found
      cases found
      exact .refl v
  · intro key w member absent
    rcases origin key w member with ⟨field, here, rfl, fits⟩ | kept
    · rw [fieldNormal?, Entries.get?_eq_none_iff.mpr absent] at fits
      exact ⟨field, here, rfl, fits⟩
    · exact absurd (Entries.mem_keys_of_mem kept) absent

/-- A strict check completes what it accepts. -/
theorem completes_of_normal? (foreign : ∀ foreignType, .foreign foreignType ∉ whole.parts)
    (inside : type.parts ⊆ whole.parts) (distinct : value.Every Value.DistinctNames)
    (h : type.normal? (.strict allowExtra) value = some normal) :
    Completes whole value normal := by
  induction type using TypeExpr.induction generalizing value normal with
  | any =>
    rw [normal?_any] at h
    cases h
    exact .refl value
  | null =>
    rw [normal?_null] at h
    cases value <;> cases h
    exact .null
  | bool | int | float | str =>
    simp only [normal?_bool, normal?_int, normal?_float, normal?_str, reduceCtorEq, if_false,
      Option.ite_none_right_eq_some, Option.some.injEq] at h
    obtain ⟨_, rfl⟩ := h
    exact .refl value
  | format f =>
    obtain ⟨rfl, -⟩ := normal?_format_eq_some_iff.mp h
    exact .refl _
  | list item ih =>
    obtain ⟨items, normals, rfl, rfl, each⟩ := normal?_list_eq_some_iff.mp h
    have each' := (List.forall₂_and_left _ _).mpr ⟨fun v member => distinct.item member, each⟩
    exact .list (each'.imp fun v n both => ih (parts_list_subset inside) both.1 both.2)
  | tuple types ih =>
    obtain ⟨items, normals, rfl, rfl, itemwise⟩ := normal?_tuple_eq_some_iff.mp h
    refine .list (completes_itemwise itemwise fun t member v here n => ?_)
    exact ih t member (parts_tuple_subset inside member) (distinct.item here)
  | map inner ih =>
    obtain ⟨entries, normals, read, rfl, aligned⟩ := normal?_map_eq_some_iff.mp h
    cases value <;> cases read
    have each := (List.forall₂_and_left _ _).mpr
      ⟨fun entry member => distinct.entry rfl member, aligned⟩
    refine completes_aligned (each.imp fun e f both => ⟨both.2.1, ?_⟩)
    exact ih (parts_map_subset inside) both.1 both.2.2
  | optional inner ih =>
    rw [normal?_optional] at h
    split at h
    next isNull =>
      cases h
      cases value <;> cases isNull
      exact .null
    next => exact ih (parts_optional_subset inside) distinct h
  | union variants ih =>
    obtain ⟨variant, member, found⟩ := exists_variant_of_normal?_union h
    exact ih variant member (parts_union_subset inside member) distinct found
  | literal members =>
    obtain ⟨rfl, -⟩ := normal?_literal_eq_some_iff.mp h
    exact .refl _
  | record name fields ih =>
    refine completes_record inside distinct.self (fun field member entries read v found n => ?_) h
    exact ih field member (parts_record_subset inside member)
      (distinct.entry read (Entries.mem_of_get? found))
  | foreign foreignType => exact absurd (mem_of_parts_subset inside) (foreign foreignType)

/-- Strict validation only tags and completes.  A normal form is its value with mappings tagged as
    records of record types of the type, and with declared defaults where fields are missing.  So
    whatever is in the value is at the same position of the normal form, scalars as they are, and
    whatever else is in the normal form lies in a default at a position where nothing was. -/
theorem check_strict_completes (foreign : ∀ foreignType, .foreign foreignType ∉ type.parts)
    (distinct : value.Every Value.DistinctNames) {path : Path}
    (passed : (type.check (.strict allowExtra) value path).normal? = some normal) :
    Completes type value normal ∧
    (∀ steps v, value.at? steps = some v → ∃ n, normal.at? steps = some n ∧
      Completes type v n ∧ (v.asList? = none → v.entries? = none → n = v)) ∧
    ∀ steps n, normal.at? steps = some n →
      (∃ v, value.at? steps = some v ∧ Completes type v n) ∨
      ∃ before step rest default, steps = before ++ step :: rest ∧
        value.at? (before ++ [step]) = none ∧ normal.at? (before ++ [step]) = some default ∧
        IsDefault type step default := by
  rw [normal?_check] at passed
  have completes : Completes type value normal :=
    completes_of_normal? foreign (List.Subset.refl _) distinct passed
  refine ⟨completes, fun steps v found => ?_, fun steps n found => completes.of_at? found⟩
  obtain ⟨n, found', completes'⟩ := completes.at?_some found
  exact ⟨n, found', completes', completes'.eq_of_scalar⟩

/-- A mapping in a list becomes a person: its age is filled in, and its note is kept. -/
theorem check_strict_completes_people :
    let people : TypeExpr := .list (.union [.int,
      .record "Person" [⟨"name", .str, none⟩, ⟨"age", .optional .int, some .null⟩]])
    let value : Value := .list [.int 3, .map [("note", .bool true), ("name", .str "Ann")]]
    let normal : Value := .list [.int 3,
      .record "Person" [("name", .str "Ann"), ("age", .null), ("note", .bool true)]]
    (people.check (.strict true) value .empty).normal? = some normal ∧
      Completes people value normal ∧
      ∃ n, normal.at? [.index 1, .key "note"] = some n ∧ n = .bool true := by
  intro people value normal
  have passed : (people.check (.strict true) value .empty).normal? = some normal := by rfl
  have foreign : ∀ foreignType, .foreign foreignType ∉ people.parts := by
    simp [people, parts, partsAll, partsFields]
  have distinct : value.Every Value.DistinctNames := by
    simp [value, Value.Every, Value.parts, Value.partsItems, Value.partsEntries,
      Value.DistinctNames, Value.entries?]
  obtain ⟨completes, kept, -⟩ := check_strict_completes foreign distinct passed
  obtain ⟨n, found, -, same⟩ := kept [.index 1, .key "note"] (.bool true) rfl
  exact ⟨passed, completes, n, found, same rfl rfl⟩

end TypeExpr

end CallGuard
