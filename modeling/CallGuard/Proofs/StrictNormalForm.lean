import CallGuard.Proofs.Conformance

/-!
# Normal forms in strict mode

In strict mode a normal form differs from its value only where a mapping became a record.  A
type that accepts the normal form therefore accepted the value already, so a union takes the
same variant for both, and the normal form is its own normal form up to the defaults.
-/

namespace CallGuard

open Conformance

namespace TypeExpr

/-- A plain type with distinct names in each record type, one record type of each name, no
    records among the members of literals, and defaults that are their own normal forms up to
    a relation. -/
structure Regular (allowExtra : Bool) (rel : Value → Value → Prop) (type : TypeExpr) : Prop
    extends Plain type where
  names : ∀ name fields, .record name fields ∈ type.parts → (declaredNames fields).Nodup
  alike : ∀ name fields fields', .record name fields ∈ type.parts →
    .record name fields' ∈ type.parts → fields = fields'
  members : ∀ members, .literal members ∈ type.parts →
    ∀ member ∈ members, member.Every Value.NotRecord
  defaults : ∀ name fields, .record name fields ∈ type.parts → ∀ field ∈ fields,
    ∀ default, field.default = some default →
      ∃ normal, field.type.normal? (.strict allowExtra) default = some normal ∧
        rel normal default

variable {allowExtra : Bool} {rel : Value → Value → Prop} {whole type : TypeExpr}
  {value normal : Value}

/-! ## A value and its normal form -/

/-- A value itself, or its normal form against a part of a type. -/
def NormalOf (allowExtra : Bool) (whole : TypeExpr) (value normal : Value) : Prop :=
  normal = value ∨ ∃ part : TypeExpr, part.parts ⊆ whole.parts ∧
    part.normal? (.strict allowExtra) value = some normal

/-- How a value and its normal form are built: alike from members that are related, or as a
    record from its record type. -/
inductive Layer (allowExtra : Bool) (whole : TypeExpr) : Value → Value → Prop
  | self (value : Value) : Layer allowExtra whole value value
  | list {items normals : List Value}
      (each : List.Forall₂ (NormalOf allowExtra whole) items normals) :
      Layer allowExtra whole (.list items) (.list normals)
  | map {entries normals : Entries Value}
      (aligned : Entries.Aligned (NormalOf allowExtra whole) entries normals) :
      Layer allowExtra whole (.map entries) (.map normals)
  | record {name : String} {fields : List (RecordField TypeExpr)} {value : Value}
      {entries : Entries Value} (inside : (TypeExpr.record name fields).parts ⊆ whole.parts)
      (promoted : (TypeExpr.record name fields).normal? (.strict allowExtra) value =
        some (.record name entries)) :
      Layer allowExtra whole value (.record name entries)

theorem NormalOf.refl (value : Value) : NormalOf allowExtra whole value value := .inl rfl

theorem normalOf_itemwise {types : List TypeExpr} {items normals : List Value}
    (inside : ∀ type ∈ types, type.parts ⊆ whole.parts)
    (itemwise : Itemwise (.strict allowExtra) types items normals) :
    List.Forall₂ (NormalOf allowExtra whole) items normals := by
  induction itemwise with
  | nil => exact .nil
  | cons head _ ih =>
    have ⟨here, later⟩ := List.forall_mem_cons.mp inside
    exact .cons (.inr ⟨_, here, head⟩) (ih later)

/-- The normal form of a value is built like the value. -/
theorem layer_of_normal? (plain : Plain whole) (inside : type.parts ⊆ whole.parts)
    (h : type.normal? (.strict allowExtra) value = some normal) :
    Layer allowExtra whole value normal := by
  induction type using TypeExpr.induction generalizing value normal with
  | any =>
    rw [normal?_any] at h
    cases h
    exact .self value
  | null =>
    rw [normal?_null] at h
    cases value <;> cases h
    exact .self .null
  | bool | int | float | str =>
    simp only [normal?_bool, normal?_int, normal?_float, normal?_str, reduceCtorEq, if_false,
      Option.ite_none_right_eq_some, Option.some.injEq] at h
    obtain ⟨_, rfl⟩ := h
    exact .self value
  | format f =>
    obtain ⟨rfl, -⟩ := normal?_format_eq_some_iff.mp h
    exact .self _
  | list item ih =>
    obtain ⟨items, normals, rfl, rfl, each⟩ := normal?_list_eq_some_iff.mp h
    exact .list (each.imp fun v n found => .inr ⟨item, parts_list_subset inside, found⟩)
  | tuple types ih =>
    obtain ⟨items, normals, rfl, rfl, itemwise⟩ := normal?_tuple_eq_some_iff.mp h
    exact .list (normalOf_itemwise (fun t => parts_tuple_subset inside) itemwise)
  | map inner ih =>
    obtain ⟨entries, normals, read, rfl, aligned⟩ := normal?_map_eq_some_iff.mp h
    cases value <;> cases read
    exact .map (aligned.imp fun v n found => .inr ⟨inner, parts_map_subset inside, found⟩)
  | optional inner ih =>
    rw [normal?_optional] at h
    split at h
    next isNull =>
      cases h
      cases value <;> cases isNull
      exact .self .null
    next => exact ih (parts_optional_subset inside) h
  | union variants ih =>
    rw [normal?_union_strict plain inside] at h
    obtain ⟨variant, member, found⟩ := List.exists_of_findSome?_eq_some h
    exact ih variant member (parts_union_subset inside member) found
  | literal members =>
    obtain ⟨rfl, -⟩ := normal?_literal_eq_some_iff.mp h
    exact .self _
  | record name fields ih =>
    obtain ⟨input, declared, -, -, -, rfl⟩ := normal?_record_eq_some_iff.mp h
    exact .record inside h
  | foreign foreignType => exact absurd (mem_of_parts_subset inside) (plain.foreign foreignType)

theorem NormalOf.layer (plain : Plain whole) (related : NormalOf allowExtra whole value normal) :
    Layer allowExtra whole value normal := by
  rcases related with rfl | ⟨part, inside, h⟩
  · exact .self _
  · exact layer_of_normal? plain inside h

theorem Layer.of_list {normals : List Value}
    (layer : Layer allowExtra whole value (.list normals)) :
    ∃ items, value = .list items ∧ List.Forall₂ (NormalOf allowExtra whole) items normals := by
  cases layer with
  | self => exact ⟨normals, rfl, List.forall₂_same.mpr fun v _ => .refl v⟩
  | list each => exact ⟨_, rfl, each⟩

theorem Layer.of_map {normals : Entries Value}
    (layer : Layer allowExtra whole value (.map normals)) :
    ∃ entries, value = .map entries ∧
      Entries.Aligned (NormalOf allowExtra whole) entries normals := by
  cases layer with
  | self => exact ⟨normals, rfl, List.forall₂_same.mpr fun e _ => ⟨rfl, .refl e.2⟩⟩
  | map aligned => exact ⟨_, rfl, aligned⟩

/-! ## What accepts the normal form accepts the value -/

/-- A value without records that equals a normal form equals its value. -/
theorem equal_of_normalOf (plain : Plain whole) {member : Value}
    (noRecord : member.Every Value.NotRecord) (related : NormalOf allowExtra whole value normal)
    (equal : member.equal normal = true) : member.equal value = true := by
  induction member using Value.induction generalizing value normal with
  | null | bool | int | float | str =>
    cases normal <;> simp only [Value.equal, Bool.false_eq_true] at equal
    cases related.layer plain
    simp only [Value.equal, equal]
  | list members ih =>
    cases normal <;> simp only [Value.equal, Bool.false_eq_true] at equal
    next normals =>
      obtain ⟨items, rfl, each⟩ := (related.layer plain).of_list
      simp only [Value.equal, Value.equalItems_iff] at equal ⊢
      refine List.forall₂_of_length_eq_of_get ?_ ?_
      · rw [equal.length_eq, each.length_eq]
      · intro i h h'
        have h'' : i < normals.length := each.length_eq ▸ h'
        exact ih _ (List.get_mem _ _) (noRecord.item (List.get_mem _ _))
          (each.get h' h'') (equal.get h h'')
  | map members ih =>
    cases normal <;> simp only [Value.equal, Bool.false_eq_true] at equal
    next normals =>
      obtain ⟨entries, rfl, aligned⟩ := (related.layer plain).of_map
      simp only [Value.equal, Bool.and_eq_true, beq_iff_eq, Value.coveredBy_iff] at equal ⊢
      refine ⟨equal.1.trans aligned.length_eq.symm, ?_⟩
      intro entry member
      obtain ⟨w, found, agree⟩ := equal.2 entry member
      obtain ⟨v, found', source⟩ := aligned.swap.get? found
      exact ⟨v, found', ih entry member (noRecord.entry rfl member) source agree⟩
  | record typeName fields => exact absurd rfl (noRecord.self typeName fields)

/-- A type accepts a value wherever it accepts the normal form. -/
def Reflects (allowExtra : Bool) (whole type : TypeExpr) : Prop :=
  ∀ value normal, NormalOf allowExtra whole value normal →
    (type.normal? (.strict allowExtra) normal).isSome →
      (type.normal? (.strict allowExtra) value).isSome

theorem reflects_null (plain : Plain whole) : Reflects allowExtra whole .null := by
  intro value normal related accepted
  cases normal <;> simp [normal?_null, Value.isNull] at accepted
  cases related.layer plain
  simp [normal?_null, Value.isNull]

theorem reflects_scalar (plain : Plain whole)
    (scalar : type = .bool ∨ type = .int ∨ type = .float ∨ type = .str) :
    Reflects allowExtra whole type := by
  intro value normal related accepted
  rcases scalar with rfl | rfl | rfl | rfl
  all_goals
    cases normal <;>
      simp [normal?_bool, normal?_int, normal?_float, normal?_str, Value.asBool?, Value.asInt?,
        Value.asFloat?, Value.asStr?] at accepted
    cases related.layer plain
    simp [normal?_bool, normal?_int, normal?_float, normal?_str, Value.asBool?, Value.asInt?,
      Value.asFloat?, Value.asStr?]

theorem reflects_format (plain : Plain whole) (format : StringFormat) :
    Reflects allowExtra whole (.format format) := by
  intro value normal related accepted
  obtain ⟨again, found⟩ := Option.isSome_iff_exists.mp accepted
  obtain ⟨rfl, s, rfl, accepts⟩ := normal?_format_eq_some_iff.mp found
  cases related.layer plain
  exact accepted

theorem reflects_literal (plain : Plain whole) {members : List Value}
    (noRecords : ∀ member ∈ members, member.Every Value.NotRecord) :
    Reflects allowExtra whole (.literal members) := by
  intro value normal related accepted
  obtain ⟨again, found⟩ := Option.isSome_iff_exists.mp accepted
  obtain ⟨rfl, chosen⟩ := normal?_literal_eq_some_iff.mp found
  obtain ⟨member, here, equal⟩ := List.any_eq_true.mp chosen
  refine Option.isSome_iff_exists.mpr ⟨value, normal?_literal_eq_some_iff.mpr ⟨rfl, ?_⟩⟩
  exact List.any_eq_true.mpr
    ⟨member, here, equal_of_normalOf plain (noRecords member here) related equal⟩

theorem reflects_list (plain : Plain whole) {item : TypeExpr}
    (reflects : Reflects allowExtra whole item) : Reflects allowExtra whole (.list item) := by
  intro value normal related accepted
  obtain ⟨normals, rfl, each⟩ := isSome_normal?_list_iff.mp accepted
  obtain ⟨items, rfl, sources⟩ := (related.layer plain).of_list
  refine isSome_normal?_list_iff.mpr ⟨items, rfl, fun v member => ?_⟩
  obtain ⟨n, inside', source⟩ := Entries.exists_mem_of_forall₂ sources member
  exact reflects v n source (each n inside')

theorem exists_itemwise_of_normalOf {types : List TypeExpr} {items normals again : List Value}
    (reflects : ∀ type ∈ types, Reflects allowExtra whole type)
    (each : List.Forall₂ (NormalOf allowExtra whole) items normals)
    (itemwise : Itemwise (.strict allowExtra) types normals again) :
    ∃ accepted, Itemwise (.strict allowExtra) types items accepted := by
  induction itemwise generalizing items with
  | nil =>
    cases each
    exact ⟨[], .nil⟩
  | cons head _ ih =>
    obtain ⟨v, rest, related, others, rfl⟩ := List.forall₂_cons_right_iff.mp each
    have ⟨here, later⟩ := List.forall_mem_cons.mp reflects
    obtain ⟨first, found⟩ := Option.isSome_iff_exists.mp (here v _ related (by simp [head]))
    obtain ⟨accepted, itemwise⟩ := ih later others
    exact ⟨first :: accepted, .cons found itemwise⟩

theorem reflects_tuple (plain : Plain whole) {types : List TypeExpr}
    (reflects : ∀ type ∈ types, Reflects allowExtra whole type) :
    Reflects allowExtra whole (.tuple types) := by
  intro value normal related accepted
  obtain ⟨again, found⟩ := Option.isSome_iff_exists.mp accepted
  obtain ⟨normals, agains, rfl, rfl, itemwise⟩ := normal?_tuple_eq_some_iff.mp found
  obtain ⟨items, rfl, sources⟩ := (related.layer plain).of_list
  obtain ⟨firsts, accepts⟩ := exists_itemwise_of_normalOf reflects sources itemwise
  exact Option.isSome_iff_exists.mpr
    ⟨_, normal?_tuple_eq_some_iff.mpr ⟨items, firsts, rfl, rfl, accepts⟩⟩

theorem reflects_map (plain : Plain whole) {inner : TypeExpr}
    (reflects : Reflects allowExtra whole inner) : Reflects allowExtra whole (.map inner) := by
  intro value normal related accepted
  obtain ⟨normals, read, each⟩ := isSome_normal?_map_iff.mp accepted
  cases normal <;> cases read
  obtain ⟨entries, rfl, sources⟩ := (related.layer plain).of_map
  refine isSome_normal?_map_iff.mpr ⟨entries, rfl, fun e member => ?_⟩
  obtain ⟨f, inside', -, source⟩ := Entries.exists_mem_of_forall₂ sources member
  exact reflects e.2 f.2 source (each f inside')

theorem reflects_optional (plain : Plain whole) {inner : TypeExpr}
    (reflects : Reflects allowExtra whole inner) :
    Reflects allowExtra whole (.optional inner) := by
  intro value normal related accepted
  rw [normal?_optional] at accepted ⊢
  split at accepted
  next isNull =>
    cases normal <;> cases isNull
    cases related.layer plain
    simp [Value.isNull]
  next =>
    split
    · rfl
    · exact reflects value normal related accepted

theorem reflects_union (plain : Plain whole) {variants : List TypeExpr}
    (inside : (union variants).parts ⊆ whole.parts)
    (reflects : ∀ variant ∈ variants, Reflects allowExtra whole variant) :
    Reflects allowExtra whole (.union variants) := by
  intro value normal related accepted
  rw [normal?_union_strict plain inside, List.findSome?_isSome_iff] at accepted ⊢
  obtain ⟨variant, member, accepts⟩ := accepted
  exact ⟨variant, member, reflects variant member value normal related accepts⟩

/-- A mapping that became a record of some name was accepted by the one record type of that
    name; other mappings hold the same names as their normal forms. -/
theorem reflects_record (regular : Regular allowExtra rel whole) {name : String}
    {fields : List (RecordField TypeExpr)} (inside : (record name fields).parts ⊆ whole.parts)
    (reflects : ∀ field ∈ fields, Reflects allowExtra whole field.type) :
    Reflects allowExtra whole (.record name fields) := by
  intro value normal related accepted
  obtain ⟨input, read, fits, allowed⟩ := isSome_normal?_record_iff.mp accepted
  cases related.layer regular.toPlain with
  | self => exact accepted
  | list => cases read
  | @map entries normals aligned =>
    cases read
    rw [undeclared_eq_nil_iff, ← aligned.keys_eq, ← undeclared_eq_nil_iff] at allowed
    refine isSome_normal?_record_iff.mpr ⟨entries, rfl, ?_, allowed⟩
    intro field member
    have fit := fits field member
    simp only [fieldNormal?] at fit ⊢
    cases found : entries.get? field.name with
    | some v =>
      obtain ⟨n, found', source⟩ := aligned.get? found
      rw [found'] at fit
      exact reflects field member v n source fit
    | none =>
      rw [Entries.get?_eq_none_iff, aligned.keys_eq, ← Entries.get?_eq_none_iff] at found
      rwa [found] at fit
  | @record name' fields' _ entries inside' promoted =>
    have sameName : name' = name := by
      by_contra different
      simp [recordInput?, different] at read
    subst sameName
    have sameFields := regular.alike name' fields' fields (mem_of_parts_subset inside')
      (mem_of_parts_subset inside)
    subst sameFields
    simp [promoted]

/-- Each part of a regular type accepts a value wherever it accepts the normal form. -/
theorem reflects_of_regular (regular : Regular allowExtra rel whole)
    (inside : type.parts ⊆ whole.parts) : Reflects allowExtra whole type := by
  have plain := regular.toPlain
  induction type using TypeExpr.induction with
  | any => exact fun value _ _ _ => by simp [normal?_any]
  | null => exact reflects_null plain
  | bool | int | float | str => exact reflects_scalar plain (by simp)
  | format f => exact reflects_format plain f
  | list item ih => exact reflects_list plain (ih (parts_list_subset inside))
  | tuple types ih =>
    exact reflects_tuple plain fun t member => ih t member (parts_tuple_subset inside member)
  | map inner ih => exact reflects_map plain (ih (parts_map_subset inside))
  | optional inner ih => exact reflects_optional plain (ih (parts_optional_subset inside))
  | union variants ih =>
    apply reflects_union plain inside
    exact fun t member => ih t member (parts_union_subset inside member)
  | literal members =>
    exact reflects_literal plain (regular.members members (mem_of_parts_subset inside))
  | record name fields ih =>
    apply reflects_record regular inside
    exact fun field member => ih field member (parts_record_subset inside member)
  | foreign foreignType => exact absurd (mem_of_parts_subset inside) (plain.foreign foreignType)

/-! ## Lax mode -/

theorem Itemwise.imp {rules rules' : Rules} {types : List TypeExpr} {items normals : List Value}
    (itemwise : Itemwise rules types items normals)
    (h : ∀ type ∈ types, ∀ {v n}, type.normal? rules v = some n → type.normal? rules' v = some n) :
    Itemwise rules' types items normals := by
  induction itemwise with
  | nil => exact .nil
  | cons head _ ih =>
    have ⟨here, later⟩ := List.forall_mem_cons.mp h
    exact .cons (here head) (ih later)

theorem Filled.imp {rules rules' : Rules} {fields : List (RecordField TypeExpr)}
    {input declared : Entries Value} (filled : Filled rules input fields declared)
    (h : ∀ field ∈ fields, ∀ {v n}, field.type.normal? rules v = some n →
      field.type.normal? rules' v = some n) : Filled rules' input fields declared := by
  induction filled with
  | nil => exact .nil
  | @cons field entry _ _ head _ ih =>
    have ⟨here, later⟩ := List.forall_mem_cons.mp h
    refine .cons ⟨head.1, ?_⟩ (ih later)
    have found := head.2
    simp only [fieldNormal?] at found ⊢
    cases supplied : input.get? field.name with
    | some v =>
      rw [supplied] at found
      exact here found
    | none => rwa [supplied] at found

/-- A union that fits strictly fits in lax mode through its strict pass. -/
theorem normal?_union_lax_of_strict {variants : List TypeExpr}
    (h : (union variants).normal? (.strict allowExtra) value = some normal) :
    (union variants).normal? (.lax allowExtra) value = some normal := by
  rw [normal?_union_eq_some_iff] at h ⊢
  simp only [attempt] at h ⊢
  rw [h]
  rfl

/-- What conforms strictly has the same normal form in lax mode. -/
theorem normal?_lax_of_strict (h : type.normal? (.strict allowExtra) value = some normal) :
    type.normal? (.lax allowExtra) value = some normal := by
  induction type using TypeExpr.induction generalizing value normal with
  | any | null | format | literal | foreign => exact h
  | bool | int | float | str =>
    simp only [normal?_bool, normal?_int, normal?_float, normal?_str, reduceCtorEq, if_false,
      Option.ite_none_right_eq_some] at h ⊢
    simp [h]
  | list item ih =>
    obtain ⟨items, normals, rfl, rfl, each⟩ := normal?_list_eq_some_iff.mp h
    refine normal?_list_eq_some_iff.mpr ⟨items, normals, rfl, rfl, ?_⟩
    exact each.imp fun _ _ found => ih found
  | tuple types ih =>
    obtain ⟨items, normals, rfl, rfl, itemwise⟩ := normal?_tuple_eq_some_iff.mp h
    refine normal?_tuple_eq_some_iff.mpr ⟨items, normals, rfl, rfl, ?_⟩
    exact itemwise.imp fun t member _ _ found => ih t member found
  | map inner ih =>
    obtain ⟨entries, normals, read, rfl, aligned⟩ := normal?_map_eq_some_iff.mp h
    cases value <;> cases read
    refine normal?_map_eq_some_iff.mpr ⟨entries, normals, rfl, rfl, ?_⟩
    exact aligned.imp fun _ _ found => ih found
  | optional inner ih =>
    rw [normal?_optional] at h ⊢
    split at h
    next isNull => simpa [isNull] using h
    next present => simpa [present] using ih h
  | union variants _ => exact normal?_union_lax_of_strict h
  | record name fields ih =>
    obtain ⟨input, declared, read, filled, allowed, rfl⟩ := normal?_record_eq_some_iff.mp h
    refine normal?_record_eq_some_iff.mpr ⟨input, declared, ?_, ?_, allowed, rfl⟩
    · cases value <;> simp_all [recordInput?]
    · exact filled.imp fun field member _ _ found => ih field member found

/-- What the attempt of a union comes to, told from the variants in the mode of the union. -/
theorem attempt_cases (rules : Rules) (variants : List TypeExpr) (value : Value) :
    match attempt rules variants value with
    | .matched normal => ∃ variant ∈ variants, variant.normal? rules value = some normal
    | .broken _ => ∃ mode, (mode = .strict ∨ mode = rules.mode) ∧ ∃ variant ∈ variants,
        (variant.check ⟨mode, rules.allowExtra⟩ value .empty).fault? ≠ none
    | .refused => ∀ variant ∈ variants, variant.normal? rules value = none := by
  obtain ⟨mode, allowExtra⟩ := rules
  have strictly := tryVariants_cases (.strict allowExtra) variants value .empty
  have laxly := tryVariants_cases (.lax allowExtra) variants value .empty
  cases mode with
  | strict =>
    rw [attempt]
    split <;> rename_i first <;> rw [first] at strictly
    · exact strictly
    · exact ⟨.strict, .inl rfl, strictly⟩
    · exact strictly
  | lax =>
    rw [attempt]
    cases first : tryVariants (.strict allowExtra) variants value .empty with
    | matched normal =>
      rw [first] at strictly
      obtain ⟨variant, member, found⟩ := strictly
      exact ⟨variant, member, normal?_lax_of_strict found⟩
    | broken fault =>
      rw [first] at strictly
      exact ⟨.strict, .inl rfl, strictly⟩
    | refused =>
      rw [Attempt.orElse]
      split <;> rename_i second <;> rw [second] at laxly
      · exact laxly
      · exact ⟨.lax, .inr rfl, laxly⟩
      · exact laxly

/-- What a union makes of a value is made by one of its variants in the same mode. -/
theorem exists_variant_of_normal?_union {rules : Rules} {variants : List TypeExpr}
    (h : (union variants).normal? rules value = some normal) :
    ∃ variant ∈ variants, variant.normal? rules value = some normal := by
  have tried := attempt_cases rules variants value
  rwa [normal?_union_eq_some_iff.mp h] at tried

end TypeExpr

end CallGuard
