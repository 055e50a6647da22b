import CallGuard.Proofs.Completion
import CallGuard.Proofs.Equality

/-!
# Equal values are checked alike

In strict mode a check accepts equal values alike, and it makes equal normal forms of them unless
it fills in a default that holds a NaN.  A normal form that equals its value can therefore be
dropped: every later strict check treats the one like the other.
-/

namespace CallGuard

namespace Value

/-- Equal values, each with distinct names at every depth. -/
structure Twins (v w : Value) : Prop where
  distinct : v.Every DistinctNames
  distinct' : w.Every DistinctNames
  equal : v.equal w = true

/-- Equal values, unless the first holds a NaN. -/
def Agrees (v w : Value) : Prop := v.Every IsNumber → v.equal w = true

namespace Twins

variable {v w : Value}

theorem symm (twins : Twins v w) : Twins w v :=
  ⟨twins.distinct', twins.distinct, equal_symm twins.distinct twins.equal⟩

theorem agrees (twins : Twins v w) : Agrees v w := fun _ => twins.equal

theorem isNull_eq (twins : Twins v w) : v.isNull = w.isNull := by
  have equal := twins.equal
  cases v <;> cases w <;> simp_all [Value.equal, isNull]

theorem of_list {items : List Value} (twins : Twins (list items) w) :
    ∃ others, w = list others ∧ List.Forall₂ Twins items others := by
  obtain ⟨others, rfl, each⟩ := exists_of_equal_list twins.equal
  refine ⟨others, rfl, List.forall₂_of_length_eq_of_get each.length_eq fun i h h' => ?_⟩
  exact ⟨twins.distinct.item (List.get_mem _ _), twins.distinct'.item (List.get_mem _ _),
    each.get h h'⟩

/-- Twins that are read as entries are read as entries that cover each other. -/
theorem covered {es fs : Entries Value} (twins : Twins v w) (read : v.entries? = some es)
    (read' : w.entries? = some fs) : Entries.Covered Twins es fs := by
  have equal : Entries.Covered (fun v w => v.equal w = true) es fs := by
    cases v <;> cases read
    · obtain ⟨others, rfl, covered⟩ := exists_of_equal_map twins.equal
      cases read'
      exact covered
    · obtain ⟨others, rfl, covered⟩ := exists_of_equal_record twins.equal
      cases read'
      exact covered
  refine ⟨equal.length, fun entry member => ?_⟩
  obtain ⟨u, found, related⟩ := equal.reads entry member
  exact ⟨u, found, twins.distinct.entry read member,
    twins.distinct'.entry read' (Entries.mem_of_get? found), related⟩

end Twins

end Value

namespace TypeExpr

open Conformance Value

variable {whole type : TypeExpr} {v w n : Value} {allowExtra : Bool}

/-! ## Normal forms keep what is true of values -/

/-- All defaults that a type declares, at every depth, hold good values only. -/
def DefaultsEvery (good : Value → Prop) (type : TypeExpr) : Prop :=
  ∀ step default, IsDefault type step default → default.Every good

/-- What holds of all values but floats as soon as their names are distinct holds in a completed
    value if it holds in the value and in the defaults. -/
theorem Completes.every {good : Value → Prop}
    (shell : ∀ value : Value, value.DistinctNames → (∀ x, value ≠ .float x) → good value)
    (defaults : DefaultsEvery good whole) (completes : Completes whole v n)
    (distinct : v.Every DistinctNames) (every : v.Every good) : n.Every good := by
  -- By induction on the completed value, which has parts that the value has not: the defaults.
  induction n using Value.induction generalizing v with
  | null | bool | int | float | str =>
    cases completes
    exact every
  | list items ih =>
    cases completes with
    | list each =>
      refine .of_list (shell _ (by simp [DistinctNames, Value.entries?]) (by simp)) ?_
      intro item member
      obtain ⟨u, inside, completes⟩ := Entries.exists_mem_of_forall₂ each.flip member
      exact ih item member completes (distinct.item inside) (every.item inside)
  | map entries ih =>
    cases completes with
    | map names each =>
      have aligned := aligned_of_completes names each
      refine .of_map (shell _ ?_ (by simp)) fun entry member => ?_
      · rintro _ ⟨⟩
        exact names ▸ distinct.self _ rfl
      · obtain ⟨e, inside, -, completes⟩ := Entries.exists_mem_of_forall₂ aligned.swap member
        exact ih entry member completes (distinct.entry rfl inside) (every.entry rfl inside)
  | record typeName fields ih =>
    cases completes with
    | untouched => exact every
    | @record _ schema _ input _ declared source once kept each added =>
      have read : v.entries? = some input := by rcases source with rfl | rfl <;> rfl
      refine .of_record (shell _ ?_ (by simp)) fun entry member => ?_
      · rintro _ ⟨⟩
        exact once
      · obtain ⟨name, u⟩ := entry
        by_cases present : name ∈ input.keys
        · obtain ⟨⟨_, v'⟩, inside, rfl⟩ := List.mem_map.mp present
          exact ih _ member (each _ v' u inside member) (distinct.entry read inside)
            (every.entry read inside)
        · obtain ⟨field, listed, rfl, given⟩ := added name u member present
          exact defaults _ u ⟨typeName, schema, declared, field, listed, rfl, given⟩

/-! ## Walks through equal values -/

/-- A type treats equal values alike: what it makes of the one agrees with what it makes of the
    other, and a walk through the one meets a type that nothing conforms to only if a walk through
    the other does. -/
structure Respects (allowExtra : Bool) (type : TypeExpr) (v w : Value) : Prop where
  fits : ∀ n, type.normal? (.strict allowExtra) v = some n →
    ∃ m, type.normal? (.strict allowExtra) w = some m ∧ Agrees n m
  hollow : MeetsHollow (.strict allowExtra) type v → MeetsHollow (.strict allowExtra) type w

/-- A type treats all equal values alike. -/
def RespectsEqual (allowExtra : Bool) (type : TypeExpr) : Prop :=
  ∀ v w, Twins v w → Respects allowExtra type v w

theorem exists_recordInput? {mode : Mode} {name : String} {es : Entries Value} (twins : Twins v w)
    (read : recordInput? mode name v = some es) :
    ∃ fs, recordInput? mode name w = some fs ∧ es.keys.Nodup ∧ Entries.Covered Twins es fs := by
  have distinct := twins.distinct.self es (entries?_of_recordInput? read)
  obtain ⟨fs, read'⟩ : ∃ fs, recordInput? mode name w = some fs := by
    cases v <;> simp only [recordInput?, reduceCtorEq] at read
    · obtain ⟨others, rfl, -⟩ := exists_of_equal_map twins.equal
      exact ⟨others, rfl⟩
    · obtain ⟨others, rfl, -⟩ := exists_of_equal_record twins.equal
      rw [Option.ite_none_right_eq_some] at read
      exact ⟨others, by simp only [recordInput?, read.1, if_true]⟩
  exact ⟨fs, read', distinct,
    twins.covered (entries?_of_recordInput? read) (entries?_of_recordInput? read')⟩

theorem exists_mappingInput? {mode : Mode} {es : Entries Value} (twins : Twins v w)
    (read : mappingInput? mode v = some es) :
    ∃ fs, mappingInput? mode w = some fs ∧ es.keys.Nodup ∧ Entries.Covered Twins es fs := by
  have distinct := twins.distinct.self es (entries?_of_mappingInput? read)
  obtain ⟨fs, read'⟩ : ∃ fs, mappingInput? mode w = some fs := by
    cases v <;> simp only [mappingInput?, reduceCtorEq] at read
    · obtain ⟨others, rfl, -⟩ := exists_of_equal_map twins.equal
      exact ⟨others, rfl⟩
    · obtain ⟨others, rfl, -⟩ := exists_of_equal_record twins.equal
      rw [Option.ite_none_right_eq_some] at read
      exact ⟨others, by simp only [mappingInput?, read.1, if_true]⟩
  exact ⟨fs, read', distinct,
    twins.covered (entries?_of_mappingInput? read) (entries?_of_mappingInput? read')⟩

/-- Where a walk enters a value it enters an equal value at an equal member. -/
theorem Enters.exists_twin {rules : Rules} {step : PathSegment} {t : TypeExpr} {v' : Value}
    (enters : Enters rules type v step t v') (twins : Twins v w) :
    ∃ w', Enters rules type w step t w' ∧ Twins v' w' := by
  cases enters with
  | item found =>
    obtain ⟨others, rfl, each⟩ := twins.of_list
    obtain ⟨w', found', related⟩ := Entries.exists_getElem?_of_forall₂ each found
    exact ⟨w', .item found', related⟩
  | position length typed found =>
    obtain ⟨others, rfl, each⟩ := twins.of_list
    obtain ⟨w', found', related⟩ := Entries.exists_getElem?_of_forall₂ each found
    exact ⟨w', .position (each.length_eq ▸ length) typed found', related⟩
  | entry read member =>
    obtain ⟨fs, read', -, covered⟩ := exists_mappingInput? twins read
    obtain ⟨w', found, related⟩ := covered.reads _ member
    exact ⟨w', .entry read' (Entries.mem_of_get? found), related⟩
  | field read member found =>
    obtain ⟨fs, read', -, covered⟩ := exists_recordInput? twins read
    obtain ⟨w', found', related⟩ := covered.get? found
    exact ⟨w', .field read' member found', related⟩

/-- A type that is neither optional nor a union treats equal values alike if the types do that its
    walk enters, and if it makes normal forms of the ones like of the others. -/
theorem respectsEqual_of_enters (notOptional : ∀ inner, type ≠ .optional inner)
    (notUnion : ∀ variants, type ≠ .union variants)
    (each : ∀ v step t v', Enters (.strict allowExtra) type v step t v' →
      RespectsEqual allowExtra t)
    (fits : ∀ v w n, Twins v w → type.normal? (.strict allowExtra) v = some n →
      ∃ m, type.normal? (.strict allowExtra) w = some m ∧ Agrees n m) :
    RespectsEqual allowExtra type := by
  intro v w twins
  refine ⟨fun n => fits v w n twins, ?_⟩
  rw [meetsHollow_iff_of_ne notOptional notUnion, meetsHollow_iff_of_ne notOptional notUnion]
  refine Or.imp_right ?_
  rintro ⟨step, t, v', enters, met⟩
  obtain ⟨w', enters', twins'⟩ := enters.exists_twin twins
  exact ⟨step, t, w', enters', (each v step t v' enters v' w' twins').hollow met⟩

/-! ## One case for each kind of type -/

theorem fits_any (twins : Twins v w) (h : TypeExpr.any.normal? (.strict allowExtra) v = some n) :
    ∃ m, TypeExpr.any.normal? (.strict allowExtra) w = some m ∧ Agrees n m := by
  rw [normal?_any] at h
  cases h
  exact ⟨w, normal?_any, twins.agrees⟩

theorem fits_null (twins : Twins v w) (h : TypeExpr.null.normal? (.strict allowExtra) v = some n) :
    ∃ m, TypeExpr.null.normal? (.strict allowExtra) w = some m ∧ Agrees n m := by
  rw [normal?_null, twins.isNull_eq, Option.ite_none_right_eq_some] at h
  obtain ⟨isNull, same⟩ := h
  cases same
  exact ⟨.null, by simp [normal?_null, isNull], fun _ => rfl⟩

theorem fits_scalar (scalar : type = .bool ∨ type = .int ∨ type = .float ∨ type = .str)
    (twins : Twins v w) (h : type.normal? (.strict allowExtra) v = some n) :
    ∃ m, type.normal? (.strict allowExtra) w = some m ∧ Agrees n m := by
  have equal := twins.equal
  rcases scalar with rfl | rfl | rfl | rfl
  all_goals
    simp only [normal?_bool, normal?_int, normal?_float, normal?_str, reduceCtorEq, if_false,
      Option.ite_none_right_eq_some, Option.some.injEq] at h
    obtain ⟨own, rfl⟩ := h
    refine ⟨w, ?_, twins.agrees⟩
    cases v <;> cases own
    cases w <;> simp only [Value.equal, Bool.false_eq_true] at equal
    simp [normal?_bool, normal?_int, normal?_float, normal?_str, asBool?, asInt?, asFloat?, asStr?]

theorem fits_format (format : StringFormat) (twins : Twins v w)
    (h : (TypeExpr.format format).normal? (.strict allowExtra) v = some n) :
    ∃ m, (TypeExpr.format format).normal? (.strict allowExtra) w = some m ∧ Agrees n m := by
  obtain ⟨rfl, s, rfl, accepts⟩ := normal?_format_eq_some_iff.mp h
  have equal := twins.equal
  cases w <;> simp only [Value.equal, Bool.false_eq_true, beq_iff_eq] at equal
  subst equal
  exact ⟨_, normal?_format_eq_some_iff.mpr ⟨rfl, _, rfl, accepts⟩, twins.agrees⟩

/-- A member of a literal that equals a value equals what equals the value. -/
theorem fits_literal {members : List Value} (twins : Twins v w)
    (h : (TypeExpr.literal members).normal? (.strict allowExtra) v = some n) :
    ∃ m, (TypeExpr.literal members).normal? (.strict allowExtra) w = some m ∧ Agrees n m := by
  obtain ⟨rfl, chosen⟩ := normal?_literal_eq_some_iff.mp h
  obtain ⟨member, inside, equal⟩ := List.any_eq_true.mp chosen
  refine ⟨w, normal?_literal_eq_some_iff.mpr ⟨rfl, ?_⟩, twins.agrees⟩
  exact List.any_eq_true.mpr ⟨member, inside, equal_trans equal twins.equal⟩

theorem agrees_list {items others : List Value} (each : List.Forall₂ Agrees items others) :
    Agrees (.list items) (.list others) := by
  intro numbers
  refine equal_list_iff.mpr (List.forall₂_of_length_eq_of_get each.length_eq fun i h h' => ?_)
  exact each.get h h' (numbers.item (List.get_mem _ _))

theorem fits_list {item : TypeExpr} (respects : RespectsEqual allowExtra item)
    (twins : Twins v w) (h : (TypeExpr.list item).normal? (.strict allowExtra) v = some n) :
    ∃ m, (TypeExpr.list item).normal? (.strict allowExtra) w = some m ∧ Agrees n m := by
  obtain ⟨items, normals, rfl, rfl, each⟩ := normal?_list_eq_some_iff.mp h
  obtain ⟨others, rfl, pairs⟩ := twins.of_list
  obtain ⟨normals', each', agree⟩ := Entries.exists_forall₂_square pairs each
    fun v _ w n twins found => (respects v w twins).fits n found
  exact ⟨_, normal?_list_eq_some_iff.mpr ⟨others, normals', rfl, rfl, each'⟩, agrees_list agree⟩

theorem exists_itemwise_of_twins {types : List TypeExpr} {items others normals : List Value}
    (respects : ∀ type ∈ types, RespectsEqual allowExtra type)
    (pairs : List.Forall₂ Twins items others)
    (itemwise : Itemwise (.strict allowExtra) types items normals) :
    ∃ normals', Itemwise (.strict allowExtra) types others normals' ∧
      List.Forall₂ Agrees normals normals' := by
  induction itemwise generalizing others with
  | nil =>
    cases pairs
    exact ⟨[], .nil, .nil⟩
  | cons head _ ih =>
    have ⟨here, later⟩ := List.forall_mem_cons.mp respects
    cases pairs with
    | cons twins pairs =>
      obtain ⟨m, found, agrees⟩ := (here _ _ twins).fits _ head
      obtain ⟨normals', itemwise', agree⟩ := ih later pairs
      exact ⟨m :: normals', .cons found itemwise', .cons agrees agree⟩

theorem fits_tuple {types : List TypeExpr}
    (respects : ∀ type ∈ types, RespectsEqual allowExtra type) (twins : Twins v w)
    (h : (TypeExpr.tuple types).normal? (.strict allowExtra) v = some n) :
    ∃ m, (TypeExpr.tuple types).normal? (.strict allowExtra) w = some m ∧ Agrees n m := by
  obtain ⟨items, normals, rfl, rfl, itemwise⟩ := normal?_tuple_eq_some_iff.mp h
  obtain ⟨others, rfl, pairs⟩ := twins.of_list
  obtain ⟨normals', itemwise', agree⟩ := exists_itemwise_of_twins respects pairs itemwise
  exact ⟨_, normal?_tuple_eq_some_iff.mpr ⟨others, normals', rfl, rfl, itemwise'⟩,
    agrees_list agree⟩

theorem agrees_of_covered {entries others : Entries Value} {value : Value}
    (read : value.entries? = some entries) (covered : Entries.Covered Agrees entries others)
    (numbers : value.Every IsNumber) :
    Entries.Covered (fun v w => v.equal w = true) entries others :=
  covered.imp fun _ member _ agrees => agrees (numbers.entry read member)

/-- The entries of equal mappings may come in another order, and so do their normal forms. -/
theorem fits_map {inner : TypeExpr} (respects : RespectsEqual allowExtra inner)
    (twins : Twins v w) (h : (TypeExpr.map inner).normal? (.strict allowExtra) v = some n) :
    ∃ m, (TypeExpr.map inner).normal? (.strict allowExtra) w = some m ∧ Agrees n m := by
  obtain ⟨es, normals, read, rfl, aligned⟩ := normal?_map_eq_some_iff.mp h
  obtain ⟨fs, read', distinct, covered⟩ := exists_mappingInput? twins read
  have made : ∀ f ∈ fs, ∃ g : String × Value,
      f.1 = g.1 ∧ inner.normal? (.strict allowExtra) f.2 = some g.2 := by
    intro f member
    obtain ⟨v', found, twins'⟩ := (covered.swap distinct).reads f member
    obtain ⟨n', -, fits⟩ := aligned.get? found
    obtain ⟨m, fits', -⟩ := (respects _ _ twins').fits n' fits
    exact ⟨(f.1, m), rfl, fits'⟩
  -- Normal forms are made in the order of each value's own entries, so they meet by name only.
  obtain ⟨normals', aligned'⟩ : ∃ normals', Entries.Aligned
      (fun w m => inner.normal? (.strict allowExtra) w = some m) fs normals' :=
    Entries.exists_forall₂ made
  refine ⟨_, normal?_map_eq_some_iff.mpr ⟨fs, normals', read', rfl, aligned'⟩, fun numbers => ?_⟩
  refine equal_map_iff_covered.mpr (agrees_of_covered rfl ⟨?_, fun entry member => ?_⟩ numbers)
  · rw [← aligned.length_eq, ← aligned'.length_eq, covered.length]
  · have found := Entries.get?_of_mem (aligned.keys_eq ▸ distinct) member
    obtain ⟨v', there, fits⟩ := aligned.swap.get? found
    obtain ⟨w', there', twins'⟩ := covered.get? there
    obtain ⟨m, made, fits'⟩ := aligned'.get? there'
    obtain ⟨m', fits'', agrees⟩ := (respects _ _ twins').fits _ fits
    cases fits'.symm.trans fits''
    exact ⟨m, made, agrees⟩

theorem respects_optional {inner : TypeExpr} (respects : RespectsEqual allowExtra inner)
    (twins : Twins v w) : Respects allowExtra (.optional inner) v w := by
  constructor
  · intro n h
    rw [normal?_optional] at h ⊢
    rw [← twins.isNull_eq]
    split at h
    · next isNull =>
      cases h
      exact ⟨.null, by simp [isNull], fun _ => rfl⟩
    · next present =>
      simpa [present] using (respects v w twins).fits n h
  · rw [meetsHollow_optional_iff, meetsHollow_optional_iff, twins.isNull_eq]
    exact fun met => ⟨met.1, (respects v w twins).hollow met.2⟩

/-! ### Unions -/

theorem Respects.refused {variant : TypeExpr} (respects : Respects allowExtra variant w v)
    (refused : Refused (.strict allowExtra) v variant) :
    Refused (.strict allowExtra) w variant where
  normal? := by
    rw [Option.eq_none_iff_forall_ne_some]
    intro m fits
    obtain ⟨n, fits', -⟩ := respects.fits m fits
    simp [refused.normal?] at fits'
  fault? := by
    by_contra broken
    exact fault?_ne_none_iff.mpr (respects.hollow (fault?_ne_none_iff.mp broken)) refused.fault?

theorem GetsTo.of_twins {variants : List TypeExpr} {variant : TypeExpr} (twins : Twins v w)
    (respects : ∀ variant ∈ variants, RespectsEqual allowExtra variant)
    (getsTo : GetsTo (.strict allowExtra) v variants variant) :
    GetsTo (.strict allowExtra) w variants variant := by
  induction getsTo with
  | here => exact .here
  | later refused _ ih =>
    have ⟨first, rest⟩ := List.forall_mem_cons.mp respects
    -- What the other value's normal form would be is known from its twin, so a refusal carries
    -- over.
    exact .later ((first w v twins.symm).refused refused) (ih rest)

/-- An attempt matches what the variant makes that it gets to. -/
theorem tryVariants_eq_matched_iff {rules : Rules} {variants : List TypeExpr} :
    tryVariants rules variants v .empty = .matched n ↔
      ∃ variant, GetsTo rules v variants variant ∧ variant.normal? rules v = some n := by
  induction variants with
  | nil =>
    simp only [tryVariants, reduceCtorEq, false_iff]
    rintro ⟨variant, ⟨⟩, -⟩
  | cons first rest ih =>
    simp only [tryVariants, normal?_check]
    cases fault : (first.check rules v .empty).fault? with
    | some found =>
      simp only [reduceCtorEq, false_iff]
      rintro ⟨variant, _ | ⟨refused, -⟩, fits⟩
      · have sound := (isSome_normal?_iff .empty).mp (Option.isSome_iff_exists.mpr ⟨_, fits⟩)
        simp [fault] at sound
      · exact absurd refused.fault? (by simp [fault])
    | none =>
      cases normal : first.normal? rules v with
      | some found =>
        simp only [Attempt.matched.injEq]
        constructor
        · rintro rfl
          exact ⟨first, .here, normal⟩
        · rintro ⟨variant, _ | ⟨refused, -⟩, fits⟩
          · exact Option.some.inj (normal.symm.trans fits)
          · simp [refused.normal?] at normal
      | none =>
        rw [ih]
        constructor
        · rintro ⟨variant, getsTo, fits⟩
          exact ⟨variant, .later ⟨normal, fault⟩ getsTo, fits⟩
        · rintro ⟨variant, _ | ⟨-, getsTo⟩, fits⟩
          · simp [normal] at fits
          · exact ⟨variant, getsTo, fits⟩

/-- A union takes the same variant for equal values, since it refuses the same ones before. -/
theorem respects_union {variants : List TypeExpr}
    (respects : ∀ variant ∈ variants, RespectsEqual allowExtra variant) (twins : Twins v w) :
    Respects allowExtra (.union variants) v w := by
  constructor
  · intro n h
    rw [normal?_union_eq_some_iff, attempt, tryVariants_eq_matched_iff] at h
    obtain ⟨variant, getsTo, fits⟩ := h
    obtain ⟨m, fits', agrees⟩ := (respects variant getsTo.mem v w twins).fits n fits
    refine ⟨m, ?_, agrees⟩
    rw [normal?_union_eq_some_iff, attempt, tryVariants_eq_matched_iff]
    exact ⟨variant, getsTo.of_twins twins respects, fits'⟩
  · rw [meetsHollow_union_iff, meetsHollow_union_iff]
    refine Or.imp_right ?_
    rintro ⟨_, variant, ⟨getsTo⟩ | ⟨⟨⟩, -, -⟩, met⟩
    have met' := (respects variant getsTo.mem v w twins).hollow met
    exact ⟨.strict, variant, .strict (getsTo.of_twins twins respects), met'⟩

/-! ### Records -/

theorem agrees_refl (distinct : v.Every DistinctNames) : Agrees v v := fun numbers =>
  equal_refl fun part inside => ⟨distinct part inside, numbers part inside⟩

/-- A field is filled alike from entries that cover each other: both lack it or neither. -/
theorem exists_fieldNormal? {field : RecordField TypeExpr} {es fs : Entries Value}
    (respects : RespectsEqual allowExtra field.type) (distinct : es.keys.Nodup)
    (covered : Entries.Covered Twins es fs)
    (default : ∀ d, field.default = some d → d.Every DistinctNames)
    (filled : fieldNormal? (.strict allowExtra) field es = some n) :
    ∃ m, fieldNormal? (.strict allowExtra) field fs = some m ∧ Agrees n m := by
  simp only [fieldNormal?] at filled ⊢
  cases found : es.get? field.name with
  | some v =>
    obtain ⟨w, found', twins⟩ := covered.get? found
    rw [found] at filled
    simpa only [found'] using (respects v w twins).fits n filled
  | none =>
    rw [found] at filled
    rw [(covered.get?_eq_none_iff distinct).mp found]
    exact ⟨n, filled, agrees_refl (default n filled)⟩

theorem fits_record {name : String} {fields : List (RecordField TypeExpr)}
    (respects : ∀ field ∈ fields, RespectsEqual allowExtra field.type)
    (defaults : ∀ field ∈ fields, ∀ d, field.default = some d → d.Every DistinctNames)
    (twins : Twins v w)
    (h : (TypeExpr.record name fields).normal? (.strict allowExtra) v = some n) :
    ∃ m, (TypeExpr.record name fields).normal? (.strict allowExtra) w = some m ∧ Agrees n m := by
  obtain ⟨es, declared, read, filled, allowed, rfl⟩ := normal?_record_eq_some_iff.mp h
  obtain ⟨fs, read', distinct, covered⟩ := exists_recordInput? twins read
  obtain ⟨declared', filled', aligned⟩ : ∃ declared',
      Filled (.strict allowExtra) fs fields declared' ∧
        Entries.Aligned Agrees declared declared' := by
    have same : List.Forall₂ (fun field field' => field = field' ∧ field ∈ fields) fields fields :=
      List.forall₂_same.mpr fun field member => ⟨rfl, member⟩
    refine Entries.exists_forall₂_square same filled ?_
    rintro field member _ ⟨key, n⟩ ⟨rfl, -⟩ ⟨rfl, filled⟩
    obtain ⟨m, filled', agrees⟩ := exists_fieldNormal? (respects field member) distinct covered
      (defaults field member) filled
    exact ⟨(field.name, m), ⟨rfl, filled'⟩, rfl, agrees⟩
  -- Declared fields are in the order of the type on both sides, undeclared ones in any order.
  have kept : Entries.Covered Twins (undeclared fields es) (undeclared fields fs) :=
    covered.filter distinct fun name => !fields.any fun field => field.name == name
  have distinct' : (undeclared fields es).keys.Nodup :=
    (List.filter_sublist.map Prod.fst).nodup distinct
  refine ⟨_, normal?_record_eq_some_iff.mpr ⟨fs, declared', read', filled', ?_, rfl⟩, ?_⟩
  · refine allowed.imp_right fun none => ?_
    rw [← List.length_eq_zero_iff, ← kept.length, none, List.length_nil]
  · intro numbers
    have merged :=
      Entries.covered_merged aligned (kept.imp fun _ _ _ twins => twins.agrees) distinct'
    exact equal_record_iff_covered.mpr ⟨rfl, agrees_of_covered rfl merged numbers⟩

/-! ### Putting the cases together -/

/-- A part of a type without foreign types treats equal values alike. -/
theorem respectsEqual_of_parts (foreign : ∀ foreignType, .foreign foreignType ∉ whole.parts)
    (defaults : DefaultsEvery DistinctNames whole) (inside : type.parts ⊆ whole.parts) :
    RespectsEqual allowExtra type := by
  induction type using TypeExpr.induction with
  | any =>
    exact respectsEqual_of_enters (by simp) (by simp) (fun _ _ _ _ enters => nomatch enters)
      fun v w n => fits_any
  | null =>
    exact respectsEqual_of_enters (by simp) (by simp) (fun _ _ _ _ enters => nomatch enters)
      fun v w n => fits_null
  | bool | int | float | str =>
    exact respectsEqual_of_enters (by simp) (by simp) (fun _ _ _ _ enters => nomatch enters)
      fun v w n => fits_scalar (by simp)
  | format f =>
    exact respectsEqual_of_enters (by simp) (by simp) (fun _ _ _ _ enters => nomatch enters)
      fun v w n => fits_format f
  | literal members =>
    exact respectsEqual_of_enters (by simp) (by simp) (fun _ _ _ _ enters => nomatch enters)
      fun v w n => fits_literal
  | list item ih =>
    have respects := ih (parts_list_subset inside)
    refine respectsEqual_of_enters (by simp) (by simp) (fun v step t v' enters => ?_)
      fun v w n => fits_list respects
    cases enters
    exact respects
  | tuple types ih =>
    have respects := fun t member => ih t member (parts_tuple_subset inside member)
    refine respectsEqual_of_enters (by simp) (by simp) (fun v step t v' enters => ?_)
      fun v w n => fits_tuple respects
    cases enters with
    | position length typed found => exact respects t (List.mem_of_getElem? typed)
  | map inner ih =>
    have respects := ih (parts_map_subset inside)
    refine respectsEqual_of_enters (by simp) (by simp) (fun v step t v' enters => ?_)
      fun v w n => fits_map respects
    cases enters
    exact respects
  | record name fields ih =>
    have respects := fun field member => ih field member (parts_record_subset inside member)
    refine respectsEqual_of_enters (by simp) (by simp) (fun v step t v' enters => ?_)
      fun v w n => fits_record respects fun field member d given => ?_
    · cases enters with
      | field read member found => exact respects _ member
    · exact defaults _ d ⟨name, fields, mem_of_parts_subset inside, field, member, rfl, given⟩
  | optional inner ih => exact fun v w => respects_optional (ih (parts_optional_subset inside))
  | union variants ih =>
    refine fun v w => respects_union fun t member => ?_
    exact ih t member (parts_union_subset inside member)
  | foreign foreignType => exact absurd (mem_of_parts_subset inside) (foreign foreignType)

/-! ## What strict checks can tell apart -/

/-- No strict check tells two values apart.  It accepts both or neither, it makes equal normal forms
    of them unless these hold a NaN, which only a default can bring in, and it leaves both as they
    are or neither. -/
def CheckedAlike (v w : Value) : Prop :=
  ∀ (type : TypeExpr) (allowExtra : Bool) (path path' : Path),
    (∀ foreignType, .foreign foreignType ∉ type.parts) → DefaultsEvery DistinctNames type →
    ((type.check (.strict allowExtra) v path).normal?.isSome ↔
      (type.check (.strict allowExtra) w path').normal?.isSome) ∧
    ∀ n m, (type.check (.strict allowExtra) v path).normal? = some n →
      (type.check (.strict allowExtra) w path').normal? = some m →
        (n.Equal m ↔ n.Every IsNumber) ∧ (DefaultsEvery IsNumber type → n.Equal m) ∧
          (n.Equal v ↔ m.Equal w)

theorem distinctNames_of_normal? (foreign : ∀ foreignType, .foreign foreignType ∉ type.parts)
    (defaults : DefaultsEvery DistinctNames type) (distinct : v.Every DistinctNames)
    (h : type.normal? (.strict allowExtra) v = some n) : n.Every DistinctNames :=
  (completes_of_normal? foreign (List.Subset.refl _) distinct h).every
    (fun _ distinct _ => distinct) defaults distinct distinct

theorem isNumber_of_normal? (foreign : ∀ foreignType, .foreign foreignType ∉ type.parts)
    (defaults : DefaultsEvery IsNumber type) (distinct : v.Every DistinctNames)
    (numbers : v.Every IsNumber) (h : type.normal? (.strict allowExtra) v = some n) :
    n.Every IsNumber :=
  (completes_of_normal? foreign (List.Subset.refl _) distinct h).every
    (fun _ _ notFloat x same => absurd same (notFloat x)) defaults distinct numbers

theorem agrees_of_normal? {m : Value} (foreign : ∀ foreignType, .foreign foreignType ∉ type.parts)
    (defaults : DefaultsEvery DistinctNames type) (twins : Twins v w)
    (h : type.normal? (.strict allowExtra) v = some n)
    (h' : type.normal? (.strict allowExtra) w = some m) : Agrees n m := by
  have respects : RespectsEqual allowExtra type :=
    respectsEqual_of_parts foreign defaults (List.Subset.refl _)
  obtain ⟨m', found, agrees⟩ := (respects v w twins).fits n h
  cases h'.symm.trans found
  exact agrees

/-- A value that equals its normal form has no equal that differs from its own. -/
theorem equal_of_twin {m : Value} (foreign : ∀ foreignType, .foreign foreignType ∉ type.parts)
    (defaults : DefaultsEvery DistinctNames type) (twins : Twins v w)
    (h : type.normal? (.strict allowExtra) v = some n)
    (h' : type.normal? (.strict allowExtra) w = some m) (unchanged : n.equal v = true) :
    m.equal w = true := by
  have distinct := distinctNames_of_normal? foreign defaults twins.distinct h
  have both := agrees_of_normal? foreign defaults twins h h' (isNumber_of_equal unchanged)
  exact equal_trans (equal_trans (equal_symm distinct both) unchanged) twins.equal

theorem checkedAlike_of_twins (twins : Twins v w) : CheckedAlike v w := by
  intro type allowExtra path path' foreign defaults
  have respects : RespectsEqual allowExtra type :=
    respectsEqual_of_parts foreign defaults (List.Subset.refl _)
  simp only [normal?_check]
  constructor
  · simp only [Option.isSome_iff_exists]
    constructor
    · rintro ⟨n, h⟩
      obtain ⟨m, h', -⟩ := (respects v w twins).fits n h
      exact ⟨m, h'⟩
    · rintro ⟨m, h'⟩
      obtain ⟨n, h, -⟩ := (respects w v twins.symm).fits m h'
      exact ⟨n, h⟩
  · intro n m h h'
    have agrees := agrees_of_normal? foreign defaults twins h h'
    refine ⟨⟨isNumber_of_equal, agrees⟩, fun numbers => agrees ?_, ?_, ?_⟩
    · exact isNumber_of_normal? foreign numbers twins.distinct (isNumber_of_equal twins.equal) h
    · exact equal_of_twin foreign defaults twins h h'
    · exact equal_of_twin foreign defaults twins.symm h' h

/-- Strict checks respect equality, which is an equivalence of the values without NaN.  So a normal
    form that equals its value may be dropped: no later strict check tells the two apart. -/
theorem check_strict_respects_equal :
    (∀ v w : Value, v.Every DistinctNames → w.Every DistinctNames → v.Equal w →
      CheckedAlike v w) ∧
    (∀ (type : TypeExpr) (allowExtra : Bool) (path : Path) (v n : Value),
      (∀ foreignType, .foreign foreignType ∉ type.parts) → DefaultsEvery DistinctNames type →
      v.Every DistinctNames → (type.check (.strict allowExtra) v path).normal? = some n →
        n.Equal v → CheckedAlike n v) ∧
    (∀ v : Value, v.Every DistinctNames → (v.Equal v ↔ v.Every IsNumber)) ∧
    (∀ v w : Value, v.Every DistinctNames → v.Equal w → w.Equal v) ∧
    ∀ u v w : Value, u.Equal v → v.Equal w → u.Equal w := by
  refine ⟨fun v w distinct distinct' equal => ?_, ?_, fun v distinct => ?_,
    fun v w => equal_symm, fun u v w => equal_trans⟩
  · exact checkedAlike_of_twins ⟨distinct, distinct', equal⟩
  · intro type allowExtra path v n foreign defaults distinct h unchanged
    rw [normal?_check] at h
    have distinct' := distinctNames_of_normal? foreign defaults distinct h
    exact checkedAlike_of_twins ⟨distinct', distinct, unchanged⟩
  · exact ⟨isNumber_of_equal, agrees_refl distinct⟩

/-- The names of a point may come in any order and its zero with any sign.  Its normal form is in
    the order of the fields and equals it, so it may be dropped. -/
theorem check_strict_respects_equal_points :
    let point : TypeExpr := .union [.int,
      .record "Point" [⟨"x", .float, none⟩, ⟨"tags", .list .str, some (.list [])⟩]]
    let v : Value := .record "Point" [("tags", .list []), ("x", .float (.zero false))]
    let w : Value := .record "Point" [("x", .float (.zero true)), ("tags", .list [])]
    let n : Value := .record "Point" [("x", .float (.zero false)), ("tags", .list [])]
    v.Equal w ∧ (point.check (.strict false) v .empty).normal? = some n ∧ n.Equal v ∧
      CheckedAlike v w ∧ CheckedAlike n v ∧ v.Equal v ∧ w.Equal v ∧ n.Equal w := by
  intro point v w n
  obtain ⟨alike, dropped, reflexive, symmetric, transitive⟩ := check_strict_respects_equal
  have distinct : v.Every DistinctNames := by
    simp [v, Value.Every, Value.parts, Value.partsItems, Value.partsEntries, DistinctNames,
      Value.entries?]
  have distinct' : w.Every DistinctNames := by
    simp [w, Value.Every, Value.parts, Value.partsItems, Value.partsEntries, DistinctNames,
      Value.entries?]
  have equal : v.Equal w := by rfl
  have passed : (point.check (.strict false) v .empty).normal? = some n := by rfl
  have unchanged : n.Equal v := by rfl
  have foreign : ∀ foreignType, .foreign foreignType ∉ point.parts := by
    simp [point, parts, partsAll, partsFields]
  have defaults : DefaultsEvery DistinctNames point := by
    simp [point, DefaultsEvery, IsDefault, parts, partsAll, partsFields, Value.Every, Value.parts,
      Value.partsItems, DistinctNames, Value.entries?]
  have numbers : v.Every IsNumber := isNumber_of_equal equal
  exact ⟨equal, passed, unchanged, alike v w distinct distinct' equal,
    dropped point false .empty v n foreign defaults distinct passed unchanged,
    (reflexive v distinct).mpr numbers, symmetric v w distinct equal,
    transitive n v w unchanged equal⟩

/-- A default that holds a NaN is filled in as it is, and what it is filled into equals nothing. -/
theorem not_equal_normal?_of_equal :
    let type : TypeExpr := .record "P" [⟨"x", .float, some (.float .nan)⟩]
    let value : Value := .map []
    let normal : Value := .record "P" [("x", .float .nan)]
    (∀ foreignType, .foreign foreignType ∉ type.parts) ∧ value.Equal value ∧
      (type.check (.strict false) value .empty).normal? = some normal ∧ ¬ normal.Equal normal := by
  intro type value normal
  exact ⟨by simp [type, parts, partsFields], by rfl, by rfl, by decide +kernel⟩

end TypeExpr

end CallGuard
