import CallGuard.Proofs.StrictNormalForm

/-!
# Normal forms of normal forms

A normal form conforms strictly to its type, and what it normalizes to is related to it, unless
conversion in lax mode let a variant of a union be taken after an earlier one that the
converted value fits strictly and that changes it.
-/

namespace CallGuard

open Conformance

namespace TypeExpr

/-- Somewhere in the value a union takes a variant by conversion, and an earlier variant strictly
    accepts what the value was converted to and turns it into something unrelated. -/
inductive Overtaken (rules : Rules) (rel : Value → Value → Prop) : TypeExpr → Value → Prop
  | item {type : TypeExpr} {items : List Value} {value : Value} (member : value ∈ items)
      (inner : Overtaken rules rel type value) : Overtaken rules rel (.list type) (.list items)
  | position {types : List TypeExpr} {items : List Value} {pair : TypeExpr × Value}
      (member : pair ∈ types.zip items) (inner : Overtaken rules rel pair.1 pair.2) :
      Overtaken rules rel (.tuple types) (.list items)
  | entry {type : TypeExpr} {value : Value} {entries : Entries Value} {entry : String × Value}
      (read : mappingInput? rules.mode value = some entries) (member : entry ∈ entries)
      (inner : Overtaken rules rel type entry.2) : Overtaken rules rel (.map type) value
  | present {type : TypeExpr} {value : Value} (present : value.isNull = false)
      (inner : Overtaken rules rel type value) : Overtaken rules rel (.optional type) value
  | field {name : String} {fields : List (RecordField TypeExpr)} {value : Value}
      {input : Entries Value} {field : RecordField TypeExpr} {v : Value}
      (read : recordInput? rules.mode name value = some input) (member : field ∈ fields)
      (found : input.get? field.name = some v) (inner : Overtaken rules rel field.type v) :
      Overtaken rules rel (.record name fields) value
  /-- The variant that was taken is still the first that fits, but went astray itself. -/
  | variant {variants before after : List TypeExpr} {variant : TypeExpr} {value normal : Value}
      (lax : rules.mode = .lax) (split : variants = before ++ variant :: after)
      (refused : ∀ other ∈ variants, other.normal? (.strict rules.allowExtra) value = none)
      (skipped : ∀ other ∈ before, other.normal? rules value = none)
      (taken : variant.normal? rules value = some normal)
      (unclaimed : ∀ other ∈ before, other.normal? (.strict rules.allowExtra) normal = none)
      (inner : Overtaken rules rel variant value) : Overtaken rules rel (.union variants) value
  /-- An earlier variant takes the converted value over. -/
  | earlier {variants before after : List TypeExpr} {variant : TypeExpr}
      {value normal claimed : Value} (lax : rules.mode = .lax)
      (split : variants = before ++ variant :: after)
      (refused : ∀ other ∈ variants, other.normal? (.strict rules.allowExtra) value = none)
      (skipped : ∀ other ∈ before, other.normal? rules value = none)
      (taken : variant.normal? rules value = some normal)
      (first : before.findSome? (fun other => other.normal? (.strict rules.allowExtra) normal) =
        some claimed)
      (changed : ¬ rel claimed normal) : Overtaken rules rel (.union variants) value

variable {rules : Rules} {rel : Value → Value → Prop} {whole type : TypeExpr}
  {value normal : Value}

theorem overtaken_list_iff {item : TypeExpr} {items : List Value} :
    Overtaken rules rel (.list item) (.list items) ↔ ∃ v ∈ items, Overtaken rules rel item v := by
  constructor
  · intro overtaken
    cases overtaken with
    | item member inner => exact ⟨_, member, inner⟩
  · intro inner
    rcases inner with ⟨v, member, inner⟩
    exact .item member inner

theorem overtaken_tuple_iff {types : List TypeExpr} {items : List Value} :
    Overtaken rules rel (.tuple types) (.list items) ↔
      ∃ pair ∈ types.zip items, Overtaken rules rel pair.1 pair.2 := by
  constructor
  · intro overtaken
    cases overtaken with
    | position member inner => exact ⟨_, member, inner⟩
  · intro inner
    rcases inner with ⟨pair, member, inner⟩
    exact .position member inner

theorem overtaken_map_iff {item : TypeExpr} {entries : Entries Value}
    (read : mappingInput? rules.mode value = some entries) :
    Overtaken rules rel (.map item) value ↔
      ∃ entry ∈ entries, Overtaken rules rel item entry.2 := by
  constructor
  · intro overtaken
    cases overtaken with
    | entry read' member inner =>
      cases read.symm.trans read'
      exact ⟨_, member, inner⟩
  · intro inner
    rcases inner with ⟨entry, member, inner⟩
    exact .entry read member inner

theorem overtaken_optional_iff {inner : TypeExpr} (present : value.isNull = false) :
    Overtaken rules rel (.optional inner) value ↔ Overtaken rules rel inner value := by
  constructor
  · intro overtaken
    cases overtaken with
    | present _ inner => exact inner
  · exact .present present

theorem overtaken_record_iff {name : String} {fields : List (RecordField TypeExpr)}
    {input : Entries Value} (read : recordInput? rules.mode name value = some input) :
    Overtaken rules rel (.record name fields) value ↔ ∃ field ∈ fields, ∃ v,
      input.get? field.name = some v ∧ Overtaken rules rel field.type v := by
  constructor
  · intro overtaken
    cases overtaken with
    | field read' member found inner =>
      cases read.symm.trans read'
      exact ⟨_, member, _, found, inner⟩
  · intro inner
    rcases inner with ⟨field, member, v, found, inner⟩
    exact .field read member found inner

theorem Overtaken.refused {variants : List TypeExpr}
    (overtaken : Overtaken rules rel (.union variants) value) :
    ∀ other ∈ variants, other.normal? (.strict rules.allowExtra) value = none := by
  cases overtaken with
  | variant _ _ refused | earlier _ _ refused => exact refused

/-- Nothing is overtaken in strict mode. -/
theorem not_overtaken_strict (strict : rules.mode = .strict) :
    ¬ Overtaken rules rel type value := by
  intro overtaken
  induction overtaken with
  | item _ _ ih | position _ _ ih | entry _ _ _ ih | present _ _ ih | field _ _ _ _ ih => exact ih
  | variant lax | earlier lax => simp [strict] at lax

/-- The lists of variants before and after the first one that passes a test are determined. -/
theorem eq_of_append_cons_eq {α : Type} {p : α → Prop} {before before' after after' : List α}
    {x x' : α} (same : before ++ x :: after = before' ++ x' :: after')
    (skipped : ∀ y ∈ before, ¬ p y) (skipped' : ∀ y ∈ before', ¬ p y) (taken : p x)
    (taken' : p x') : before = before' ∧ x = x' := by
  induction before generalizing before' with
  | nil =>
    cases before' with
    | nil =>
      cases same
      exact ⟨rfl, rfl⟩
    | cons y rest =>
      cases same
      exact absurd taken (skipped' x List.mem_cons_self)
  | cons z rest ih =>
    cases before' with
    | nil =>
      cases same
      exact absurd taken' (skipped _ List.mem_cons_self)
    | cons y rest' =>
      injection same with head tail
      subst head
      obtain ⟨rfl, equal⟩ := ih tail (fun w inside => skipped w (List.mem_cons_of_mem _ inside))
        fun w inside => skipped' w (List.mem_cons_of_mem _ inside)
      exact ⟨rfl, equal⟩

/-- Where the first variant that fits by conversion is known, its union is overtaken exactly if
    an earlier variant changes the result or none claims it and the variant is overtaken. -/
theorem overtaken_union_iff {before after : List TypeExpr} {variant : TypeExpr}
    (lax : rules.mode = .lax)
    (refused : ∀ other ∈ before ++ variant :: after,
      other.normal? (.strict rules.allowExtra) value = none)
    (skipped : ∀ other ∈ before, other.normal? rules value = none)
    (taken : variant.normal? rules value = some normal) :
    Overtaken rules rel (.union (before ++ variant :: after)) value ↔
      match before.findSome? fun other => other.normal? (.strict rules.allowExtra) normal with
      | some claimed => ¬ rel claimed normal
      | none => Overtaken rules rel variant value := by
  have determined : ∀ {before' after' variant' normal'},
      before ++ variant :: after = before' ++ variant' :: after' →
      (∀ other ∈ before', other.normal? rules value = none) →
      variant'.normal? rules value = some normal' →
      before = before' ∧ variant = variant' ∧ normal = normal' := by
    intro before' after' variant' normal' split skipped' taken'
    obtain ⟨rfl, rfl⟩ := eq_of_append_cons_eq
      (p := fun other => (other.normal? rules value).isSome) split
      (fun y inside => by simp [skipped y inside]) (fun y inside => by simp [skipped' y inside])
      (by simp [taken]) (by simp [taken'])
    exact ⟨rfl, rfl, Option.some.inj (taken.symm.trans taken')⟩
  constructor
  · intro overtaken
    cases overtaken with
    | variant _ split _ skipped' taken' unclaimed inner =>
      obtain ⟨rfl, rfl, rfl⟩ := determined split skipped' taken'
      rw [List.findSome?_eq_none_iff.mpr unclaimed]
      exact inner
    | earlier _ split _ skipped' taken' first changed =>
      obtain ⟨rfl, rfl, rfl⟩ := determined split skipped' taken'
      rw [first]
      exact changed
  · intro overtaken
    split at overtaken
    next claimed first => exact .earlier lax rfl refused skipped taken first overtaken
    next unclaimed =>
      exact .variant lax rfl refused skipped taken
        (List.findSome?_eq_none_iff.mp unclaimed) overtaken

/-- A scalar that was converted is an atom of the kind that its type asks for. -/
theorem normal?_atom (atom : type = .bool ∨ type = .int ∨ type = .float ∨ type = .str)
    (h : type.normal? rules value = some normal) :
    (∀ rules', type.normal? rules' normal = some normal) ∧
      (normal = value ∨ rules.mode = .lax ∧ normal.parts = [normal] ∧ normal.entries? = none) := by
  rcases atom with rfl | rfl | rfl | rfl
  all_goals
    simp only [normal?_bool, normal?_int, normal?_float, normal?_str] at h ⊢
    split at h
    next own =>
      cases h
      simp [own]
    next =>
      simp only [Option.ite_none_right_eq_some, Option.map_eq_some_iff] at h
      obtain ⟨lax, x, -, rfl⟩ := h
      simp [lax, Value.parts, Value.entries?, Value.asBool?, Value.asInt?, Value.asFloat?,
        Value.asStr?]

/-! ## One case for each kind of type -/

/-- A normal form has a normal form in strict mode, related to it unless its value is
    overtaken. -/
def Renormalizes (rules : Rules) (rel : Value → Value → Prop) (type : TypeExpr)
    (value : Value) : Prop :=
  ∀ normal, type.normal? rules value = some normal →
    ∃ again, type.normal? (.strict rules.allowExtra) normal = some again ∧
      (rel again normal ↔ ¬ Overtaken rules rel type value)

theorem exists_itemwise_again {types : List TypeExpr} {items normals : List Value}
    (itemwise : Itemwise rules types items normals)
    (inner : ∀ type ∈ types, ∀ v ∈ items, Renormalizes rules rel type v) :
    ∃ agains, Itemwise (.strict rules.allowExtra) types normals agains ∧
      (List.Forall₂ rel agains normals ↔
        ∀ pair ∈ types.zip items, ¬ Overtaken rules rel pair.1 pair.2) := by
  induction itemwise with
  | nil => exact ⟨[], .nil, by simp⟩
  | cons head _ ih =>
    obtain ⟨n', found, agree⟩ := inner _ List.mem_cons_self _ List.mem_cons_self _ head
    obtain ⟨agains, itemwise, agrees⟩ := ih fun type inside v inside' =>
      inner type (List.mem_cons_of_mem _ inside) v (List.mem_cons_of_mem _ inside')
    refine ⟨n' :: agains, .cons found itemwise, ?_⟩
    simp [agree, agrees]

section Cases

variable {good : Value → Prop} (congruent : Value.Congruent good rel)

include congruent

theorem renormalizes_any (every : value.Every good) : Renormalizes rules rel .any value := by
  intro normal h
  rw [normal?_any] at h
  cases h
  refine ⟨value, normal?_any, iff_of_true (congruent.refl value every) ?_⟩
  intro overtaken
  cases overtaken

theorem renormalizes_null (every : value.Every good) : Renormalizes rules rel .null value := by
  intro normal h
  rw [normal?_null] at h
  split at h <;> cases h
  next isNull =>
    cases value <;> cases isNull
    refine ⟨.null, by simp [normal?_null, Value.isNull], iff_of_true (congruent.refl _ every) ?_⟩
    intro overtaken
    cases overtaken

theorem renormalizes_scalar
    (scalar : type = .bool ∨ type = .int ∨ type = .float ∨ type = .str)
    (atoms : rules.mode = .lax → ∀ v : Value, v.entries? = none → good v)
    (every : value.Every good) : Renormalizes rules rel type value := by
  intro normal h
  obtain ⟨again, origin⟩ := normal?_atom scalar h
  refine ⟨normal, again _, iff_of_true ?_ ?_⟩
  · rcases origin with rfl | ⟨lax, parts, entries⟩
    · exact congruent.refl _ every
    · apply congruent.refl
      simpa [Value.Every, parts] using atoms lax normal entries
  · intro overtaken
    rcases scalar with rfl | rfl | rfl | rfl <;> cases overtaken

theorem renormalizes_format (format : StringFormat) (every : value.Every good) :
    Renormalizes rules rel (.format format) value := by
  intro normal h
  obtain ⟨rfl, fits⟩ := normal?_format_eq_some_iff.mp h
  refine ⟨normal, normal?_format_eq_some_iff.mpr ⟨rfl, fits⟩,
    iff_of_true (congruent.refl _ every) ?_⟩
  intro overtaken
  cases overtaken

theorem renormalizes_literal (members : List Value) (every : value.Every good) :
    Renormalizes rules rel (.literal members) value := by
  intro normal h
  obtain ⟨rfl, fits⟩ := normal?_literal_eq_some_iff.mp h
  refine ⟨normal, normal?_literal_eq_some_iff.mpr ⟨rfl, fits⟩,
    iff_of_true (congruent.refl _ every) ?_⟩
  intro overtaken
  cases overtaken

theorem renormalizes_list {item : TypeExpr}
    (inner : ∀ items, value = .list items → ∀ v ∈ items, Renormalizes rules rel item v) :
    Renormalizes rules rel (.list item) value := by
  intro normal h
  obtain ⟨items, normals, rfl, rfl, each⟩ := normal?_list_eq_some_iff.mp h
  obtain ⟨agains, each', -, agrees⟩ := Entries.exists_forall₂_step (t := fun _ _ => True)
    (Overtaken rules rel item) each fun v member n _ found => by
      obtain ⟨n', found', agree⟩ := inner items rfl v member n found
      exact ⟨n', found', trivial, agree⟩
  refine ⟨.list agains, normal?_list_eq_some_iff.mpr ⟨_, _, rfl, rfl, each'⟩, ?_⟩
  rw [congruent.list, agrees, overtaken_list_iff]
  simp

theorem renormalizes_tuple {types : List TypeExpr}
    (inner : ∀ items, value = .list items → ∀ type ∈ types, ∀ v ∈ items,
      Renormalizes rules rel type v) : Renormalizes rules rel (.tuple types) value := by
  intro normal h
  obtain ⟨items, normals, rfl, rfl, itemwise⟩ := normal?_tuple_eq_some_iff.mp h
  obtain ⟨agains, itemwise', agrees⟩ := exists_itemwise_again itemwise (inner items rfl)
  refine ⟨.list agains, normal?_tuple_eq_some_iff.mpr ⟨_, _, rfl, rfl, itemwise'⟩, ?_⟩
  rw [congruent.list, agrees, overtaken_tuple_iff]
  simp

theorem renormalizes_map {item : TypeExpr} (every : value.Every good)
    (inner : ∀ entries, value.entries? = some entries → ∀ entry ∈ entries,
      Renormalizes rules rel item entry.2) : Renormalizes rules rel (.map item) value := by
  intro normal h
  obtain ⟨entries, normals, read, rfl, aligned⟩ := normal?_map_eq_some_iff.mp h
  have read' := entries?_of_mappingInput? read
  have distinct := congruent.distinct value every.self entries read'
  obtain ⟨agains, aligned', agrees⟩ := aligned.exists_step (Overtaken rules rel item)
    fun entry member n found => inner entries read' entry member n found
  refine ⟨.map agains, normal?_map_eq_some_iff.mpr ⟨normals, agains, rfl, rfl, aligned'⟩, ?_⟩
  have names := aligned'.keys_eq.symm
  rw [congruent.map (by rwa [names, ← aligned.keys_eq]) names, overtaken_map_iff read, agrees]
  simp

theorem renormalizes_optional (plain : Plain whole) {item : TypeExpr}
    (inside : item.parts ⊆ whole.parts) (every : value.Every good)
    (inner : Renormalizes rules rel item value) :
    Renormalizes rules rel (.optional item) value := by
  intro normal h
  rw [normal?_optional] at h
  split at h
  next isNull =>
    cases h
    refine ⟨.null, by simp [normal?_optional, Value.isNull], ?_⟩
    cases value <;> cases isNull
    refine iff_of_true (congruent.refl _ every) fun overtaken => ?_
    cases overtaken with
    | present present => cases present
  next present =>
    obtain ⟨again, found, agree⟩ := inner normal h
    refine ⟨again, ?_, ?_⟩
    · rw [normal?_optional]
      split
      next isNull =>
        cases normal <;> cases isNull
        -- Only null itself has the normal form null.
        have layer := layer_of_normal? plain inside found
        cases layer with
        | self => rfl
        | record _ promoted => simp [normal?_record_eq_some_iff, recordInput?] at promoted
      · exact found
    · rwa [overtaken_optional_iff (by simpa using present)]

theorem renormalizes_record (regular : Regular rules.allowExtra rel whole) {name : String}
    {fields : List (RecordField TypeExpr)} (inside : (record name fields).parts ⊆ whole.parts)
    (every : value.Every good)
    (inner : ∀ field ∈ fields, ∀ input, value.entries? = some input → ∀ v,
      input.get? field.name = some v → Renormalizes rules rel field.type v) :
    Renormalizes rules rel (.record name fields) value := by
  intro normal h
  have fieldNames := regular.names name fields (mem_of_parts_subset inside)
  obtain ⟨input, declared, read, nodup, filled, allowed, rfl⟩ :=
    exists_filled_of_normal?_record fieldNames (congruent.distinct value every.self) h
  have read' := entries?_of_recordInput? read
  have distinct := nodup_keys_append_undeclared fieldNames filled.keys_eq nodup
  have holds : ∀ entry ∈ declared,
      Entries.get? (declared ++ undeclared fields input) entry.1 = some entry.2 :=
    fun entry member => Entries.get?_of_mem distinct (List.mem_append_left _ member)
  -- A field that was left out holds its default, which is its own normal form.
  obtain ⟨again, refilled, agrees⟩ := filled.exists_again rel
    (fun field => ∃ v, input.get? field.name = some v ∧ Overtaken rules rel field.type v)
    holds fun field member v found => by
      simp only [fieldNormal?] at found
      cases supplied : input.get? field.name with
      | some w =>
        rw [supplied] at found
        simpa using inner field member input read' w supplied v found
      | none =>
        rw [supplied] at found
        simpa using regular.defaults name fields (mem_of_parts_subset inside) field member v found
  refine ⟨_, normal?_record_of_filled fieldNames nodup filled refilled allowed, ?_⟩
  have names : again.keys = declared.keys := refilled.keys_eq.trans filled.keys_eq.symm
  have names' : Entries.keys (again ++ undeclared fields input) =
      Entries.keys (declared ++ undeclared fields input) := by simp [names]
  have extras : Entries.Aligned rel (undeclared fields input) (undeclared fields input) :=
    List.forall₂_same.mpr fun entry member =>
      ⟨rfl, congruent.refl _ (every.entry read' (mem_undeclared_iff.mp member).1)⟩
  rw [congruent.record (names'.symm ▸ distinct) names',
    Entries.aligned_append_iff (Entries.length_eq_of_keys_eq names) extras, agrees,
    overtaken_record_iff read]
  simp

end Cases

section Unions

variable {allowExtra : Bool} {variants : List TypeExpr} (regular : Regular allowExtra rel whole)
  (inside : (union variants).parts ⊆ whole.parts)
  (strictly : ∀ variant ∈ variants, Renormalizes (.strict allowExtra) rel variant value)

include regular inside strictly

/-- A variant that is the first to fit a value strictly is the first to fit its normal form. -/
theorem exists_again_of_fits_strictly (fits : (variants.findSome? fun variant =>
      variant.normal? (.strict allowExtra) value) = some normal) :
    ∃ again, (union variants).normal? (.strict allowExtra) normal = some again ∧
      rel again normal := by
  obtain ⟨before, variant, after, rfl, taken, skipped⟩ := List.findSome?_eq_some_iff.mp fits
  have member : variant ∈ before ++ variant :: after := by simp
  obtain ⟨again, found, agree⟩ := strictly variant member normal taken
  refine ⟨again, ?_, agree.mpr (not_overtaken_strict rfl)⟩
  have skipped' : ∀ other ∈ before, other.normal? (.strict allowExtra) normal = none := by
    intro other member'
    by_contra accepted
    have reflects := reflects_of_regular regular
      (parts_union_subset inside (List.mem_append_left _ member'))
    have accepts := reflects value normal (.inr ⟨_, parts_union_subset inside member, taken⟩)
      (Option.isSome_iff_ne_none.mpr accepted)
    simp [skipped other member'] at accepts
  rw [normal?_union_strict regular.toPlain inside, List.findSome?_append,
    List.findSome?_eq_none_iff.mpr skipped', Option.none_or, List.findSome?_cons, found]

theorem renormalizes_union_strict :
    Renormalizes (.strict allowExtra) rel (.union variants) value := by
  intro normal h
  rw [normal?_union_strict regular.toPlain inside] at h
  obtain ⟨again, found, agree⟩ := exists_again_of_fits_strictly regular inside strictly h
  exact ⟨again, found, iff_of_true agree (not_overtaken_strict rfl)⟩

theorem renormalizes_union_lax
    (laxly : ∀ variant ∈ variants, Renormalizes (.lax allowExtra) rel variant value) :
    Renormalizes (.lax allowExtra) rel (.union variants) value := by
  intro normal h
  rw [normal?_union_lax regular.toPlain inside, Option.or_eq_some_iff] at h
  rcases h with fits | ⟨refused, converted⟩
  · obtain ⟨again, found, agree⟩ := exists_again_of_fits_strictly regular inside strictly fits
    refine ⟨again, found, iff_of_true agree fun overtaken => ?_⟩
    rw [List.findSome?_eq_none_iff.mpr overtaken.refused] at fits
    cases fits
  · obtain ⟨before, variant, after, rfl, taken, skipped⟩ :=
      List.findSome?_eq_some_iff.mp converted
    have refused' := List.findSome?_eq_none_iff.mp refused
    rw [normal?_union_strict regular.toPlain inside, List.findSome?_append,
      overtaken_union_iff rfl refused' skipped taken]
    cases first : before.findSome? fun other => other.normal? (.strict allowExtra) normal with
    | some claimed => exact ⟨claimed, rfl, not_not.symm⟩
    | none =>
      obtain ⟨again, found, agree⟩ := laxly variant (by simp) normal taken
      exact ⟨again, by simp [found], agree⟩

end Unions

/-- Values renormalize against each part of a regular type. -/
theorem renormalizes_of_regular {mode : Mode} {allowExtra : Bool} {good : Value → Prop}
    (congruent : Value.Congruent good rel) (regular : Regular allowExtra rel whole)
    (inside : type.parts ⊆ whole.parts)
    (atoms : mode = .lax → ∀ v : Value, v.entries? = none → good v)
    (every : value.Every good) : Renormalizes ⟨mode, allowExtra⟩ rel type value := by
  induction type using TypeExpr.induction generalizing mode value with
  | any => exact renormalizes_any congruent every
  | null => exact renormalizes_null congruent every
  | bool | int | float | str => exact renormalizes_scalar congruent (by simp) atoms every
  | format f => exact renormalizes_format congruent f every
  | literal members => exact renormalizes_literal congruent members every
  | list item ih =>
    apply renormalizes_list congruent
    intro items equal v member
    subst equal
    exact ih (parts_list_subset inside) atoms (every.item member)
  | tuple types ih =>
    apply renormalizes_tuple congruent
    intro items equal type member v member'
    subst equal
    exact ih type member (parts_tuple_subset inside member) atoms (every.item member')
  | map inner ih =>
    apply renormalizes_map congruent every
    intro entries read entry member
    exact ih (parts_map_subset inside) atoms (every.entry read member)
  | optional inner ih =>
    have inside' := parts_optional_subset inside
    exact renormalizes_optional congruent regular.toPlain inside' every (ih inside' atoms every)
  | union variants ih =>
    have strictly : ∀ variant ∈ variants, Renormalizes (.strict allowExtra) rel variant value :=
      fun variant member => ih variant member (parts_union_subset inside member) (by simp) every
    cases mode with
    | strict => exact renormalizes_union_strict regular inside strictly
    | lax =>
      apply renormalizes_union_lax regular inside strictly
      exact fun variant member => ih variant member (parts_union_subset inside member) atoms every
  | record name fields ih =>
    apply renormalizes_record congruent regular inside every
    intro field member input read v found
    exact ih field member (parts_record_subset inside member) atoms
      (every.entry read (Entries.mem_of_get? found))
  | foreign foreignType =>
    exact absurd (mem_of_parts_subset inside) (regular.toPlain.foreign foreignType)

/-- What passes in lax mode passes again once it is in normal form, and it is then left as it is
    exactly if nothing in it is overtaken. -/
theorem check_lax_again {allowExtra : Bool} {path path' : Path}
    (regular : Regular allowExtra Value.Same type) (distinct : value.Every Value.DistinctNames)
    (passed : type.check (.lax allowExtra) value path = .pass normal) :
    ∃ again, type.check (.lax allowExtra) normal path' = .pass again ∧
      (again.same normal = true ↔ ¬ Overtaken (.lax allowExtra) Value.Same type value) := by
  have whole : type.parts ⊆ type.parts := fun _ inside => inside
  have atoms : Mode.lax = .lax → ∀ v : Value, v.entries? = none → v.DistinctNames :=
    fun _ v noEntries entries read => by simp [noEntries] at read
  obtain ⟨again, found, agree⟩ := renormalizes_of_regular Value.congruent_same regular whole atoms
    distinct normal (check_eq_pass_iff.mp passed)
  exact ⟨again, check_eq_pass_iff.mpr (normal?_lax_of_strict found), agree⟩

/-- A record with the text 1, or a mapping to texts. -/
def taggedOrTexts : TypeExpr := .union [.record "P" [⟨"x", .literal [.str "1"], none⟩], .map .str]

theorem regular_taggedOrTexts : Regular false Value.Same taggedOrTexts where
  foreign := by simp [taggedOrTexts, parts, partsAll, partsFields]
  union := by simp [taggedOrTexts, parts, partsAll, partsFields]
  literal := by simp [taggedOrTexts, parts, partsAll, partsFields]
  names := by simp [taggedOrTexts, parts, partsAll, partsFields]
  alike name fields fields' inside inside' := by
    simp only [taggedOrTexts, parts, partsAll, partsFields, List.append_nil, List.cons_append,
      List.nil_append, List.mem_cons, record.injEq, reduceCtorEq, List.not_mem_nil, or_false,
      false_or] at inside inside'
    rw [inside.2, inside'.2]
  members := by
    simp [taggedOrTexts, parts, partsAll, partsFields, Value.Every, Value.parts, Value.NotRecord]
  defaults := by simp [taggedOrTexts, parts, partsAll, partsFields]

theorem distinctNames_singleton (name : String) (i : Int64) :
    (Value.map [(name, .int i)]).Every Value.DistinctNames := by
  simp [Value.Every, Value.parts, Value.partsEntries, Value.DistinctNames, Value.entries?]

/-- An integer other than 1 becomes a text in a mapping, which no record takes over. -/
theorem check_lax_again_texts :
    taggedOrTexts.check (.lax false) (.map [("x", .int 2)]) .empty =
        .pass (.map [("x", .str "2")]) ∧
      ∃ again, taggedOrTexts.check (.lax false) (.map [("x", .str "2")]) .empty = .pass again ∧
        (again.same (.map [("x", .str "2")]) = true ↔
          ¬ Overtaken (.lax false) Value.Same taggedOrTexts (.map [("x", .int 2)])) := by
  have passed : taggedOrTexts.check (.lax false) (.map [("x", .int 2)]) .empty =
      .pass (.map [("x", .str "2")]) := by rfl
  have distinct := distinctNames_singleton "x" 2
  exact ⟨passed, check_lax_again regular_taggedOrTexts distinct passed⟩

/-- The integer 1 becomes a text in a mapping, and that mapping becomes a record: a normal form
    of lax mode that is not its own normal form. -/
theorem not_check_lax_idempotent : ¬ ∀ (allowExtra : Bool) (type : TypeExpr)
    (value normal : Value), Regular allowExtra Value.Same type →
      value.Every Value.DistinctNames →
      type.check (.lax allowExtra) value .empty = .pass normal →
      ∃ again, type.check (.lax allowExtra) normal .empty = .pass again ∧
        again.same normal = true := by
  intro idempotent
  have distinct := distinctNames_singleton "x" 1
  have passed : taggedOrTexts.check (.lax false) (.map [("x", .int 1)]) .empty =
      .pass (.map [("x", .str "1")]) := by rfl
  have changed : taggedOrTexts.check (.lax false) (.map [("x", .str "1")]) .empty =
      .pass (.record "P" [("x", .str "1")]) := by rfl
  obtain ⟨again, found, same⟩ :=
    idempotent false _ _ _ regular_taggedOrTexts distinct passed
  rw [changed] at found
  cases found
  cases same

end TypeExpr

end CallGuard
