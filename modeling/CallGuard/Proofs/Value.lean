import CallGuard.Proofs.Entries
import CallGuard.Value

/-!
# Values inside values

Induction on values, the values that occur in one, and two ways in which values agree: equality,
and being the same up to the order of the fields of records.
-/

namespace CallGuard

namespace Value

/-- Induction on a value: a motive that holds of the members of a value holds of the value. -/
@[elab_as_elim]
theorem induction {motive : Value → Prop} (null : motive .null) (bool : ∀ b, motive (.bool b))
    (int : ∀ i, motive (.int i)) (float : ∀ x, motive (.float x)) (str : ∀ s, motive (.str s))
    (list : ∀ items, (∀ item ∈ items, motive item) → motive (.list items))
    (map : ∀ entries, (∀ entry ∈ entries, motive entry.2) → motive (.map entries))
    (record : ∀ typeName fields, (∀ entry ∈ fields, motive entry.2) →
      motive (.record typeName fields)) (value : Value) : motive value :=
  @Value.rec motive (fun items => ∀ item ∈ items, motive item)
    (fun entries => ∀ entry ∈ entries, motive entry.2) (fun entry => motive entry.2)
    null bool int float str list map record
    (fun _ member => nomatch member) (fun _ _ head tail => List.forall_mem_cons.mpr ⟨head, tail⟩)
    (fun _ member => nomatch member) (fun _ _ head tail => List.forall_mem_cons.mpr ⟨head, tail⟩)
    (fun _ _ value => value) value

mutual

/-- The values that occur in a value, itself included. -/
def parts : Value → List Value
  | list items => .list items :: partsItems items
  | map entries => .map entries :: partsEntries entries
  | record typeName fields => .record typeName fields :: partsEntries fields
  | value => [value]

/-- The values that occur in the items of a list. -/
def partsItems : List Value → List Value
  | [] => []
  | item :: rest => parts item ++ partsItems rest

/-- The values that occur in the values of entries. -/
def partsEntries : List (String × Value) → List Value
  | [] => []
  | (_, value) :: rest => parts value ++ partsEntries rest

end

theorem self_mem_parts (value : Value) : value ∈ value.parts := by
  cases value <;> simp [parts]

theorem mem_partsItems_iff {items : List Value} {part : Value} :
    part ∈ partsItems items ↔ ∃ item ∈ items, part ∈ item.parts := by
  induction items with
  | nil => simp [partsItems]
  | cons first rest ih => simp [partsItems, ih]

theorem mem_partsEntries_iff {entries : Entries Value} {part : Value} :
    part ∈ partsEntries entries ↔ ∃ entry ∈ entries, part ∈ entry.2.parts := by
  induction entries with
  | nil => simp [partsEntries]
  | cons first rest ih => simp [partsEntries, ih]

theorem parts_subset_partsItems {items : List Value} {item : Value} (member : item ∈ items) :
    item.parts ⊆ partsItems items :=
  fun _ inside => mem_partsItems_iff.mpr ⟨item, member, inside⟩

theorem parts_subset_partsEntries {entries : Entries Value} {entry : String × Value}
    (member : entry ∈ entries) : entry.2.parts ⊆ partsEntries entries :=
  fun _ inside => mem_partsEntries_iff.mpr ⟨entry, member, inside⟩

/-- Every value that occurs in a value is good. -/
def Every (good : Value → Prop) (value : Value) : Prop := ∀ part ∈ value.parts, good part

namespace Every

variable {good : Value → Prop}

theorem self {value : Value} (every : value.Every good) : good value :=
  every value value.self_mem_parts

theorem item {items : List Value} (every : (list items).Every good) {item : Value}
    (member : item ∈ items) : item.Every good :=
  fun part inside => every part (List.mem_cons_of_mem _ (parts_subset_partsItems member inside))

theorem entry {value : Value} {entries : Entries Value} (every : value.Every good)
    (read : value.entries? = some entries) {entry : String × Value} (member : entry ∈ entries) :
    entry.2.Every good := by
  intro part inside
  have inside' := parts_subset_partsEntries member inside
  cases value <;> cases read
  all_goals exact every part (List.mem_cons_of_mem _ inside')

theorem of_list {items : List Value} (here : good (list items))
    (each : ∀ item ∈ items, item.Every good) : (list items).Every good := by
  intro part inside
  rw [parts, List.mem_cons, mem_partsItems_iff] at inside
  rcases inside with rfl | ⟨item, member, inside⟩
  · exact here
  · exact each item member part inside

theorem of_map {entries : Entries Value} (here : good (map entries))
    (each : ∀ entry ∈ entries, entry.2.Every good) : (map entries).Every good := by
  intro part inside
  rw [parts, List.mem_cons, mem_partsEntries_iff] at inside
  rcases inside with rfl | ⟨entry, member, inside⟩
  · exact here
  · exact each entry member part inside

theorem of_record {typeName : String} {fields : Entries Value}
    (here : good (record typeName fields))
    (each : ∀ entry ∈ fields, entry.2.Every good) : (record typeName fields).Every good := by
  intro part inside
  rw [parts, List.mem_cons, mem_partsEntries_iff] at inside
  rcases inside with rfl | ⟨entry, member, inside⟩
  · exact here
  · exact each entry member part inside

end Every

/-- A value whose entries, if it has any, have distinct names. -/
def DistinctNames (value : Value) : Prop :=
  ∀ entries, value.entries? = some entries → entries.keys.Nodup

/-- A value that is not a float without a number. -/
def IsNumber (value : Value) : Prop := ∀ x, value = .float x → x.isNaN = false

/-- A value that is not a record. -/
def NotRecord (value : Value) : Prop := ∀ typeName fields, value ≠ .record typeName fields

/-! ## Equality -/

/-- Two values are equal. -/
abbrev Equal (v w : Value) : Prop := (v == w) = true

theorem equalItems_iff {items items' : List Value} : equalItems items items' = true ↔
    List.Forall₂ (fun v w => v.equal w = true) items items' := by
  induction items generalizing items' with
  | nil => cases items' <;> simp [equalItems]
  | cons item rest ih => cases items' <;> simp [equalItems, ih]

/-- Entries cover others where each is equal to what the others read at its name. -/
theorem coveredBy_iff {entries others : Entries Value} : coveredBy entries others = true ↔
    ∀ entry ∈ entries, ∃ w, others.get? entry.1 = some w ∧ entry.2.equal w = true := by
  induction entries with
  | nil => simp [coveredBy]
  | cons entry rest ih =>
    obtain ⟨name, value⟩ := entry
    simp only [coveredBy, Bool.and_eq_true, ih, List.forall_mem_cons]
    cases others.get? name <;> simp

theorem equal_list_iff {items items' : List Value} :
    (list items).equal (list items') = true ↔
      List.Forall₂ (fun v w => v.equal w = true) items items' := by
  simp only [equal, equalItems_iff]

/-- Mappings with the same distinct names in the same order are equal where their values are. -/
theorem equal_map_iff {entries others : Entries Value} (distinct : entries.keys.Nodup)
    (names : entries.keys = others.keys) : (map entries).equal (map others) = true ↔
      Entries.Aligned (fun v w => v.equal w = true) entries others := by
  have lengths := Entries.length_eq_of_keys_eq names
  simp [equal, lengths, coveredBy_iff, Entries.aligned_iff distinct names]

theorem equal_record_iff {typeName : String} {fields others : Entries Value}
    (distinct : fields.keys.Nodup) (names : fields.keys = others.keys) :
    (record typeName fields).equal (record typeName others) = true ↔
      Entries.Aligned (fun v w => v.equal w = true) fields others := by
  have lengths := Entries.length_eq_of_keys_eq names
  simp [equal, lengths, coveredBy_iff, Entries.aligned_iff distinct names]

/-- A value without equal names and without NaN equals itself. -/
theorem equal_refl {value : Value}
    (sound : value.Every fun part => part.DistinctNames ∧ part.IsNumber) :
    value.equal value = true := by
  induction value using Value.induction with
  | null | bool | int | str => simp [equal]
  | float x => simp [equal, Binary64.equal, sound.self.2 x rfl]
  | list items ih =>
    rw [equal_list_iff, List.forall₂_same]
    exact fun item member => ih item member (sound.item member)
  | map entries ih =>
    rw [equal_map_iff (sound.self.1 entries rfl) rfl]
    exact List.forall₂_same.mpr fun entry member => ⟨rfl, ih entry member (sound.entry rfl member)⟩
  | record typeName fields ih =>
    rw [equal_record_iff (sound.self.1 fields rfl) rfl]
    exact List.forall₂_same.mpr fun entry member => ⟨rfl, ih entry member (sound.entry rfl member)⟩

/-! ## Sameness -/

mutual

/-- The same constructors and leaves: a NaN counts as any other, and the order of the fields of
    a record does not count. -/
def same : Value → Value → Bool
  | null, null => true
  | bool a, bool b => a == b
  | int i, int j => i == j
  | float x, float y => (x.isNaN && y.isNaN) || x == y
  | str s, str t => s == t
  | list xs, list ys => sameItems xs ys
  | map es, map fs => sameEntries es fs
  | record n es, record m fs => n == m && es.length == fs.length && sameFields es fs
  | _, _ => false
termination_by structural value => value

/-- The same items, position by position. -/
def sameItems : List Value → List Value → Bool
  | [], [] => true
  | x :: xs, y :: ys => same x y && sameItems xs ys
  | _, _ => false
termination_by structural items => items

/-- The same names with the same values, position by position. -/
def sameEntries : List (String × Value) → List (String × Value) → Bool
  | [], [] => true
  | (name, v) :: es, (name', w) :: fs => name == name' && same v w && sameEntries es fs
  | _, _ => false
termination_by structural entries => entries

/-- Whether the second fields hold every name of the first with the same value. -/
def sameFields : List (String × Value) → List (String × Value) → Bool
  | [], _ => true
  | (name, value) :: rest, others =>
    (match Entries.get? others name with
      | some other => same value other
      | none => false) && sameFields rest others
termination_by structural fields => fields

end

/-- Two values are the same. -/
abbrev Same (v w : Value) : Prop := v.same w = true

theorem same_list_iff {items items' : List Value} : (list items).same (list items') = true ↔
    List.Forall₂ (fun v w => v.same w = true) items items' := by
  simp only [same]
  induction items generalizing items' with
  | nil => cases items' <;> simp [sameItems]
  | cons item rest ih => cases items' <;> simp [sameItems, ih]

theorem same_map_iff {entries entries' : Entries Value} :
    (map entries).same (map entries') = true ↔
      Entries.Aligned (fun v w => v.same w = true) entries entries' := by
  simp only [same, Entries.Aligned]
  induction entries generalizing entries' with
  | nil => cases entries' <;> simp [sameEntries]
  | cons entry rest ih =>
    obtain ⟨name, value⟩ := entry
    rcases entries' with _ | ⟨⟨name', value'⟩, others⟩ <;> simp [sameEntries, ih]

theorem sameFields_iff {fields others : Entries Value} : sameFields fields others = true ↔
    ∀ entry ∈ fields, ∃ w, others.get? entry.1 = some w ∧ entry.2.same w = true := by
  induction fields with
  | nil => simp [sameFields]
  | cons entry rest ih =>
    obtain ⟨name, value⟩ := entry
    simp only [sameFields, Bool.and_eq_true, ih, List.forall_mem_cons]
    cases others.get? name <;> simp

/-- Records with the same distinct names in the same order are the same where their fields are. -/
theorem same_record_iff {typeName : String} {fields others : Entries Value}
    (distinct : fields.keys.Nodup) (names : fields.keys = others.keys) :
    (record typeName fields).same (record typeName others) = true ↔
      Entries.Aligned (fun v w => v.same w = true) fields others := by
  have lengths := Entries.length_eq_of_keys_eq names
  simp [same, lengths, sameFields_iff, Entries.aligned_iff distinct names]

theorem same_refl {value : Value} (distinct : value.Every DistinctNames) :
    value.same value = true := by
  induction value using Value.induction with
  | null | bool | int | str | float => simp [same]
  | list items ih =>
    rw [same_list_iff, List.forall₂_same]
    exact fun item member => ih item member (distinct.item member)
  | map entries ih =>
    rw [same_map_iff]
    exact List.forall₂_same.mpr fun entry member =>
      ⟨rfl, ih entry member (distinct.entry rfl member)⟩
  | record typeName fields ih =>
    rw [same_record_iff (distinct.self fields rfl) rfl]
    exact List.forall₂_same.mpr fun entry member =>
      ⟨rfl, ih entry member (distinct.entry rfl member)⟩

/-- A value without records and without NaN is the same only as itself. -/
theorem eq_of_same {value other : Value}
    (plain : value.Every fun part => part.NotRecord ∧ part.IsNumber)
    (same : value.same other = true) : value = other := by
  induction value using Value.induction generalizing other with
  | null | bool | int | str => cases other <;> simp_all [Value.same]
  | float x =>
    have number : x.isNaN = false := plain.self.2 x rfl
    cases other <;> simp_all [Value.same]
  | list items ih =>
    cases other with
    | list items' =>
      congr 1
      exact Entries.eq_of_forall₂ (same_list_iff.mp same) fun item member _ =>
        ih item member (plain.item member)
    | _ => simp [Value.same] at same
  | map entries ih =>
    cases other with
    | map entries' =>
      congr 1
      exact Entries.eq_of_forall₂ (same_map_iff.mp same) fun entry member _ both =>
        Prod.ext both.1 (ih entry member (plain.entry rfl member) both.2)
    | _ => simp [Value.same] at same
  | record typeName fields => exact absurd rfl (plain.self.1 typeName fields)

/-! ## Relations that go through values -/

/-- A relation that holds between every good value and itself, and between values of the same
    build exactly if it holds between their members. -/
structure Congruent (good : Value → Prop) (rel : Value → Value → Prop) : Prop where
  distinct : ∀ value, good value → value.DistinctNames
  refl : ∀ value : Value, value.Every good → rel value value
  list : ∀ {items items'}, rel (.list items) (.list items') ↔ List.Forall₂ rel items items'
  map : ∀ {entries others : Entries Value}, entries.keys.Nodup → entries.keys = others.keys →
    (rel (.map entries) (.map others) ↔ Entries.Aligned rel entries others)
  record : ∀ {typeName} {fields others : Entries Value}, fields.keys.Nodup →
    fields.keys = others.keys →
    (rel (.record typeName fields) (.record typeName others) ↔ Entries.Aligned rel fields others)

/-- Equality goes through values without equal names and without NaN. -/
theorem congruent_equal :
    Congruent (fun part => part.DistinctNames ∧ part.IsNumber) Equal where
  distinct _ good := good.1
  refl _ sound := equal_refl sound
  list := equal_list_iff
  map := equal_map_iff
  record := equal_record_iff

/-- Sameness goes through values without equal names. -/
theorem congruent_same : Congruent DistinctNames Same where
  distinct _ good := good
  refl _ distinct := same_refl distinct
  list := same_list_iff
  map _ _ := same_map_iff
  record := same_record_iff

end Value

end CallGuard
