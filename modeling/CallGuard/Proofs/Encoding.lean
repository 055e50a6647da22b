import CallGuard.Proofs.Value
import CallGuard.Value.Encoding

/-!
# Encodings of values

A value is encoded as a document at once, or it is written part by part to a target, which makes
a document or a text of the parts.  All ways give the same document, the names in their order.  The
value of that document is the value it was made of, but for the tags of records and for the floats
that have no number.
-/

namespace CallGuard

/-- A function that treats the members of a list one by one. -/
theorem eq_map_of_cons {α β : Type} {f : List α → List β} {g : α → β} (nil : f [] = [])
    (cons : ∀ a rest, f (a :: rest) = g a :: f rest) (items : List α) : f items = items.map g := by
  induction items with
  | nil => exact nil
  | cons a rest ih => rw [cons, ih, List.map_cons]

namespace Json

theorem itemTexts_eq_map (items : List Json) : itemTexts items = items.map text :=
  eq_map_of_cons rfl (fun _ _ => rfl) items

theorem memberTexts_eq_map (members : Entries Json) :
    memberTexts members =
      members.map fun member => quoteDocument member.1 ++ ":" ++ member.2.text :=
  eq_map_of_cons rfl (fun _ _ => rfl) members

namespace Number

theorem toNat_toUInt64 {i : Int64} (unsigned : 0 ≤ i) : (i.toUInt64.toNat : Int) = i.toInt := by
  rw [Int64.toNat_toUInt64_of_le unsigned]
  exact Int.toNat_of_nonneg (Int64.le_iff_toInt_le.mp unsigned)

/-- An integer comes back from its class, whichever of the two it has. -/
theorem toInt64?_ofInt64 (i : Int64) : (ofInt64 i).toInt64? = some i := by
  unfold ofInt64
  split
  · rfl
  · next notNegative =>
    have same := toNat_toUInt64 (Int64.not_lt.mp notNegative)
    have least : Int64.minValue.toInt ≤ i.toInt := i.le_toInt
    simp only [toInt64?, int64?, same, least, i.toInt_le, decide_true, Bool.and_true, if_true,
      Int64.ofInt_toInt]

/-- The text of an integer does not show the class that it has. -/
theorem text_ofInt64 (i : Int64) : (ofInt64 i).text = int64Text i := by
  unfold ofInt64
  split
  · rfl
  · next notNegative =>
    have same := toNat_toUInt64 (Int64.not_lt.mp notNegative)
    have magnitude : i.toUInt64.toNat = i.toInt.natAbs := by omega
    rw [text, magnitude, int64Text, intText, if_neg (by omega)]

end Number

end Json

/-- What values are written to: the form that it gives to each kind of part.  It has no form of its
    own for records. -/
structure Target (α : Type) where
  null : α
  bool : Bool → α
  int : Int64 → α
  float : Binary64 → α
  str : String → α
  list : List α → α
  map : Entries α → α

namespace Target

/-- Documents.  The members of an object are put in one after another, by their names. -/
def document : Target Json where
  null := .null
  bool := .bool
  int i := .number (.ofInt64 i)
  float x := if x.isFinite then .number (.real x) else .null
  str := .string
  list := .array
  map members := .object (Entries.merged members)

/-- Compact texts.  The members of an object are written down as they come. -/
def text : Target String where
  null := "null"
  bool := Json.boolText
  int := int64Text
  float x := if x.isFinite then FloatLayout.document.text x else "null"
  str := quoteDocument
  list := Json.bracketed "[" "]"
  map members := Json.bracketed "\x7b" "\x7d"
    (members.map fun member => quoteDocument member.1 ++ ":" ++ member.2)

end Target

namespace Value

section Definitions

variable {α : Type}

mutual

/-- What a target makes of a value.  A record is written as its fields. -/
def writtenTo (target : Target α) : Value → α
  | null => target.null
  | bool b => target.bool b
  | int i => target.int i
  | float x => target.float x
  | str s => target.str s
  | list items => target.list (itemsWrittenTo target items)
  | map entries => target.map (entriesWrittenTo target entries)
  | record _ fields => target.map (entriesWrittenTo target fields)

/-- What a target makes of the items of a list. -/
def itemsWrittenTo (target : Target α) : List Value → List α
  | [] => []
  | item :: rest => writtenTo target item :: itemsWrittenTo target rest

/-- What a target makes of the values of entries. -/
def entriesWrittenTo (target : Target α) : List (String × Value) → List (String × α)
  | [] => []
  | (name, value) :: rest => (name, writtenTo target value) :: entriesWrittenTo target rest

end

mutual

/-- A value with every record as the mapping of its fields, and with null for every float that is
    not finite. -/
def untagged : Value → Value
  | float x => if x.isFinite then .float x else .null
  | list items => .list (untaggedItems items)
  | map entries => .map (untaggedEntries entries)
  | record _ fields => .map (untaggedEntries fields)
  | value => value

/-- The items of a list, each without tags. -/
def untaggedItems : List Value → List Value
  | [] => []
  | item :: rest => untagged item :: untaggedItems rest

/-- Entries with the same names, each value without tags. -/
def untaggedEntries : List (String × Value) → List (String × Value)
  | [] => []
  | (name, value) :: rest => (name, untagged value) :: untaggedEntries rest

end

end Definitions

/-! ## Members one by one -/

section Lists

variable {α : Type}

theorem itemsToJson_eq_map (items : List Value) : itemsToJson items = items.map toJson :=
  eq_map_of_cons rfl (fun _ _ => rfl) items

theorem entriesToJson_eq_map (entries : Entries Value) :
    entriesToJson entries = entries.map fun entry => (entry.1, entry.2.toJson) :=
  eq_map_of_cons rfl (fun _ _ => rfl) entries

theorem itemsWrittenTo_eq_map (target : Target α) (items : List Value) :
    itemsWrittenTo target items = items.map (writtenTo target) :=
  eq_map_of_cons rfl (fun _ _ => rfl) items

theorem entriesWrittenTo_eq_map (target : Target α) (entries : Entries Value) :
    entriesWrittenTo target entries =
      entries.map fun entry => (entry.1, entry.2.writtenTo target) :=
  eq_map_of_cons rfl (fun _ _ => rfl) entries

theorem untaggedItems_eq_map (items : List Value) : untaggedItems items = items.map untagged :=
  eq_map_of_cons rfl (fun _ _ => rfl) items

theorem untaggedEntries_eq_map (entries : Entries Value) :
    untaggedEntries entries = entries.map fun entry => (entry.1, entry.2.untagged) :=
  eq_map_of_cons rfl (fun _ _ => rfl) entries

theorem itemJsonTexts_eq_map (items : List Value) : itemJsonTexts items = items.map jsonText :=
  eq_map_of_cons rfl (fun _ _ => rfl) items

theorem entryJsonTexts_eq_map (entries : Entries Value) :
    entryJsonTexts entries =
      entries.map fun entry => quoteDocument entry.1 ++ ":" ++ entry.2.jsonText :=
  eq_map_of_cons rfl (fun _ _ => rfl) entries

theorem itemsOfJson_eq_map (items : List Json) : itemsOfJson items = items.map ofJson :=
  eq_map_of_cons rfl (fun _ _ => rfl) items

theorem entriesOfJson_eq_map (members : Entries Json) :
    entriesOfJson members = members.map fun member => (member.1, ofJson member.2) :=
  eq_map_of_cons rfl (fun _ _ => rfl) members

end Lists

/-! ## One document -/

theorem entries_congr {α : Type} {f g : Value → α} {entries : Entries Value}
    (each : ∀ entry ∈ entries, f entry.2 = g entry.2) :
    (entries.map fun entry => (entry.1, f entry.2)) =
      entries.map fun entry => (entry.1, g entry.2) :=
  List.map_congr_left fun entry member => by rw [each entry member]

/-- Putting members in by their names keeps their order, since no name occurs twice. -/
theorem merged_entriesWrittenTo_document {entries : Entries Value} (distinct : entries.keys.Nodup)
    (each : ∀ entry ∈ entries, entry.2.writtenTo .document = entry.2.toJson) :
    Entries.merged (entriesWrittenTo .document entries) = entriesToJson entries := by
  rw [entriesWrittenTo_eq_map, entriesToJson_eq_map, entries_congr each]
  refine Entries.merged_of_nodup ?_
  rwa [Entries.keys, List.map_map]

theorem writtenTo_document {v : Value} (distinct : v.Every DistinctNames) :
    v.writtenTo .document = v.toJson := by
  induction v using Value.induction with
  | null | bool | int | float | str => rfl
  | list items ih =>
    rw [writtenTo, toJson, itemsWrittenTo_eq_map, itemsToJson_eq_map]
    exact congrArg Json.array (List.map_congr_left fun item member =>
      ih item member (distinct.item member))
  | map entries ih | record _ entries ih =>
    refine congrArg Json.object (merged_entriesWrittenTo_document (distinct.self entries rfl) ?_)
    exact fun entry member => ih entry member (distinct.entry rfl member)

theorem entriesWrittenTo_text {entries : Entries Value}
    (each : ∀ entry ∈ entries, entry.2.writtenTo .text = entry.2.jsonText) :
    ((entriesWrittenTo .text entries).map fun member => quoteDocument member.1 ++ ":" ++ member.2) =
      entryJsonTexts entries := by
  rw [entriesWrittenTo_eq_map, entryJsonTexts_eq_map, entries_congr each, List.map_map]
  rfl

/-- The text of a value is what the target of texts makes of it. -/
theorem writtenTo_text (v : Value) : v.writtenTo .text = v.jsonText := by
  induction v using Value.induction with
  | null | bool | int | float | str => rfl
  | list items ih =>
    rw [writtenTo, jsonText, itemsWrittenTo_eq_map, itemJsonTexts_eq_map]
    exact congrArg (Json.bracketed "[" "]") (List.map_congr_left ih)
  | map entries ih | record _ entries ih =>
    exact congrArg (Json.bracketed "\x7b" "\x7d") (entriesWrittenTo_text ih)

theorem entryJsonTexts_eq_memberTexts {entries : Entries Value}
    (each : ∀ entry ∈ entries, entry.2.jsonText = entry.2.toJson.text) :
    entryJsonTexts entries = Json.memberTexts (entriesToJson entries) := by
  rw [entryJsonTexts_eq_map, Json.memberTexts_eq_map, entriesToJson_eq_map, List.map_map]
  exact List.map_congr_left fun entry member => by rw [each entry member]; rfl

/-- The text written straight from a value is the text of its document. -/
theorem jsonText_eq_text (v : Value) : v.jsonText = v.toJson.text := by
  induction v using Value.induction with
  | null | bool | str => rfl
  | int i => exact (Json.Number.text_ofInt64 i).symm
  | float x =>
    by_cases finite : x.isFinite
    · simp [jsonText, toJson, finite, Json.text, Json.Number.text]
    · simp [jsonText, toJson, finite, Json.text]
  | list items ih =>
    rw [jsonText, toJson, Json.text, itemJsonTexts_eq_map, Json.itemTexts_eq_map,
      itemsToJson_eq_map, List.map_map]
    exact congrArg (Json.bracketed "[" "]") (List.map_congr_left ih)
  | map entries ih | record _ entries ih =>
    exact congrArg (Json.bracketed "\x7b" "\x7d") (entryJsonTexts_eq_memberTexts ih)

/-! ## The value of the document -/

theorem entriesOfJson_entriesToJson {entries : Entries Value}
    (each : ∀ entry ∈ entries, ofJson entry.2.toJson = entry.2.untagged) :
    entriesOfJson (entriesToJson entries) = untaggedEntries entries := by
  rw [entriesOfJson_eq_map, entriesToJson_eq_map, untaggedEntries_eq_map, List.map_map]
  exact entries_congr (f := fun value => ofJson value.toJson) each

/-- The class of a number tells whether it was an integer, so integral floats stay floats. -/
theorem ofJson_toJson (v : Value) : ofJson v.toJson = v.untagged := by
  induction v using Value.induction with
  | null | bool | str => rfl
  | int i => rw [toJson, ofJson, ofNumber, Json.Number.toInt64?_ofInt64]; rfl
  | float x =>
    by_cases finite : x.isFinite
    · simp [toJson, finite, ofJson, ofNumber, Json.Number.toInt64?, Json.Number.toBinary64,
        untagged]
    · simp [toJson, finite, ofJson, untagged]
  | list items ih =>
    rw [toJson, ofJson, untagged, itemsOfJson_eq_map, itemsToJson_eq_map, untaggedItems_eq_map,
      List.map_map]
    exact congrArg Value.list (List.map_congr_left ih)
  | map entries ih | record _ entries ih =>
    exact congrArg Value.map (entriesOfJson_entriesToJson ih)

theorem entriesToJson_untaggedEntries {entries : Entries Value}
    (each : ∀ entry ∈ entries, entry.2.untagged.toJson = entry.2.toJson) :
    entriesToJson (untaggedEntries entries) = entriesToJson entries := by
  rw [entriesToJson_eq_map, untaggedEntries_eq_map, entriesToJson_eq_map, List.map_map]
  exact entries_congr (f := fun value => value.untagged.toJson) each

/-- A document does not show what its value loses. -/
theorem toJson_untagged (v : Value) : v.untagged.toJson = v.toJson := by
  induction v using Value.induction with
  | null | bool | int | str => rfl
  | float x => by_cases finite : x.isFinite <;> simp [toJson, finite, untagged]
  | list items ih =>
    rw [untagged, toJson, toJson, untaggedItems_eq_map, itemsToJson_eq_map, itemsToJson_eq_map,
      List.map_map]
    exact congrArg Json.array (List.map_congr_left ih)
  | map entries ih | record _ entries ih =>
    exact congrArg Json.object (entriesToJson_untaggedEntries ih)

/-! ### What comes back as it was -/

/-- A value that is no record and no float without a finite number. -/
def IsPlain (value : Value) : Prop :=
  value.NotRecord ∧ ∀ x, value = .float x → x.isFinite = true

theorem untaggedItems_eq_self_iff {items : List Value} :
    untaggedItems items = items ↔ ∀ item ∈ items, item.untagged = item := by
  rw [untaggedItems_eq_map]
  nth_rewrite 2 [← List.map_id items]
  exact List.map_inj_left

theorem untaggedEntries_eq_self_iff {entries : Entries Value} :
    untaggedEntries entries = entries ↔ ∀ entry ∈ entries, entry.2.untagged = entry.2 := by
  rw [untaggedEntries_eq_map]
  nth_rewrite 2 [← List.map_id entries]
  rw [List.map_inj_left]
  exact forall₂_congr fun entry _ => by simp [Prod.ext_iff]

theorem untagged_eq_self_iff (v : Value) : v.untagged = v ↔ v.Every IsPlain := by
  induction v using Value.induction with
  | null | bool | int | str => simp [untagged, Every, parts, IsPlain, NotRecord]
  | float x => simp [untagged, Every, parts, IsPlain, NotRecord]
  | list items ih =>
    rw [untagged, list.injEq, untaggedItems_eq_self_iff]
    constructor
    · intro same
      refine .of_list (by simp [IsPlain, NotRecord]) fun item member => ?_
      exact (ih item member).mp (same item member)
    · exact fun every item member => (ih item member).mpr (every.item member)
  | map entries ih =>
    rw [untagged, map.injEq, untaggedEntries_eq_self_iff]
    constructor
    · intro same
      refine .of_map (by simp [IsPlain, NotRecord]) fun entry member => ?_
      exact (ih entry member).mp (same entry member)
    · exact fun every entry member => (ih entry member).mpr (every.entry rfl member)
  | record typeName fields _ =>
    -- A record comes back as a mapping, whatever its fields are.
    simp only [untagged, reduceCtorEq, false_iff]
    exact fun every => every.self.1 typeName fields rfl

/-- All encodings give one document, names in order, and its value is the value it was made of
    without the tags of records and with null for the floats that are not finite.  So exactly the
    values without such parts come back, and a document that is made of a value is made of its own
    value again. -/
theorem encodings_agree (v : Value) :
    (v.Every DistinctNames → v.writtenTo .document = v.toJson) ∧
    v.writtenTo .text = v.jsonText ∧ v.jsonText = v.toJson.text ∧
    ofJson v.toJson = v.untagged ∧ (ofJson v.toJson = v ↔ v.Every IsPlain) ∧
    (ofJson v.toJson).toJson = v.toJson := by
  refine ⟨writtenTo_document, writtenTo_text v, jsonText_eq_text v, ofJson_toJson v, ?_, ?_⟩
  · rw [ofJson_toJson, untagged_eq_self_iff]
  · rw [ofJson_toJson, toJson_untagged]

/-- A record in a list becomes a mapping of its fields, in which the limits of 64 bits and a zero
    below zero stay as they are, and infinity becomes null. -/
theorem encodings_agree_sample :
    let fields (last : Value) : Entries Value :=
      [("low", .int Int64.minValue), ("high", .int Int64.maxValue), ("zero", .float (.zero true)),
        ("four", .float ⟨0x4010000000000000⟩), ("last", last)]
    let v : Value := .list [.record "P" (fields (.float (.infinity false)))]
    v.Every DistinctNames ∧ v.writtenTo .document = v.toJson ∧ ¬ v.Every IsPlain ∧
      ofJson v.toJson = .list [.map (fields .null)] := by
  intro fields v
  obtain ⟨document, -, -, back, plain, -⟩ := encodings_agree v
  have distinct : v.Every DistinctNames := by
    simp [v, fields, Every, parts, partsItems, partsEntries, DistinctNames, Value.entries?]
  have same : ofJson v.toJson = .list [.map (fields .null)] := back.trans (by rfl)
  refine ⟨distinct, document distinct, fun every => ?_, same⟩
  have unchanged := same.symm.trans (plain.mpr every)
  simp [v] at unchanged

end Value

end CallGuard
