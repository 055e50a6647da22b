import CallGuard.Proofs.Encoding

/-!
# Two ways from a JSON text to a value

A value is read from a JSON text by way of its document, or straight from its content by trying
the kinds of values in order.  Content that comes from a JSON text is always read as a value, as
the value of the document, so a mapping that looks like a written record never becomes one.
-/

namespace CallGuard

namespace JsonSyntax

/-- Induction on a syntax tree: a motive that holds of its parts holds of the tree. -/
@[elab_as_elim]
theorem induction {motive : JsonSyntax → Prop} (null : motive .null)
    (bool : ∀ b, motive (.bool b)) (number : ∀ numeral, motive (.number numeral))
    (string : ∀ units, motive (.string units))
    (array : ∀ items, (∀ item ∈ items, motive item) → motive (.array items))
    (object : ∀ members, (∀ member ∈ members, motive member.2) → motive (.object members))
    (tree : JsonSyntax) : motive tree :=
  @JsonSyntax.rec motive (fun items => ∀ item ∈ items, motive item)
    (fun members => ∀ member ∈ members, motive member.2) (fun member => motive member.2)
    null bool number string array object
    (fun _ member => nomatch member) (fun _ _ head tail => List.forall_mem_cons.mpr ⟨head, tail⟩)
    (fun _ member => nomatch member) (fun _ _ head tail => List.forall_mem_cons.mpr ⟨head, tail⟩)
    (fun _ _ value => value) tree

end JsonSyntax

namespace Json

/-- Induction on a document: a motive that holds of its parts holds of the document. -/
@[elab_as_elim]
theorem induction {motive : Json → Prop} (null : motive .null) (bool : ∀ b, motive (.bool b))
    (number : ∀ n, motive (.number n)) (string : ∀ s, motive (.string s))
    (array : ∀ items, (∀ item ∈ items, motive item) → motive (.array items))
    (object : ∀ members, (∀ member ∈ members, motive member.2) → motive (.object members))
    (document : Json) : motive document :=
  @Json.rec motive (fun items => ∀ item ∈ items, motive item)
    (fun members => ∀ member ∈ members, motive member.2) (fun member => motive member.2)
    null bool number string array object
    (fun _ member => nomatch member) (fun _ _ head tail => List.forall_mem_cons.mpr ⟨head, tail⟩)
    (fun _ member => nomatch member) (fun _ _ head tail => List.forall_mem_cons.mpr ⟨head, tail⟩)
    (fun _ _ value => value) document

end Json

namespace Value

/-! ## The kinds of values in order -/

/-- The kinds of values. -/
inductive Kind where
  | null
  | bool
  | int
  | float
  | str
  | list
  | map
  | record

/-- The kinds in the order in which they are tried. -/
def Kind.all : List Kind := [.null, .bool, .int, .float, .str, .list, .map, .record]

/-- The record that a sequence of its two parts is read as. -/
def recordOfPair? : List Content → Option Value
  | [.text typeName, .mapping fields] => (ofNamed? fields).map (recordOf typeName)
  | _ => none

/-- The record that a mapping with its two parts is read as. -/
def recordOfMembers? (entries : List (ContentName × Content)) : Option Value :=
  match recordParts? entries with
  | some ([typeName], [fields]) => some (recordOf typeName fields)
  | _ => none

/-- What content is as a value of a kind: an integer only where 64 bits hold it, a float for
    every number, a record where a mapping or a sequence gives its two parts. -/
def ofContentAs? : Kind → Content → Option Value
  | .null, .null => some .null
  | .bool, .bool b => some (.bool b)
  | .int, .number n => n.toInt64?.map .int
  | .float, .number n => some (.float n.toBinary64)
  | .str, .text s => some (.str s)
  | .list, .sequence items => (ofContents? items).map .list
  | .map, .mapping entries => (ofNamed? entries).map mapOf
  | .record, .sequence items => recordOfPair? items
  | .record, .mapping entries => recordOfMembers? entries
  | _, _ => none

/-- The parts of a record in a sequence are values, so the sequence is a list already. -/
theorem recordOfPair?_eq_none {items : List Content} (refused : ofContents? items = none) :
    recordOfPair? items = none := by
  unfold recordOfPair?
  split
  next typeName fields =>
    cases found : ofNamed? fields with
    | none => rfl
    | some entries => simp [ofContents?, ofContent?, found] at refused
  next => rfl

/-- Content is read as the first kind that accepts it. -/
theorem ofContent?_eq_findSome? (content : Content) :
    ofContent? content = Kind.all.findSome? fun kind => ofContentAs? kind content := by
  cases content with
  | null | bool | text => rfl
  | number n =>
    cases found : n.toInt64? <;> simp [ofContent?, ofNumber, Kind.all, ofContentAs?, found]
  | sequence items =>
    cases found : ofContents? items with
    | some values => simp [ofContent?, Kind.all, ofContentAs?, found]
    | none =>
      simp [ofContent?, Kind.all, ofContentAs?, found, recordOfPair?_eq_none found]
  | mapping entries =>
    cases found : ofNamed? entries with
    | some values => simp [ofContent?, Kind.all, ofContentAs?, found]
    | none =>
      have reads : ofContent? (.mapping entries) = recordOfMembers? entries := by
        simp only [ofContent?, found, Option.map_none]
        rfl
      rw [reads]
      simp [Kind.all, ofContentAs?, found]

/-! ## Content and documents -/

section Related

variable {α β γ δ : Type} {r : α → β → Prop} {t : γ → δ → Prop} {a? : Option α} {b? : Option β}

theorem rel_bind {f : α → Option γ} {g : β → Option δ} (related : Option.Rel r a? b?)
    (step : ∀ a b, r a b → Option.Rel t (f a) (g b)) :
    Option.Rel t (a? >>= f) (b? >>= g) := by
  cases related with
  | none => exact .none
  | some head => exact step _ _ head

theorem rel_map {f : α → γ} {g : β → δ} (related : Option.Rel r a? b?)
    (step : ∀ a b, r a b → t (f a) (g b)) : Option.Rel t (a?.map f) (b?.map g) := by
  cases related with
  | none => exact .none
  | some head => exact .some (step _ _ head)

theorem rel_refl : Option.Rel Eq a? a? := by
  cases a? with
  | none => exact .none
  | some a => exact .some rfl

end Related

/-- Content that is read as the value of a document. -/
def Reads (content : Content) (document : Json) : Prop :=
  ofContent? content = some (ofJson document)

variable {depth : Nat}

theorem rel_itemsOfSyntax? {items : List JsonSyntax} (each : ∀ item ∈ items,
      Option.Rel Reads (Content.ofSyntax? depth item) (Json.ofSyntax? depth item)) :
    Option.Rel (fun contents documents => ofContents? contents = some (itemsOfJson documents))
      (Content.itemsOfSyntax? depth items) (Json.itemsOfSyntax? depth items) := by
  induction items with
  | nil => exact .some rfl
  | cons item rest ih =>
    have ⟨here, later⟩ := List.forall_mem_cons.mp each
    rw [Content.itemsOfSyntax?, Json.itemsOfSyntax?]
    refine rel_bind here fun content document head => ?_
    refine rel_bind (ih later) fun contents documents tail => ?_
    refine .some ?_
    rw [ofContents?, show ofContent? content = _ from head, tail]
    rfl

theorem rel_membersOfSyntax? {members : List (List StringUnit × JsonSyntax)}
    (each : ∀ member ∈ members,
      Option.Rel Reads (Content.ofSyntax? depth member.2) (Json.ofSyntax? depth member.2)) :
    Option.Rel (fun entries documents => ofNamed? entries = some (entriesOfJson documents))
      (Content.membersOfSyntax? depth members) (Json.membersOfSyntax? depth members) := by
  induction members with
  | nil => exact .some rfl
  | cons member rest ih =>
    obtain ⟨units, value⟩ := member
    have ⟨here, later⟩ := List.forall_mem_cons.mp each
    rw [Content.membersOfSyntax?, Json.membersOfSyntax?]
    refine rel_bind rel_refl fun name _ same => ?_
    refine rel_bind here fun content document head => ?_
    refine rel_bind (ih later) fun entries documents tail => ?_
    subst same
    refine .some ?_
    rw [ofNamed?, show ofContent? content = _ from head, tail]
    rfl

/-- A syntax tree without a content has no document, and the content of any other is read as the
    value of its document. -/
theorem rel_ofSyntax? (depth : Nat) (tree : JsonSyntax) :
    Option.Rel Reads (Content.ofSyntax? depth tree) (Json.ofSyntax? depth tree) := by
  induction tree using JsonSyntax.induction generalizing depth with
  | null | bool => exact .some rfl
  | number | string =>
    simp only [Content.ofSyntax?, Json.ofSyntax?]
    refine rel_map rel_refl ?_
    rintro a _ rfl
    rfl
  | array items ih =>
    cases depth with
    | zero => exact .none
    | succ depth =>
      refine rel_map (rel_itemsOfSyntax? fun item member => ih item member depth) ?_
      intro contents documents read
      rw [Reads, ofContent?, read]
      rfl
  | object members ih =>
    cases depth with
    | zero => exact .none
    | succ depth =>
      refine rel_map (rel_membersOfSyntax? fun member inside => ih member inside depth) ?_
      intro entries documents read
      rw [Reads, ofContent?, read, ofJson, entriesOfJson_eq_map, entriesOfJson_eq_map,
        ← Entries.merged_map]
      rfl

/-- The value of a document holds no record. -/
theorem every_notRecord_ofJson (document : Json) : (ofJson document).Every NotRecord := by
  induction document using Json.induction with
  | null | bool | string => simp [ofJson, Every, parts, NotRecord]
  | number n => cases found : n.toInt64? <;> simp [ofJson, ofNumber, found, Every, parts, NotRecord]
  | array items ih =>
    rw [ofJson, itemsOfJson_eq_map]
    refine .of_list (by simp [NotRecord]) fun item member => ?_
    obtain ⟨document, inside, rfl⟩ := List.mem_map.mp member
    exact ih document inside
  | object members ih =>
    rw [ofJson, entriesOfJson_eq_map]
    refine .of_map (by simp [NotRecord]) fun entry member => ?_
    obtain ⟨⟨name, document⟩, inside, rfl⟩ := List.mem_map.mp member
    exact ih _ inside

/-- A text without a document has no value, and the value of any other is that of its document. -/
theorem decode?_eq (text : String) : decode? text = ofJsonText? text := by
  rw [decode?, ofJsonText?, Json.ofText?]
  cases JsonSyntax.ofText? text with
  | none => rfl
  | some tree =>
    have related := rel_ofSyntax? Json.maximalDepth tree
    cases content : Content.ofSyntax? Json.maximalDepth tree <;>
      cases document : Json.ofSyntax? Json.maximalDepth tree <;>
      rw [content, document] at related <;> cases related
    case none.none => simp [content, document]
    case some.some read => simpa [content, document, Reads] using read

/-- Content is read as the first kind that accepts it, and yet both ways refuse a text or read the
    same value from it, which holds no record. -/
theorem decode?_eq_ofJsonText? :
    (∀ content, ofContent? content = Kind.all.findSome? fun kind => ofContentAs? kind content) ∧
      ∀ text, decode? text = ofJsonText? text ∧
        ∀ value, decode? text = some value → value.Every NotRecord := by
  refine ⟨ofContent?_eq_findSome?, fun text => ⟨decode?_eq text, fun value read => ?_⟩⟩
  rw [decode?_eq, ofJsonText?, Option.map_eq_some_iff] at read
  obtain ⟨document, -, rfl⟩ := read
  exact every_notRecord_ofJson document

/-- An object with the two parts of a record is a mapping.  Of a name that occurs twice the first
    position and the last value count. -/
theorem decode?_eq_ofJsonText?_parts :
    let text := "\x7b\"type_name\":\"P\",\"fields\":\x7b\x7d,\"type_name\":\"Q\"\x7d"
    let value : Value := .map [("type_name", .str "Q"), ("fields", .map [])]
    decode? text = some value ∧ ofJsonText? text = some value ∧ value.Every NotRecord := by
  intro text value
  have plain : value.Every fun part => part.NotRecord ∧ part.IsNumber := by
    simp [value, Every, parts, partsEntries, NotRecord, IsNumber]
  -- Equality of values cannot be decided, so what is read is compared by sameness.
  have compared : (decode? text).any value.same = true := by
    decide +kernel +zetaReduce
  obtain ⟨found, read, same⟩ := (Option.any_eq_true _ _).mp compared
  obtain rfl := eq_of_same plain same
  obtain ⟨agree, flat⟩ := decode?_eq_ofJsonText?.2 text
  exact ⟨read, agree ▸ read, flat value read⟩

end Value

end CallGuard
