import CallGuard.Json.Reading
import CallGuard.Value

/-!
# Content

What a document holds once its scalars are resolved and before anything decides which kind of
value each part is.  A value is read from it by trying the kinds in a fixed order: null,
boolean, integer, float, string, list, mapping, record.  A mapping is a record only where it
cannot be a mapping, because some name is no text or some part is no value, and the parts of
a record are all the same there.
-/

namespace CallGuard

/-- What stands as a name in a mapping. -/
inductive ContentName where
  | text (name : String)
  | natural (n : UInt64)
  | other
  deriving DecidableEq

/-- Resolved content of a document. -/
inductive Content where
  | null
  | bool (b : Bool)
  | number (n : Json.Number)
  | text (s : String)
  | sequence (items : List Content)
  | mapping (entries : List (ContentName × Content))
  deriving Inhabited

/-- The two parts of a written record. -/
inductive RecordPart where
  | typeName
  | fields
  | neither

namespace RecordPart

/-- The part that a name stands for. -/
def ofText (name : String) : RecordPart :=
  if name = "type_name" then typeName else if name = "fields" then fields else neither

/-- The part that a name or its place in order stands for. -/
def ofName? : ContentName → Option RecordPart
  | .text name => some (ofText name)
  | .natural n => some (if n = 0 then typeName else if n = 1 then fields else neither)
  | .other => none

end RecordPart

namespace Content

mutual

/-- The content that a JSON syntax tree denotes, with so many levels left. -/
def ofSyntax? : Nat → JsonSyntax → Option Content
  | _, .null => some null
  | _, .bool b => some (bool b)
  | _, .number numeral => numeral.value?.map number
  | _, .string units => (StringUnit.string? units).map text
  | 0, .array _ => none
  | depth + 1, .array items => (itemsOfSyntax? depth items).map sequence
  | 0, .object _ => none
  | depth + 1, .object members => (membersOfSyntax? depth members).map mapping

/-- The contents of the items of an array. -/
def itemsOfSyntax? : Nat → List JsonSyntax → Option (List Content)
  | _, [] => some []
  | depth, item :: rest => do
    let head ← ofSyntax? depth item
    return head :: (← itemsOfSyntax? depth rest)

/-- The contents of the members of an object. -/
def membersOfSyntax? :
    Nat → List (List StringUnit × JsonSyntax) → Option (List (ContentName × Content))
  | _, [] => some []
  | depth, (units, value) :: rest => do
    let name ← StringUnit.string? units
    let head ← ofSyntax? depth value
    return (.text name, head) :: (← membersOfSyntax? depth rest)

end

end Content

namespace Value

/-- A number: an integer if 64 bits hold it, otherwise a float. -/
def ofNumber (n : Json.Number) : Value :=
  match n.toInt64? with
  | some i => int i
  | none => float n.toBinary64

mutual

/-- The first kind of value that content can be read as. -/
def ofContent? : Content → Option Value
  | .null => some null
  | .bool b => some (bool b)
  | .number n => some (ofNumber n)
  | .text s => some (str s)
  | .sequence items => (ofContents? items).map list
  | .mapping entries =>
    ((ofNamed? entries).map mapOf) <|>
      (match recordParts? entries with
        | some ([typeName], [fields]) => some (recordOf typeName fields)
        | _ => none)

/-- The values of a sequence. -/
def ofContents? : List Content → Option (List Value)
  | [] => some []
  | item :: rest => do
    let head ← ofContent? item
    return head :: (← ofContents? rest)

/-- The values of a mapping whose names are all texts. -/
def ofNamed? : List (ContentName × Content) → Option (List (String × Value))
  | [] => some []
  | (.text name, item) :: rest => do
    let head ← ofContent? item
    return (name, head) :: (← ofNamed? rest)
  | _ :: _ => none

/-- The type names and the field mappings that a mapping gives, others left out. -/
def recordParts? :
    List (ContentName × Content) → Option (List String × List (List (String × Value)))
  | [] => some ([], [])
  | (name, item) :: rest => do
    match ← RecordPart.ofName? name, item with
    | .typeName, .text s => do
      let (names, fields) ← recordParts? rest
      return (s :: names, fields)
    | .fields, .mapping entries => do
      let head ← ofNamed? entries
      let (names, fields) ← recordParts? rest
      return (names, head :: fields)
    | .neither, _ => recordParts? rest
    | _, _ => none

end

/-- A value read straight from a JSON text, without a document in between. -/
def decode? (text : String) : Option Value := do
  ofContent? (← Content.ofSyntax? Json.maximalDepth (← JsonSyntax.ofText? text))

/-- The value of a written string, nothing else. -/
def textOfSyntax? : JsonSyntax → Option String
  | .string units => StringUnit.string? units
  | _ => none

/-- The fields written as an object, with so many levels left. -/
def fieldsOfSyntax? : Nat → JsonSyntax → Option (Entries Value)
  | depth + 1, .object members => do ofNamed? (← Content.membersOfSyntax? depth members)
  | _, _ => none

/-- The type names and the field mappings among the members of an object.  What other
    members hold does not matter. -/
def recordMembers? (depth : Nat) :
    List (List StringUnit × JsonSyntax) → Option (List String × List (Entries Value))
  | [] => some ([], [])
  | (units, value) :: rest => do
    match RecordPart.ofText (← StringUnit.string? units) with
    | .typeName => do
      let head ← textOfSyntax? value
      let (names, fields) ← recordMembers? depth rest
      return (head :: names, fields)
    | .fields => do
      let head ← fieldsOfSyntax? depth value
      let (names, fields) ← recordMembers? depth rest
      return (names, head :: fields)
    | .neither => recordMembers? depth rest

/-- A record read from a JSON text: an object with the members `type_name` and `fields`, each
    once, or an array of the two. -/
def decodeRecord? (text : String) : Option Value := do
  match ← JsonSyntax.ofText? text with
  | .array [name, fields] =>
    return recordOf (← textOfSyntax? name) (← fieldsOfSyntax? (Json.maximalDepth - 1) fields)
  | .object members =>
    match ← recordMembers? (Json.maximalDepth - 1) members with
    | ([name], [fields]) => return recordOf name fields
    | _ => none
  | _ => none

end Value

end CallGuard
