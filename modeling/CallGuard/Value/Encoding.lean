import CallGuard.Content

/-!
# Values and documents

A value has a document, in which a record is an object of its fields and a float that is no
number is null, and a compact text written straight from the value.  Documents convert back
to values; the names of records are lost on the way.
-/

namespace CallGuard

namespace Value

mutual

/-- The document of a value. -/
def toJson : Value → Json
  | null => .null
  | bool b => .bool b
  | int i => .number (.ofInt64 i)
  | float x => if x.isFinite then .number (.real x) else .null
  | str s => .string s
  | list items => .array (itemsToJson items)
  | map entries => .object (entriesToJson entries)
  | record _ fields => .object (entriesToJson fields)

/-- The documents of the items of a list. -/
def itemsToJson : List Value → List Json
  | [] => []
  | item :: rest => toJson item :: itemsToJson rest

/-- The members for the entries of a mapping. -/
def entriesToJson : List (String × Value) → List (String × Json)
  | [] => []
  | (name, value) :: rest => (name, toJson value) :: entriesToJson rest

end

mutual

/-- The value of a document. -/
def ofJson : Json → Value
  | .null => null
  | .bool b => bool b
  | .number n => ofNumber n
  | .string s => str s
  | .array items => list (itemsOfJson items)
  | .object members => map (entriesOfJson members)

/-- The values of the items of an array. -/
def itemsOfJson : List Json → List Value
  | [] => []
  | item :: rest => ofJson item :: itemsOfJson rest

/-- The entries for the members of an object. -/
def entriesOfJson : List (String × Json) → List (String × Value)
  | [] => []
  | (name, document) :: rest => (name, ofJson document) :: entriesOfJson rest

end

/-- The value of a JSON text, by way of its document. -/
def ofJsonText? (text : String) : Option Value := (Json.ofText? text).map ofJson

mutual

/-- The compact JSON text of a value, written without a document in between. -/
def jsonText : Value → String
  | null => "null"
  | bool b => Json.boolText b
  | int i => int64Text i
  | float x => if x.isFinite then FloatLayout.document.text x else "null"
  | str s => quoteDocument s
  | list items => Json.bracketed "[" "]" (itemJsonTexts items)
  | map entries => Json.bracketed "\x7b" "\x7d" (entryJsonTexts entries)
  | record _ fields => Json.bracketed "\x7b" "\x7d" (entryJsonTexts fields)

/-- The texts of the items of a list. -/
def itemJsonTexts : List Value → List String
  | [] => []
  | item :: rest => jsonText item :: itemJsonTexts rest

/-- The texts of the entries of a mapping. -/
def entryJsonTexts : List (String × Value) → List String
  | [] => []
  | (name, value) :: rest => (quoteDocument name ++ ":" ++ jsonText value) :: entryJsonTexts rest

end

/-- The text shown for a value: a string in readable quotes, a record as its type name around
    its document, anything else as its document. -/
def display : Value → String
  | str s => quoteReadable s
  | record typeName fields => typeName ++ "(" ++ (record typeName fields).toJson.text ++ ")"
  | value => value.toJson.text

/-- Inspection of entries: quoted names with inspected values, in braces. -/
def inspectPairs (pairs : List (String × String)) : String :=
  "\x7b" ++ ", ".intercalate (pairs.map fun pair => quoteReadable pair.1 ++ ": " ++ pair.2)
    ++ "\x7d"

mutual

/-- The inspection of a value shows its constructors. -/
def inspect : Value → String
  | null => "Null"
  | bool b => "Bool(" ++ Json.boolText b ++ ")"
  | int i => "Int(" ++ int64Text i ++ ")"
  | float x => "Float(" ++ FloatLayout.inspection.text x ++ ")"
  | str s => "Str(" ++ quoteReadable s ++ ")"
  | list items => "List([" ++ ", ".intercalate (inspectItems items) ++ "])"
  | map entries => "Map(" ++ inspectPairs (inspectEntries entries) ++ ")"
  | record typeName fields =>
    "Record(Record \x7b type_name: " ++ quoteReadable typeName ++ ", fields: "
      ++ inspectPairs (inspectEntries fields) ++ " \x7d)"

/-- The inspections of the items of a list. -/
def inspectItems : List Value → List String
  | [] => []
  | item :: rest => inspect item :: inspectItems rest

/-- The entries of a mapping with inspected values. -/
def inspectEntries : List (String × Value) → List (String × String)
  | [] => []
  | (name, value) :: rest => (name, inspect value) :: inspectEntries rest

end

end Value

end CallGuard
