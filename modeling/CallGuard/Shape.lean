import CallGuard.TypeExpr

/-!
# Shapes

Rules by which a foreign type can read documents: bounded integers, floats, texts, sequences,
tables, structures and choices.  Reading takes a document to the one that the read value is
written as: numbers take the class of their shape, a structure lists its fields as declared, a
table is sorted by name.  The first refusal met is the answer.
-/

namespace CallGuard

/-- Why a shape refuses a document. -/
inductive ShapeError where
  /-- The document is of another type than `expected`. -/
  | wrongType (document : Json) (expected : String)
  /-- The document is of the right type with a value out of range. -/
  | wrongValue (document : Json) (expected : String)
  | missingField (name : String)
  | unknownField (name : String) (known : List String)
  | unknownVariant (name : String) (known : List String)
  /-- An array ended after `length` elements. -/
  | tooShort (length : Nat) (expected : String)
  /-- An array went on after the last field. -/
  | tooLong (length : Nat)

namespace ShapeError

/-- How a document is called in a refusal. -/
def describe : Json → String
  | .null => "null"
  | .bool b => "boolean `" ++ Json.boolText b ++ "`"
  | .number (.real x) => "floating point `" ++ FloatLayout.document.text x ++ "`"
  | .number n => "integer `" ++ n.text ++ "`"
  | .string s => "string " ++ quoteReadable s
  | .array _ => "sequence"
  | .object _ => "map"

/-- The names that would have been accepted; `kind` is what there are none of. -/
def alternatives (kind : String) : List String → String
  | [] => "there are no " ++ kind
  | [a] => "expected `" ++ a ++ "`"
  | [a, b] => "expected `" ++ a ++ "` or `" ++ b ++ "`"
  | names => "expected one of " ++ ", ".intercalate (names.map fun name => "`" ++ name ++ "`")

/-- The message of a refusal. -/
def message : ShapeError → String
  | wrongType document expected =>
    "invalid type: " ++ describe document ++ ", expected " ++ expected
  | wrongValue document expected =>
    "invalid value: " ++ describe document ++ ", expected " ++ expected
  | missingField name => "missing field `" ++ name ++ "`"
  | unknownField name known => "unknown field `" ++ name ++ "`, " ++ alternatives "fields" known
  | unknownVariant name known =>
    "unknown variant `" ++ name ++ "`, " ++ alternatives "variants" known
  | tooShort length expected => "invalid length " ++ toString length ++ ", expected " ++ expected
  | tooLong length => "invalid length " ++ toString length ++ ", expected fewer elements in array"

end ShapeError

/-- A field of a structure. -/
structure ShapeField (σ : Type) where
  name : String
  shape : σ
  /-- What a missing field is read as; without one it is an error. -/
  missing : Option Json

/-- How a foreign type reads documents. -/
inductive Shape where
  /-- Integers between two bounds. -/
  | integer (label : String) (least greatest : Int)
  | float (label : String)
  | boolean
  | text
  | sequence (item : Shape)
  /-- Null, or the inner shape. -/
  | optional (inner : Shape)
  /-- An object with any names, sorted when written. -/
  | table (value : Shape)
  /-- An object or an array of fields; a closed one refuses names it does not know. -/
  | struct (name : String) (fields : List (ShapeField Shape)) (closed : Bool)
  /-- One of some names, as a text or as an object from the name to null. -/
  | choice (variants : List String)

namespace Shape

/-- Whether a member comes no later than another in a table. -/
def comesFirst (a b : String × Json) : Bool := !decide (b.1 < a.1)

/-- How a structure is called in refusals. -/
def structLabel (name : String) : String := "struct " ++ name

/-- What an array for a structure should have been. -/
def elementsLabel (name : String) (count : Nat) : String :=
  structLabel name ++ " with " ++ toString count ++ " element" ++ (if count = 1 then "" else "s")

/-- Reads a choice from its name. -/
def readVariant (variants : List String) (name : String) : Except ShapeError Json :=
  if variants.contains name then .ok (.string name) else .error (.unknownVariant name variants)

/-- Reads a choice. -/
def readChoice (variants : List String) : Json → Except ShapeError Json
  | .string name => readVariant variants name
  | .object [(name, content)] => do
    let chosen ← readVariant variants name
    match content with
    | .null => return chosen
    | other => throw (.wrongType other "unit")
  | .object members => throw (.wrongValue (.object members) "map with a single key")
  | other => throw (.wrongType other "string or map")

/-- The fields as declared, from what was read of them. -/
def complete (read : Entries Json) : List (ShapeField Shape) → Except ShapeError (Entries Json)
  | [] => .ok []
  | field :: rest => do
    match (Entries.get? read field.name).or field.missing with
    | some document => return (field.name, document) :: (← complete read rest)
    | none => throw (.missingField field.name)

mutual

/-- Reads a document by a shape, giving the document that is written back. -/
def read : Shape → Json → Except ShapeError Json
  | integer label least greatest, document =>
    match document with
    | .number (.natural n) =>
      if least ≤ n.toNat && n.toNat ≤ greatest then .ok document
      else .error (.wrongValue document label)
    | .number (.negative i) =>
      if least ≤ i.toInt && i.toInt ≤ greatest then .ok document
      else .error (.wrongValue document label)
    | _ => .error (.wrongType document label)
  | float label, document =>
    match document with
    | .number n => .ok (.number (.real n.toBinary64))
    | _ => .error (.wrongType document label)
  | boolean, document =>
    match document with
    | .bool _ => .ok document
    | _ => .error (.wrongType document "a boolean")
  | text, document =>
    match document with
    | .string _ => .ok document
    | _ => .error (.wrongType document "a string")
  | sequence item, document =>
    match document with
    | .array items => (items.mapM fun element => read item element).map .array
    | _ => .error (.wrongType document "a sequence")
  | optional inner, document =>
    match document with
    | .null => .ok .null
    | _ => read inner document
  | table value, document =>
    match document with
    | .object members => do
      let values ← members.mapM fun pair => (read value pair.2).map fun v => (pair.1, v)
      return .object (values.mergeSort comesFirst)
    | _ => .error (.wrongType document "a map")
  | struct name fields closed, document =>
    match document with
    | .array items =>
      (readPositional (elementsLabel name fields.length) items.length 0 fields items).map .object
    | .object members => do
      let values ← members.filterMapM fun pair => do
        match readNamed fields pair.1 pair.2 with
        | some result => result.map fun v => some (pair.1, v)
        | none =>
          if closed then throw (.unknownField pair.1 (fields.map ShapeField.name)) else return none
      return .object (← complete values fields)
    | _ => .error (.wrongType document (structLabel name))
  | choice variants, document => readChoice variants document

/-- Reads fields from the elements of an array, one after another. -/
def readPositional (expected : String) (length : Nat) :
    Nat → List (ShapeField Shape) → List Json → Except ShapeError (Entries Json)
  | _, [], [] => .ok []
  | _, [], _ :: _ => .error (.tooLong length)
  | index, field :: rest, elements => do
    let value ← match elements, field.missing with
      | element :: _, _ => read field.shape element
      | [], some document => .ok document
      | [], none => .error (.tooShort index expected)
    return (field.name, value) :: (← readPositional expected length (index + 1) rest elements.tail)

/-- Reads the member of a known field; nothing if there is no such field. -/
def readNamed : List (ShapeField Shape) → String → Json → Option (Except ShapeError Json)
  | [], _, _ => none
  | field :: rest, name, document =>
    if field.name = name then some (read field.shape document) else readNamed rest name document

end

/-- The foreign type that reads by a shape. -/
def foreign (shape : Shape) (name : String) (stamp : Nat) : ForeignType :=
  { name, stamp, check := fun document => (shape.read document).mapError ShapeError.message }

end Shape

end CallGuard
