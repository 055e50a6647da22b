import CallGuard.Json.Syntax

/-!
# Reading documents

From what a JSON text writes to the document it denotes: numbers and strings get their
meaning, a repeated member name keeps its first position and takes its last value, and more
than 127 levels of nesting are refused.
-/

namespace CallGuard

namespace Json

/-- How deeply arrays and objects may be nested. -/
def maximalDepth : Nat := 127

mutual

/-- The document that a syntax tree denotes, with so many levels left. -/
def ofSyntax? : Nat → JsonSyntax → Option Json
  | _, .null => some null
  | _, .bool b => some (bool b)
  | _, .number numeral => numeral.value?.map number
  | _, .string units => (StringUnit.string? units).map string
  | 0, .array _ => none
  | depth + 1, .array items => (itemsOfSyntax? depth items).map array
  | 0, .object _ => none
  | depth + 1, .object members =>
    (membersOfSyntax? depth members).map fun ms => object (Entries.merged ms)

/-- The documents of the items of an array. -/
def itemsOfSyntax? : Nat → List JsonSyntax → Option (List Json)
  | _, [] => some []
  | depth, item :: rest => do
    let head ← ofSyntax? depth item
    return head :: (← itemsOfSyntax? depth rest)

/-- The documents of the members of an object, repetitions included. -/
def membersOfSyntax? : Nat → List (List StringUnit × JsonSyntax) → Option (List (String × Json))
  | _, [] => some []
  | depth, (units, value) :: rest => do
    let name ← StringUnit.string? units
    let head ← ofSyntax? depth value
    return (name, head) :: (← membersOfSyntax? depth rest)

end

/-- The document of a JSON text. -/
def ofText? (text : String) : Option Json :=
  (JsonSyntax.ofText? text).bind (ofSyntax? maximalDepth)

end Json

end CallGuard
