import CallGuard.Content
import CallGuard.Yaml.Node

/-!
# Resolution of YAML scalars

A plain scalar is null, a boolean, an integer or a float if it is written like one, otherwise a
text; every other scalar is a text.  Integers come in four bases and with either sign, but a
decimal one with a leading zero is a text.  A float that is out of range is a text too.
-/

namespace CallGuard.Yaml

/-- The boolean that a plain scalar stands for. -/
def boolOfPlain? (text : String) : Option Bool :=
  if text = "true" || text = "True" || text = "TRUE" then some true
  else if text = "false" || text = "False" || text = "FALSE" then some false
  else none

/-- Whether a plain scalar stands for null. -/
def isNullPlain (text : String) : Bool :=
  text = "" || text = "null" || text = "Null" || text = "NULL" || text = "~"

/-- Without one sign in front. -/
def withoutSign : List Char → List Char
  | '-' :: rest => rest
  | '+' :: rest => rest
  | text => text

/-- Whether a text is decimal digits with a needless zero in front. -/
def hasLeadingZero (text : List Char) : Bool :=
  match withoutSign text with
  | '0' :: rest => !rest.isEmpty && rest.all Char.isDigit
  | _ => false

/-- The natural number of digits with the mark of their base in front. -/
def readBased? : List Char → Option Nat
  | '0' :: 'x' :: digits => readNat? 16 digits
  | '0' :: 'o' :: digits => readNat? 8 digits
  | '0' :: 'b' :: digits => readNat? 2 digits
  | digits => readNat? 10 digits

/-- The integer that a plain scalar is written like, if 128 bits hold it. -/
def intOfPlain? (text : List Char) : Option Int :=
  if hasLeadingZero text then none
  else
    let magnitude? := readBased? (withoutSign text)
    match text with
    | '-' :: _ => magnitude?.bind fun n => if n ≤ 1 <<< 127 then some (-(n : Int)) else none
    | _ => magnitude?.bind fun n => if n < 1 <<< 128 then some (n : Int) else none

/-- The float that a plain scalar is written like. -/
def floatOfPlain? (text : List Char) : Option Binary64 :=
  let word := String.ofList text
  let unsigned := String.ofList (if text.head? == some '+' then text.drop 1 else text)
  if unsigned = ".inf" || unsigned = ".Inf" || unsigned = ".INF" then some (.infinity false)
  else if word = "-.inf" || word = "-.Inf" || word = "-.INF" then some (.infinity true)
  else if word = ".nan" || word = ".NaN" || word = ".NAN" then some .nan
  else if hasLeadingZero text then none
  else
    match text with
    | '+' :: '+' :: _ => none
    | '+' :: '-' :: _ => none
    | _ => (Binary64.read? text).filter Binary64.isFinite

/-- The content of a plain scalar; an integer that 64 bits can not hold has none. -/
def contentOfPlain? (text : String) : Option Content :=
  if isNullPlain text then some .null
  else
    match boolOfPlain? text with
    | some b => some (.bool b)
    | none =>
      match intOfPlain? text.toList with
      | some i =>
        if text.toList.head? == some '-' then (int64? i).map fun i => .number (.negative i)
        else (Json.Number.ofInt? i).map .number
      | none =>
        match floatOfPlain? text.toList with
        | some x => some (.number (.real x))
        | none => some (.text text)

/-- What some content is as a name in a mapping. -/
def nameOfContent : Content → ContentName
  | .text s => .text s
  | .number (.natural n) => .natural n
  | _ => .other

mutual

/-- The content of a node, with so many levels left. -/
def contentOf? : Nat → Node → Option Content
  | _, .scalar text true => contentOfPlain? text
  | _, .scalar text false => some (.text text)
  | 0, .sequence _ => none
  | depth + 1, .sequence items => (contentsOf? depth items).map .sequence
  | 0, .mapping _ => none
  | depth + 1, .mapping entries => (entriesOf? depth entries).map .mapping

/-- The contents of the items of a sequence. -/
def contentsOf? : Nat → List Node → Option (List Content)
  | _, [] => some []
  | depth, item :: rest => do
    let head ← contentOf? depth item
    return head :: (← contentsOf? depth rest)

/-- The contents of the entries of a mapping. -/
def entriesOf? : Nat → List (Node × Node) → Option (List (ContentName × Content))
  | _, [] => some []
  | depth, (name, value) :: rest => do
    let name ← contentOf? depth name
    let head ← contentOf? depth value
    return (nameOfContent name, head) :: (← entriesOf? depth rest)

end

end CallGuard.Yaml
