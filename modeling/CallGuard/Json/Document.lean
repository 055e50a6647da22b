import CallGuard.OrderedMap
import CallGuard.Number.FloatText
import CallGuard.Number.Numeral
import CallGuard.Text.Quoted

/-!
# JSON documents

A document keeps three classes of numbers apart: naturals and negative integers of 64 bits,
and floats.  Its compact text writes members in order and floats with their shortest digits;
a float that is no number has the text of null.
-/

namespace CallGuard

/-- A number of a document. -/
inductive Json.Number where
  | natural (n : UInt64)
  | negative (i : Int64)
  | real (x : Binary64)
  deriving DecidableEq, Inhabited

namespace Json.Number

/-- The class of an integer, if 64 bits hold it. -/
def ofInt? (i : Int) : Option Number :=
  if 0 ≤ i then
    if i < UInt64.size then some (natural (UInt64.ofNat i.toNat)) else none
  else
    (int64? i).map negative

/-- The class of a 64-bit integer. -/
def ofInt64 (i : Int64) : Number :=
  if i < 0 then negative i else natural i.toUInt64

/-- The 64-bit signed integer of an integer class, if it is one. -/
def toInt64? : Number → Option Int64
  | natural n => int64? n.toNat
  | negative i => some i
  | real _ => none

/-- The number as a float, rounded to the nearest one. -/
def toBinary64 : Number → Binary64
  | natural n => .ofInt n.toNat
  | negative i => .ofInt i.toInt
  | real x => x

/-- The text of a number. -/
def text : Number → String
  | natural n => String.ofList (Nat.toDigits 10 n.toNat)
  | negative i => int64Text i
  | real x => if x.isFinite then FloatLayout.document.text x else "null"

end Json.Number

/-- A JSON document. -/
inductive Json where
  | null
  | bool (b : Bool)
  | number (n : Json.Number)
  | string (s : String)
  | array (items : List Json)
  | object (members : List (String × Json))
  deriving Inhabited

namespace Json

/-- Texts between brackets, separated by commas. -/
def bracketed (opening closing : String) (parts : List String) : String :=
  opening ++ ",".intercalate parts ++ closing

/-- The text of a boolean. -/
def boolText (b : Bool) : String := if b then "true" else "false"

mutual

/-- The compact text of a document. -/
def text : Json → String
  | null => "null"
  | bool b => boolText b
  | number n => n.text
  | string s => quoteDocument s
  | array items => bracketed "[" "]" (itemTexts items)
  | object members => bracketed "\x7b" "\x7d" (memberTexts members)

/-- The texts of the items of an array. -/
def itemTexts : List Json → List String
  | [] => []
  | item :: rest => text item :: itemTexts rest

/-- The texts of the members of an object. -/
def memberTexts : List (String × Json) → List String
  | [] => []
  | (name, value) :: rest => (quoteDocument name ++ ":" ++ text value) :: memberTexts rest

end

end Json

end CallGuard
