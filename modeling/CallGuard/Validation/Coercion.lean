import CallGuard.Number.FloatText
import CallGuard.Number.Numeral
import CallGuard.Text.Blank
import CallGuard.Value

/-!
# Coercion of scalars

In strict mode a scalar conforms only to a type of its own kind.  In lax mode texts of
numbers and truth values, whole floats, integers and truth values convert where the
type asks for the other kind.
-/

namespace CallGuard

/-- How closely a scalar must match its type. -/
inductive Mode where
  | strict
  | lax
  deriving DecidableEq

namespace Coercion

/-- A truth value: `true`, `1`, `false` or `0`, letters in either case, with blanks around. -/
def boolOfText? (text : String) : Option Bool :=
  let word := String.ofList ((trim text.toList).map Char.toLower)
  if word = "true" || word = "1" then some true
  else if word = "false" || word = "0" then some false
  else none

/-- An integer numeral with blanks around. -/
def intOfText? (text : String) : Option Int64 := readInt64? (trim text.toList)

/-- A float numeral with blanks around. -/
def floatOfText? (text : String) : Option Binary64 := Binary64.read? (trim text.toList)

/-- What a value converts to where a boolean is asked for. -/
def toBool? : Value → Option Bool
  | .int i => if i = 0 then some false else if i = 1 then some true else none
  | .str s => boolOfText? s
  | _ => none

/-- A float without fractional part in the range of the integers.  The bound above is left out,
    since as a float the greatest integer is rounded up, past the range. -/
def intOfFloat? (x : Binary64) : Option Int64 :=
  if x.isWhole && Binary64.atMost (.ofInt Int64.minValue.toInt) x
      && x.below (.ofInt Int64.maxValue.toInt) then
    some x.toInt64
  else
    none

/-- What a value converts to where an integer is asked for. -/
def toInt? : Value → Option Int64
  | .float x => intOfFloat? x
  | .str s => intOfText? s
  | _ => none

/-- What a value converts to where a float is asked for: an integer is rounded to the
    nearest one. -/
def toFloat? : Value → Option Binary64
  | .int i => some (.ofInt i.toInt)
  | .str s => floatOfText? s
  | _ => none

/-- What a value converts to where a string is asked for. -/
def toStr? : Value → Option String
  | .int i => some (int64Text i)
  | .float x => some (FloatLayout.plain.text x)
  | .bool b => some (if b then "true" else "false")
  | _ => none

end Coercion

end CallGuard
