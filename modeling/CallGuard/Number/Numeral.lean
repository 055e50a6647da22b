import CallGuard.Number.Binary64

/-!
# Numerals

Writing and reading of integers and floats as text.  Only ASCII digits count.
-/

namespace CallGuard

/-- The text of an integer: decimal digits after a minus sign if it is negative. -/
def intText (i : Int) : List Char :=
  if i < 0 then '-' :: Nat.toDigits 10 i.natAbs else Nat.toDigits 10 i.natAbs

/-- The text of a 64-bit integer. -/
def int64Text (i : Int64) : String := String.ofList (intText i.toInt)

/-- The value of a digit in bases up to thirty-six, of either case. -/
def digitValue? (base : Nat) (c : Char) : Option Nat :=
  let value :=
    if '0' ≤ c && c ≤ '9' then c.toNat - '0'.toNat
    else if 'a' ≤ c && c ≤ 'z' then c.toNat - 'a'.toNat + 10
    else if 'A' ≤ c && c ≤ 'Z' then c.toNat - 'A'.toNat + 10
    else base
  if value < base then some value else none

/-- Digits read onto a value. -/
def readDigits? (base : Nat) (value : Nat) : List Char → Option Nat
  | [] => some value
  | c :: rest =>
    match digitValue? base c with
    | some digit => readDigits? base (value * base + digit) rest
    | none => none

/-- One or more digits of a base. -/
def readNat? (base : Nat) (text : List Char) : Option Nat :=
  if text.isEmpty then none else readDigits? base 0 text

/-- Digits of a base after at most one sign. -/
def readInt? (base : Nat) : List Char → Option Int
  | '-' :: rest => (readNat? base rest).map fun n => -(n : Int)
  | '+' :: rest => (readNat? base rest).map fun n => (n : Int)
  | text => (readNat? base text).map fun n => (n : Int)

/-- An integer as a 64-bit one, if it fits. -/
def int64? (i : Int) : Option Int64 :=
  if Int64.minValue.toInt ≤ i && i ≤ Int64.maxValue.toInt then some (Int64.ofInt i) else none

/-- A decimal numeral with at most one sign whose value fits in 64 bits. -/
def readInt64? (text : List Char) : Option Int64 := (readInt? 10 text).bind int64?

/-- The value of digits known to be decimal. -/
def digitsValue (digits : List Char) : Nat :=
  digits.foldl (fun value c => value * 10 + (c.toNat - '0'.toNat)) 0

namespace Binary64

/-- The float nearest to `digits * 10 ^ exponent` under a sign.  Beyond four hundred places
    on either side the answer is infinite or zero without looking at the digits. -/
def ofDecimal (negative : Bool) (digits : Nat) (exponent : Int) : Binary64 :=
  let leading := exponent + (Nat.toDigits 10 digits).length
  if digits = 0 || leading < -400 then zero negative
  else if 400 < leading then infinity negative
  else ofRatio negative (digits * Nat.pow 10 exponent.toNat) (Nat.pow 10 (-exponent).toNat)

/-- An exponent part: nothing, or `e` in either case and an integer. -/
def readExponent? : List Char → Option Int
  | [] => some 0
  | c :: rest => if c = 'e' || c = 'E' then readInt? 10 rest else none

/-- Digits with at most one point among or around them, at least one digit, and at most one
    exponent. -/
def readUnsigned? (negative : Bool) (text : List Char) : Option Binary64 :=
  let whole := text.takeWhile Char.isDigit
  let afterWhole := text.dropWhile Char.isDigit
  let (fraction, rest) := match afterWhole with
    | '.' :: tail => (tail.takeWhile Char.isDigit, tail.dropWhile Char.isDigit)
    | _ => ([], afterWhole)
  if whole.isEmpty && fraction.isEmpty then none
  else (readExponent? rest).map fun exponent =>
    ofDecimal negative (digitsValue (whole ++ fraction)) (exponent - fraction.length)

/-- A number, an infinity or a NaN under at most one sign; the words in any case. -/
def readMagnitude? (negative : Bool) (text : List Char) : Option Binary64 :=
  let word := String.ofList (text.map Char.toLower)
  if word = "inf" || word = "infinity" then some (infinity negative)
  else if word = "nan" then some (ofMagnitude negative nan.magnitude)
  else readUnsigned? negative text

/-- A float in decimal notation; what is too large reads as infinity. -/
def read? : List Char → Option Binary64
  | '-' :: rest => readMagnitude? true rest
  | '+' :: rest => readMagnitude? false rest
  | text => readMagnitude? false text

end Binary64

end CallGuard
