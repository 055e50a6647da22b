import CallGuard.Json.Document

/-!
# Written numbers

What a number of a JSON text denotes.  Its digits enter a significand of 64 bits as long as it
holds them, and a power of ten is applied to that by arithmetic on floats.  Every step rounds,
so many digits may denote a neighbour of the float nearest to them.
-/

namespace CallGuard

/-- A natural scaled by a power of ten. -/
structure ScaledNatural where
  significand : Nat
  exponent : Int
  deriving DecidableEq

namespace ScaledNatural

/-- A significand with one digit more, if 64 bits hold it. -/
def append? (significand : Nat) (digit : Char) : Option Nat :=
  let longer := significand * 10 + (digit.toNat - '0'.toNat)
  if longer < UInt64.size then some longer else none

/-- Digits before the point, read onto a significand.  From the first that does not fit on,
    each is a power of ten. -/
def ofWhole (significand : Nat) : List Char → ScaledNatural
  | [] => ⟨significand, 0⟩
  | c :: rest =>
    match append? significand c with
    | some longer => ofWhole longer rest
    | none => ⟨significand, rest.length + 1⟩

/-- Digits after the point, read onto what stands before it.  The first that does not fit and
    all after it are dropped. -/
def addFraction (n : ScaledNatural) : List Char → ScaledNatural
  | [] => n
  | c :: rest =>
    match append? n.significand c with
    | some longer => addFraction ⟨longer, n.exponent - 1⟩ rest
    | none => n

/-- The largest exponent whose power of ten is a finite float. -/
def largestPower : Nat := 308

/-- The float nearest to a power of ten. -/
def powerOfTen (exponent : Nat) : Binary64 := .ofRatio false (Nat.pow 10 exponent) 1

/-- A float divided by a power of ten, in two steps if the power is no float.  A third step
    would leave nothing of 64 bits. -/
def dividedByTens (x : Binary64) (places : Nat) : Binary64 :=
  if places ≤ largestPower then x.quotient (powerOfTen places)
  else if places ≤ 2 * largestPower then
    (x.quotient (powerOfTen largestPower)).quotient (powerOfTen (places - largestPower))
  else .zero false

/-- The float that stands for a scaled natural; what is too large is refused. -/
def toBinary64? (n : ScaledNatural) : Option Binary64 :=
  let float := Binary64.ofInt n.significand
  if n.exponent < 0 then some (dividedByTens float n.exponent.natAbs)
  else if n.significand = 0 then some float
  else if (largestPower : Int) < n.exponent then none
  else
    let product := float.product (powerOfTen n.exponent.toNat)
    if product.isFinite then some product else none

end ScaledNatural

/-- A written number. -/
structure Numeral where
  negative : Bool
  whole : List Char
  fraction : List Char
  exponent : Int
  /-- Whether there is neither a fraction nor an exponent. -/
  integral : Bool
  deriving DecidableEq

namespace Numeral

/-- The significand of a numeral with the power of ten that is left. -/
def scaled (n : Numeral) : ScaledNatural :=
  let digits := (ScaledNatural.ofWhole 0 n.whole).addFraction n.fraction
  { digits with exponent := digits.exponent + n.exponent }

/-- The float that a numeral denotes; what is too large is refused. -/
def real? (n : Numeral) : Option Binary64 :=
  n.scaled.toBinary64?.map fun x => .ofMagnitude n.negative x.magnitude

/-- The integer class of a numeral, if it is an integer that has one.  Minus zero has none. -/
def integer? (n : Numeral) : Option Json.Number :=
  let magnitude := digitsValue n.whole
  if !n.integral || (n.negative && magnitude == 0) then none
  else Json.Number.ofInt? (if n.negative then -magnitude else magnitude)

/-- The number that a numeral denotes: an integer class where one holds it, otherwise a float. -/
def value? (n : Numeral) : Option Json.Number := n.integer? <|> n.real?.map .real

end Numeral

end CallGuard
