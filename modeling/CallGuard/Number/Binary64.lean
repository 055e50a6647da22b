/-!
# 64-bit binary floating point

A float is its bit pattern: sign bit, eleven exponent bits, fifty-two fraction bits.  The
magnitude of a finite float is `significand * 2 ^ scale / 2 ^ 1074`, so every question about
its value is a question about natural numbers.  Rounding takes a quotient of naturals to the
nearest float, a tie to the one with even significand.
-/

namespace CallGuard

/-- A 64-bit binary float, as its bit pattern. -/
structure Binary64 where
  bits : UInt64
  deriving DecidableEq, Inhabited

namespace Binary64

/-- Whether the sign bit is set. -/
def isNegative (x : Binary64) : Bool := 1 <<< 63 ≤ x.bits.toNat

/-- The pattern without its sign bit. -/
def magnitude (x : Binary64) : Nat := x.bits.toNat % (1 <<< 63)

/-- The eleven exponent bits. -/
def exponentField (x : Binary64) : Nat := x.magnitude >>> 52

/-- The fifty-two fraction bits. -/
def fraction (x : Binary64) : Nat := x.magnitude % (1 <<< 52)

/-- The magnitude of the infinities; larger ones are not numbers. -/
def infiniteMagnitude : Nat := 2047 <<< 52

def isNaN (x : Binary64) : Bool := infiniteMagnitude < x.magnitude

def isInfinite (x : Binary64) : Bool := x.magnitude = infiniteMagnitude

def isFinite (x : Binary64) : Bool := x.magnitude < infiniteMagnitude

def isZero (x : Binary64) : Bool := x.magnitude = 0

/-- The integer significand: the fraction, with the leading one of a normal float. -/
def significand (x : Binary64) : Nat :=
  if x.exponentField = 0 then x.fraction else (1 <<< 52) + x.fraction

/-- The power of two that scales the significand, in units of `2 ^ -1074`. -/
def scale (x : Binary64) : Nat := x.exponentField - 1

/-- The magnitude of a finite float in units of `2 ^ -1074`. -/
def units (x : Binary64) : Nat := x.significand <<< x.scale

/-- Equality of the numbers: a NaN equals nothing, and the two zeros are equal. -/
def equal (x y : Binary64) : Bool :=
  !x.isNaN && !y.isNaN && (x.bits == y.bits || (x.isZero && y.isZero))

/-- The pattern of a magnitude under a sign. -/
def ofMagnitude (negative : Bool) (magnitude : Nat) : Binary64 :=
  ⟨UInt64.ofNat (if negative then (1 <<< 63) + magnitude else magnitude)⟩

/-- Zero under a sign. -/
def zero (negative : Bool) : Binary64 := ofMagnitude negative 0

/-- Infinity under a sign. -/
def infinity (negative : Bool) : Binary64 := ofMagnitude negative infiniteMagnitude

/-- The quiet NaN with an empty payload. -/
def nan : Binary64 := ⟨0x7ff8000000000000⟩

/-- The quotient of two naturals to the nearest natural, a tie to the even one. -/
def roundQuotient (numerator denominator : Nat) : Nat :=
  let quotient := numerator / denominator
  let twice := 2 * (numerator % denominator)
  if twice < denominator then quotient
  else if denominator < twice then quotient + 1
  else quotient + quotient % 2

/-- The scale at which a quotient has fifty-three significant bits, or zero for smaller ones. -/
def scaleOf (numerator denominator : Nat) : Nat :=
  let estimate := numerator.log2 - (denominator.log2 + 53)
  if numerator < denominator <<< (estimate + 53) then estimate else estimate + 1

/-- The magnitude nearest to `numerator / denominator` units of `2 ^ -1074`.  A significand
    that rounds up to `2 ^ 53` runs over into the exponent bits, which is the next float;
    what runs over the largest exponent is infinite. -/
def magnitudeOfUnits (numerator denominator : Nat) : Nat :=
  let scale := scaleOf numerator denominator
  let rounded := roundQuotient numerator (denominator <<< scale)
  min ((scale <<< 52) + rounded) infiniteMagnitude

/-- The float nearest to a quotient of naturals, under a sign. -/
def ofRatio (negative : Bool) (numerator denominator : Nat) : Binary64 :=
  ofMagnitude negative (magnitudeOfUnits (numerator <<< 1074) denominator)

/-- The float nearest to an integer. -/
def ofInt (i : Int) : Binary64 := ofRatio (decide (i < 0)) i.natAbs 1

/-- The product of two finite floats, rounded once. -/
def product (x y : Binary64) : Binary64 :=
  ofMagnitude (x.isNegative != y.isNegative)
    (magnitudeOfUnits (x.units * y.units) (1 <<< 1074))

/-- The quotient of two finite floats, the second not zero, rounded once. -/
def quotient (x y : Binary64) : Binary64 := ofRatio (x.isNegative != y.isNegative) x.units y.units

/-- The place of a float among the numbers: its magnitude under its sign, so that the two zeros
    share a place. -/
def rank (x : Binary64) : Int := if x.isNegative then -(x.magnitude : Int) else x.magnitude

/-- Whether a number is at most another one.  A NaN is neither below nor above anything. -/
def atMost (x y : Binary64) : Bool := !x.isNaN && !y.isNaN && decide (x.rank ≤ y.rank)

/-- Whether a number lies below another one. -/
def below (x y : Binary64) : Bool := !x.isNaN && !y.isNaN && decide (x.rank < y.rank)

/-- Whether a float has no fractional part.  That of an infinity is not a number. -/
def isWhole (x : Binary64) : Bool := x.isFinite && x.units % (1 <<< 1074) == 0

/-- A float without its fractional part. -/
def wholePart (x : Binary64) : Int :=
  let whole : Nat := x.units >>> 1074
  if x.isNegative then -(whole : Int) else whole

/-- A float as a 64-bit integer, without its fractional part.  What lies past either end stops at
    that end, and a NaN is taken for zero. -/
def toInt64 (x : Binary64) : Int64 :=
  if x.isNaN then 0
  else Int64.ofInt (max Int64.minValue.toInt (min x.wholePart Int64.maxValue.toInt))

end Binary64

end CallGuard
