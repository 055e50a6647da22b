import CallGuard.Number.Shortest

/-!
# Texts of floats

A layout says where positional notation ends and how the rest is spelled.  All layouts write
the shortest digits that read back.
-/

namespace CallGuard

/-- How the digits of a float are laid out. -/
structure FloatLayout where
  /-- The places of the decimal point, counted from before the first digit, that are written
      positionally; without bounds all are. -/
  positional : Option (Int × Int)
  /-- Whether a whole number keeps `.0` in positional notation. -/
  keepsPoint : Bool
  /-- What stands before a positive exponent. -/
  positiveExponent : String
  /-- Which of two equally near decimals is written. -/
  tie : TieRule

namespace FloatLayout

/-- The text in documents: positional for leading digits at `10 ^ -5` to `10 ^ 15`. -/
def document : FloatLayout := ⟨some (-4, 16), true, "+", .toEven⟩

/-- The text on its own: always positional, a whole number without point. -/
def plain : FloatLayout := ⟨none, false, "", .up⟩

/-- The text in inspections: positional for leading digits at `10 ^ -4` to `10 ^ 15`. -/
def inspection : FloatLayout := ⟨some (-3, 16), true, "", .up⟩

/-- Digits with the decimal point at a place counted from before the first of them. -/
def positionalText (layout : FloatLayout) (digits : List Char) (point : Int) : List Char :=
  let zeros (count : Int) := List.replicate count.toNat '0'
  if point ≤ 0 then '0' :: '.' :: zeros (-point) ++ digits
  else if (digits.length : Int) ≤ point then
    digits ++ zeros (point - digits.length) ++ (if layout.keepsPoint then ['.', '0'] else [])
  else digits.take point.toNat ++ '.' :: digits.drop point.toNat

/-- Digits with one before the point, and an exponent of ten. -/
def scientificText (layout : FloatLayout) (digits : List Char) (point : Int) : List Char :=
  let exponent := point - 1
  let sign := if exponent < 0 then ['-'] else layout.positiveExponent.toList
  let tail := if digits.length ≤ 1 then [] else '.' :: digits.drop 1
  digits.take 1 ++ tail ++ 'e' :: sign ++ Nat.toDigits 10 exponent.natAbs

/-- The text of a decimal. -/
def decimalText (layout : FloatLayout) (d : Decimal) : List Char :=
  let digits := Nat.toDigits 10 d.digits
  let point := d.exponent + digits.length
  let inside := match layout.positional with
    | none => true
    | some (first, last) => first ≤ point && point ≤ last
  if inside then layout.positionalText digits point else layout.scientificText digits point

/-- The text of a float. -/
def text (layout : FloatLayout) (x : Binary64) : String :=
  if x.isNaN then "NaN"
  else
    let sign := if x.isNegative then ['-'] else []
    String.ofList (sign ++
      if x.isInfinite then ['i', 'n', 'f'] else layout.decimalText (x.shortest layout.tie))

end FloatLayout

end CallGuard
