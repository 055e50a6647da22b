import CallGuard.Number.Binary64

/-!
# Shortest decimals

The decimal with the fewest digits among those that round to a given float, and of those the
one nearest to it; where two are equally near a rule decides.  The search goes through the
grids `10 ^ e` from coarse to fine.  On each grid only the two neighbours of the float matter:
a grid point that rounds to the float lies between it and one of the ends of its rounding
interval, and so then does a neighbour.
-/

namespace CallGuard

/-- Which of two equally near decimals is taken. -/
inductive TieRule where
  /-- The one whose last digit is even. -/
  | toEven
  /-- The larger one. -/
  | up
  deriving DecidableEq

/-- Whether the lower of two neighbours is taken, for twice its distance from the float and
    the distance between the two. -/
def TieRule.takesLower (tie : TieRule) (lower twice step : Nat) : Bool :=
  twice < step || (twice == step && tie == .toEven && lower % 2 == 0)

/-- The decimal `digits * 10 ^ exponent`. -/
structure Decimal where
  digits : Nat
  exponent : Int
  deriving DecidableEq, Inhabited

namespace Binary64

/-- The reals that round to a positive float, in units of `2 ^ -1076`. -/
structure RoundingInterval where
  lower : Nat
  value : Nat
  upper : Nat
  /-- Whether the ends belong to it: a tie goes to the even significand. -/
  closed : Bool

/-- The rounding interval of a positive finite float.  Below a power of two the floats lie
    twice as close. -/
def roundingInterval (x : Binary64) : RoundingInterval :=
  let unit := 1 <<< x.scale
  let value := 4 * x.significand * unit
  let below := if x.fraction = 0 && 1 < x.exponentField then unit else 2 * unit
  { lower := value - below
    value
    upper := value + 2 * unit
    closed := x.significand % 2 == 0 }

/-- Whether `point / scale` lies in the interval, all of it multiplied by `factor`. -/
def RoundingInterval.holds (r : RoundingInterval) (factor point : Nat) : Bool :=
  if r.closed then r.lower * factor ≤ point && point ≤ r.upper * factor
  else r.lower * factor < point && point < r.upper * factor

/-- The neighbour of the float on the grid `10 ^ exponent` that rounds to it, the nearer of
    two. -/
def RoundingInterval.neighbour? (r : RoundingInterval) (tie : TieRule) (exponent : Int) :
    Option Nat :=
  let factor := Nat.pow 10 (-exponent).toNat
  let step := (Nat.pow 10 exponent.toNat) <<< 1076
  let below := r.value * factor / step
  let above := below + 1
  let holdsBelow := r.holds factor (below * step)
  let holdsAbove := r.holds factor (above * step)
  if holdsBelow && holdsAbove then
    if tie.takesLower below (2 * (r.value * factor % step)) step then some below else some above
  else if holdsBelow then some below
  else if holdsAbove then some above
  else none

/-- The first grid, going from coarse to fine, with a point that rounds to the float.
    Seventeen digits always suffice, so `tries` of them are enough from any start above the
    leading digit by less than `tries - 17` places. -/
def RoundingInterval.search (r : RoundingInterval) (tie : TieRule) (exponent : Int) :
    Nat → Decimal
  | 0 => ⟨0, 0⟩
  | tries + 1 =>
    match r.neighbour? tie exponent with
    | some digits => ⟨digits, exponent⟩
    | none => search r tie (exponent - 1) tries

/-- The shortest decimal that reads back as the magnitude of a finite float. -/
def shortest (x : Binary64) (tie : TieRule) : Decimal :=
  if x.isZero then ⟨0, 0⟩
  else
    let r := x.roundingInterval
    let binaryExponent : Int := (r.value.log2 : Int) - 1076
    r.search tie ((binaryExponent * 30103).fdiv 100000 + 2) 24

end Binary64

end CallGuard
