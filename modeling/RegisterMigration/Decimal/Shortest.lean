import RegisterMigration.Decimal.Binary64

/-!
# The shortest decimal of a double

A double is shown by the fewest digits that read back as the same number. The decimals
that do are those of an interval around it, so the digits are found on the coarsest grid
of multiples of a power of ten that has a point in that interval.
-/

namespace RegisterMigration.Decimal

/-- The numbers that round to a double, in fourths of its unit: from `low` to `high`, the
ends included if its significand is even. -/
structure RoundingInterval where
  low : Nat
  middle : Nat
  high : Nat
  closed : Bool

namespace RoundingInterval

/-- The interval of `m * 2 ^ q`. Below a power of two the next number is half as far. -/
def ofSignificand (m : Nat) (q : Int) : RoundingInterval where
  low :=
    if m = 1 <<< (Binary64.precision - 1) ∧ Binary64.minExponent < q then 4 * m - 1
    else 4 * m - 2
  middle := 4 * m
  high := 4 * m + 2
  closed := m % 2 = 0

/-- Whether a fraction lies in the interval. -/
def has (i : RoundingInterval) (num den : Nat) : Bool :=
  if i.closed then i.low * den ≤ num && num ≤ i.high * den
  else i.low * den < num && num < i.high * den

end RoundingInterval

/-- A grid step of `10 ^ e` in fourths of the unit `2 ^ q`, as a fraction. -/
def gridStep (e q : Int) : Nat × Nat :=
  let unit := q - 2
  let ten : Nat × Nat := if 0 ≤ e then (Nat.pow 10 e.toNat, 1) else (1, Nat.pow 10 (-e).toNat)
  if 0 ≤ unit then (ten.1, ten.2 <<< unit.toNat) else (ten.1 <<< (-unit).toNat, ten.2)

/-- The multiple of `10 ^ e` that is in the interval and nearest to its middle, if there is
one. Halfway between two, the larger one is taken. -/
def gridPoint? (i : RoundingInterval) (q e : Int) : Option Nat :=
  let (num, den) := gridStep e q
  let below := i.middle * den / num
  let hit (c : Nat) := i.has (c * num) den
  let belowIsNearer := 2 * (i.middle * den) < (2 * below + 1) * num
  if hit below && (belowIsNearer || !hit (below + 1)) then some below
  else if hit (below + 1) then some (below + 1)
  else none

/-- The digits and the exponent of the point found on the coarsest of `fuel` grids that
follow the grid of `10 ^ e`. -/
def coarsestPoint (i : RoundingInterval) (q : Int) : Nat → Int → Nat × Int
  | 0, e => (0, e)
  | fuel + 1, e =>
    match gridPoint? i q e with
    | some c => (c, e)
    | none => coarsestPoint i q fuel (e - 1)

/-- The fewest digits that read back as `m * 2 ^ q`, and the power of ten they count. -/
def shortestDigits (m : Nat) (q : Int) : Nat × Int :=
  if m = 0 then (0, 0) else coarsestPoint (.ofSignificand m q) q 700 310

/-- The number `c * 10 ^ e` in positional notation, with at least one place. -/
def positional (c : Nat) (e : Int) : String :=
  let digits := Nat.toDigits 10 c
  if 0 ≤ e then
    let zeros := if c = 0 then [] else List.replicate e.toNat '0'
    String.ofList (digits ++ zeros ++ ['.', '0'])
  else
    let places := (-e).toNat
    let padded := List.replicate (places + 1 - digits.length) '0' ++ digits
    let point := padded.length - places
    String.ofList (padded.take point ++ '.' :: padded.drop point)

/-- The shortest text of a double, never with an exponent. -/
def Binary64.text : Binary64 → String
  | .nan => "NaN"
  | .infinity negative => if negative then "-inf" else "inf"
  | .finite negative m q =>
    let (c, e) := shortestDigits m q
    let magnitude := positional c e
    if negative then s!"-{magnitude}" else magnitude

end RegisterMigration.Decimal
