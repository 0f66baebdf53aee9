import Campus.Number.Rounding

/-!
# The shortest decimal of a double

The reals that read back as a given double form an interval around it, half a unit in the last
place to each side; the ends belong to it when the mantissa is even. The decimal grids `10 ^ e`
are tried from coarse to fine. On each, only the two neighbours of the value can be the nearest
point, so the first grid with a neighbour inside the interval gives the fewest digits, and the
nearer of two neighbours gives the digits. Which of two equally near neighbours is taken is a
parameter.
-/

namespace Campus.Number

/-- The reals that read back as a positive double, in units of `2 ^ power`: the value is
`center`, and the interval reaches from `low` to `high`. -/
structure Neighbourhood where
  low : Nat
  center : Nat
  high : Nat
  power : Int
  /-- Whether the two ends read back as the double as well. -/
  closed : Bool
  deriving DecidableEq, Repr

/-- The neighbourhood of `mantissa · 2 ^ exponent`. Below a power of two the doubles are twice as
dense, except at the bottom of the range. -/
def Neighbourhood.of (mantissa : Nat) (exponent : Int) : Neighbourhood :=
  let denserBelow := mantissa = Nat.pow 2 fractionBits ∧ -1074 < exponent
  { low := 4 * mantissa - if denserBelow then 1 else 2
    center := 4 * mantissa
    high := 4 * mantissa + 2
    power := exponent - 2
    closed := mantissa % 2 = 0 }

/-- `10 ^ e` per `2 ^ p`, as a fraction: numerator of the two-power side over the ten-power
side. -/
def gridRatio (power grid : Int) : Nat × Nat :=
  (Nat.pow 2 power.toNat * Nat.pow 10 (-grid).toNat,
    Nat.pow 2 (-power).toNat * Nat.pow 10 grid.toNat)

/-- The multiple of `10 ^ grid` that lies in the neighbourhood and next to its center, if there
is one: the nearer of the two neighbours. -/
def Neighbourhood.onGrid? (tie : Tie) (n : Neighbourhood) (grid : Int) : Option Nat :=
  let (unit, step) := gridRatio n.power grid
  let center := n.center * unit
  let inside (d : Nat) : Bool :=
    if n.closed then n.low * unit ≤ d * step && d * step ≤ n.high * unit
    else n.low * unit < d * step && d * step < n.high * unit
  let below := center / step
  let above := below + 1
  match inside below, inside above with
  | true, true => some (roundDiv tie center step)
  | true, false => some below
  | false, true => some above
  | false, false => none

/-- How many decimal digits `n` has; none for zero. -/
def digitCount (n : Nat) : Nat := if n = 0 then 0 else (Nat.toDigits 10 n).length

/-- The power of ten just above `mantissa · 2 ^ exponent`. -/
def decimalCeiling (mantissa : Nat) (exponent : Int) : Int :=
  let num := mantissa * Nat.pow 2 exponent.toNat
  let den := Nat.pow 2 (-exponent).toNat
  if den ≤ num then digitCount (num / den) else 1 - (digitCount ((den - 1) / num) : Int)

/-- Seventeen digits always tell a double from its neighbours. -/
def enoughDigits : Nat := 17

/-- The first grid with a hit, from `10 ^ grid` down by `steps` grids; zero without one. -/
def searchGrids (tie : Tie) (n : Neighbourhood) : (steps : Nat) → (grid : Int) → Nat × Int
  | 0, grid => (0, grid)
  | steps + 1, grid =>
    match n.onGrid? tie grid with
    | some d => (d, grid)
    | none => searchGrids tie n steps (grid - 1)

/-- The decimal `(d, e)` with the fewest digits among those `d · 10 ^ e` that read back as
`mantissa · 2 ^ exponent`, and of those the nearest. -/
def shortest (tie : Tie) (mantissa : Nat) (exponent : Int) : Nat × Int :=
  if mantissa = 0 then (0, 0)
  else
    searchGrids tie (.of mantissa exponent) (enoughDigits + 1) (decimalCeiling mantissa exponent)

end Campus.Number
