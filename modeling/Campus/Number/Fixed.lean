import Campus.Number.Scientific

/-!
# Decimals of bounded precision

Totals and means are computed in decimals `± coefficient / 10 ^ scale` whose coefficient fits 96
bits and whose scale is at most 28. A result that does not fit at the finest scale takes the
finest one at which it does, rounded there; without such a scale there is no result.
-/

namespace Campus.Number

/-- A decimal `± coefficient / 10 ^ scale`. -/
structure Fixed where
  negative : Bool
  coefficient : Nat
  scale : Nat
  deriving DecidableEq, Repr

namespace Fixed

/-- Coefficients stay below this bound. -/
def coefficientBound : Nat := Nat.pow 2 96

/-- The finest scale. -/
def finestScale : Nat := 28

/-- Zero. -/
def zero : Fixed := ⟨false, 0, 0⟩

/-- The decimal of sign `negative` nearest to `num / den` at the finest scale, from `scale`
downwards, at which the coefficient fits. -/
def nearest? (tie : Tie) (negative : Bool) (num den : Nat) (scale : Nat) : Option Fixed :=
  let coefficient := roundDiv tie (num * Nat.pow 10 scale) den
  if coefficient < coefficientBound then some ⟨negative && coefficient ≠ 0, coefficient, scale⟩
  else match scale with
    | 0 => none
    | coarser + 1 => nearest? tie negative num den coarser

/-- The decimal that a text with these digits denotes, digits past the finest scale rounded off
with halves away from zero. -/
def ofScientific? (s : Scientific) : Option Fixed :=
  let places := min finestScale (-s.exponent).toNat
  nearest? .away s.negative (s.digits * Nat.pow 10 s.exponent.toNat)
    (Nat.pow 10 (-s.exponent).toNat) places

/-- The shortest decimal that reads back as `x`, so that `99.19` counts as exactly `99.19`. Of two
equally near, the one farther from zero counts. -/
def ofFloat? (x : Float) : Option Fixed := (Scientific.ofFloat? .away x).bind ofScientific?

/-- The signed coefficient that `a` has at a finer scale. -/
def aligned (a : Fixed) (scale : Nat) : Int :=
  let coefficient : Int := (a.coefficient * Nat.pow 10 (scale - a.scale) : Nat)
  if a.negative then -coefficient else coefficient

/-- The sum, rounded half to even if the exact sum does not fit. -/
def add? (a b : Fixed) : Option Fixed :=
  if a.coefficient = 0 then some b
  else if b.coefficient = 0 then some a
  else
    let scale := max a.scale b.scale
    let sum := a.aligned scale + b.aligned scale
    nearest? .even (sum < 0) sum.natAbs (Nat.pow 10 scale) scale

/-- The sum of `xs`, from left to right. -/
def sum? (xs : List Fixed) : Option Fixed := xs.foldlM add? zero

/-- The quotient by a count, rounded half to even at the finest scale that fits. -/
def div? (a : Fixed) (count : Nat) : Option Fixed :=
  if a.coefficient = 0 then some zero
  else nearest? .even a.negative a.coefficient (Nat.pow 10 a.scale * count) finestScale

/-- `a` rounded to two places, halves away from zero. -/
def toHundredths (a : Fixed) : Fixed :=
  if a.coefficient = 0 ∨ a.scale ≤ 2 then a
  else
    let coefficient := roundDiv .away a.coefficient (Nat.pow 10 (a.scale - 2))
    ⟨a.negative && coefficient ≠ 0, coefficient, 2⟩

/-- The double nearest to `a`. -/
def toFloat (a : Fixed) : Float := Scientific.toFloat ⟨a.negative, a.coefficient, -a.scale⟩

end Fixed

end Campus.Number
