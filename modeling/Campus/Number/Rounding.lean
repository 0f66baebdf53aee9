import Campus.Number.Dyadic

/-!
# Rounding

One rule divides exactly and rounds to the nearest integer; what happens to a quotient halfway
between two integers is a parameter. Doubles are rounded through their exact value.
-/

namespace Campus.Number

/-- Where a quotient halfway between two integers goes. -/
inductive Tie where
  /-- To the even neighbour. -/
  | even
  /-- To the neighbour farther from zero. -/
  | away
  deriving DecidableEq, Repr

/-- The integer nearest to `num / den`. -/
def roundDiv (tie : Tie) (num den : Nat) : Nat :=
  let quotient := num / den
  let rest := num % den
  if 2 * rest < den then quotient
  else if den < 2 * rest then quotient + 1
  else match tie with
    | .even => quotient + quotient % 2
    | .away => quotient + 1

/-- `x`, or its negation. -/
def withSign (negative : Bool) (x : Float) : Float := if negative then -x else x

/-- The integer nearest to `x`, halves away from zero. Infinities and NaN stay. -/
def roundToInteger (x : Float) : Float :=
  match Dyadic.ofFloat? x with
  | none => x
  | some d =>
    if 0 ≤ d.exponent then x
    else
      let unit := Nat.pow 2 (-d.exponent).toNat
      withSign d.negative (Float.ofNat (roundDiv .away d.mantissa unit))

/-- `x` rounded to two places by float arithmetic. Integers stay as they are, and so does a
number whose hundredfold is not finite. -/
def roundToHundredths (x : Float) : Float :=
  let scaled := x * 100
  if (integer? x).isSome || !scaled.isFinite then x else roundToInteger scaled / 100

end Campus.Number
