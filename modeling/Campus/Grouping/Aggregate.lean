import Campus.Filter
import Campus.Grouping
import Campus.Number.Fixed

/-!
# Computing aggregates

An aggregate is computed of the values that the records of a group have in one field. Numbers
are added exactly, as the decimals that their shortest texts denote; only a group whose values or
running total leave the range of decimals is added in floating point. Sums and means are rounded
to two places.
-/

namespace Campus

/-- The greater of two numbers, the first of two equal ones; NaN gives way to any number. -/
def greater (a b : Float) : Float := if a.isNaN || a < b then b else a

/-- The lesser of two numbers, the first of two equal ones; NaN gives way to any number. -/
def lesser (a b : Float) : Float := if a.isNaN || b < a then b else a

/-- Combines numbers from left to right; zero stands for none. -/
def combine (op : Float → Float → Float) : List Float → Float
  | [] => 0
  | x :: xs => xs.foldl op x

/-- The exact sum of the decimals that the numbers denote, if it stays in range. -/
def decimalSum? (xs : List Float) : Option Number.Fixed :=
  (xs.mapM Number.Fixed.ofFloat?).bind Number.Fixed.sum?

/-- The sum by float addition from left to right. -/
def floatSum (xs : List Float) : Float := xs.foldl (· + ·) 0

/-- The sum of numbers, to two places. -/
def roundedSum (xs : List Float) : Float :=
  match decimalSum? xs with
  | some total => total.toHundredths.toFloat
  | none => Number.roundToHundredths (floatSum xs)

/-- The mean of numbers, to two places; zero stands for the mean of none. -/
def roundedMean (xs : List Float) : Float :=
  if xs.isEmpty then 0
  else
    match (decimalSum? xs).bind (·.div? xs.length) with
    | some mean => mean.toHundredths.toFloat
    | none => Number.roundToHundredths (floatSum xs / Float.ofNat xs.length)

/-- The aggregate of a list of values. Texts only count. -/
def Aggregate.of (a : Aggregate) (values : List Scalar) : Float :=
  let numbers := values.filterMap Scalar.number?
  match a with
  | .max => combine greater numbers
  | .min => combine lesser numbers
  | .avg => roundedMean numbers
  | .sum => roundedSum numbers
  | .count => Float.ofNat values.eraseDups.length

/-- The value that a rule gives to a group of records. -/
def ApplyRule.value (rule : ApplyRule) (kind : Kind) (members : List Record) : Scalar :=
  .number (rule.aggregate.of (members.filterMap (·.field? kind rule.key.field)))

end Campus
