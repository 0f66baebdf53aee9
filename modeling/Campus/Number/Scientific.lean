import Campus.Number.Shortest

/-!
# Decimals in scientific form

`± digits · 10 ^ exponent`: what a numeral in a text denotes, and what the shortest text of a
double denotes. Both directions go through here: a decimal is read as the nearest double, and a
double is written as the shortest decimal that reads back.
-/

namespace Campus.Number

/-- The decimal `± digits · 10 ^ exponent`. -/
structure Scientific where
  negative : Bool
  digits : Nat
  exponent : Int
  deriving DecidableEq, Repr

/-- The double nearest to `s`, an infinity when `s` is out of range. -/
def Scientific.toFloat (s : Scientific) : Float :=
  withSign s.negative (Float.ofScientific s.digits (decide (s.exponent < 0)) s.exponent.natAbs)

/-- The shortest decimal that reads back as the finite double `x`. -/
def Scientific.ofFloat? (tie : Tie) (x : Float) : Option Scientific :=
  (Dyadic.ofFloat? x).map fun d =>
    let (digits, exponent) := shortest tie d.mantissa d.exponent
    ⟨d.negative, digits, exponent⟩

end Campus.Number
