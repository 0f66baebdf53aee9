import Campus.Number.Scientific

/-!
# Numerals

A numeral is a decimal number as written: an optional sign, digits, an optional fraction and an
optional power of ten. `Numeral.ofChars?` splits a text into these parts and leaves open which of
them may be missing; `isStrict` is the rule of JSON texts and `isLoose` the rule of numbers that
a record gives as text.
-/

namespace Campus.Number

/-- The parts of a numeral as written. -/
structure Numeral where
  /-- `+` or `-`, if written. -/
  sign : Option Char
  whole : List Char
  /-- The digits after a point, if there is a point. -/
  fraction : Option (List Char)
  /-- Sign and digits of the power of ten, if there is one. -/
  power : Option (Option Char × List Char)
  deriving DecidableEq, Repr

/-- Splits off a leading sign. -/
def takeSign : List Char → Option Char × List Char
  | '-' :: rest => (some '-', rest)
  | '+' :: rest => (some '+', rest)
  | cs => (none, cs)

/-- Splits off a point and the digits after it. -/
def takeFraction : List Char → Option (List Char) × List Char
  | '.' :: rest => (some (rest.takeWhile Char.isDigit), rest.dropWhile Char.isDigit)
  | cs => (none, cs)

/-- Reads what may follow the digits: nothing, or `e` with a power of ten up to the end. -/
def takePower? : List Char → Option (Option (Option Char × List Char))
  | [] => some none
  | c :: rest =>
    if c = 'e' ∨ c = 'E' then
      let (sign, digits) := takeSign rest
      if digits.all Char.isDigit then some (some (sign, digits)) else none
    else none

/-- The numeral that `cs` spells from end to end. -/
def Numeral.ofChars? (cs : List Char) : Option Numeral :=
  let (sign, unsigned) := takeSign cs
  let (fraction, rest) := takeFraction (unsigned.dropWhile Char.isDigit)
  (takePower? rest).map fun power => ⟨sign, unsigned.takeWhile Char.isDigit, fraction, power⟩

namespace Numeral

/-- A written power of ten has at least one digit. -/
def powerComplete (n : Numeral) : Bool := n.power.all fun p => !p.2.isEmpty

/-- The rule of JSON: no plus sign, a whole part without needless zeros, and a digit after the
point. -/
def isStrict (n : Numeral) : Bool :=
  n.sign ≠ some '+' && !n.whole.isEmpty && (n.whole.head? ≠ some '0' || n.whole.length = 1) &&
    n.fraction.all (!·.isEmpty) && n.powerComplete

/-- The rule of numbers given as text: a digit on at least one side of the point. -/
def isLoose (n : Numeral) : Bool :=
  (!n.whole.isEmpty || n.fraction.any (!·.isEmpty)) && n.powerComplete

/-- Whether the numeral has neither a fraction nor a power of ten. -/
def isWhole (n : Numeral) : Bool := n.fraction.isNone && n.power.isNone

/-- The number that a list of digits spells. -/
def digitsValue (cs : List Char) : Nat := Nat.ofDigitChars 10 cs 0

/-- The written power of ten. -/
def powerValue (n : Numeral) : Int :=
  match n.power with
  | none => 0
  | some (sign, digits) => if sign = some '-' then -(digitsValue digits) else digitsValue digits

/-- The decimal that the numeral denotes. -/
def toScientific (n : Numeral) : Scientific :=
  let fraction := n.fraction.getD []
  ⟨n.sign = some '-', digitsValue (n.whole ++ fraction), n.powerValue - fraction.length⟩

end Numeral

/-- The finite double that `cs` spells as a numeral of the loose rule. -/
def looseFloat? (cs : List Char) : Option Float := do
  let numeral ← Numeral.ofChars? cs
  guard numeral.isLoose
  let x := numeral.toScientific.toFloat
  guard x.isFinite
  pure x

end Campus.Number
