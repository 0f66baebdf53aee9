/-!
# The exact value of a double

A finite double is `± mantissa · 2 ^ exponent`. The fields are read off its bit pattern, so every
later step (integrality, rounding, the shortest decimal text) is exact arithmetic on `Nat` and
`Int`. Bit patterns also give the total order on all doubles that sorting uses (`Double.rank`),
among them the many NaNs.
-/

namespace Campus.Number

/-- A finite double as sign, mantissa and power of two. -/
structure Dyadic where
  /-- The sign bit, also meaningful for zero. -/
  negative : Bool
  mantissa : Nat
  exponent : Int
  deriving DecidableEq, Repr

/-- Stored mantissa bits of a double. -/
def fractionBits : Nat := 52

/-- Exponent field of infinities and of NaN. -/
def specialField : Nat := 2047

/-- The value of a finite double, or nothing for an infinity or NaN. -/
def Dyadic.ofFloat? (x : Float) : Option Dyadic :=
  let bits := x.toBits.toNat
  let negative := decide (Nat.pow 2 63 ≤ bits)
  let field := bits / Nat.pow 2 fractionBits % (specialField + 1)
  let fraction := bits % Nat.pow 2 fractionBits
  if field = specialField then none
  else if field = 0 then some ⟨negative, fraction, -1074⟩
  else some ⟨negative, fraction + Nat.pow 2 fractionBits, field - 1075⟩

/-- The value as an integer, if it is one. -/
def Dyadic.toInt? (d : Dyadic) : Option Int :=
  let signed (n : Nat) : Int := if d.negative then -n else n
  if 0 ≤ d.exponent then some (signed (d.mantissa * Nat.pow 2 d.exponent.toNat))
  else
    let unit := Nat.pow 2 (-d.exponent).toNat
    if d.mantissa % unit = 0 then some (signed (d.mantissa / unit)) else none

/-- The integer that `x` is exactly equal to, if there is one. -/
def integer? (x : Float) : Option Int := (Dyadic.ofFloat? x).bind Dyadic.toInt?

/-- A double by its bit pattern. There is a NaN for each sign and each payload, where `Float` has
only one NaN. -/
structure Double where
  bits : UInt64
  deriving DecidableEq, Repr

namespace Double

/-- The bit pattern of `x`. -/
def ofFloat (x : Float) : Double := ⟨x.toBits⟩

/-- The place in the total order of doubles: the NaNs with a sign, negative infinity, the negative
numbers upwards, `-0.0`, `0.0`, the positive numbers, infinity, the NaNs without a sign. -/
def rank (d : Double) : Int :=
  let bits := d.bits.toNat
  if bits < Nat.pow 2 63 then bits else (Nat.pow 2 63 - 1 : Int) - bits

end Double

/-- The place of `x` in the total order of doubles, where NaN comes last. -/
def rank (x : Float) : Int := (Double.ofFloat x).rank

/-- Numbers with a place in a total order. -/
class Ranked (ν : Type) where
  rank : ν → Int

instance : Ranked Float := ⟨rank⟩

instance : Ranked Double := ⟨Double.rank⟩

/-- The bit pattern by which two numbers are the same: `-0.0` counts as `0.0`, and NaN, of which
`Float` has only one, is the same as itself. -/
def identity (x : Float) : UInt64 := if x == 0 then 0 else x.toBits

end Campus.Number
