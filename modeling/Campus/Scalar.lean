import Campus.Json

/-!
# Field values

A field holds a number or a text. Two relations compare values: `same`, by which records are
grouped and values counted, and `compare`, by which rows are sorted. They differ in one point:
`-0.0` and `0.0` are the same value, but sort one before the other.

Numbers are `Float`s unless another type `ν` is given. Sorting takes any numbers that have a place
in an order, also doubles by their bit patterns.
-/

namespace Campus

open Number (Ranked)

/-- The value of a field or cell. -/
inductive Scalar (ν : Type := Float) where
  | number (x : ν)
  | text (s : String)
  deriving Inhabited

namespace Scalar

/-- The number, if it is one. -/
def number? : Scalar → Option Float
  | .number x => some x
  | .text _ => none

/-- The text, if it is one. -/
def text? : Scalar → Option String
  | .text s => some s
  | .number _ => none

/-- The largest magnitude below which every integer is a double of its own. -/
def largestExactInteger : Nat := Nat.pow 2 53 - 1

/-- A number as JSON: an integer where it is one of exact magnitude, null where no number text
exists. -/
def numberToJson (x : Float) : Json :=
  match Number.integer? x with
  | some n => .number (if n.natAbs ≤ largestExactInteger then .integer n else .real x)
  | none => if x.isFinite then .number (.real x) else .null

/-- The value as JSON. -/
def toJson : Scalar → Json
  | .number x => numberToJson x
  | .text s => .string s

/-- The order of sorting: numbers by their places, which is the total order of doubles, texts by
their characters, numbers before texts. -/
def compare {ν : Type} [Ranked ν] : Scalar ν → Scalar ν → Ordering
  | .number a, .number b => Ord.compare (Ranked.rank a) (Ranked.rank b)
  | .text a, .text b => Ord.compare a b
  | .number _, .text _ => .lt
  | .text _, .number _ => .gt

/-- Whether two values are the same one: texts by their characters, numbers by their bits, with
`-0.0` for `0.0` and NaN the same as itself. -/
def same : Scalar → Scalar → Bool
  | .number a, .number b => Number.identity a == Number.identity b
  | .text a, .text b => a == b
  | _, _ => false

instance : BEq Scalar := ⟨same⟩

end Scalar

end Campus
