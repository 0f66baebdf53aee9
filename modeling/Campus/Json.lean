import Campus.Number.Dyadic

/-!
# JSON values

Objects keep their members in order, each name once. A number is an integer when it is written
as one and fits 64 bits, and a finite double otherwise.
-/

namespace Campus

/-- A JSON number. -/
inductive Json.Num where
  /-- An integer from `-2 ^ 63` to `2 ^ 64 - 1`. -/
  | integer (n : Int)
  /-- Any other number, finite. -/
  | real (x : Float)
  deriving DecidableEq

/-- A JSON value. -/
inductive Json where
  | null
  | bool (b : Bool)
  | number (n : Json.Num)
  | string (s : String)
  | array (items : List Json)
  | object (members : List (String × Json))
  deriving Inhabited

namespace Json

/-- Whether an integer text may stay an integer. -/
def Num.fits (n : Int) : Bool := -(Nat.pow 2 63 : Int) ≤ n && n < Nat.pow 2 64

/-- The double nearest to an integer. -/
def floatOfInt (n : Int) : Float := if n < 0 then -Float.ofNat n.natAbs else Float.ofNat n.natAbs

/-- The number as a double. -/
def Num.toFloat : Num → Float
  | .integer n => floatOfInt n
  | .real x => x

/-- The six types of JSON values. -/
inductive Shape where
  | null | bool | number | string | array | object
  deriving DecidableEq, Repr

/-- The name of a type in messages. -/
def Shape.name : Shape → String
  | .null => "null"
  | .bool => "bool"
  | .number => "number"
  | .string => "string"
  | .array => "array"
  | .object => "object"

/-- The type of a value. -/
def shape : Json → Shape
  | .null => .null
  | .bool _ => .bool
  | .number _ => .number
  | .string _ => .string
  | .array _ => .array
  | .object _ => .object

/-- The member of that name. -/
def member? (members : List (String × Json)) (name : String) : Option Json := members.lookup name

/-- A natural number as JSON. -/
def ofNat (n : Nat) : Json := .number (.integer n)

end Json

end Campus
