import Campus.Json
import Campus.Number.Scientific

/-!
# Writing JSON texts

Values are written without white space. Strings escape the quote, the backslash and the control
characters below the space; integers are written in full; a double is written with the fewest
digits that read back, positionally from `0.00001` up to below `1e16` and with a power of ten
outside, and always so that it is not mistaken for an integer.
-/

namespace Campus.Json

open Campus.Number (Scientific)

/-- The digit of a value below sixteen. -/
def hexChar (n : Nat) : Char := (Nat.digitChar n)

/-- A code below `2 ^ 16` as four hexadecimal digits. -/
def hexCode (n : Nat) : List Char :=
  [hexChar (n / 4096 % 16), hexChar (n / 256 % 16), hexChar (n / 16 % 16), hexChar (n % 16)]

/-- A character inside a string. -/
def escape (c : Char) : List Char :=
  if c = '"' then ['\\', '"']
  else if c = '\\' then ['\\', '\\']
  else if c = '\x08' then ['\\', 'b']
  else if c = '\x0c' then ['\\', 'f']
  else if c = '\n' then ['\\', 'n']
  else if c = '\r' then ['\\', 'r']
  else if c = '\t' then ['\\', 't']
  else if c.toNat < 0x20 then '\\' :: 'u' :: hexCode c.toNat
  else [c]

/-- A string with its quotes. -/
def printString (s : String) : List Char := '"' :: (s.toList.flatMap escape ++ ['"'])

/-- A natural number in decimal digits. -/
def printNat (n : Nat) : List Char := Nat.toDigits 10 n

/-- An integer in decimal digits. -/
def printInt (n : Int) : List Char :=
  if n < 0 then '-' :: printNat n.natAbs else printNat n.natAbs

/-- Powers of ten of the first digit that are written positionally. -/
def isPositional (power : Int) : Bool := -5 ≤ power && power < 16

/-- `0.d₁d₂… · 10 ^ point` in positional form. -/
def printPositional (digits : List Char) (point : Int) : List Char :=
  if point ≤ 0 then '0' :: '.' :: (List.replicate (-point).toNat '0' ++ digits)
  else
    let whole := point.toNat
    if digits.length ≤ whole then
      digits ++ List.replicate (whole - digits.length) '0' ++ ['.', '0']
    else digits.take whole ++ '.' :: digits.drop whole

/-- `d₁.d₂… · 10 ^ power` with the power written out. -/
def printPower (digits : List Char) (power : Int) : List Char :=
  let mantissa := match digits with
    | d :: e :: rest => d :: '.' :: e :: rest
    | digits => digits
  mantissa ++ 'e' :: (if power < 0 then '-' else '+') :: printNat power.natAbs

/-- A decimal as the text of a double. -/
def printScientific (s : Scientific) : List Char :=
  let unsigned :=
    if s.digits = 0 then ['0', '.', '0']
    else
      let digits := printNat s.digits
      let power := s.exponent + digits.length - 1
      if isPositional power then printPositional digits (power + 1) else printPower digits power
  if s.negative then '-' :: unsigned else unsigned

/-- A number; a double that is not finite has no number text and is written as null. Of two
shortest decimals equally near to a double, the even one is written. -/
def Num.print : Num → List Char
  | .integer n => printInt n
  | .real x =>
    match Scientific.ofFloat? .even x with
    | some s => printScientific s
    | none => ['n', 'u', 'l', 'l']

mutual

/-- The text of a value. -/
def print : Json → List Char
  | .null => ['n', 'u', 'l', 'l']
  | .bool true => ['t', 'r', 'u', 'e']
  | .bool false => ['f', 'a', 'l', 's', 'e']
  | .number n => n.print
  | .string s => printString s
  | .array items => '[' :: printItems items
  | .object members => '\x7b' :: printMembers members

/-- The rest of an array from an item on. -/
def printItems : List Json → List Char
  | [] => [']']
  | [item] => print item ++ [']']
  | item :: next :: items => print item ++ ',' :: printItems (next :: items)

/-- The rest of an object from a member on. -/
def printMembers : List (String × Json) → List Char
  | [] => ['\x7d']
  | [(name, value)] => printString name ++ ':' :: (print value ++ ['\x7d'])
  | (name, value) :: next :: members =>
    printString name ++ ':' :: (print value ++ ',' :: printMembers (next :: members))

end

/-- The text of a value as a string. -/
def toText (v : Json) : String := String.ofList v.print

/-- The text of a number as a string. -/
def Num.toText (n : Num) : String := String.ofList n.print

end Campus.Json
