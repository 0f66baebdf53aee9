import Campus.Assoc
import Campus.Json
import Campus.Json.Written

/-!
# Reading JSON texts

A text is a JSON value if its tree has at most 127 arrays and objects around any place, its
`\u` escapes pair up, and no number overflows. Of members of one name the last value counts, at
the place of the first.
-/

namespace Campus.Json

open Campus.Number (Numeral)

/-- Whether `code` is the first half of a pair. -/
def isHighHalf (code : Nat) : Bool := 0xD800 ≤ code && code < 0xDC00

/-- Whether `code` is the second half of a pair. -/
def isLowHalf (code : Nat) : Bool := 0xDC00 ≤ code && code < 0xE000

/-- The character beyond the basic plane that two halves stand for. -/
def pairChar (high low : Nat) : Char :=
  Char.ofNat (0x10000 + (high - 0xD800) * 0x400 + (low - 0xDC00))

/-- The characters that a string denotes, unless half of a pair stands alone. -/
def decodeGlyphs? : List Glyph → Option (List Char)
  | [] => some []
  | .plain c :: rest => (decodeGlyphs? rest).map (c :: ·)
  | [.unicode code] =>
    if isHighHalf code || isLowHalf code then none else some [Char.ofNat code]
  | .unicode high :: .unicode low :: rest =>
    if isHighHalf high then
      if isLowHalf low then (decodeGlyphs? rest).map (pairChar high low :: ·) else none
    else if isLowHalf high then none
    else (decodeGlyphs? (.unicode low :: rest)).map (Char.ofNat high :: ·)
  | .unicode code :: .plain c :: rest =>
    if isHighHalf code || isLowHalf code then none
    else (decodeGlyphs? rest).map fun cs => Char.ofNat code :: c :: cs

/-- The text of a string token. -/
def textOf? (glyphs : List Glyph) : Option String := (decodeGlyphs? glyphs).map String.ofList

/-- The number that a numeral denotes: an integer if it is written as one, fits, and is not
negative zero; otherwise the nearest double, which must be finite. -/
def Num.ofNumeral? (n : Numeral) : Option Num :=
  let s := n.toScientific
  let value : Int := if s.negative then -s.digits else s.digits
  if n.isWhole && fits value && !(s.negative && s.digits = 0) then some (.integer value)
  else
    let x := s.toFloat
    if x.isFinite then some (.real x) else none

namespace Written

mutual

/-- The value that a tree denotes. -/
def toJson? : Written → Option Json
  | .null => some .null
  | .bool b => some (.bool b)
  | .number n => (Num.ofNumeral? n).map .number
  | .string glyphs => (textOf? glyphs).map .string
  | .array items => (toItems? items).map .array
  | .object members => (toMembers? [] members).map .object

/-- The items of an array. -/
def toItems? : List Written → Option (List Json)
  | [] => some []
  | item :: items => item.toJson?.bind fun v => (toItems? items).map (v :: ·)

/-- The members of an object, set one after the other on top of `done`. -/
def toMembers? (done : List (String × Json)) :
    List (List Glyph × Written) → Option (List (String × Json))
  | [] => some done
  | (name, value) :: members =>
    (textOf? name).bind fun n =>
      value.toJson?.bind fun v => toMembers? (Assoc.put n v done) members

end

end Written

/-- How deeply a text may nest arrays and objects. -/
def nestingLimit : Nat := 127

/-- The value of a text that nests at most `limit` deep. -/
def readWithin? (limit : Nat) (text : String) : Option Json :=
  (Written.ofChars? text.toList).bind fun w => if w.depth ≤ limit then w.toJson? else none

/-- The value of a text. -/
def read? (text : String) : Option Json := readWithin? nestingLimit text

end Campus.Json
