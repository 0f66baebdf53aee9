/-!
# Lines of a byte stream

A line ends at a line feed, and one carriage return right before that line feed belongs to the
ending. Bytes after the last line feed form a line of their own, which keeps a carriage return
at its end.
-/

namespace Campus.Text

/-- The byte of a line feed. -/
def lineFeed : UInt8 := 10

/-- The byte of a carriage return. -/
def carriageReturn : UInt8 := 13

/-- Puts `b` in front of the first line. -/
def prependByte (b : UInt8) : List (List UInt8) → List (List UInt8)
  | [] => [[b]]
  | line :: lines => (b :: line) :: lines

/-- The lines of `bytes`, without their endings. -/
def lines : List UInt8 → List (List UInt8)
  | [] => []
  | [b] => if b = lineFeed then [[]] else [[b]]
  | b :: c :: rest =>
    if b = lineFeed then [] :: lines (c :: rest)
    else if b = carriageReturn ∧ c = lineFeed then [] :: lines rest
    else prependByte b (lines (c :: rest))

/-- The text that `bytes` encode, if they are UTF-8. -/
def decode? (bytes : List UInt8) : Option String := String.fromUTF8? bytes.toByteArray

/-- What is said of bytes that are no text. -/
def notTextMessage : String := "stream did not contain valid UTF-8"

end Campus.Text
