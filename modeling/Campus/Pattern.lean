/-!
# Patterns

A pattern of `IS` is a text with at most one star at either end; a star stands for any
characters. The stars are taken off and remembered as the anchor of the remaining text.
-/

namespace Campus

/-- Where the text of a pattern must lie in a value. -/
inductive Anchor where
  /-- The value is the text. -/
  | whole
  /-- The value starts with the text. -/
  | start
  /-- The value ends with the text. -/
  | finish
  /-- The text lies somewhere in the value. -/
  | anywhere
  deriving DecidableEq, Repr

/-- A text without stars, and its anchor. -/
structure Pattern where
  anchor : Anchor
  text : String
  deriving DecidableEq, Repr

/-- The star. -/
def star : Char := '*'

/-- Splits off a star at the start. -/
def takeLeadingStar : List Char → Bool × List Char
  | [] => (false, [])
  | c :: cs => if c = star then (true, cs) else (false, c :: cs)

/-- Splits off a star at the end. -/
def takeTrailingStar (cs : List Char) : Bool × List Char :=
  if cs.getLast? = some star then (true, cs.dropLast) else (false, cs)

/-- Whether `needle` lies somewhere in a text. -/
def occursIn (needle : List Char) : List Char → Bool
  | [] => needle.isEmpty
  | c :: cs => needle.isPrefixOf (c :: cs) || occursIn needle cs

namespace Pattern

/-- The anchor of a text that had stars at its start and at its end. -/
def anchorOf : (leading trailing : Bool) → Anchor
  | true, true => .anywhere
  | true, false => .finish
  | false, true => .start
  | false, false => .whole

/-- The pattern that a text spells: a star inside is refused. -/
def ofText? (raw : String) : Option Pattern :=
  let (leading, rest) := takeLeadingStar raw.toList
  let (trailing, text) := takeTrailingStar rest
  if text.contains star then none else some ⟨anchorOf leading trailing, String.ofList text⟩

/-- Whether a value fits the pattern. -/
def accepts (p : Pattern) (value : String) : Bool :=
  let text := p.text.toList
  let value := value.toList
  match p.anchor with
  | .whole => value = text
  | .start => text.isPrefixOf value
  | .finish => text.isSuffixOf value
  | .anywhere => occursIn text value

end Pattern

end Campus
