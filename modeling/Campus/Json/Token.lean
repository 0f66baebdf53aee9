import Campus.Number.Numeral

/-!
# Tokens of JSON texts

`tokens?` cuts a text into punctuation, the three words, numerals and strings. It reads one
character at a time and holds what is begun in a `Pending`; numerals are cut by their longest
run of numeral characters and checked as a whole. A string token keeps its `\u` escapes as
written, since only some readers care whether they pair up.
-/

namespace Campus.Json

open Campus.Number (Numeral)

/-- One unit of a string as written. -/
inductive Glyph where
  /-- A character, or the escape that names it. -/
  | plain (c : Char)
  /-- A `\u` escape with this code. -/
  | unicode (code : Nat)
  deriving DecidableEq, Repr

/-- A token of a JSON text. -/
inductive Token where
  | openObject | closeObject | openArray | closeArray | colon | comma
  | null
  | bool (b : Bool)
  | number (n : Numeral)
  | string (glyphs : List Glyph)
  deriving DecidableEq, Repr

/-- What has been begun and not ended. Partial content is held newest first. -/
inductive Pending where
  | idle
  | word (read : List Char)
  | numeral (read : List Char)
  | string (read : List Glyph)
  /-- After the backslash of an escape. -/
  | escape (read : List Glyph)
  /-- Inside a `\u` escape: the code so far and how many digits are to come. -/
  | hex (read : List Glyph) (code missing : Nat)
  deriving DecidableEq, Repr

/-- The white space of JSON. -/
def isSpace (c : Char) : Bool := c = ' ' || c = '\t' || c = '\n' || c = '\r'

/-- Characters that may stand in a numeral. -/
def isNumeralChar (c : Char) : Bool :=
  c.isDigit || c = '-' || c = '+' || c = '.' || c = 'e' || c = 'E'

/-- The token that a word spells. -/
def wordToken? (word : List Char) : Option Token :=
  if word = ['n', 'u', 'l', 'l'] then some .null
  else if word = ['t', 'r', 'u', 'e'] then some (.bool true)
  else if word = ['f', 'a', 'l', 's', 'e'] then some (.bool false)
  else none

/-- The token that a run of numeral characters spells. -/
def numeralToken? (run : List Char) : Option Token := do
  let numeral ← Numeral.ofChars? run
  guard numeral.isStrict
  pure (.number numeral)

/-- The value of a hexadecimal digit. -/
def hexDigit? (c : Char) : Option Nat :=
  if '0' ≤ c ∧ c ≤ '9' then some (c.toNat - '0'.toNat)
  else if 'a' ≤ c ∧ c ≤ 'f' then some (c.toNat - 'a'.toNat + 10)
  else if 'A' ≤ c ∧ c ≤ 'F' then some (c.toNat - 'A'.toNat + 10)
  else none

/-- The character that a one-letter escape stands for. -/
def escapeChar? (c : Char) : Option Char :=
  if c = '"' ∨ c = '\\' ∨ c = '/' then some c
  else if c = 'b' then some '\x08'
  else if c = 'f' then some '\x0c'
  else if c = 'n' then some '\n'
  else if c = 'r' then some '\r'
  else if c = 't' then some '\t'
  else none

/-- The token of one punctuation character. -/
def punctuation? (c : Char) : Option Token :=
  if c = '\x7b' then some .openObject
  else if c = '\x7d' then some .closeObject
  else if c = '[' then some .openArray
  else if c = ']' then some .closeArray
  else if c = ':' then some .colon
  else if c = ',' then some .comma
  else none

/-- A reader between two characters: what is begun, and the tokens so far, newest first. -/
structure Cutter where
  pending : Pending
  done : List Token
  deriving DecidableEq, Repr

/-- Takes a character where nothing is begun. -/
def Cutter.start? (done : List Token) (c : Char) : Option Cutter :=
  if isSpace c then some ⟨.idle, done⟩
  else if c = '"' then some ⟨.string [], done⟩
  else if c.isDigit || c = '-' then some ⟨.numeral [c], done⟩
  else if c.isAlpha then some ⟨.word [c], done⟩
  else (punctuation? c).map fun token => ⟨.idle, token :: done⟩

/-- Takes one character. -/
def Cutter.step? (r : Cutter) (c : Char) : Option Cutter :=
  match r.pending with
  | .idle => start? r.done c
  | .word read =>
    if c.isAlpha then some ⟨.word (c :: read), r.done⟩
    else (wordToken? read.reverse).bind fun token => start? (token :: r.done) c
  | .numeral read =>
    if isNumeralChar c then some ⟨.numeral (c :: read), r.done⟩
    else (numeralToken? read.reverse).bind fun token => start? (token :: r.done) c
  | .string read =>
    if c = '"' then some ⟨.idle, .string read.reverse :: r.done⟩
    else if c = '\\' then some ⟨.escape read, r.done⟩
    else if c.toNat < 0x20 then none
    else some ⟨.string (.plain c :: read), r.done⟩
  | .escape read =>
    if c = 'u' then some ⟨.hex read 0 4, r.done⟩
    else (escapeChar? c).map fun e => ⟨.string (.plain e :: read), r.done⟩
  | .hex read code missing =>
    (hexDigit? c).map fun digit =>
      let code := 16 * code + digit
      match missing with
      | 0 | 1 => ⟨.string (.unicode code :: read), r.done⟩
      | missing + 1 => ⟨.hex read code missing, r.done⟩

/-- Ends the text: a word or numeral ends with it, a string may not. -/
def Cutter.finish? (r : Cutter) : Option (List Token) :=
  match r.pending with
  | .idle => some r.done.reverse
  | .word read => (wordToken? read.reverse).map fun token => (token :: r.done).reverse
  | .numeral read => (numeralToken? read.reverse).map fun token => (token :: r.done).reverse
  | _ => none

/-- The tokens of a text. -/
def tokens? (cs : List Char) : Option (List Token) :=
  (cs.foldlM Cutter.step? ⟨.idle, []⟩).bind Cutter.finish?

end Campus.Json
