import Campus.Json.Token

/-!
# JSON texts as trees

`Written` is a JSON text by its grammar alone: numerals as written, strings with their escapes,
members in order with repetitions. `Written.ofTokens?` builds it with a stack of the arrays and
objects that are open, so it needs no bound on the nesting.
-/

namespace Campus.Json

open Campus.Number (Numeral)

/-- A JSON value as written. -/
inductive Written where
  | null
  | bool (b : Bool)
  | number (n : Numeral)
  | string (glyphs : List Glyph)
  | array (items : List Written)
  | object (members : List (List Glyph × Written))
  deriving Inhabited

namespace Written

/-- An array or object that is open around the place of reading. Its content so far is held
newest first. -/
inductive Frame where
  | array (items : List Written)
  /-- An object whose member `name` waits for its value. -/
  | member (members : List (List Glyph × Written)) (name : List Glyph)

/-- What may come next. -/
inductive Phase where
  /-- A value. -/
  | value
  /-- The first item of an array, or its end. -/
  | firstItem
  /-- The name of a member; with `first`, also the end of the object. -/
  | name (members : List (List Glyph × Written)) (first : Bool)
  /-- The colon after a name. -/
  | colon (members : List (List Glyph × Written)) (name : List Glyph)
  /-- What follows the complete value `v`. -/
  | after (v : Written)

/-- A reader between two tokens. -/
structure Builder where
  frames : List Frame
  phase : Phase

namespace Builder

/-- Begins a value. -/
def value? (frames : List Frame) : Token → Option Builder
  | .null => some ⟨frames, .after .null⟩
  | .bool b => some ⟨frames, .after (.bool b)⟩
  | .number n => some ⟨frames, .after (.number n)⟩
  | .string glyphs => some ⟨frames, .after (.string glyphs)⟩
  | .openArray => some ⟨.array [] :: frames, .firstItem⟩
  | .openObject => some ⟨frames, .name [] true⟩
  | _ => none

/-- Goes on after the complete value `v`. -/
def after? (frames : List Frame) (v : Written) (token : Token) : Option Builder :=
  match frames, token with
  | .array items :: outer, .comma => some ⟨.array (v :: items) :: outer, .value⟩
  | .array items :: outer, .closeArray => some ⟨outer, .after (.array (v :: items).reverse)⟩
  | .member members name :: outer, .comma => some ⟨outer, .name ((name, v) :: members) false⟩
  | .member members name :: outer, .closeObject =>
    some ⟨outer, .after (.object ((name, v) :: members).reverse)⟩
  | _, _ => none

/-- Takes one token. -/
def step? (b : Builder) (token : Token) : Option Builder :=
  match b.phase with
  | .value => value? b.frames token
  | .firstItem =>
    match b.frames, token with
    | .array _ :: outer, .closeArray => some ⟨outer, .after (.array [])⟩
    | frames, token => value? frames token
  | .name members first =>
    match token with
    | .string name => some ⟨b.frames, .colon members name⟩
    | .closeObject => if first then some ⟨b.frames, .after (.object [])⟩ else none
    | _ => none
  | .colon members name =>
    match token with
    | .colon => some ⟨.member members name :: b.frames, .value⟩
    | _ => none
  | .after v => after? b.frames v token

/-- The value, if it is complete. -/
def finish? : Builder → Option Written
  | ⟨[], .after v⟩ => some v
  | _ => none

end Builder

/-- The value that a list of tokens spells from end to end. -/
def ofTokens? (tokens : List Token) : Option Written :=
  (tokens.foldlM Builder.step? ⟨[], .value⟩).bind Builder.finish?

/-- The value that a text spells. -/
def ofChars? (cs : List Char) : Option Written := (tokens? cs).bind ofTokens?

mutual

/-- How many arrays and objects lie around the deepest place. -/
def depth : Written → Nat
  | .array items => depthOfItems items + 1
  | .object members => depthOfMembers members + 1
  | _ => 0

/-- The depth of the deepest item. -/
def depthOfItems : List Written → Nat
  | [] => 0
  | item :: items => max item.depth (depthOfItems items)

/-- The depth of the deepest member. -/
def depthOfMembers : List (List Glyph × Written) → Nat
  | [] => 0
  | (_, value) :: members => max value.depth (depthOfMembers members)

end

end Written

end Campus.Json
