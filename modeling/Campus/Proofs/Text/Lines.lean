import Campus.Text.Lines

/-!
# What the lines of a byte stream are

The lines are read byte by byte, with a look ahead for carriage returns. `Text.lines_eq` says what
they are in terms of the whole stream: the parts between the line feeds, the last of which is a line
only if there is something in it, and each other part without one carriage return at its end.
-/

namespace Campus.Text

/-- A part that a line feed ends, without the carriage return that belongs to the ending. -/
def withoutReturn (part : List UInt8) : List UInt8 :=
  if part.getLast? = some carriageReturn then part.dropLast else part

/-- The lines that the parts between line feeds are. -/
def linesOfParts : List (List UInt8) → List (List UInt8)
  | [] => []
  | [rest] => if rest.isEmpty then [] else [rest]
  | part :: next :: parts => withoutReturn part :: linesOfParts (next :: parts)

variable {b : UInt8} {bytes : List UInt8}

theorem splitOn_cons_lineFeed (bytes : List UInt8) :
    (lineFeed :: bytes).splitOn lineFeed = [] :: bytes.splitOn lineFeed := by
  rw [List.splitOn, List.splitOnP_cons_eq_if_modifyHead, if_pos (beq_self_eq_true lineFeed), List.splitOn]

theorem splitOn_cons_of_ne (h : b ≠ lineFeed) (bytes : List UInt8) :
    (b :: bytes).splitOn lineFeed = (bytes.splitOn lineFeed).modifyHead (b :: ·) := by
  rw [List.splitOn, List.splitOnP_cons_eq_if_modifyHead, if_neg (by simpa using h), List.splitOn]

theorem exists_splitOn_eq_cons (bytes : List UInt8) :
    ∃ part parts, bytes.splitOn lineFeed = part :: parts :=
  List.exists_cons_of_ne_nil (List.splitOnP_ne_nil _ bytes)

theorem withoutReturn_cons_cons (b c : UInt8) (part : List UInt8) :
    withoutReturn (b :: c :: part) = b :: withoutReturn (c :: part) := by
  rw [withoutReturn, withoutReturn, List.getLast?_cons_cons, List.dropLast_cons_cons]
  split <;> rfl

theorem withoutReturn_singleton (h : b ≠ carriageReturn) : withoutReturn [b] = [b] := by
  rw [withoutReturn, if_neg (by simpa using h)]

/-- A part before a line feed is a line. -/
theorem linesOfParts_cons_splitOn (part bytes : List UInt8) :
    linesOfParts (part :: bytes.splitOn lineFeed) =
      withoutReturn part :: linesOfParts (bytes.splitOn lineFeed) := by
  obtain ⟨next, parts, heq⟩ := exists_splitOn_eq_cons bytes
  rw [heq, linesOfParts]

/-- A byte that neither is a line feed nor a carriage return before one belongs to the first
line. -/
theorem linesOfParts_modifyHead {c : UInt8} (h : ¬ (b = carriageReturn ∧ c = lineFeed))
    (bytes : List UInt8) :
    linesOfParts (((c :: bytes).splitOn lineFeed).modifyHead (b :: ·)) =
      prependByte b (linesOfParts ((c :: bytes).splitOn lineFeed)) := by
  by_cases hc : c = lineFeed
  · subst hc
    have hb : b ≠ carriageReturn := fun hb => h ⟨hb, rfl⟩
    rw [splitOn_cons_lineFeed, List.modifyHead_cons, linesOfParts_cons_splitOn,
      linesOfParts_cons_splitOn, withoutReturn_singleton hb]
    rfl
  · obtain ⟨part, parts, heq⟩ := exists_splitOn_eq_cons bytes
    rw [splitOn_cons_of_ne hc, heq, List.modifyHead_cons, List.modifyHead_cons]
    cases parts with
    | nil => rfl
    | cons next parts =>
        rw [linesOfParts, linesOfParts, withoutReturn_cons_cons]
        rfl

/-- The lines are the parts between the line feeds. -/
theorem lines_eq (input : List UInt8) : lines input = linesOfParts (input.splitOn lineFeed) := by
  induction input using lines.induct with
  | case1 => rfl
  | case2 => rfl
  | case3 b hb =>
      rw [splitOn_cons_of_ne hb, lines, if_neg hb]
      rfl
  | case4 c rest ih =>
      rw [splitOn_cons_lineFeed, linesOfParts_cons_splitOn, ← ih, lines, if_pos rfl]
      rfl
  | case5 b c rest hb hreturn ih =>
      obtain ⟨rfl, rfl⟩ := hreturn
      rw [splitOn_cons_of_ne hb, splitOn_cons_lineFeed, List.modifyHead_cons,
        linesOfParts_cons_splitOn, ← ih, lines, if_neg hb, if_pos ⟨rfl, rfl⟩]
      rfl
  | case6 b c rest hb hreturn ih =>
      rw [splitOn_cons_of_ne hb, linesOfParts_modifyHead hreturn, ← ih, lines, if_neg hb,
        if_neg hreturn]

end Campus.Text
