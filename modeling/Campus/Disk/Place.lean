import Campus.Disk

/-!
# Places

A place on a disk is known by its text, which is what messages and the log show, and by the steps
that the text asks for. The parts of a text are set off by slashes. Where the steps lead depends
on the disk: `..` leads to the directory around the one that is reached so far, and even an empty
part or `.`, which leads nowhere, can only follow a directory.
-/

namespace Campus

/-- One step through the directories of a disk. -/
inductive Step where
  /-- To the entry of that name. -/
  | down (name : String)
  /-- To the directory around. -/
  | up
  /-- Nowhere. -/
  | stay
  deriving DecidableEq, Repr

/-- A place on a disk. -/
structure Place where
  text : String
  steps : List Step
  deriving DecidableEq, Repr, Inhabited

/-- The name under which the root of all directories is an entry at the top of a tree, where the
entries of the working directory are. No part of a text leads down to an entry of that name. -/
def rootName : String := "/"

/-- The name under which the directory around the working directory is an entry at the top of a
tree, and under which the directory around that one is its entry. No part of a text leads down to
an entry of that name. -/
def aroundName : String := ".."

/-- The step that a part of a text asks for. -/
def Step.ofPart (part : List Char) : Step :=
  if part = [] ∨ part = ['.'] then .stay
  else if part = ['.', '.'] then .up
  else .down (String.ofList part)

namespace Place

/-- The character between the parts of a place's text. -/
def separator : Char := '/'

/-- Adds a character in front of the first part. -/
def addChar (c : Char) : List (List Char) → List (List Char)
  | [] => [[c]]
  | part :: parts => (c :: part) :: parts

/-- The parts between the separators. -/
def parts : List Char → List (List Char)
  | [] => [[]]
  | c :: cs => if c = separator then [] :: parts cs else addChar c (parts cs)

/-- The place with a text. One that begins with a separator is reached from the root, any other
from the working directory. -/
def ofText (text : String) : Place :=
  let steps := (parts text.toList).map Step.ofPart
  ⟨text, if text.toList.head? = some separator then .down rootName :: steps else steps⟩

/-- Whether a separator goes between a place's text and a name. -/
def needsSeparator (text : List Char) : Bool :=
  match text.getLast? with
  | none => false
  | some c => c != separator

/-- The place of an entry. -/
def child (p : Place) (name : String) : Place :=
  let gap := if needsSeparator p.text.toList then [separator] else []
  ⟨String.ofList (p.text.toList ++ gap ++ name.toList), p.steps ++ [.down name]⟩

/-- The place that names lead to. -/
def descend (p : Place) (names : Path) : Place := names.foldl child p

end Place

end Campus
