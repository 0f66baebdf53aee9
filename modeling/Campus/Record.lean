import Campus.Json.Printer
import Campus.Kind
import Campus.Number.Numeral
import Campus.Row
import Campus.Text

/-!
# Records from stored JSON

`Record.ofStored` turns a stored object into a record of a kind. The record has exactly the
fields of the kind; each must be there and usable for its class. Numbers and texts are taken for
one another where that loses nothing: a text that spells a finite number counts as the number,
and a number counts as its text. Anything else is malformed, with the first reason in field
order.
-/

namespace Campus

/-- Why a stored value is no record. -/
inductive Malformed where
  | notObject (found : Json.Shape)
  | missing (field : String)
  | unusable (field : String) (found : Json.Shape)
  deriving DecidableEq, Repr

/-- The reason in words. -/
def Malformed.message : Malformed → String
  | .notObject found => "expected object, found " ++ found.name
  | .missing field => "missing field '" ++ field ++ "'"
  | .unusable field found => "field '" ++ field ++ "' has unusable " ++ found.name ++ " value"

/-- A stored value as a number. -/
def Json.usableNumber? : Json → Option Float
  | .number n => some n.toFloat
  | .string s => Number.looseFloat? (Text.trim s.toList)
  | _ => none

/-- A stored value as a text. -/
def Json.usableText? : Json → Option String
  | .string s => some s
  | .number n => some n.toText
  | _ => none

/-- A stored value as a value of class `c`. -/
def FieldClass.usable? (c : FieldClass) (stored : Json) : Option Scalar :=
  match c with
  | .text => stored.usableText?.map .text
  | .numeric => stored.usableNumber?.map .number

/-- The value that the members of a stored object give for a field. -/
def Field.read (f : Field) (members : List (String × Json)) : Except Malformed Scalar :=
  match Json.member? members f.stored with
  | none => .error (.missing f.stored)
  | some stored =>
    match f.fieldClass.usable? stored with
    | none => .error (.unusable f.stored stored.shape)
    | some value => .ok value

namespace Record

/-- The cells that the members of a stored object give for a list of fields. -/
def readCells (members : List (String × Json)) :
    List Field → Except Malformed (List (String × Scalar))
  | [] => .ok []
  | f :: fields =>
    match f.read members with
    | .error e => .error e
    | .ok value => (readCells members fields).map ((f.stored, value) :: ·)

/-- The member that names the section of a course. -/
def sectionMember : String := "Section"

/-- The section that sums up all sections of a course. -/
def overallSection : String := "overall"

/-- The year of an overall section. -/
def overallYear : Float := 1900

/-- Whether a stored object of a kind is an overall section. -/
def isOverall (kind : Kind) (members : List (String × Json)) : Bool :=
  kind = .courses &&
    match Json.member? members sectionMember with
    | some (.string s) => s == overallSection
    | _ => false

/-- The record of a kind that a stored value holds. An overall section is dated to
`overallYear`, but its own year must be usable all the same. -/
def ofStored (kind : Kind) (stored : Json) : Except Malformed Record :=
  match stored with
  | .object members =>
    (readCells members kind.fields).map fun cells =>
      let record : Row := ⟨cells⟩
      if isOverall kind members then record.set "Year" (.number overallYear) else record
  | other => .error (.notObject other.shape)

end Record

end Campus
