/-!
# Kinds of datasets

A dataset holds course sections or rooms. The kind fixes the fields: each has the name that
queries use, the name it is stored under, and a class, text or numeric. `courses` stores `id`
for the field that queries call `uuid`, so the two names must never be mixed up.
-/

namespace Campus

/-- What the records of a dataset describe. -/
inductive Kind where
  | courses
  | rooms
  deriving DecidableEq, Repr

/-- The class of a field. -/
inductive FieldClass where
  /-- Usable with `IS`. -/
  | text
  /-- Usable with `EQ`, `GT`, `LT` and the numeric aggregates. -/
  | numeric
  deriving DecidableEq, Repr

/-- The class of field that a place in a query asks for. -/
inductive KeyClass where
  | text
  | numeric
  | any
  deriving DecidableEq, Repr

/-- Whether a field of class `c` may stand where `k` is asked for. -/
def KeyClass.admits (k : KeyClass) (c : FieldClass) : Bool :=
  match k with
  | .text => c = .text
  | .numeric => c = .numeric
  | .any => true

/-- A field of a kind. -/
structure Field where
  /-- The name that queries use. -/
  name : String
  /-- The name that records are stored under. -/
  stored : String
  fieldClass : FieldClass
  deriving DecidableEq, Repr

namespace Kind

/-- All kinds, in the order in which a data directory is read. -/
def all : List Kind := [.courses, .rooms]

/-- The name of a kind, also the name of its directory. -/
def name : Kind → String
  | .courses => "courses"
  | .rooms => "rooms"

/-- The kind of that name. -/
def ofName? (name : String) : Option Kind := all.find? (·.name = name)

/-- What is said of a name that no kind has. -/
def unknownMessage (name : String) : String := "unknown dataset kind '" ++ name ++ "'"

/-- The fields of a kind, the text fields first. -/
def fields : Kind → List Field
  | .courses =>
    [⟨"dept", "Subject", .text⟩, ⟨"id", "Course", .text⟩, ⟨"instructor", "Professor", .text⟩,
      ⟨"title", "Title", .text⟩, ⟨"uuid", "id", .text⟩, ⟨"avg", "Avg", .numeric⟩,
      ⟨"pass", "Pass", .numeric⟩, ⟨"fail", "Fail", .numeric⟩, ⟨"audit", "Audit", .numeric⟩,
      ⟨"year", "Year", .numeric⟩]
  | .rooms =>
    [⟨"fullname", "fullname", .text⟩, ⟨"shortname", "shortname", .text⟩,
      ⟨"number", "number", .text⟩, ⟨"name", "name", .text⟩, ⟨"address", "address", .text⟩,
      ⟨"type", "type", .text⟩, ⟨"furniture", "furniture", .text⟩, ⟨"href", "href", .text⟩,
      ⟨"lat", "lat", .numeric⟩, ⟨"lon", "lon", .numeric⟩, ⟨"seats", "seats", .numeric⟩]

/-- The field that queries call `name`. -/
def field? (k : Kind) (name : String) : Option Field := k.fields.find? (·.name = name)

/-- The class of the field that queries call `name`. -/
def fieldClass? (k : Kind) (name : String) : Option FieldClass :=
  (k.field? name).map (·.fieldClass)

/-- The stored name of the field that queries call `name`; a name of no field stays. -/
def storedName (k : Kind) (name : String) : String := ((k.field? name).map (·.stored)).getD name

/-- The name that queries use for the field stored as `stored`; a name of no field stays. -/
def queryName (k : Kind) (stored : String) : String :=
  ((k.fields.find? (·.stored = stored)).map (·.name)).getD stored

end Kind

end Campus
