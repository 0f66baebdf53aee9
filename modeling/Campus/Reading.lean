import Campus.Fault
import Campus.Key

/-!
# Reading the parts of a query

Reading a clause either succeeds or meets a fault. On the way it collects what the clause
mentions: the datasets of its keys, and the names that grouping gives to the columns. The
collection survives a fault, so that it can be shown what had been read until then.
-/

namespace Campus

/-- What the clauses read so far mention. -/
structure Mentions where
  /-- The datasets of all keys, each once, in the order of first mention. -/
  datasets : List String
  /-- The group keys as written, each once. -/
  groupKeys : List String
  /-- The names of all apply rules. -/
  applyNames : List String
  deriving DecidableEq, Repr, Inhabited

/-- `items` with `item` at the end, if it is not there yet. -/
def addNew (items : List String) (item : String) : List String :=
  if item ∈ items then items else items ++ [item]

namespace Mentions

/-- Nothing is mentioned. -/
def none : Mentions := ⟨[], [], []⟩

/-- Notes the dataset of a key. -/
def addDataset (m : Mentions) (id : String) : Mentions :=
  { m with datasets := addNew m.datasets id }

/-- Notes a group key. -/
def addGroupKey (m : Mentions) (raw : String) : Mentions :=
  { m with groupKeys := addNew m.groupKeys raw }

/-- Notes the name of an apply rule. -/
def addApplyName (m : Mentions) (name : String) : Mentions :=
  { m with applyNames := m.applyNames ++ [name] }

/-- Whether a column is a group key or the name of an apply rule. -/
def hasColumn (m : Mentions) (column : String) : Bool :=
  m.groupKeys.contains column || m.applyNames.contains column

/-- The dataset, if exactly one is mentioned. -/
def single? (m : Mentions) : Option String :=
  match m.datasets with
  | [id] => some id
  | _ => .none

end Mentions

/-- Reading with what is mentioned as a state. -/
abbrev Reading := ExceptT Fault (StateM Mentions)

namespace Reading

/-- Notes the dataset of a key. -/
def mention (key : Key) : Reading Unit := modify (·.addDataset key.dataset)

/-- Runs a reading from what is mentioned so far. -/
def runFrom (m : Mentions) {α : Type} (r : Reading α) : Except Fault α × Mentions :=
  (ExceptT.run r).run m

/-- Reads a clause from what is mentioned so far; a fault lies in that clause. -/
def runIn (clause : Clause) (m : Mentions) {α : Type} (r : Reading α) :
    Except Rejection (α × Mentions) :=
  match r.runFrom m with
  | (.ok a, m) => .ok (a, m)
  | (.error fault, _) => .error ((Rejection.ofFault fault).inClause clause)

end Reading

/-! ### Values of a wanted type -/

/-- The members of a value that must be an object. -/
def Json.expectObject (place : String) : Json → Except Fault (List (String × Json))
  | .object members => .ok members
  | other => .error (.unexpectedType place "object" other.shape)

/-- The items of a value that must be an array. -/
def Json.expectArray (place : String) : Json → Except Fault (List Json)
  | .array items => .ok items
  | other => .error (.unexpectedType place "array" other.shape)

/-- The text of a value that must be a string. -/
def Json.expectString (place : String) : Json → Except Fault String
  | .string s => .ok s
  | other => .error (.unexpectedType place "string" other.shape)

/-- The number of a value that must be one. -/
def Json.expectNumber (place : String) : Json → Except Fault Float
  | .number n => .ok n.toFloat
  | other => .error (.unexpectedType place "number" other.shape)

/-- The member of an object that must have one. -/
def expectSingle (place : String) : List (String × Json) → Except Fault (String × Json)
  | [member] => .ok member
  | members => .error (.memberCount place members.length)

/-- The key that a text spells where `operator` wants a field of class `wanted`. -/
def Catalog.expectKey (c : Catalog) (raw : String) (wanted : KeyClass) (operator : String) :
    Except Fault Key :=
  match c.resolve? raw wanted with
  | some key => .ok key
  | none => .error (.invalidKey raw operator)

end Campus
