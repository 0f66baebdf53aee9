import Campus.Filter.Reader
import Campus.Grouping.Reader
import Campus.Query

/-!
# Reading queries

A query is an object with the clauses `WHERE`, `OPTIONS` and possibly `TRANSFORMATIONS`. They
are read in an order of their own: first the grouping, because the columns come from it; then the
options; then the filter. At last, all keys must name one dataset.
-/

namespace Campus

/-- The columns and the order that a query asks for. -/
structure Options where
  columns : List String
  order : Option Order
  deriving DecidableEq, Repr

namespace Options

/-- The member that lists the columns. -/
def columnsMember : String := "COLUMNS"

/-- The member that gives the order. -/
def orderMember : String := "ORDER"

/-- The member of an order that gives its direction. -/
def directionMember : String := "dir"

/-- The member of an order that lists its columns. -/
def keysMember : String := "keys"

/-- What the columns of an order are called in faults. -/
def orderKeysPlace : String := "ORDER keys"

/-- The texts of a list of strings. -/
def expectStrings (place : String) : List Json → Except Fault (List String)
  | [] => .ok []
  | item :: items => do
    let text ← item.expectString place
    let texts ← expectStrings place items
    pure (text :: texts)

/-- The texts of a value that must be a list of strings, at least one. -/
def expectNames (place : String) (node : Json) : Except Fault (List String) := do
  let items ← node.expectArray place
  if items.isEmpty then throw (.emptyList place) else expectStrings place items

/-- Refuses a text that is no column. -/
def expectColumn (columns : List String) (key : String) : Except Fault Unit :=
  if key ∈ columns then .ok () else .error (.orderKey key)

/-- Refuses the first text that is no column. -/
def expectColumns (columns : List String) : List String → Except Fault Unit
  | [] => .ok ()
  | key :: keys => do
    expectColumn columns key
    expectColumns columns keys

/-- The direction that a value gives. -/
def expectDirection : Json → Except Fault Direction
  | .string token =>
    match Direction.ofToken? token with
    | some direction => .ok direction
    | none => .error .orderDirection
  | _ => .error .orderDirection

/-- Reads an order by the given columns. -/
def readOrder (columns : List String) (node : Json) : Except Fault Order :=
  match node with
  | .string column => do
    expectColumn columns column
    pure (.column column)
  | .object members =>
    match Json.member? members directionMember, Json.member? members keysMember with
    | some directionNode, some keysNode =>
      if members.length = 2 then do
        let direction ← expectDirection directionNode
        let keys ← expectNames orderKeysPlace keysNode
        expectColumns columns keys
        pure (.keys direction keys)
      else throw .orderMembers
    | _, _ => throw .orderMembers
  | other => throw (.unexpectedType orderMember "string or object" other.shape)

/-- Refuses the first column that the groups do not have. -/
def expectGrouped : List String → Reading Unit
  | [] => pure ()
  | column :: columns => do
    if (← get).hasColumn column then expectGrouped columns else throw (.ungroupedColumn column)

/-- Reads columns as keys. -/
def readColumnKeys (c : Catalog) : List String → Reading Unit
  | [] => pure ()
  | column :: columns => do
    match c.resolve? column .any with
    | none => throw (.invalidColumn column)
    | some key =>
      Reading.mention key
      readColumnKeys c columns

/-- Reads the clause. With a grouping, the columns are its keys and rules; without one, they
are keys. -/
def read (c : Catalog) (grouped : Bool) (members : List (String × Json)) : Reading Options := do
  match members.find? fun m => !(m.1 = columnsMember || m.1 = orderMember) with
  | some (name, _) => throw (.unexpectedOption name)
  | none => pure ()
  match Json.member? members columnsMember with
  | none => throw (.missingMember columnsMember)
  | some node =>
    let columns ← expectNames columnsMember node
    if grouped then expectGrouped columns else readColumnKeys c columns
    match Json.member? members orderMember with
    | none => pure ⟨columns, none⟩
    | some node =>
      let order ← readOrder columns node
      pure ⟨columns, some order⟩

end Options

/-- The clauses of a query before they are read. -/
structure Outline where
  filter : Json
  options : List (String × Json)
  grouping : Option Json

/-- Sorts out the clauses of a query. -/
def Outline.ofJson (query : Json) : Except Fault Outline := do
  let members ← query.expectObject "query"
  let clauses := [Clause.filter, .options, .grouping].map Clause.name
  match members.find? fun m => !clauses.contains m.1 with
  | some (name, _) => throw (.unexpectedMember name)
  | none => pure ()
  match Json.member? members Clause.filter.name with
  | none => throw (.missingMember Clause.filter.name)
  | some filter =>
    match Json.member? members Clause.options.name with
    | none => throw (.missingMember Clause.options.name)
    | some optionsNode =>
      let options ← optionsNode.expectObject Clause.options.name
      let _ ← filter.expectObject Clause.filter.name
      pure ⟨filter, options, Json.member? members Clause.grouping.name⟩

/-- The dataset that all keys name. -/
def Mentions.expectSingle (m : Mentions) : Except Fault String :=
  match m.datasets with
  | [] => .error .noDataset
  | [id] => .ok id
  | ids => .error (.manyDatasets ids)

namespace Query

/-- Reads the grouping, if there is one. -/
def readGrouping (c : Catalog) : Option Json → Except Rejection (Option Grouping × Mentions)
  | none => .ok (none, .none)
  | some node =>
    (Reading.runIn .grouping .none (Grouping.read c node)).map fun r => (some r.1, r.2)

/-- The query that a JSON value spells, given the registered datasets. -/
def ofJson (c : Catalog) (query : Json) : Except Rejection Query := do
  let outline ← (Outline.ofJson query).mapError Rejection.ofFault
  let (grouping, m) ← readGrouping c outline.grouping
  let (options, m) ← Reading.runIn .options m (Options.read c grouping.isSome outline.options)
  let (filter, m) ← Reading.runIn .filter m (Filter.read c outline.filter)
  let dataset ← m.expectSingle.mapError Rejection.ofFault
  pure ⟨dataset, filter, grouping, options.columns, options.order⟩

/-- Whether a JSON value spells a query. -/
def isValid (c : Catalog) (query : Json) : Bool :=
  match ofJson c query with
  | .ok _ => true
  | .error _ => false

end Query

end Campus
