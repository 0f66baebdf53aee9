import Campus.Grouping.Aggregate

/-!
# Groups of records

Records are in one group if they have the same values under all group keys; a missing field has
the empty text for its value. Groups stand in the order of their first records, and the members
of a group in the order of the records. They are found in one pass: an index tells for the values
of a record whether there is a group of them, and which one.
-/

namespace Campus

/-- Records with the same values under the group keys. -/
structure Group where
  /-- The values that the first member has under the group keys. -/
  values : List Scalar
  members : List Record
  deriving Inhabited

/-- The value of a record under a group key. -/
def Row.groupValue (r : Row) (kind : Kind) (key : Key) : Scalar :=
  (r.field? kind key.field).getD (.text "")

/-- Groups that records are being put into. -/
structure Partition where
  /-- Where the group of each tuple of values stands among the groups. -/
  index : List (List Scalar × Nat)
  /-- The groups so far; their members are held newest first. -/
  groups : List Group
  deriving Inhabited

namespace Partition

/-- No groups. -/
def empty : Partition := ⟨[], []⟩

/-- Puts a record with these values into its group, which begins with it if there is none yet. -/
def add (p : Partition) (values : List Scalar) (r : Record) : Partition :=
  match p.index.lookup values with
  | some i =>
    { p with groups := p.groups.modify i fun group => { group with members := r :: group.members } }
  | none => ⟨p.index ++ [(values, p.groups.length)], p.groups ++ [⟨values, [r]⟩]⟩

/-- Puts records into their groups one after the other. -/
def addAll (values : Record → List Scalar) (p : Partition) (records : List Record) : Partition :=
  records.foldl (fun p r => p.add (values r) r) p

/-- The groups with their members in order. -/
def finish (p : Partition) : List Group :=
  p.groups.map fun group => { group with members := group.members.reverse }

end Partition

/-- The groups of `records` by the values that `values` gives them. -/
def groupsOf (values : Record → List Scalar) (records : List Record) : List Group :=
  (Partition.empty.addAll values records).finish

namespace Grouping

/-- The groups of the records of a dataset of kind `kind`. -/
def groups (g : Grouping) (kind : Kind) (records : List Record) : List Group :=
  groupsOf (fun r => g.keys.map (r.groupValue kind)) records

/-- The row of a group: its values under the group keys, then the values of the rules. A rule
with the name of an earlier cell takes that cell's place. -/
def row (g : Grouping) (kind : Kind) (group : Group) : Row :=
  let keyCells := (g.keys.map Key.text).zip group.values
  let ruleCells := g.rules.map fun rule => (rule.name, rule.value kind group.members)
  Row.ofList (keyCells ++ ruleCells)

/-- The rows of the groups, narrowed to `columns`. -/
def rows (g : Grouping) (kind : Kind) (columns : List String) (records : List Record) :
    List Row :=
  (g.groups kind records).map fun group => (g.row kind group).select columns

end Grouping

end Campus
