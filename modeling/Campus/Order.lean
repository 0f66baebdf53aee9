import Campus.Row

/-!
# Orders

The `ORDER` clause sorts the rows of an answer by one or more columns. Sorting is stable in both
directions: rows that agree in every column keep their order.
-/

namespace Campus

/-- The direction of an order. -/
inductive Direction where
  | up
  | down
  deriving DecidableEq, Repr

namespace Direction

/-- The token of a direction. -/
def token : Direction → String
  | .up => "UP"
  | .down => "DOWN"

/-- The direction of that token. -/
def ofToken? (token : String) : Option Direction := [up, down].find? (·.token = token)

/-- A comparison read in a direction. -/
def apply (d : Direction) (o : Ordering) : Ordering :=
  match d with
  | .up => o
  | .down => o.swap

end Direction

/-- How the rows of an answer are sorted. -/
inductive Order where
  /-- Upwards by one column. -/
  | column (name : String)
  /-- By the first of several columns in which two rows differ. -/
  | keys (direction : Direction) (names : List String)
  deriving DecidableEq, Repr

namespace Order

/-- The columns that rows are compared by. -/
def columns : Order → List String
  | .column name => [name]
  | .keys _ names => names

/-- The direction in which rows are sorted. -/
def direction : Order → Direction
  | .column _ => .up
  | .keys direction _ => direction

end Order

section

variable {ν : Type} [Number.Ranked ν]

/-- The order of cells: a missing cell comes before any other. -/
def compareCells : Option (Scalar ν) → Option (Scalar ν) → Ordering
  | none, none => .eq
  | none, some _ => .lt
  | some _, none => .gt
  | some a, some b => a.compare b

namespace Row

/-- The order of two rows by the first of `columns` in which they differ. -/
def compareBy (a b : Row ν) : (columns : List String) → Ordering
  | [] => .eq
  | column :: columns => (compareCells (a.get? column) (b.get? column)).then (compareBy a b columns)

/-- Whether `a` may stand before `b`. -/
def mayPrecede (order : Order) (a b : Row ν) : Bool :=
  order.direction.apply (compareBy a b order.columns) != .gt

end Row

/-- The rows in order. -/
def Order.sort (order : Order) (rows : List (Row ν)) : List (Row ν) :=
  rows.mergeSort (Row.mayPrecede order)

end

end Campus
