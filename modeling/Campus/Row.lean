import Campus.Assoc
import Campus.Scalar

/-!
# Rows

A row holds named cells in order, each name once. Stored records and result rows are both rows:
the names of the one are stored field names, those of the other column names.
-/

namespace Campus

/-- Named values in order. -/
structure Row (ν : Type := Float) where
  cells : List (String × Scalar ν)
  deriving Inhabited

namespace Row

/-- The row without cells. -/
def empty : Row := ⟨[]⟩

/-- The row with `name` set to `value`: in place if the name is there, at the end if not. -/
def set (r : Row) (name : String) (value : Scalar) : Row := ⟨Assoc.put name value r.cells⟩

/-- The row that sets the given cells one after the other. -/
def ofList (cells : List (String × Scalar)) : Row := ⟨Assoc.putAll [] cells⟩

/-- The cell of that name. -/
def get? {ν : Type} (r : Row ν) (name : String) : Option (Scalar ν) := r.cells.lookup name

/-- The names in order. -/
def names (r : Row) : List String := Assoc.names r.cells

/-- How many cells there are. -/
def size (r : Row) : Nat := r.cells.length

/-- The row as a JSON object with its members in cell order. -/
def toJson (r : Row) : Json := .object (r.cells.map fun cell => (cell.1, cell.2.toJson))

/-- The row with a cell for each column that `source` gives a value for, repetitions of a column
aside. -/
def gather (columns : List String) (source : String → Option Scalar) : Row :=
  ⟨columns.eraseDups.filterMap fun column => (source column).map (column, ·)⟩

/-- The row narrowed to `columns`, in their order. -/
def select (r : Row) (columns : List String) : Row := gather columns r.get?

/-- Rows are the same if their cells are, in the same order. -/
instance : BEq Row := ⟨fun row row' => row.cells == row'.cells⟩

end Row

/-- A stored record: a row of stored field names. -/
abbrev Record := Row

end Campus
