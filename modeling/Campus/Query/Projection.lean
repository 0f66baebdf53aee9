import Campus.Filter
import Campus.Query

/-!
# Columns of records

Without a grouping, each column is a key, and its cell is the value of the field that the key
names.
-/

namespace Campus

/-- The stored name that a column stands for: what follows its first separator is a field as
queries call it. A column without a separator stands for itself. -/
def Kind.columnField (kind : Kind) (column : String) : String :=
  match splitAtSeparator? column.toList with
  | some (_, field) => kind.storedName (String.ofList field)
  | none => column

/-- The row of a record: a cell for each column whose field the record has. -/
def Row.project (r : Row) (kind : Kind) (columns : List String) : Row :=
  Row.gather columns fun column => r.get? (kind.columnField column)

end Campus
