import Campus.Filter
import Campus.Grouping
import Campus.Order

/-!
# Queries

A query in typed form: it asks one dataset for the records that satisfy a filter, possibly
grouped, and shows some columns, possibly sorted.
-/

namespace Campus

/-- A query of one dataset. -/
structure Query where
  dataset : String
  filter : Filter
  grouping : Option Grouping
  /-- The columns as written, with repetitions. -/
  columns : List String
  order : Option Order
  deriving Inhabited

end Campus
