import Campus.Key

/-!
# Groupings

The `TRANSFORMATIONS` clause of a query: the keys that records are grouped by, and the rules
that compute one named value per group.
-/

namespace Campus

/-- What a rule computes from the values of a field in a group. -/
inductive Aggregate where
  | max
  | min
  | avg
  | sum
  /-- The number of distinct values. -/
  | count
  deriving DecidableEq, Repr

namespace Aggregate

/-- All aggregates. -/
def all : List Aggregate := [max, min, avg, sum, count]

/-- The token of an aggregate. -/
def token : Aggregate → String
  | .max => "MAX"
  | .min => "MIN"
  | .avg => "AVG"
  | .sum => "SUM"
  | .count => "COUNT"

/-- The aggregate of that token. -/
def ofToken? (token : String) : Option Aggregate := all.find? (·.token = token)

/-- The class of field that an aggregate is computed of: values of any field can be counted. -/
def keyClass : Aggregate → KeyClass
  | .count => .any
  | _ => .numeric

end Aggregate

/-- A named value of each group. -/
structure ApplyRule where
  name : String
  aggregate : Aggregate
  key : Key
  deriving DecidableEq, Repr

/-- How records are grouped, and what is computed of each group. -/
structure Grouping where
  /-- The group keys, each once. -/
  keys : List Key
  rules : List ApplyRule
  deriving DecidableEq, Repr, Inhabited

end Campus
