import Campus.Json
import Campus.Report

/-!
# Faults of queries

A query that is not in the grammar is rejected for one fault, the first that reading it comes
across. Callers learn only that the query is invalid; the fault and the clause it lies in are
for the log.
-/

namespace Campus

/-- What is wrong with a query. -/
inductive Fault where
  /-- A value of another type than the one wanted. -/
  | unexpectedType (place wanted : String) (found : Json.Shape)
  /-- An object that must have one member has `count`. -/
  | memberCount (place : String) (count : Nat)
  /-- A list without items. -/
  | emptyList (place : String)
  | unknownOperator (token : String)
  | unknownAggregate (token : String)
  /-- A text that is no key, or the key of a field of another class. -/
  | invalidKey (raw operator : String)
  | invalidPattern (raw : String)
  | unexpectedMember (name : String)
  | unexpectedOption (name : String)
  | missingMember (name : String)
  /-- `TRANSFORMATIONS` has other members than its two. -/
  | groupingMembers
  | invalidColumn (column : String)
  /-- A column that the groups do not have. -/
  | ungroupedColumn (column : String)
  /-- `ORDER` has other members than its two. -/
  | orderMembers
  | orderDirection
  | orderKey (key : String)
  | noDataset
  | manyDatasets (ids : List String)
  /-- A fault that a caller states in its own words. -/
  | stated (reason : String)
  deriving DecidableEq, Repr

/-- The fault in words. -/
def Fault.message : Fault → String
  | .unexpectedType place wanted found =>
    place ++ " expects " ++ wanted ++ ", found " ++ found.name
  | .memberCount place count =>
    place ++ " must have exactly one key, found " ++ Nat.repr count
  | .emptyList place => place ++ " must not be empty"
  | .unknownOperator token => "unknown filter operator '" ++ token ++ "'"
  | .unknownAggregate token => "unknown apply operator '" ++ token ++ "'"
  | .invalidKey raw operator => "invalid key '" ++ raw ++ "' in " ++ operator
  | .invalidPattern raw => "invalid wildcard pattern '" ++ raw ++ "'"
  | .unexpectedMember name => "unexpected top-level key '" ++ name ++ "'"
  | .unexpectedOption name => "unexpected OPTIONS key '" ++ name ++ "'"
  | .missingMember name => "missing " ++ name
  | .groupingMembers => "TRANSFORMATIONS must have exactly GROUP and APPLY"
  | .invalidColumn column => "invalid column key '" ++ column ++ "'"
  | .ungroupedColumn column => "column '" ++ column ++ "' is not a GROUP key or APPLY name"
  | .orderMembers => "ORDER must have exactly dir and keys"
  | .orderDirection => "ORDER dir must be UP or DOWN"
  | .orderKey key => "ORDER key '" ++ key ++ "' is not in COLUMNS"
  | .noDataset => "query references no dataset"
  | .manyDatasets ids =>
    "query references more than one dataset: " ++ String.intercalate ", " ids
  | .stated reason => reason

/-- The clauses of a query. -/
inductive Clause where
  | filter
  | options
  | grouping
  deriving DecidableEq, Repr

/-- The name of a clause, which is also its member in a query. -/
def Clause.name : Clause → String
  | .filter => "WHERE"
  | .options => "OPTIONS"
  | .grouping => "TRANSFORMATIONS"

/-- The rejection of a query: its fault and the clause it lies in, if it lies in one. -/
structure Rejection where
  fault : Fault
  clause : Option Clause
  deriving DecidableEq, Repr

namespace Rejection

/-- The code of every rejection. -/
def code : String := "CAMPUS_QUERY_INVALID"

/-- What callers are told. -/
def publicMessage : String := "Invalid query"

/-- A rejection for a fault of no clause. -/
def ofFault (fault : Fault) : Rejection := ⟨fault, none⟩

/-- Places a rejection in a clause, unless it has one. -/
def inClause (r : Rejection) (clause : Clause) : Rejection :=
  { r with clause := r.clause.or (some clause) }

/-- The fault in words. -/
def message (r : Rejection) : String := r.fault.message

/-- The rejection as it is shown. -/
def shown (r : Rejection) : String :=
  let place := match r.clause with
    | some clause => clause.name ++ ": "
    | none => ""
  showReport .caller code (place ++ r.message)

end Rejection

end Campus
