import Campus.Grouping.Groups
import Campus.Query.Projection
import Campus.Report
import Campus.Scan

/-!
# Answering queries

A query is answered from the records of its dataset that satisfy its filter. There may be only
so many of them, whatever becomes of them later: the scan stops at the first match beyond the
limit, and the query fails without rows.
-/

namespace Campus

/-- Why a query that is in the grammar has no answer. -/
inductive QueryFailure where
  /-- More than `limit` records match. -/
  | tooLarge (limit : Nat)
  /-- The records of a dataset cannot be listed. -/
  | unavailable (dataset reason : String)
  deriving DecidableEq, Repr

namespace QueryFailure

/-- The code of a failure. -/
def code : QueryFailure → String
  | .tooLarge _ => "CAMPUS_RESULT_TOO_LARGE"
  | .unavailable _ _ => "CAMPUS_STORAGE_UNAVAILABLE"

/-- Who is to blame for a failure. -/
def blame : QueryFailure → Blame
  | .tooLarge _ => .caller
  | .unavailable _ _ => .program

/-- The failure in words. -/
def message : QueryFailure → String
  | .tooLarge limit => "Query matched more than " ++ Nat.repr limit ++ " records"
  | .unavailable dataset reason => "Dataset '" ++ dataset ++ "' unavailable: " ++ reason

/-- The dataset that a failure concerns. -/
def dataset? : QueryFailure → Option String
  | .tooLarge _ => none
  | .unavailable dataset _ => some dataset

/-- The failure as it is shown. -/
def shown (f : QueryFailure) : String := showReport f.blame f.code f.message

end QueryFailure

/-- The answer to a query. -/
structure Answer where
  rows : List Row
  /-- Records visited. -/
  scanned : Nat
  /-- Records that satisfy the filter. -/
  matched : Nat
  /-- Files and entries left out. -/
  skipped : Nat
  deriving Inhabited

/-- The matches found so far, newest first. -/
structure Matches where
  count : Nat
  records : List Record
  deriving Inhabited

/-- No matches. -/
def Matches.none : Matches := ⟨0, []⟩

/-- The most records that a query may match. -/
def matchLimit : Nat := 5000

namespace Query

/-- The rows that the query shows of its matches. -/
def rows (q : Query) (kind : Kind) (records : List Record) : List Row :=
  let rows := match q.grouping with
    | some grouping => grouping.rows kind q.columns records
    | none => records.map (·.project kind q.columns)
  match q.order with
  | some order => order.sort rows
  | none => rows

/-- Keeps the records that satisfy the filter, and stops at the first beyond the limit. -/
def matchVisitor (q : Query) (kind : Kind) (limit : Nat) : Visitor Matches := fun found r =>
  if q.filter.accepts kind r then
    let found := ⟨found.count + 1, r :: found.records⟩
    if limit < found.count then .done found else .yield found
  else .yield found

/-- The answer that a finished scan gives. -/
def answer (q : Query) (kind : Kind) (scan : Scan Matches) : Answer :=
  { rows := q.rows kind scan.state.records.reverse
    scanned := scan.scanned
    matched := scan.state.count
    skipped := scan.skipped }

/-- Answers the query from a source, with what is logged on the way. -/
def run (q : Query) (source : Source) (limit : Nat) :
    Except QueryFailure Answer × List LogLine :=
  match source.kindOf? q.dataset with
  | none => (.error (.unavailable q.dataset "not registered"), [])
  | some kind =>
    match source.batches q.dataset with
    | .error reason => (.error (.unavailable q.dataset reason), [])
    | .ok batches =>
      let scan := Scan.run (q.matchVisitor kind limit) .none batches
      if scan.stopped then (.error (.tooLarge limit), scan.log)
      else (.ok (q.answer kind scan), scan.log)

end Query

end Campus
