import Campus.Metrics
import Campus.Query.Reader
import Campus.Service

/-!
# The engine

The engine answers queries from a source. It holds a catalog of the datasets, against which
queries are read, and the metrics. A query is logged when it is received and when it is done with;
both lines bear its id.
-/

namespace Campus

/-- The engine between two queries. -/
structure Engine where
  catalog : Catalog
  metrics : Metrics
  deriving DecidableEq, Repr, Inhabited

/-- What becomes of a query. -/
inductive Outcome where
  | rejected (r : Rejection)
  | failed (dataset : String) (f : QueryFailure)
  | answered (dataset : String) (a : Answer)

/-- What the surroundings know of a query: an id for the log, and how many microseconds it took
to come to its outcome. -/
structure Stamp where
  id : String
  elapsed : String
  deriving DecidableEq, Repr, Inhabited

/-- What is left of a query. -/
structure Asked where
  result : Except ServiceError (List Row)
  engine : Engine
  log : List LogLine

namespace Outcome

/-- What the caller of a query gets. -/
def result : Outcome → Except ServiceError (List Row)
  | .rejected _ => .error .invalidQuery
  | .failed _ f => .error (.ofQueryFailure f)
  | .answered _ a => .ok a.rows

/-- The metrics after a query. -/
def addTo (m : Metrics) : Outcome → Metrics
  | .rejected _ => m.addRejected
  | .failed _ (.tooLarge _) => m.addTooLarge
  | .failed _ (.unavailable _ _) => m.addFailed
  | .answered _ a => m.addExecuted.addScan (.ofNat a.scanned) (.ofNat a.matched) (.ofNat a.skipped)

/-- What is logged as the clause of a rejection that lies in none. -/
def wholeQuery : String := "QUERY"

/-- The event that ends a query. -/
def event : Outcome → Event
  | .rejected _ => .queryRejected
  | .failed _ (.tooLarge _) => .queryTooLarge
  | .failed _ (.unavailable _ _) => .queryFailed
  | .answered _ _ => .queryExecuted

/-- What is logged with that event. -/
def fields (elapsed : String) : Outcome → List (String × String)
  | .rejected r =>
    [("clause", (r.clause.map Clause.name).getD wholeQuery), ("reason", r.message)]
  | .failed dataset f => [("dataset", dataset), ("reason", f.message)]
  | .answered dataset a =>
    [("dataset", dataset), ("elapsed_us", elapsed), ("matched", Nat.repr a.matched),
      ("rows", Nat.repr a.rows.length)]

end Outcome

/-- The scope of a query. -/
def Stamp.scope (stamp : Stamp) : Scope := ⟨"QUERY", [("query_id", stamp.id)]⟩

namespace Engine

/-- An engine for a source, with the counters at zero. -/
def ofSource (source : Source) : Engine := ⟨source.catalog, .zero⟩

/-- Takes the datasets of a source into the catalog. -/
def refresh (e : Engine) (source : Source) : Engine := { e with catalog := source.catalog }

/-- Whether a JSON value spells a query of the cataloged datasets. -/
def isValid (e : Engine) (query : Json) : Bool := Query.isValid e.catalog query

/-- What becomes of a query, with what a scan for it logs. -/
def outcome (e : Engine) (source : Source) (query : Json) : Outcome × List LogLine :=
  match Query.ofJson e.catalog query with
  | .error r => (.rejected r, [])
  | .ok q =>
    match q.run source matchLimit with
    | (.error f, log) => (.failed q.dataset f, log)
    | (.ok a, log) => (.answered q.dataset a, log)

/-- Counts an outcome, and logs it as the end of a scope that takes in what a scan for it has
logged. -/
def conclude (e : Engine) (stamp : Stamp) (outcome : Outcome × List LogLine) : Asked :=
  let opened := (stamp.scope.begin .queryReceived).during outcome.2
  { result := outcome.1.result
    engine := { e with metrics := outcome.1.addTo e.metrics }
    log := (opened.endWith outcome.1.event (outcome.1.fields stamp.elapsed)).leave }

/-- Asks a query. -/
def ask (e : Engine) (source : Source) (stamp : Stamp) (query : Json) : Asked :=
  e.conclude stamp (e.outcome source query)

end Engine

end Campus
