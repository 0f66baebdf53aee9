import Campus.Json.Printer

/-!
# Metrics

Seven counters of 64 bits tell how queries ended and how much was scanned for those that were
answered.
-/

namespace Campus

/-- The counters of an engine. -/
structure Metrics where
  executed : UInt64
  rejected : UInt64
  tooLarge : UInt64
  failed : UInt64
  scanned : UInt64
  matched : UInt64
  skipped : UInt64
  deriving DecidableEq, Repr, Inhabited

namespace Metrics

/-- All counters at zero. -/
def zero : Metrics := ⟨0, 0, 0, 0, 0, 0, 0⟩

/-- Counts an answered query. -/
def addExecuted (m : Metrics) : Metrics := { m with executed := m.executed + 1 }

/-- Counts a rejected query. -/
def addRejected (m : Metrics) : Metrics := { m with rejected := m.rejected + 1 }

/-- Counts a query with too many matches. -/
def addTooLarge (m : Metrics) : Metrics := { m with tooLarge := m.tooLarge + 1 }

/-- Counts a query whose dataset could not be read. -/
def addFailed (m : Metrics) : Metrics := { m with failed := m.failed + 1 }

/-- Adds the numbers of a scan. -/
def addScan (m : Metrics) (scanned matched skipped : UInt64) : Metrics :=
  { m with
    scanned := m.scanned + scanned
    matched := m.matched + matched
    skipped := m.skipped + skipped }

/-- The counters by name. -/
def counters (m : Metrics) : List (String × UInt64) :=
  [("queries_executed", m.executed), ("queries_rejected", m.rejected),
    ("queries_too_large", m.tooLarge), ("queries_failed", m.failed),
    ("records_scanned", m.scanned), ("records_matched", m.matched),
    ("records_skipped", m.skipped)]

/-- The counters as JSON. -/
def toJson (m : Metrics) : Json :=
  .object (m.counters.map fun counter => (counter.1, Json.ofNat counter.2.toNat))

/-- The counters as the text of a JSON object. -/
def text (m : Metrics) : String := m.toJson.toText

end Metrics

end Campus
