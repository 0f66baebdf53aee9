import Campus.Key
import Campus.Log
import Campus.Record

/-!
# Scans

A scan visits the valid records of a dataset in order, until the visitor has seen enough. What
it meets comes in batches, one for each record file: either the file could not be read, or it
holds entries, each a record or the reason why it is none. An unreadable file counts as one
entry left out. The malformed entries of a file are counted when the file is done, so a scan that
stops inside a file does not count them.
-/

namespace Campus

/-- An entry of a record file: a record, or why it is none. -/
abbrev Entry := Except Malformed Record

/-- The record of an entry. -/
def Entry.record? : Entry → Option Record
  | .ok r => some r
  | .error _ => none

/-- Why an entry is no record. -/
def Entry.malformed? : Entry → Option Malformed
  | .ok _ => none
  | .error e => some e

/-- What a scan meets in one file. -/
inductive Batch where
  | unreadable (path reason : String)
  | readable (path : String) (entries : List Entry)

/-- The records of a batch. -/
def Batch.records : Batch → List Record
  | .unreadable _ _ => []
  | .readable _ entries => entries.filterMap Entry.record?

/-- How many entries of a batch are left out. -/
def Batch.badCount : Batch → Nat
  | .unreadable _ _ => 1
  | .readable _ entries => (entries.filterMap Entry.malformed?).length

/-- The log line for entries that are left out. -/
def skippedLine (path : String) (count : Nat) (reason : String) : LogLine :=
  Event.recordSkipped.line [("path", path), ("count", Nat.repr count), ("reason", reason)]

/-- The log line for what a batch leaves out, if it leaves something out. -/
def Batch.skippedLine? : Batch → Option LogLine
  | .unreadable path reason => some (skippedLine path 1 reason)
  | .readable path entries =>
    match entries.filterMap Entry.malformed? with
    | [] => none
    | first :: rest => some (skippedLine path (rest.length + 1) first.message)

/-- How a visitor takes a record: it goes on with a new state, or stops with it. -/
abbrev Visitor (α : Type) := α → Record → ForInStep α

/-- A scan between two entries. -/
structure Scan (α : Type) where
  /-- The state of the visitor. -/
  state : α
  /-- Records visited. -/
  scanned : Nat
  /-- Files and entries left out. -/
  skipped : Nat
  log : List LogLine
  /-- Whether the visitor has stopped. -/
  stopped : Bool

namespace Scan

variable {α : Type}

/-- A scan that has visited nothing. -/
def start (state : α) : Scan α := ⟨state, 0, 0, [], false⟩

/-- Visits the records among some entries. -/
def visitEntries (visit : Visitor α) (s : Scan α) : List Entry → Scan α
  | [] => s
  | .error _ :: rest => visitEntries visit s rest
  | .ok r :: rest =>
    match visit s.state r with
    | .yield state => visitEntries visit { s with state, scanned := s.scanned + 1 } rest
    | .done state => { s with state, scanned := s.scanned + 1, stopped := true }

/-- Counts and logs what a batch leaves out. -/
def leaveOut (s : Scan α) (batch : Batch) : Scan α :=
  { s with skipped := s.skipped + batch.badCount, log := s.log ++ batch.skippedLine?.toList }

/-- Visits a batch. -/
def visitBatch (visit : Visitor α) (s : Scan α) (batch : Batch) : Scan α :=
  match batch with
  | .unreadable _ _ => s.leaveOut batch
  | .readable _ entries =>
    let visited := s.visitEntries visit entries
    if visited.stopped then visited else visited.leaveOut batch

/-- Visits batches until the visitor stops. -/
def visitBatches (visit : Visitor α) (s : Scan α) : List Batch → Scan α
  | [] => s
  | batch :: batches =>
    let visited := s.visitBatch visit batch
    if visited.stopped then visited else visited.visitBatches visit batches

/-- Scans batches from the start. -/
def run (visit : Visitor α) (state : α) (batches : List Batch) : Scan α :=
  (start state).visitBatches visit batches

end Scan

/-- The visitor that counts and never stops. -/
def countVisitor : Visitor Unit := fun _ _ => .yield ()

/-- A scan of all records. -/
def scanAll (batches : List Batch) : Scan Unit := Scan.run countVisitor () batches

/-- What queries read: the registered datasets, and for each what a scan of it meets, or why it
cannot be scanned. -/
structure Source where
  datasets : List (String × Kind)
  batches : String → Except String (List Batch)

/-- The kind of a registered dataset. -/
def Source.kindOf? (s : Source) (id : String) : Option Kind := s.datasets.lookup id

/-- The catalog of the registered datasets. -/
def Source.catalog (s : Source) : Catalog := .ofList s.datasets

end Campus
