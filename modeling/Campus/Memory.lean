import Campus.Scan

/-!
# Datasets in memory

Datasets whose records are given as they are, for use without a data directory.
-/

namespace Campus

/-- The datasets in memory, each id once. -/
structure Memory where
  entries : List (String × Kind × List Record)
  deriving Inhabited

namespace Memory

/-- No datasets. -/
def empty : Memory := ⟨[]⟩

/-- Registers a dataset, in place of an older one of its id. -/
def insert (m : Memory) (id : String) (kind : Kind) (records : List Record) : Memory :=
  ⟨Assoc.put id (kind, records) m.entries⟩

/-- The datasets in the order of their ids. -/
def datasets (m : Memory) : List (String × Kind) :=
  (m.entries.map fun e => (e.1, e.2.1)).mergeSort fun a b => compare a.1 b.1 != .gt

/-- What a scan of a dataset meets: its records in one batch. -/
def batches (m : Memory) (id : String) : Except String (List Batch) :=
  match m.entries.lookup id with
  | some (_, records) => .ok [.readable "" (records.map .ok)]
  | none => .error "dataset not loaded"

/-- The datasets as a source of queries. -/
def source (m : Memory) : Source := ⟨m.datasets, m.batches⟩

end Memory

end Campus
