import Campus.Scan
import Mathlib

/-!
# What a scan visits

A scan goes through batches and the entries in them, but the visitor sees records only: what it
comes to is what it comes to on the records of all batches, one after the other
(`Scan.visited_visitBatches`). Batches differ in what a scan leaves out and logs.

* `Scan.visited_run` — a scan of batches, as a walk over their records.
* `Scan.scanned_run` — how many records are visited by a visitor that never stops.
-/

namespace Campus

variable {α : Type} {visit : Visitor α}

namespace Scan

/-! ### Visiting records -/

/-- Visits records one after the other, until the visitor stops. -/
def visitRecords (visit : Visitor α) (s : Scan α) : List Record → Scan α
  | [] => s
  | r :: records =>
    match visit s.state r with
    | .yield state => visitRecords visit { s with state, scanned := s.scanned + 1 } records
    | .done state => { s with state, scanned := s.scanned + 1, stopped := true }

/-- What the visitor has come to, whatever was left out. -/
def visited (s : Scan α) : Scan α := { s with skipped := 0, log := [] }

@[simp] theorem visited_state (s : Scan α) : s.visited.state = s.state := rfl

@[simp] theorem visited_scanned (s : Scan α) : s.visited.scanned = s.scanned := rfl

@[simp] theorem visited_stopped (s : Scan α) : s.visited.stopped = s.stopped := rfl

@[simp] theorem visited_leaveOut (s : Scan α) (batch : Batch) :
    (s.leaveOut batch).visited = s.visited := rfl

/-- Visiting the records after a scan that has been stopped adds nothing. -/
theorem visitRecords_append (s : Scan α) (hs : s.stopped = false) (records more : List Record) :
    s.visitRecords visit (records ++ more) =
      if (s.visitRecords visit records).stopped then s.visitRecords visit records
      else (s.visitRecords visit records).visitRecords visit more := by
  induction records generalizing s with
  | nil => simp [visitRecords, hs]
  | cons r records ih =>
      rw [List.cons_append, visitRecords, visitRecords]
      cases visit s.state r with
      | yield state => exact ih _ hs
      | done state => simp

theorem visited_visitRecords (s : Scan α) (records : List Record) :
    (s.visitRecords visit records).visited = s.visited.visitRecords visit records := by
  induction records generalizing s with
  | nil => rfl
  | cons r records ih =>
      rw [visitRecords, visitRecords, visited_state]
      cases visit s.state r with
      | yield state => exact ih _
      | done state => rfl

/-- Visiting records leaves nothing out and logs nothing. -/
theorem leftOut_visitRecords (s : Scan α) (records : List Record) :
    (s.visitRecords visit records).skipped = s.skipped ∧
      (s.visitRecords visit records).log = s.log := by
  induction records generalizing s with
  | nil => exact ⟨rfl, rfl⟩
  | cons r records ih =>
      rw [visitRecords]
      cases visit s.state r with
      | yield state => exact ih _
      | done state => exact ⟨rfl, rfl⟩

/-! ### Visiting batches -/

theorem visitEntries_eq_visitRecords (s : Scan α) (entries : List Entry) :
    s.visitEntries visit entries = s.visitRecords visit (entries.filterMap Entry.record?) := by
  induction entries generalizing s with
  | nil => rfl
  | cons entry entries ih =>
      cases entry with
      | error e => exact ih s
      | ok r =>
          have hfound : (.ok r :: entries : List Entry).filterMap Entry.record? =
              r :: entries.filterMap Entry.record? := rfl
          rw [visitEntries, hfound, visitRecords]
          cases visit s.state r with
          | yield state => exact ih _
          | done state => rfl

theorem visited_visitBatch (s : Scan α) (batch : Batch) :
    (s.visitBatch visit batch).visited = s.visited.visitRecords visit batch.records := by
  cases batch with
  | unreadable path reason => rfl
  | readable path entries =>
      rw [visitBatch, Batch.records, ← visited_visitRecords, visitEntries_eq_visitRecords]
      split
      · rfl
      · rw [visited_leaveOut]

theorem visited_visitBatches (s : Scan α) (hs : s.stopped = false) (batches : List Batch) :
    (s.visitBatches visit batches).visited =
      s.visited.visitRecords visit (batches.flatMap Batch.records) := by
  induction batches generalizing s with
  | nil => rfl
  | cons batch batches ih =>
      rw [List.flatMap_cons, visitRecords_append s.visited hs, ← visited_visitBatch,
        visited_stopped, visitBatches]
      split
      · rfl
      · next hstopped => exact ih _ (by simpa using hstopped)

/-- A scan of batches is a walk over their records. -/
theorem visited_run (visit : Visitor α) (state : α) (batches : List Batch) :
    (run visit state batches).visited =
      (start state).visitRecords visit (batches.flatMap Batch.records) :=
  visited_visitBatches _ rfl batches

/-- A scan of records that are given as they are leaves nothing out and logs nothing. -/
theorem leftOut_run (visit : Visitor α) (state : α) (path : String) (records : List Record) :
    (run visit state [.readable path (records.map .ok)]).skipped = 0 ∧
      (run visit state [.readable path (records.map .ok)]).log = [] := by
  have hmalformed : (records.map (.ok : Record → Entry)).filterMap Entry.malformed? = [] := by
    rw [List.filterMap_map, List.filterMap_eq_nil_iff]
    exact fun _ _ => rfl
  have hleft : ((start state).visitBatch visit (.readable path (records.map .ok))).skipped = 0 ∧
      ((start state).visitBatch visit (.readable path (records.map .ok))).log = [] := by
    rw [visitBatch, visitEntries_eq_visitRecords]
    generalize (records.map (.ok : Record → Entry)).filterMap Entry.record? = visited
    obtain ⟨hskipped, hlog⟩ : ((start state).visitRecords visit visited).skipped = 0 ∧
        ((start state).visitRecords visit visited).log = [] := leftOut_visitRecords _ visited
    split
    · exact ⟨hskipped, hlog⟩
    · simp [leaveOut, Batch.badCount, Batch.skippedLine?, hmalformed, hskipped, hlog]
  rw [run, visitBatches]
  split <;> exact hleft

end Scan

/-! ### Visitors that never stop -/

/-- The visitor goes on after every record. -/
def Visitor.Endless (visit : Visitor α) : Prop := ∀ state r, ∃ state', visit state r = .yield state'

theorem endless_countVisitor : countVisitor.Endless := fun _ _ => ⟨_, rfl⟩

theorem Scan.scanned_visitRecords (h : visit.Endless) (s : Scan α) (records : List Record) :
    (s.visitRecords visit records).scanned = s.scanned + records.length := by
  induction records generalizing s with
  | nil => rfl
  | cons r records ih =>
      obtain ⟨state, hstate⟩ := h s.state r
      rw [visitRecords, hstate, List.length_cons]
      refine (ih _).trans ?_
      dsimp only
      omega

/-- A scan that never stops visits the records of all batches. -/
theorem Scan.scanned_run (h : visit.Endless) (state : α) (batches : List Batch) :
    (run visit state batches).scanned = (batches.flatMap Batch.records).length := by
  rw [← visited_scanned, visited_run, scanned_visitRecords h]
  exact Nat.zero_add _

theorem scanned_scanAll (batches : List Batch) :
    (scanAll batches).scanned = (batches.flatMap Batch.records).length :=
  Scan.scanned_run endless_countVisitor () batches

end Campus
