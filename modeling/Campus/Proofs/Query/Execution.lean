import Campus.Memory
import Campus.Proofs.Assoc
import Campus.Proofs.RecordFile
import Campus.Query.Run

/-!
# What executing a query comes to

A query is executed by a scan that collects matches and breaks off at the first beyond the limit.
`Query.run_eq_reference` says what that comes to without a scan: all records of the dataset are
filtered, the matches are counted against the limit, and then they are shaped and sorted. It holds
for every source that holds the records (`Source.Holds`), in memory as on the disk, however the
records lie in files.

The invariant of the scan is that its state holds the matches among the records visited, newest
first, and no more of them than the limit (`Query.visitRecords_matchVisitor`).
-/

namespace Campus

/-! ### The records of a dataset -/

/-- A scan of the dataset visits these records, in this order. -/
def Source.Visits (source : Source) (id : String) (records : List Record) : Prop :=
  ∃ batches, source.batches id = .ok batches ∧ batches.flatMap Batch.records = records

theorem Source.Visits.unique {source : Source} {id : String} {records records' : List Record}
    (h : source.Visits id records) (h' : source.Visits id records') : records = records' := by
  obtain ⟨batches, hbatches, rfl⟩ := h
  obtain ⟨batches', hbatches', rfl⟩ := h'
  rw [hbatches] at hbatches'
  cases hbatches'
  rfl

/-- The source has a dataset of that id and kind with those records, in the order of a scan. -/
inductive Source.Holds : Source → String → Kind → List Record → Prop
  /-- A dataset in memory has the records that it was given. -/
  | memory {m : Memory} {id : String} {kind : Kind} {records : List Record}
      (entry : m.entries.lookup id = some (kind, records)) : Holds m.source id kind records
  /-- A dataset on the disk has the records in the files below its directory. -/
  | disk {r : Registry} {disk : Tree} {id : String} {l : Listing} {entries : List (String × Tree)}
      (registered : r.find? id = some l)
      (listed : disk.list (r.datasetPlace l.kind id) = .ok entries) :
      Holds (r.source disk) id l.kind
        ((sortedRecordFiles entries).flatMap fun f => fileRecords l.kind f.2)

theorem Memory.kindOf?_source (m : Memory) (id : String) :
    m.source.kindOf? id = (m.entries.lookup id).map (·.1) := by
  have hordered : (fun a b : String × Kind => compare a.1 b.1 != .gt) =
      fun a b => (compare a.1 b.1).isLE := by
    funext a b
    cases compare a.1 b.1 <;> rfl
  rw [Source.kindOf?, source, datasets, hordered, Assoc.lookup_mergeSort, Assoc.lookup_map_snd]

theorem Registry.kindOf?_source (r : Registry) (disk : Tree) (id : String) :
    (r.source disk).kindOf? id = (r.find? id).map (·.kind) := by
  obtain ⟨place, listings⟩ := r
  change (listings.map fun l => (l.id, l.kind)).lookup id =
    (listings.find? fun l => l.id = id).map (·.kind)
  induction listings with
  | nil => rfl
  | cons l listings ih =>
      rw [List.map_cons, List.lookup_cons, List.find?_cons, ih]
      by_cases heq : l.id = id
      · simp [heq]
      · rw [beq_false_of_ne (Ne.symm heq), decide_eq_false heq]

namespace Source.Holds

variable {source : Source} {id : String} {kind : Kind} {records : List Record}

theorem kindOf?_eq (h : source.Holds id kind records) : source.kindOf? id = some kind := by
  cases h with
  | memory entry => rw [Memory.kindOf?_source, entry, Option.map_some]
  | disk registered listed => rw [Registry.kindOf?_source, registered, Option.map_some]

/-- A scan of the dataset visits its records. -/
theorem exists_batches (h : source.Holds id kind records) :
    ∃ batches, source.batches id = .ok batches ∧ batches.flatMap Batch.records = records := by
  cases h with
  | memory entry =>
      refine ⟨[.readable "" (records.map .ok)], ?_, ?_⟩
      · simp only [Memory.source, Memory.batches, entry]
      · have hrecord : Entry.record? ∘ (Except.ok : Record → Entry) = some := rfl
        rw [List.flatMap_singleton, Batch.records, List.filterMap_map, hrecord,
          List.filterMap_some]
  | @disk r disk id l entries registered listed =>
      refine ⟨Batch.ofEntries l.kind (r.datasetPlace l.kind id) entries, ?_,
        flatMap_records_ofEntries _ _ _⟩
      simp only [Registry.source, Registry.batches, registered, Batch.ofDirectory, listed]
      rfl

/-- A source has a dataset of an id in one way only. -/
theorem unique {kind' : Kind} {records' : List Record} (h : source.Holds id kind records)
    (h' : source.Holds id kind' records') : kind' = kind ∧ records' = records :=
  ⟨Option.some.inj (h'.kindOf?_eq.symm.trans h.kindOf?_eq),
    Source.Visits.unique h'.exists_batches h.exists_batches⟩

end Source.Holds

namespace Query

variable {q : Query} {kind : Kind} {limit : Nat}

/-- The records that the filter accepts. -/
def found (q : Query) (kind : Kind) (records : List Record) : List Record :=
  records.filter fun r => q.filter.accepts kind r

theorem found_cons_of_accepts {r : Record} (h : q.filter.accepts kind r = true)
    (records : List Record) : q.found kind (r :: records) = r :: q.found kind records :=
  List.filter_cons_of_pos h

theorem found_cons_of_not_accepts {r : Record} (h : ¬ q.filter.accepts kind r = true)
    (records : List Record) : q.found kind (r :: records) = q.found kind records :=
  List.filter_cons_of_neg h

/-! ### The loop -/

/-- As long as the matches stay within the limit, the scan goes on and collects them. -/
theorem visitRecords_matchVisitor (s : Scan Matches) (records : List Record)
    (h : s.state.count + (q.found kind records).length ≤ limit) :
    s.visitRecords (q.matchVisitor kind limit) records =
      { s with
        state := ⟨s.state.count + (q.found kind records).length,
          (q.found kind records).reverse ++ s.state.records⟩
        scanned := s.scanned + records.length } := by
  induction records generalizing s with
  | nil => rfl
  | cons r records ih =>
      rw [Scan.visitRecords, matchVisitor]
      by_cases haccepts : q.filter.accepts kind r = true
      · rw [found_cons_of_accepts haccepts, List.length_cons] at h ⊢
        have hwithin : ¬ limit < s.state.count + 1 := by omega
        rw [if_pos haccepts]
        dsimp only
        rw [if_neg hwithin]
        dsimp only
        rw [ih _ (by dsimp only; omega), List.reverse_cons, List.append_assoc, List.length_cons]
        dsimp only [List.singleton_append]
        rw [Nat.add_right_comm s.state.count, Nat.add_right_comm s.scanned]
        rfl
      · rw [found_cons_of_not_accepts haccepts] at h ⊢
        rw [if_neg haccepts]
        dsimp only
        rw [ih { s with scanned := s.scanned + 1 } h, List.length_cons]
        dsimp only
        rw [Nat.add_right_comm s.scanned]
        rfl

/-- The match beyond the limit stops the scan. -/
theorem stopped_visitRecords_matchVisitor (s : Scan Matches) (records : List Record)
    (hstate : s.state.count ≤ limit)
    (h : limit < s.state.count + (q.found kind records).length) :
    (s.visitRecords (q.matchVisitor kind limit) records).stopped = true := by
  induction records generalizing s with
  | nil =>
      rw [found, List.filter_nil, List.length_nil] at h
      omega
  | cons r records ih =>
      rw [Scan.visitRecords, matchVisitor]
      by_cases haccepts : q.filter.accepts kind r = true
      · rw [found_cons_of_accepts haccepts, List.length_cons] at h
        rw [if_pos haccepts]
        dsimp only
        by_cases hbeyond : limit < s.state.count + 1
        · rw [if_pos hbeyond]
        · rw [if_neg hbeyond]
          exact ih _ (by dsimp only; omega) (by dsimp only; omega)
      · rw [found_cons_of_not_accepts haccepts] at h
        rw [if_neg haccepts]
        exact ih _ hstate h

/-! ### The reference -/

/-- The rows of some matches before they are sorted: one for each group, or one for each match. -/
def shaped (q : Query) (kind : Kind) (records : List Record) : List Row :=
  match q.grouping with
  | some grouping => grouping.rows kind q.columns records
  | none => records.map (·.project kind q.columns)

/-- What a query comes to on the records of its dataset: how many match, how many there are, and
the rows that are shown of the matches; or no rows at all if too many match. -/
def reference (q : Query) (kind : Kind) (limit : Nat) (records : List Record) :
    Except QueryFailure (Nat × Nat × List Row) :=
  let found := q.found kind records
  if limit < found.length then .error (.tooLarge limit)
  else
    let rows := match q.order with
      | some order => order.sort (q.shaped kind found)
      | none => q.shaped kind found
    .ok (found.length, records.length, rows)

theorem rows_eq (q : Query) (kind : Kind) (records : List Record) :
    q.rows kind records = match q.order with
      | some order => order.sort (q.shaped kind records)
      | none => q.shaped kind records := rfl

/-- A scan for a query comes to the reference on the records that it meets. -/
theorem run_of_batches {source : Source} {batches : List Batch}
    (hkind : source.kindOf? q.dataset = some kind)
    (hbatches : source.batches q.dataset = .ok batches) (limit : Nat) :
    (q.run source limit).1.map (fun a => (a.matched, a.scanned, a.rows)) =
      q.reference kind limit (batches.flatMap Batch.records) := by
  have hvisited := Scan.visited_run (q.matchVisitor kind limit) .none batches
  simp only [run, hkind, hbatches, reference]
  generalize Scan.run (q.matchVisitor kind limit) .none batches = scan at hvisited ⊢
  generalize batches.flatMap Batch.records = records at hvisited ⊢
  have hcount : (Scan.start Matches.none).state.count = 0 := rfl
  by_cases hbeyond : limit < (q.found kind records).length
  · have hstopped : scan.stopped = true := by
      rw [← Scan.visited_stopped, hvisited]
      refine stopped_visitRecords_matchVisitor _ _ (Nat.zero_le _) ?_
      rwa [hcount, Nat.zero_add]
    rw [if_pos hstopped, if_pos hbeyond]
    rfl
  · rw [visitRecords_matchVisitor _ _ (by rw [hcount]; omega), hcount, Nat.zero_add] at hvisited
    have hstate : scan.state = ⟨(q.found kind records).length, (q.found kind records).reverse⟩ := by
      rw [← Scan.visited_state, hvisited]
      simp [Scan.start, Matches.none]
    have hscanned : scan.scanned = records.length := by
      rw [← Scan.visited_scanned, hvisited]
      exact Nat.zero_add _
    have hstopped : scan.stopped = false := by
      rw [← Scan.visited_stopped, hvisited]
      rfl
    rw [if_neg (by simp [hstopped]), if_neg hbeyond]
    simp only [Except.map, answer, hstate, hscanned, List.reverse_reverse, rows_eq]

/-- An answer shows the matches among the records that a scan of its dataset meets. -/
theorem exists_batches_of_run {source : Source} {a : Answer}
    (h : (q.run source limit).1 = .ok a) : ∃ kind batches,
      source.kindOf? q.dataset = some kind ∧ source.batches q.dataset = .ok batches ∧
        a.rows = q.rows kind (q.found kind (batches.flatMap Batch.records)) := by
  cases hkind : source.kindOf? q.dataset with
  | none => simp [run, hkind] at h
  | some kind =>
      cases hbatches : source.batches q.dataset with
      | error reason => simp [run, hkind, hbatches] at h
      | ok batches =>
          refine ⟨kind, batches, rfl, rfl, ?_⟩
          have hreference := run_of_batches hkind hbatches limit
          rw [h, reference] at hreference
          dsimp only [Except.map] at hreference
          split at hreference
          · cases hreference
          · injection hreference with hreference
            exact congrArg (fun outline => outline.2.2) hreference

theorem rows_of_run {source : Source} {records : List Record}
    (h : source.Holds q.dataset kind records) {a : Answer} (hrun : (q.run source limit).1 = .ok a) :
    a.rows = q.rows kind (q.found kind records) := by
  obtain ⟨kind', batches, hkind, hbatches, hrows⟩ := exists_batches_of_run hrun
  obtain rfl : kind' = kind := Option.some.inj (hkind.symm.trans h.kindOf?_eq)
  have hrecords : batches.flatMap Batch.records = records :=
    Source.Visits.unique ⟨batches, hbatches, rfl⟩ h.exists_batches
  rwa [hrecords] at hrows

/-- A query that is run against a limit comes to its reference on the records of its dataset, for
every source that holds them. -/
theorem run_eq_reference {source : Source} {records : List Record}
    (h : source.Holds q.dataset kind records) (limit : Nat) :
    (q.run source limit).1.map (fun a => (a.matched, a.scanned, a.rows)) =
      q.reference kind limit records := by
  obtain ⟨batches, hbatches, hrecords⟩ := h.exists_batches
  rw [run_of_batches h.kindOf?_eq hbatches, hrecords]

/-- Two rooms of one building. -/
def sampleSource : Source :=
  (Memory.empty.insert "r" .rooms [⟨[("shortname", .text "ANGU")]⟩,
    ⟨[("shortname", .text "ANGU")]⟩]).source

/-- The buildings. -/
def buildings : Query :=
  ⟨"r", .all, some ⟨[⟨"r", "shortname"⟩], []⟩, ["r_shortname"], none⟩

/-- Two rooms of one building are two matches, not one: they are within a limit of two and beyond
a limit of one. -/
theorem run_buildings :
    (buildings.run sampleSource 2).1.map (fun a => (a.matched, a.scanned, a.rows)) =
        .ok (2, 2, [⟨[("r_shortname", .text "ANGU")]⟩]) ∧
      (buildings.run sampleSource 1).1.map (fun a => (a.matched, a.scanned, a.rows)) =
        .error (.tooLarge 1) := by
  have hholds : sampleSource.Holds buildings.dataset .rooms _ := .memory rfl
  refine ⟨?_, ?_⟩
  · rw [run_eq_reference hholds]
    rfl
  · rw [run_eq_reference hholds]
    rfl

end Query

end Campus
