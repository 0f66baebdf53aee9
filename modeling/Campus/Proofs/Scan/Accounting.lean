import Campus.Proofs.Registry.ListingOrder
import Mathlib.Data.List.ReduceOption

/-!
# What becomes of the entries in a scan

A scan goes over the record files of a directory and over the entries in each of them, skips what is
no record in three places, and breaks off in the middle of a file when the visitor stops. Every
entry is accounted for all the same (`Scan.AccountsFor`): the visitor is called on the records among
the entries, in their order, up to the one at which it stops; and if it does not stop, each entry is
either one on which it was called or one that is counted as skipped. `exists_accounted_files` says
so of the files that lie at and below a directory.

Which records the visitor is called on is said by a visitor that does the same and notes them
(`Visitor.noting`).
-/

namespace Campus

variable {α : Type} {visit : Visitor α}

/-! ### Calls of a visitor -/

/-- From a state on, the visitor is called on the records one after the other, goes on after each
but the last, and takes the last as given. It is not called again once it has stopped. -/
inductive Visitor.Calls (visit : Visitor α) : α → List Record → ForInStep α → Prop
  | none (state : α) : Calls visit state [] (.yield state)
  | stop {state state' : α} {r : Record} (stops : visit state r = .done state') :
      Calls visit state [r] (.done state')
  | next {state state' : α} {r : Record} {records : List Record} {outcome : ForInStep α}
      (continues : visit state r = .yield state') (others : Calls visit state' records outcome) :
      Calls visit state (r :: records) outcome

/-- A visitor that goes on after every record does not stop. -/
theorem Visitor.Calls.ne_done (hendless : visit.Endless) {state : α} {records : List Record}
    {outcome : ForInStep α} (h : visit.Calls state records outcome) (state' : α) :
    outcome ≠ .done state' := by
  induction h with
  | none state => exact nofun
  | @stop state _ r stops =>
      obtain ⟨next, hnext⟩ := hendless state r
      rw [hnext] at stops
      cases stops
  | next continues others ih => exact ih

/-- The visitor that does the same and notes the records on which it is called. -/
def Visitor.noting (visit : Visitor α) : Visitor (α × List Record) := fun s r =>
  match visit s.1 r with
  | .yield state => .yield (state, s.2 ++ [r])
  | .done state => .done (state, s.2 ++ [r])

namespace Scan

/-- How the visitor has taken the last record. -/
def outcome (s : Scan α) : ForInStep α := if s.stopped then .done s.state else .yield s.state

/-- The scan without the notes. -/
def plain (s : Scan (α × List Record)) : Scan α := { s with state := s.state.1 }

/-- Noting changes nothing else. -/
theorem plain_visitRecords (s : Scan (α × List Record)) (records : List Record) :
    (s.visitRecords visit.noting records).plain = s.plain.visitRecords visit records := by
  induction records generalizing s with
  | nil => rfl
  | cons r records ih =>
      rw [visitRecords, visitRecords, Visitor.noting]
      change _ = match visit s.state.1 r with | .yield state => _ | .done state => _
      cases visit s.state.1 r with
      | yield state => exact ih _
      | done state => rfl

/-- What is noted are the calls, and the visitor is called on all records unless it stops. -/
theorem calls_visitRecords (visit : Visitor α) (s : Scan (α × List Record))
    (hs : s.stopped = false) (records : List Record) :
    ∃ calls, (s.visitRecords visit.noting records).state.2 = s.state.2 ++ calls ∧
      visit.Calls s.state.1 calls (s.visitRecords visit.noting records).plain.outcome ∧
      calls <+: records ∧
      (s.visitRecords visit.noting records).scanned = s.scanned + calls.length ∧
      ((s.visitRecords visit.noting records).stopped = false → calls = records) := by
  induction records generalizing s with
  | nil =>
      have houtcome : s.plain.outcome = .yield s.state.1 := by
        rw [outcome, plain, hs]
        rfl
      refine ⟨[], (List.append_nil _).symm, ?_, List.prefix_refl [], rfl, fun _ => rfl⟩
      rw [visitRecords, houtcome]
      exact .none _
  | cons r records ih =>
      rw [visitRecords, Visitor.noting]
      cases hstep : visit s.state.1 r with
      | yield state =>
          obtain ⟨calls, hnoted, hcalls, hprefix, hscanned, hall⟩ :=
            ih { s with state := (state, s.state.2 ++ [r]), scanned := s.scanned + 1 } hs
          refine ⟨r :: calls, ?_, .next hstep hcalls, List.prefix_cons_inj r |>.mpr hprefix, ?_,
            fun hstopped => congrArg (r :: ·) (hall hstopped)⟩
          · rw [hnoted, List.append_assoc]
            rfl
          · rw [hscanned, List.length_cons]
            dsimp only
            omega
      | done state =>
          refine ⟨[r], rfl, .stop hstep, ⟨records, rfl⟩, rfl, ?_⟩
          intro hstopped
          cases hstopped

/-! ### What is left out -/

/-- A batch that is done with has counted what it leaves out. -/
theorem skipped_visitBatch (s : Scan α) (batch : Batch)
    (h : (s.visitBatch visit batch).stopped = false) :
    (s.visitBatch visit batch).skipped = s.skipped + batch.badCount := by
  cases batch with
  | unreadable path reason => rfl
  | readable path entries =>
      unfold visitBatch at h ⊢
      dsimp only at h ⊢
      split at h
      · next hstopped =>
        rw [hstopped] at h
        cases h
      · next hstopped =>
        rw [if_neg hstopped, leaveOut, visitEntries_eq_visitRecords, (leftOut_visitRecords _ _).1]

theorem skipped_visitBatches (s : Scan α) (batches : List Batch)
    (h : (s.visitBatches visit batches).stopped = false) :
    (s.visitBatches visit batches).skipped = s.skipped + (batches.map Batch.badCount).sum := by
  induction batches generalizing s with
  | nil => rfl
  | cons batch batches ih =>
      rw [visitBatches] at h ⊢
      split at h
      · next hstopped =>
        rw [hstopped] at h
        cases h
      · next hstopped =>
        rw [if_neg hstopped, ih _ h, skipped_visitBatch s batch (by simpa using hstopped),
          List.map_cons, List.sum_cons, Nat.add_assoc]

end Scan

/-! ### Entries -/

/-- The entries of a batch: a record, or a bad one. A file that cannot be read is one bad entry. -/
def Batch.entries : Batch → List (Option Record)
  | .unreadable _ _ => [none]
  | .readable _ entries => entries.map Entry.record?

theorem Batch.records_eq (batch : Batch) : batch.records = batch.entries.reduceOption := by
  cases batch with
  | unreadable path reason => rfl
  | readable path entries =>
      rw [Batch.entries, List.reduceOption, List.filterMap_map]
      rfl

theorem Batch.badCount_eq (batch : Batch) : batch.badCount = batch.entries.countP (·.isNone) := by
  cases batch with
  | unreadable path reason => rfl
  | readable path entries =>
      have hbad : ∀ entry : Entry, entry.record?.isNone = entry.malformed?.isSome := by
        intro entry
        cases entry <;> rfl
      rw [Batch.entries, List.countP_map, badCount, List.length_filterMap_eq_countP]
      exact List.countP_congr fun entry _ => by rw [Function.comp_apply, hbad]

/-- The entries of a record file: one for each element of its value, which is a record or a bad
entry. A file whose bytes are no text, or whose text is no JSON, is one bad entry. -/
def fileEntries (kind : Kind) (content : ByteArray) : List (Option Record) :=
  match (String.fromUTF8? content).bind Json.read? with
  | some value => value.elements.map (Record.ofStored? kind)
  | none => [none]

theorem entries_ofFile (kind : Kind) (path : String) (content : ByteArray) :
    (Batch.ofFile kind path content).entries = fileEntries kind content := by
  unfold Batch.ofFile fileEntries
  cases String.fromUTF8? content with
  | none => rfl
  | some text =>
      rw [Option.bind_some]
      dsimp only
      rw [Entry.ofText?_eq]
      cases Json.read? text with
      | none => rfl
      | some value => exact List.map_map

/-! ### The accounts of a scan -/

/-- The records on which the visitor is called in a scan. -/
def Visitor.callsIn (visit : Visitor α) (state : α) (batches : List Batch) : List Record :=
  (Scan.run visit.noting (state, []) batches).state.2

/-- A scan from a state has called the visitor as it should, and has counted every entry. -/
structure Scan.AccountsFor (visit : Visitor α) (state : α) (entries : List (Option Record))
    (calls : List Record) (scan : Scan α) : Prop where
  /-- The visitor is called up to where it stops, and the scan ends as it takes the last record. -/
  calls_taken : visit.Calls state calls scan.outcome
  /-- It is called on valid entries, in their order, beginning with the first. -/
  calls_prefix : calls <+: entries.reduceOption
  scanned_eq : scan.scanned = calls.length
  /-- A visitor that goes on after every record lets the scan come to its end. -/
  not_stopped : visit.Endless → scan.stopped = false
  calls_eq : scan.stopped = false → calls = entries.reduceOption
  skipped_eq : scan.stopped = false → scan.skipped = entries.countP (·.isNone)
  total_eq : scan.stopped = false → scan.scanned + scan.skipped = entries.length

theorem flatMap_records_eq (batches : List Batch) :
    batches.flatMap Batch.records = (batches.flatMap Batch.entries).reduceOption := by
  rw [List.reduceOption, List.filterMap_flatMap]
  exact List.flatMap_congr fun batch _ => batch.records_eq

theorem sum_badCount_eq (batches : List Batch) :
    (batches.map Batch.badCount).sum = (batches.flatMap Batch.entries).countP (·.isNone) := by
  rw [List.countP_flatMap]
  exact congrArg List.sum (List.map_congr_left fun batch _ => batch.badCount_eq)

/-- A scan of batches accounts for their entries. -/
theorem Scan.accountsFor_run (visit : Visitor α) (state : α) (batches : List Batch) :
    (run visit state batches).AccountsFor visit state (batches.flatMap Batch.entries)
      (visit.callsIn state batches) := by
  have hnoting := visited_run visit.noting (state, []) batches
  have hplain : (run visit.noting (state, []) batches).visited.plain =
      (run visit state batches).visited := by
    rw [hnoting, plain_visitRecords, visited_run]
    rfl
  obtain ⟨calls, hnoted, hcalls, hprefix, hscanned, hall⟩ := calls_visitRecords visit
    (start (state, [])) rfl (batches.flatMap Batch.records)
  rw [← hnoting] at hnoted hcalls hscanned hall
  rw [hplain] at hcalls
  have hscanned : (run visit state batches).scanned = calls.length :=
    (congrArg scanned hplain).symm.trans (hscanned.trans (Nat.zero_add _))
  have hall : (run visit state batches).stopped = false → calls = batches.flatMap Batch.records :=
    fun hstopped => hall ((congrArg stopped hplain).trans hstopped)
  obtain rfl : visit.callsIn state batches = calls := hnoted
  rw [flatMap_records_eq] at hprefix hall
  have hskipped : (run visit state batches).stopped = false →
      (run visit state batches).skipped = (batches.flatMap Batch.entries).countP (·.isNone) := by
    intro hstopped
    rw [← sum_badCount_eq]
    exact (skipped_visitBatches _ _ hstopped).trans (Nat.zero_add _)
  refine ⟨hcalls, hprefix, hscanned, fun hendless => ?_, hall, hskipped, fun hstopped => ?_⟩
  · cases hstopped : (run visit state batches).stopped with
    | false => rfl
    | true =>
        have houtcome : (run visit state batches).outcome =
            .done (run visit state batches).state := by
          rw [outcome, hstopped]
          rfl
        exact absurd houtcome (hcalls.ne_done hendless _)
  · rw [hscanned, hall hstopped, hskipped hstopped, List.countP_eq_length_filter]
    exact List.length_eq_reduceOption_length_add_filter_none.symm

/-! ### The files of a directory -/

/-- The record files at and below the entries of a directory, in the order of their paths. -/
structure AreRecordFiles (entries : List (String × Tree)) (files : List (Path × ByteArray)) :
    Prop where
  exact : ∀ path content, (path, content) ∈ files ↔
    (Tree.directory entries).find? path = some (.file content) ∧
      ∃ name ∈ path.getLast?, isRecordName name = true
  ordered : files.Pairwise fun f g => compare f.1 g.1 = .lt

theorem areRecordFiles_sortedRecordFiles {entries : List (String × Tree)}
    (h : (Tree.directory entries).DistinctEntries) :
    AreRecordFiles entries (sortedRecordFiles entries) := by
  have hperm := List.mergeSort_perm (Tree.recordFilesAmong entries) fun a b =>
    (compare a.1 b.1).isLE
  refine ⟨fun path content => ?_, ?_⟩
  · rw [← Tree.mem_recordFilesAmong_iff h]
    exact hperm.mem_iff
  · have hsorted : (sortedRecordFiles entries).Pairwise fun f g => (compare f.1 g.1).isLE = true :=
      Sorting.pairwise_mergeSort Prod.fst _
    have hdistinct : (sortedRecordFiles entries).Pairwise fun f g => f.1 ≠ g.1 := by
      refine List.pairwise_map.mp ((hperm.map Prod.fst).nodup_iff.mpr ?_)
      exact Tree.nodup_paths_recordFilesAmong entries h.nodup fun _ => h.of_mem
    refine hsorted.imp₂ (fun f g hle hne => ?_) hdistinct
    cases hcompare : compare f.1 g.1 with
    | lt => rfl
    | eq => exact absurd (Std.LawfulEqCmp.eq_of_compare hcompare) hne
    | gt =>
        rw [hcompare] at hle
        cases hle

theorem Tree.DistinctEntries.of_list {disk : Tree} {place : Place} {entries : List (String × Tree)}
    (h : disk.DistinctEntries) (hlist : disk.list place = .ok entries) :
    (directory entries).DistinctEntries := by
  obtain ⟨path, hentries⟩ := hasEntries_of_list hlist
  exact h.of_find? (find?_locate hentries)

/-- A scan of a directory accounts for the entries of the record files at and below it, for every
kind and every visitor. -/
theorem exists_accounted_files {disk : Tree} {place : Place} {entries : List (String × Tree)}
    (hdisk : disk.DistinctEntries) (hlist : disk.list place = .ok entries) (kind : Kind) :
    ∃ files batches, AreRecordFiles entries files ∧
      Batch.ofDirectory kind place disk = .ok batches ∧
      ∀ (α : Type) (visit : Visitor α) (state : α),
        (Scan.run visit state batches).AccountsFor visit state
          (files.flatMap fun f => fileEntries kind f.2) (visit.callsIn state batches) := by
  refine ⟨sortedRecordFiles entries, Batch.ofEntries kind place entries,
    areRecordFiles_sortedRecordFiles (hdisk.of_list hlist), ?_, fun α visit state => ?_⟩
  · rw [Batch.ofDirectory, hlist]
    rfl
  · have hentries : (Batch.ofEntries kind place entries).flatMap Batch.entries =
        (sortedRecordFiles entries).flatMap fun f => fileEntries kind f.2 := by
      rw [Batch.ofEntries, List.flatMap_map]
      simp only [entries_ofFile]
    rw [← hentries]
    exact Scan.accountsFor_run visit state _

/-- A dataset with a file that is no JSON, and a file deeper down with a section before what is
none. -/
def damagedSections : List (String × Tree) :=
  [("a.json", .file "not JSON".toUTF8),
    ("more", .directory
      [("b.json", .file (Json.array [Registry.sampleSection, .null]).toText.toUTF8)])]

/-- A disk with that dataset. -/
def damagedDisk : Tree := .directory [("courses", .directory damagedSections)]

theorem distinctEntries_damagedDisk : damagedDisk.DistinctEntries := by
  refine Tree.distinctEntries_directory (List.nodup_singleton _) (List.forall_mem_singleton.mpr ?_)
  refine Tree.distinctEntries_directory (by decide) ?_
  have hmore (content : ByteArray) : (Tree.directory [("b.json", .file content)]).DistinctEntries :=
    Tree.distinctEntries_directory (List.nodup_singleton _)
      (List.forall_mem_singleton.mpr (Tree.distinctEntries_file _))
  simp [damagedSections, Tree.distinctEntries_file, hmore]

/-- One of the three entries is a section, and the two others are skipped. -/
theorem exists_accounted_files_damagedDisk : ∃ files batches,
    AreRecordFiles damagedSections files ∧
      Batch.ofDirectory .courses (.ofText "courses") damagedDisk = .ok batches ∧
      (files.flatMap fun f => fileEntries .courses f.2).length = 3 ∧
      ((scanAll batches).scanned, (scanAll batches).skipped) = (1, 2) := by
  have hlist : damagedDisk.list (.ofText "courses") = .ok damagedSections := rfl
  obtain ⟨files, batches, hfiles, hbatches, haccounts⟩ :=
    exists_accounted_files distinctEntries_damagedDisk hlist .courses
  have hsorted : sortedRecordFiles damagedSections = Tree.recordFilesAmong damagedSections :=
    List.mergeSort_of_pairwise (by decide)
  have hread : (Tree.recordFilesAmong damagedSections).map (fun f =>
      Batch.ofFile .courses ((Place.ofText "courses").descend f.1).text f.2) = batches := by
    rw [← hsorted]
    exact Except.ok.inj hbatches
  have hcounts : ((scanAll batches).scanned, (scanAll batches).skipped) = (1, 2) := by
    rw [← hread]
    decide +kernel
  obtain ⟨hscanned, hskipped⟩ := Prod.mk.inj hcounts
  have hall := haccounts Unit countVisitor ()
  have htotal := hall.total_eq (hall.not_stopped endless_countVisitor)
  refine ⟨files, batches, hfiles, hbatches, ?_, hcounts⟩
  rw [← htotal]
  exact congrArg₂ (· + ·) hscanned hskipped

end Campus
