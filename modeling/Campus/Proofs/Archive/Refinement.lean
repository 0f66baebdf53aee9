import Campus.Proofs.Archive.Coherence
import Campus.Proofs.Query.Execution
import Campus.Proofs.RecordOrder
import Campus.Proofs.Registry.DataDirectory

/-!
# Datasets on the disk and in memory

What a query comes to depends on the catalog and on the records of its dataset, and not on how the
source has come by them (`Engine.result_ask_congr`). A dataset that is added to an empty data
directory is written to files, and a scan reads back the records that were given, in the order in
which they were given (`flatMap_sortedRecordFiles`). So all queries are answered as over the same
records in memory: `Archive.result_ask_eq_memory` says so of the archive to which the dataset was
added, and of one that is opened on its data directory afterwards.
-/

namespace Campus

variable {id : String} {kind : Kind}

/-! ### Engines -/

/-- The rows of a query are those of its reference. -/
theorem Query.rows_run {q : Query} {source : Source} {records : List Record}
    (h : source.Holds q.dataset kind records) (limit : Nat) :
    (q.run source limit).1.map (·.rows) = (q.reference kind limit records).map (·.2.2) := by
  rw [← run_eq_reference h]
  cases (q.run source limit).1 <;> rfl

/-- Two sources that hold the same records of a dataset answer a query of it alike. -/
theorem Query.rows_run_congr {q : Query} {source source' : Source} {records : List Record}
    (h : source.Holds q.dataset kind records) (h' : source'.Holds q.dataset kind records)
    (limit : Nat) :
    (q.run source limit).1.map (·.rows) = (q.run source' limit).1.map (·.rows) := by
  rw [rows_run h, rows_run h']

namespace Engine

variable {e e' : Engine} {source source' : Source} {records : List Record} {query : Json}

/-- The caller of a query that is read gets what running it comes to. -/
theorem result_ask_of_ofJson {q : Query} (h : Query.ofJson e.catalog query = .ok q)
    (source : Source) (stamp : Stamp) :
    (e.ask source stamp query).result =
      ((q.run source matchLimit).1.map (·.rows)).mapError .ofQueryFailure := by
  simp only [ask, conclude, outcome, h]
  rcases q.run source matchLimit with ⟨answered, log⟩
  cases answered <;> rfl

/-- A query is answered alike wherever the catalog and the records of the datasets in it are the
same. -/
theorem result_ask_congr (hcatalog : e.catalog = e'.catalog)
    (hholds : ∀ id kind, e.catalog.kindOf? id = some kind →
      ∃ records, source.Holds id kind records ∧ source'.Holds id kind records)
    (stamp stamp' : Stamp) (query : Json) :
    (e.ask source stamp query).result = (e'.ask source' stamp' query).result := by
  cases hq : Query.ofJson e.catalog query with
  | error r =>
      have hq' := hq
      rw [hcatalog] at hq'
      simp only [ask, conclude, outcome, hq, hq']
  | ok q =>
      obtain ⟨kind, hkind⟩ := Query.kindOf?_dataset_of_ofJson hq
      obtain ⟨records, hrecords, hrecords'⟩ := hholds _ _ hkind
      rw [result_ask_of_ofJson hq, result_ask_of_ofJson (hcatalog ▸ hq),
        Query.rows_run_congr hrecords hrecords']

/-- The engine answers from a source of one dataset with these records. -/
structure HasOnly (e : Engine) (source : Source) (id : String) (kind : Kind)
    (records : List Record) : Prop where
  catalog : e.catalog = ⟨[(id, kind)]⟩
  holds : source.Holds id kind records

theorem HasOnly.result_ask_eq (h : e.HasOnly source id kind records)
    (h' : e'.HasOnly source' id kind records) (stamp stamp' : Stamp) (query : Json) :
    (e.ask source stamp query).result = (e'.ask source' stamp' query).result := by
  refine result_ask_congr (h.catalog.trans h'.catalog.symm) (fun other otherKind hother => ?_)
    stamp stamp' query
  rw [h.catalog] at hother
  obtain ⟨rfl, rfl⟩ : id = other ∧ kind = otherKind := by
    have hmem := Assoc.mem_of_lookup hother
    simpa [eq_comm] using hmem
  exact ⟨records, h.holds, h'.holds⟩

/-- An engine over one dataset in memory. -/
theorem hasOnly_memory (id : String) (kind : Kind) (records : List Record) :
    (ofSource (Memory.empty.insert id kind records).source).HasOnly
      (Memory.empty.insert id kind records).source id kind records :=
  ⟨by simp [ofSource, Source.catalog, Memory.source, Memory.datasets, Memory.insert, Memory.empty,
      Assoc.put, Catalog.ofList, Assoc.putAll],
    .memory (by simp [Memory.insert, Memory.empty, Assoc.put])⟩

end Engine

/-! ### Data directories of one dataset -/

/-- The directories of the kinds, with one dataset of these entries in them. -/
def Tree.oneDataset (id : String) (kind : Kind) (entries : List (String × Tree)) : Kind → Tree :=
  Function.update (fun _ => .empty) kind (.directory [(id, .directory entries)])

theorem Tree.isDirectory_oneDataset (id : String) (kind : Kind) (entries : List (String × Tree))
    (other : Kind) : (oneDataset id kind entries other).isDirectory = true := by
  rw [oneDataset, Function.update_apply]
  split <;> rfl

namespace Registry

variable {rows : Nat} {disk : Tree} {place : Place} {path : Path} {records : List Json}

/-- A registry of one dataset scans the records whose files are in its directory. -/
theorem holds_source (hentries : disk.HasEntries ((place.child kind.name).child id) path
      (Tree.ofFiles (recordFilesOf kind records)))
    (hrecords : Storable records) :
    ((Registry.mk place [⟨id, kind, rows⟩]).source disk).Holds id kind
      (records.filterMap (Record.ofStored? kind)) := by
  have hfind : (Registry.mk place [⟨id, kind, rows⟩]).find? id = some ⟨id, kind, rows⟩ := by
    simp [find?]
  rw [← flatMap_sortedRecordFiles hrecords]
  exact Source.Holds.disk hfind hentries.list_eq

theorem ofKinds_empty (place : Place) : ofKinds place (fun _ => .empty) = ⟨place, []⟩ := by
  have hnone : sortedDirectories [] = [] := List.mergeSort_nil
  simp [ofKinds, Kind.all, Tree.empty, hnone, registerAll]

/-- The one dataset among the directories of the kinds is registered. -/
theorem exists_ofKinds_oneDataset (place : Place) (hid : isValidId id = true) (kind : Kind)
    (entries : List (String × Tree)) :
    ∃ rows, ofKinds place (Tree.oneDataset id kind entries) = ⟨place, [⟨id, kind, rows⟩]⟩ := by
  have hnone : sortedDirectories [] = [] := List.mergeSort_nil
  have hone : sortedDirectories [(id, Tree.directory entries)] = [(id, .directory entries)] :=
    List.mergeSort_singleton _
  obtain ⟨rows, hrows⟩ : ∃ rows,
      (Registry.register ⟨place, []⟩ kind (id, .directory entries)).1 =
        ⟨place, [⟨id, kind, rows⟩]⟩ :=
    ⟨_, by simp [register, hid, find?]; rfl⟩
  refine ⟨rows, ?_⟩
  cases kind <;>
    simp [ofKinds, Kind.all, Tree.oneDataset, registerAll, Tree.empty, hnone, hone, hrows]

end Registry

/-! ### Archives of one dataset -/

namespace Archive

variable {a : Archive} {disk : Tree} {place : Place} {path : Path} {rows : Nat}
  {records : List Json} {ids : List String}

/-- An archive of one dataset whose files are in its directory. -/
theorem hasOnly_ofRegistry (hentries : disk.HasEntries ((place.child kind.name).child id) path
      (Tree.ofFiles (recordFilesOf kind records)))
    (hrecords : Storable records) :
    (ofRegistry ⟨place, [⟨id, kind, rows⟩]⟩).engine.HasOnly
      ((ofRegistry ⟨place, [⟨id, kind, rows⟩]⟩).source disk) id kind
      (records.filterMap (Record.ofStored? kind)) :=
  ⟨rfl, Registry.holds_source hentries hrecords⟩

/-- An empty data directory is opened as an empty archive. -/
theorem openAt_of_empty (hempty : disk.list place = .ok [])
    (hopened : (Registry.openAt place disk).archive = .ok a) :
    a = ofRegistry ⟨place, []⟩ ∧
      ∃ path, (Registry.openAt place disk).disk.HoldsKinds place path fun _ => .empty := by
  obtain ⟨path, hentries⟩ := Tree.hasEntries_of_list hempty
  obtain ⟨r, hr, rfl⟩ := exists_of_archive_eq_ok hopened
  obtain ⟨rfl, hkinds, -⟩ := Registry.openAt_of_spot hentries.spot_eq hr
  have hnothing : Registry.kindNode [] = fun _ => .empty := rfl
  rw [hnothing] at hkinds
  rw [hnothing, Registry.ofKinds_empty]
  exact ⟨rfl, path, hkinds⟩

/-- A dataset that is added to an empty archive is its one dataset, with its files on the disk. -/
theorem add_of_empty (h : disk.HoldsKinds place path fun _ => .empty)
    (hadded : ((ofRegistry ⟨place, []⟩).add disk id kind records).result = .ok ids) :
    isValidId id = true ∧
      (∃ rows, ((ofRegistry ⟨place, []⟩).add disk id kind records).archive =
        ofRegistry ⟨place, [⟨id, kind, rows⟩]⟩) ∧
      ((ofRegistry ⟨place, []⟩).add disk id kind records).disk.HoldsKinds place path
        (Tree.oneDataset id kind (Tree.ofFiles (recordFilesOf kind records))) ∧
      ∃ path', ((ofRegistry ⟨place, []⟩).add disk id kind records).disk.HasEntries
        ((place.child kind.name).child id) path' (Tree.ofFiles (recordFilesOf kind records)) := by
  have hadds := (Registry.mk place []).adds disk id kind records
  simp only [Archive.add, ofRegistry] at hadded ⊢
  generalize (Registry.mk place []).add disk id kind records = change at hadds hadded ⊢
  cases hadds with
  | refused reason => cases hadded
  | failed valid free nonempty failure => cases hadded
  | done valid free nonempty success =>
      have hwritten := h.persist (names_recordFilesOf_nodup kind records)
        (show Tree.empty = .directory [] from rfl) rfl success
      exact ⟨valid, ⟨_, rfl⟩, hwritten.1, hwritten.2⟩

/-- A data directory of one dataset is opened as it is. -/
theorem openAt_of_oneDataset {entries : List (String × Tree)} (hid : isValidId id = true)
    (h : disk.HoldsKinds place path (Tree.oneDataset id kind entries)) :
    (∃ rows, (Registry.openAt place disk).archive =
      .ok (ofRegistry ⟨place, [⟨id, kind, rows⟩]⟩)) ∧
    (Registry.openAt place disk).disk = disk := by
  obtain ⟨hopened, hdisk⟩ := h.openAt_eq (Tree.isDirectory_oneDataset id kind entries)
  obtain ⟨rows, hrows⟩ := Registry.exists_ofKinds_oneDataset place hid kind entries
  rw [hrows] at hopened
  refine ⟨⟨rows, ?_⟩, hdisk⟩
  rw [Opening.archive, hopened]

/-- All queries of a dataset that was added to an empty data directory are answered as over the
same records in memory, also by an archive that is opened on the data directory afterwards. -/
theorem result_ask_eq_memory (hempty : disk.list place = .ok [])
    (hopened : (Registry.openAt place disk).archive = .ok a)
    (hadded : (a.add (Registry.openAt place disk).disk id kind records).result = .ok ids)
    (hrecords : Storable records) :
    let added := a.add (Registry.openAt place disk).disk id kind records
    let reopening := Registry.openAt place added.disk
    let memory := Memory.empty.insert id kind (records.filterMap (Record.ofStored? kind))
    let answer := fun stamp query =>
      ((Engine.ofSource memory.source).ask memory.source stamp query).result
    (∀ stamp stamp' query,
      (added.archive.ask added.disk stamp query).result = answer stamp' query) ∧
    ∃ b, reopening.archive = .ok b ∧ ∀ stamp stamp' query,
      (b.ask reopening.disk stamp query).result = answer stamp' query := by
  obtain ⟨rfl, path, hkinds⟩ := openAt_of_empty hempty hopened
  obtain ⟨hid, ⟨rows, harchive⟩, hstored, path', hfiles⟩ := add_of_empty hkinds hadded
  obtain ⟨⟨rows', hreopened⟩, hdisk⟩ := openAt_of_oneDataset hid hstored
  have hmemory := Engine.hasOnly_memory id kind (records.filterMap (Record.ofStored? kind))
  intro added reopening memory answer
  refine ⟨fun stamp stamp' query => ?_, _, hreopened, fun stamp stamp' query => ?_⟩
  · rw [show added.archive = _ from harchive]
    exact (hasOnly_ofRegistry hfiles hrecords).result_ask_eq hmemory stamp stamp' query
  · rw [show reopening.disk = added.disk from hdisk]
    exact (hasOnly_ofRegistry hfiles hrecords).result_ask_eq hmemory stamp stamp' query

/-- A room of a building as it is stored. -/
def roomIn (building : String) : Json :=
  .object [("fullname", .string "Hall"), ("shortname", .string building), ("number", .string "1"),
    ("name", .string "H_1"), ("address", .string ""), ("type", .string "Small"),
    ("furniture", .string "Fixed"), ("href", .string ""), ("lat", .number (.integer 49)),
    ("lon", .string "-123.2"), ("seats", .number (.integer 20))]

theorem wellFormed_roomIn (building : String) :
    (roomIn building).DistinctNames ∧ (roomIn building).NumbersFit := by
  constructor
  · simp [roomIn, Json.DistinctNames, Json.DistinctNamesMembers]
  · simp [roomIn, Json.NumbersFit, Json.NumbersFitMembers, Json.Num.Fits, Json.Num.fits]

theorem storable_roomIn (buildings : List String) (h : buildings.length ≤ 10 ^ roomDigits) :
    Storable (buildings.map roomIn) := by
  refine ⟨by rwa [List.length_map], ?_, ?_, ?_, ?_⟩ <;> rw [List.forall_mem_map] <;> intro name _
  · rfl
  · simp [roomIn, Json.depth, Json.depthOfMembers, Json.nestingLimit]
  · exact (wellFormed_roomIn name).1
  · exact (wellFormed_roomIn name).2

/-- Two rooms that are added to an empty data directory come back in the order in which they were
given. -/
theorem result_ask_rooms :
    let place := Place.ofText "data"
    let disk := Tree.directory [("data", .empty)]
    let a := ofRegistry ⟨place, []⟩
    let added := a.add (Registry.openAt place disk).disk "r" .rooms (["B", "A"].map roomIn)
    disk.list place = .ok [] ∧ (Registry.openAt place disk).archive = .ok a ∧
      added.result = .ok ["r"] ∧ Storable (["B", "A"].map roomIn) ∧
      ((added.archive.ask added.disk ⟨"q", "1"⟩ (columnQuery "r_shortname")).result.toOption.map
        fun rows => rows.map fun row => (row.get? "r_shortname").bind Scalar.text?) =
        some [some "B", some "A"] := by
  intro place disk a added
  have hempty : disk.list place = .ok [] := by
    have hallowed : place.error? = none := by decide +kernel
    have hsteps : place.steps = [.down "data"] := by decide +kernel
    rw [Tree.list, Tree.locate_eq_spot hallowed, hsteps]
    rfl
  have hopened : (Registry.openAt place disk).archive = .ok a := by decide +kernel
  have hadded : added.result = .ok ["r"] := by decide +kernel
  have hrecords := storable_roomIn ["B", "A"] (by decide)
  refine ⟨hempty, hopened, hadded, hrecords, ?_⟩
  rw [(result_ask_eq_memory hempty hopened hadded hrecords).1 ⟨"q", "1"⟩ ⟨"q", "1"⟩]
  decide +kernel

end Archive

end Campus
