import Campus.Proofs.Archive.Refinement
import Campus.Proofs.Registry.Counting
import Campus.Proofs.RoomOrder

/-!
# The order of a scan

What a dataset has when it is new is what its files hold, as long as its directory did not exist
before (`Registry.Added.holds`). New sections are visited in the order in which they were given
(`Registry.Added.holds_sections`). New rooms are visited in the order of their file names, and a
query that is neither grouped nor ordered shows them in that order. It is the order in which the
rooms were given up to `10 ^ roomDigits` of them, and not beyond if they differ
(`Archive.visits_added_rooms`).
-/

namespace Campus

variable {id : String} {kind : Kind}

/-- A query that is neither grouped nor ordered shows the records that it accepts in the order of a
scan, unless there are too many. -/
theorem Engine.result_ask_unordered {e : Engine} {source : Source} {q : Query} {query : Json}
    {records : List Record} (hq : Query.ofJson e.catalog query = .ok q)
    (hgrouping : q.grouping = none) (horder : q.order = none)
    (hholds : source.Holds q.dataset kind records) (stamp : Stamp) :
    (e.ask source stamp query).result =
      if matchLimit < (q.found kind records).length then
        .error (.ofQueryFailure (.tooLarge matchLimit))
      else .ok ((q.found kind records).map (·.project kind q.columns)) := by
  rw [result_ask_of_ofJson hq, Query.rows_run hholds, Query.reference, horder, Query.shaped,
    hgrouping]
  dsimp only
  split <;> rfl

/-! ### The files of a new dataset -/

namespace Registry

variable {r : Registry} {disk : Tree} {records : List Json} {l : Listing} {path : Path}

/-- Making a directory where nothing was brings no files into it. -/
theorem recordFilesAmong_entriesBefore
    (hmissing : disk.find? (r.datasetPlace kind id).path = none) :
    Tree.recordFilesAmong (r.entriesBefore disk id kind) = [] := by
  rw [entriesBefore]
  cases hlist : (disk.makeDirs (r.datasetPlace kind id)).2.list (r.datasetPlace kind id) with
  | error e => rfl
  | ok entries =>
      obtain ⟨path, hentries⟩ := Tree.hasEntries_of_list hlist
      obtain rfl := hentries.path_eq
      exact (Tree.makeDirs_makes disk _).recordFilesAmong_eq_nil hmissing hentries.find?_eq

/-- What is read of a new dataset is what was written for it. -/
theorem sortedRecordFiles_entriesAfter
    (hmissing : disk.find? (r.datasetPlace kind id).path = none) (records : List Json) :
    sortedRecordFiles (r.entriesAfter disk id kind records) =
      sortedRecordFiles (Tree.ofFiles (recordFilesOf kind records)) := by
  have hnames := names_recordFilesOf_nodup kind records
  have hnames' : (Assoc.names (Tree.ofFiles (recordFilesOf kind records))).Nodup := by
    rwa [Tree.names_ofFiles]
  have hfiles := Tree.recordFilesAmong_perm
    (Assoc.putAll_perm hnames' (r.entriesBefore disk id kind))
  have hnone : ∀ entries, entries ⊆ r.entriesBefore disk id kind →
      Tree.recordFilesAmong entries = [] := by
    intro entries hentries
    have hbefore := recordFilesAmong_entriesBefore hmissing
    rw [Tree.recordFilesAmong_eq_flatMap, List.flatMap_eq_nil_iff] at hbefore ⊢
    exact fun entry hentry => hbefore entry (hentries hentry)
  rw [Tree.recordFilesAmong_append, hnone _ (Assoc.eraseAll_subset _ _), List.append_nil] at hfiles
  refine (sortedRecordFiles_congr hfiles.symm ?_).symm
  rw [recordFilesAmong_ofFiles isRecordName_of_mem_recordFilesOf, List.map_map]
  have hpaths : ((Assoc.names (recordFilesOf kind records)).map fun name => [name]).Nodup :=
    hnames.map fun _ _ heq => List.singleton_inj.mp heq
  rwa [Assoc.names, List.map_map] at hpaths

/-- A scan of a new dataset visits what was written for it. -/
theorem Added.holds (h : r.Added disk id kind records l path)
    (hmissing : disk.find? (r.datasetPlace kind id).path = none) :
    ((r.add disk id kind records).registry.source (r.add disk id kind records).disk).Holds id kind
      ((sortedRecordFiles (Tree.ofFiles (recordFilesOf kind records))).flatMap
        fun f => fileRecords kind f.2) := by
  rw [← sortedRecordFiles_entriesAfter hmissing records]
  have hlisted := h.files.list_eq
  have hplace : (r.add disk id kind records).registry.datasetPlace kind id =
      r.datasetPlace kind id := by
    rw [datasetPlace, datasetPlace, kindPlace, kindPlace, h.place]
  have hfound := h.found
  obtain rfl := h.listing
  rw [← hplace] at hlisted
  exact Source.Holds.disk hfound hlisted

/-- Sections come back in the order in which they were given, however many there are: they share one
file, and all are lost if it nests too deeply. -/
theorem Added.holds_sections (h : r.Added disk id .courses records l path)
    (hmissing : disk.find? (r.datasetPlace .courses id).path = none)
    (hnames : ∀ v ∈ records, v.DistinctNames) (hfit : ∀ v ∈ records, v.NumbersFit) :
    ((r.add disk id .courses records).registry.source (r.add disk id .courses records).disk).Holds
      id .courses (if (Json.array records).depth ≤ Json.nestingLimit then
        records.filterMap (Record.ofStored? .courses) else []) := by
  have hnames' : (Json.array records).DistinctNames := Json.distinctNamesItems_iff.mpr hnames
  have hfit' : (Json.array records).NumbersFit := Json.numbersFitItems_iff.mpr hfit
  have hone : sortedRecordFiles (Tree.ofFiles (recordFilesOf .courses records)) =
      [([sectionsFileName], (Json.array records).toText.toUTF8)] := by
    rw [sortedRecordFiles, recordFilesAmong_ofFiles isRecordName_of_mem_recordFilesOf]
    exact List.mergeSort_singleton _
  have hholds := h.holds hmissing
  rwa [hone, List.flatMap_singleton, fileRecords_toText hnames' hfit'] at hholds

/-- Rooms come back in the order of their file names, those that do not nest too deeply. -/
theorem Added.holds_rooms (h : r.Added disk id .rooms records l path)
    (hmissing : disk.find? (r.datasetPlace .rooms id).path = none)
    (hrecords : ∀ v ∈ records, isRecord .rooms v = true) (hnames : ∀ v ∈ records, v.DistinctNames)
    (hfit : ∀ v ∈ records, v.NumbersFit) :
    ((r.add disk id .rooms records).registry.source (r.add disk id .rooms records).disk).Holds id
      .rooms ((byFileName records).filterMap Record.reread?) := by
  have hobjects : ∀ v ∈ records, v.shape = .object := by
    intro v hv
    by_contra hshape
    have hnone : isRecord .rooms v = false := isRecord_eq_false hshape
    rw [hrecords v hv] at hnone
    cases hnone
  rw [← flatMap_sortedRecordFiles_rooms hobjects hnames hfit]
  exact h.holds hmissing

/-! ### Where rooms can be added -/

/-- Files are put into an empty directory that admits them all. -/
theorem exists_persist {made : Tree} {place : Place} {files : List (String × Json)}
    (hmade : disk.makeDirs place = (.ok (), made)) (hentries : made.HasEntries place path [])
    (hadmits : ∀ f ∈ files, place.admits f.1 = true) (hnames : (Assoc.names files).Nodup) :
    ∃ written, persist place files disk = (.ok (), written) := by
  obtain ⟨written, hwritten⟩ := hentries.exists_writeEach hadmits hnames
  refine ⟨written, ?_⟩
  rw [persist, hmade]
  dsimp only
  rw [Tree.writeFiles_eq_writeEach, hwritten]

/-- Rooms are added where all their files are admitted. -/
theorem exists_add_rooms {made : Tree} (hvalid : isValidId id = true) (hfree : r.find? id = none)
    (hrecords : ∀ v ∈ records, isRecord .rooms v = true) (hnonempty : records ≠ [])
    (hmade : disk.makeDirs (r.datasetPlace .rooms id) = (.ok (), made))
    (hentries : made.HasEntries (r.datasetPlace .rooms id) path [])
    (hadmits : (r.datasetPlace .rooms id).admits (roomFileName records.length) = true) :
    ∃ l, (r.add disk id .rooms records).result = .ok l := by
  have hcount : countRecords .rooms records ≠ 0 := by
    rw [countRecords_eq, List.countP_eq_length.mpr hrecords]
    simpa using hnonempty
  have hfiles : ∀ f ∈ recordFilesOf .rooms records,
      (r.datasetPlace .rooms id).admits f.1 = true := by
    intro f hf
    obtain ⟨⟨v, number⟩, hmem, rfl⟩ := List.mem_map.mp hf
    have hlt := List.snd_lt_of_mem_zipIdx hmem
    exact admits_roomFileName (by omega) hadmits
  obtain ⟨written, hwritten⟩ :=
    exists_persist hmade hentries hfiles (names_recordFilesOf_nodup .rooms records)
  refine ⟨⟨id, .rooms, countRecords .rooms records⟩, ?_⟩
  rw [add, if_neg (by simp [hvalid]), if_neg (by simp [hfree])]
  dsimp only
  rw [if_neg hcount, hwritten]

end Registry

/-! ### New rooms -/

namespace Archive

variable {a : Archive} {disk : Tree} {records : List Json} {ids : List String}

/-- What a scan of new rooms visits. -/
theorem holds_added_rooms (hmissing : disk.find? (a.registry.datasetPlace .rooms id).path = none)
    (hrecords : ∀ v ∈ records, isRecord .rooms v = true)
    (hnames : ∀ v ∈ records, v.DistinctNames) (hfit : ∀ v ∈ records, v.NumbersFit)
    (hadded : (a.add disk id .rooms records).result = .ok ids) :
    ((a.add disk id .rooms records).archive.source (a.add disk id .rooms records).disk).Holds id
      .rooms ((byFileName records).filterMap Record.reread?) := by
  obtain ⟨l, hl⟩ := exists_of_follow_eq_ok _ _ _ hadded
  obtain ⟨path, hfiles⟩ := Registry.exists_added hl
  rw [source, Archive.add, registry_follow, disk_follow]
  exact hfiles.holds_rooms hmissing hrecords hnames hfit

/-- Valid rooms are read again in the order in which they were given, if there are numbers of
`roomDigits` digits for all of them and none nests too deeply. -/
theorem visited_eq_given (hlength : records.length ≤ 10 ^ roomDigits)
    (hdepth : ∀ v ∈ records, v.depth ≤ Json.nestingLimit) :
    (byFileName records).filterMap Record.reread? =
      records.filterMap (Record.ofStored? .rooms) := by
  rw [byFileName_eq_self hlength]
  refine List.filterMap_congr fun v hv => ?_
  rw [Record.reread?, if_pos (hdepth v hv)]

theorem map_ofStored?_eq (hrecords : ∀ v ∈ records, isRecord .rooms v = true) :
    records.map (Record.ofStored? .rooms) =
      (records.filterMap (Record.ofStored? .rooms)).map some := by
  rw [List.map_filterMap_some_eq_filter_map_isSome, List.filter_eq_self.mpr]
  rw [List.forall_mem_map]
  exact hrecords

/-- If as many rooms are read again as were given, none nests too deeply. -/
theorem depth_le_of_length_eq
    (h : ((byFileName records).filterMap Record.reread?).length = records.length) :
    ∀ v ∈ records, v.depth ≤ Json.nestingLimit := by
  rw [← (byFileName_perm records).length_eq] at h
  intro v hv
  have hread := List.filterMap_length_eq_length.mp h v ((byFileName_perm records).mem_iff.mpr hv)
  by_contra hdeep
  rw [Record.reread?, if_neg hdeep] at hread
  cases hread

/-- Valid rooms that differ are read again in the order in which they were given only then. -/
theorem of_visited_eq_given (hrecords : ∀ v ∈ records, isRecord .rooms v = true)
    (hnodup : (records.filterMap (Record.ofStored? .rooms)).Nodup)
    (h : (byFileName records).filterMap Record.reread? =
      records.filterMap (Record.ofStored? .rooms)) :
    records.length ≤ 10 ^ roomDigits ∧ ∀ v ∈ records, v.depth ≤ Json.nestingLimit := by
  have hgiven := map_ofStored?_eq hrecords
  have hlength : (records.filterMap (Record.ofStored? .rooms)).length = records.length := by
    have hlengths := congrArg List.length hgiven
    rwa [List.length_map, List.length_map, eq_comm] at hlengths
  have hdepth : ∀ v ∈ records, v.depth ≤ Json.nestingLimit :=
    depth_le_of_length_eq (by rw [h, hlength])
  -- No room is lost, so the order is that of the file names.
  have hreread : records.map Record.reread? = records.map (Record.ofStored? .rooms) :=
    List.map_congr_left fun v hv => by rw [Record.reread?, if_pos (hdepth v hv)]
  rw [filterMap_byFileName (hreread.trans hgiven)] at h
  exact ⟨hlength ▸ length_le_of_byFileName_eq hnodup h, hdepth⟩

/-- A scan of new rooms visits them in the order of their file names: those that were given, in the
order in which they were given, if there are numbers of `roomDigits` digits for all of them and none
nests too deeply to be read again, and only then if they differ. A query that is neither grouped nor
ordered shows them in that order. -/
theorem visits_added_rooms (hmissing : disk.find? (a.registry.datasetPlace .rooms id).path = none)
    (hrecords : ∀ v ∈ records, isRecord .rooms v = true)
    (hnames : ∀ v ∈ records, v.DistinctNames) (hfit : ∀ v ∈ records, v.NumbersFit)
    (hadded : (a.add disk id .rooms records).result = .ok ids) :
    let added := a.add disk id .rooms records
    let source := added.archive.source added.disk
    let given := records.filterMap (Record.ofStored? .rooms)
    let visited := (byFileName records).filterMap Record.reread?
    let inOrder := records.length ≤ 10 ^ roomDigits ∧ ∀ v ∈ records, v.depth ≤ Json.nestingLimit
    source.Visits id visited ∧
      (inOrder → source.Visits id given) ∧
      (given.Nodup → source.Visits id given → inOrder) ∧
      ∀ stamp query q, Query.ofJson added.archive.engine.catalog query = .ok q → q.dataset = id →
        q.grouping = none → q.order = none →
        (added.archive.ask added.disk stamp query).result =
          if matchLimit < (q.found .rooms visited).length then
            .error (.ofQueryFailure (.tooLarge matchLimit))
          else .ok ((q.found .rooms visited).map (·.project .rooms q.columns)) := by
  intro added source given visited inOrder
  have hholds : source.Holds id .rooms visited :=
    holds_added_rooms hmissing hrecords hnames hfit hadded
  have hvisits : source.Visits id visited := hholds.exists_batches
  refine ⟨hvisits, fun h => ?_, fun hnodup h => ?_, fun stamp query q hq hid hgrouping horder => ?_⟩
  · have hsame : visited = given := visited_eq_given h.1 h.2
    rwa [hsame] at hvisits
  · exact of_visited_eq_given hrecords hnodup (hvisits.unique h)
  · subst hid
    exact Engine.result_ask_unordered hq hgrouping horder hholds stamp

theorem isRecord_roomIn (building : String) : isRecord .rooms (roomIn building) = true := rfl

/-- Two rooms are added to an archive without datasets. -/
def twoRoomsAdded : Archived (List String) :=
  (ofRegistry Registry.sampleRegistry).add .empty "r" .rooms (["B", "A"].map roomIn)

/-- Two rooms come back in the order in which they were given, whatever their buildings. -/
theorem visits_added_rooms_two :
    (twoRoomsAdded.archive.source twoRoomsAdded.disk).Visits "r"
        ((["B", "A"].map roomIn).filterMap (Record.ofStored? .rooms)) ∧
      ((twoRoomsAdded.archive.ask twoRoomsAdded.disk ⟨"q", "1"⟩
        (columnQuery "r_shortname")).result.toOption.map
          fun rows => rows.map fun row => (row.get? "r_shortname").bind Scalar.text?) =
        some [some "B", some "A"] := by
  have hadded : twoRoomsAdded.result = .ok ["r"] := by decide +kernel
  have hadmits : twoRoomsAdded.archive.engine.catalog.Admits .any ⟨"r", "shortname"⟩ :=
    ⟨by decide, by decide, .rooms, ⟨"shortname", "shortname", .text⟩, by decide +kernel, by decide,
      rfl, rfl⟩
  have hq : Query.ofJson twoRoomsAdded.archive.engine.catalog (columnQuery "r_shortname") =
      .ok ⟨"r", .all, none, ["r_shortname"], none⟩ := by
    have htext : Key.text ⟨"r", "shortname"⟩ = "r_shortname" := by decide
    rw [← htext]
    exact ofJson_columnQuery hadmits
  have hmissing : Tree.empty.find?
      ((ofRegistry Registry.sampleRegistry).registry.datasetPlace .rooms "r").path = none :=
    Option.isNone_iff_eq_none.mp (by decide +kernel)
  have hrecords : ∀ v ∈ ["B", "A"].map roomIn, isRecord .rooms v = true :=
    List.forall_mem_map.mpr fun name _ => isRecord_roomIn name
  have hstorable := storable_roomIn ["B", "A"] (by decide)
  have hdepth : ∀ v ∈ ["B", "A"].map roomIn, v.depth ≤ Json.nestingLimit :=
    fun v hv => (hstorable.depth v hv).le
  unfold twoRoomsAdded at hadded hq ⊢
  obtain ⟨-, horder, -, hrows⟩ :=
    visits_added_rooms hmissing hrecords hstorable.names hstorable.numbers hadded
  refine ⟨horder ⟨hstorable.length, hdepth⟩, ?_⟩
  rw [hrows _ _ _ hq rfl rfl rfl, visited_eq_given hstorable.length hdepth]
  decide +kernel

/-! ### More rooms than numbers of `roomDigits` digits -/

/-- More rooms than there are numbers of `roomDigits` digits. -/
def manyRooms : List Json := (List.range (10 ^ roomDigits + 1)).map fun n => roomIn (Nat.repr n)

theorem ofStored?_roomIn (building : String) :
    (Record.ofStored? .rooms (roomIn building)).bind (·.get? "shortname") =
      some (.text building) := rfl

theorem wellFormed_manyRooms :
    ∀ v ∈ manyRooms, isRecord .rooms v = true ∧ v.DistinctNames ∧ v.NumbersFit :=
  List.forall_mem_map.mpr fun _ _ => ⟨isRecord_roomIn _, wellFormed_roomIn _⟩

theorem nodup_manyRooms : (manyRooms.filterMap (Record.ofStored? .rooms)).Nodup := by
  rw [manyRooms, List.filterMap_map]
  refine List.nodup_range.filterMap fun m n r hm hn => ?_
  -- A room is known by its building.
  have hm' := ofStored?_roomIn (Nat.repr m)
  have hn' := ofStored?_roomIn (Nat.repr n)
  rw [Option.mem_def, Function.comp_apply] at hm hn
  rw [hm, Option.bind_some] at hm'
  rw [hn, Option.bind_some, hm', Option.some.injEq, Scalar.text.injEq] at hn'
  exact Nat.repr_injective hn'

/-- All of them can be written: their names are short enough, and nothing is in their way. -/
theorem add_manyRooms :
    ∃ ids, ((ofRegistry Registry.sampleRegistry).add .empty "r" .rooms manyRooms).result =
      .ok ids := by
  have hmade : (Tree.empty.makeDirs (Registry.sampleRegistry.datasetPlace .rooms "r")).1 =
      .ok () := by
    decide +kernel
  have hnothing : ((Tree.empty.makeDirs (Registry.sampleRegistry.datasetPlace .rooms "r")).2.list
      (Registry.sampleRegistry.datasetPlace .rooms "r")).toOption.map Assoc.names = some [] := by
    decide +kernel
  have hadmits : (Registry.sampleRegistry.datasetPlace .rooms "r").admits
      (roomFileName manyRooms.length) = true := by
    rw [manyRooms, List.length_map, List.length_range]
    decide +kernel
  generalize hpair : Tree.empty.makeDirs (Registry.sampleRegistry.datasetPlace .rooms "r") = pair
    at hmade hnothing
  obtain ⟨result, made⟩ := pair
  obtain rfl : result = .ok () := hmade
  cases hlist : made.list (Registry.sampleRegistry.datasetPlace .rooms "r") with
  | error e =>
      rw [hlist] at hnothing
      cases hnothing
  | ok entries =>
      rw [hlist] at hnothing
      obtain rfl : entries = [] := List.map_eq_nil_iff.mp (Option.some.inj hnothing)
      obtain ⟨path, hentries⟩ := Tree.hasEntries_of_list hlist
      obtain ⟨l, hl⟩ := Registry.exists_add_rooms (by decide) (by decide)
        (fun v hv => (wellFormed_manyRooms v hv).1) (by simp [manyRooms]) hpair hentries hadmits
      exact ⟨_, result_follow (ofRegistry Registry.sampleRegistry) _ _ hl⟩

/-- Some rooms are not read in the order in which they were given. -/
theorem exists_rooms_out_of_order :
    ¬ ∀ (a : Archive) (disk : Tree) (id : String) (records : List Json) (ids : List String),
      disk.find? (a.registry.datasetPlace .rooms id).path = none →
      (∀ v ∈ records, isRecord .rooms v = true ∧ v.DistinctNames ∧ v.NumbersFit) →
      (a.add disk id .rooms records).result = .ok ids →
      ((a.add disk id .rooms records).archive.source (a.add disk id .rooms records).disk).Visits id
        (records.filterMap (Record.ofStored? .rooms)) := by
  intro h
  obtain ⟨ids, hadded⟩ := add_manyRooms
  have hmissing : Tree.empty.find?
      ((ofRegistry Registry.sampleRegistry).registry.datasetPlace .rooms "r").path = none :=
    Option.isNone_iff_eq_none.mp (by decide +kernel)
  have hrecords := fun v hv => (wellFormed_manyRooms v hv).1
  have hvisits := h _ _ _ _ _ hmissing wellFormed_manyRooms hadded
  have hholds := holds_added_rooms hmissing hrecords (fun v hv => (wellFormed_manyRooms v hv).2.1)
    (fun v hv => (wellFormed_manyRooms v hv).2.2) hadded
  have hlength := (of_visited_eq_given hrecords nodup_manyRooms
    (Source.Visits.unique hholds.exists_batches hvisits)).1
  rw [manyRooms, List.length_map, List.length_range] at hlength
  omega

end Archive

end Campus
