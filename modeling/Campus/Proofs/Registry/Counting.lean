import Campus.Proofs.Registry.Reopening

/-!
# How many rows an added dataset has

The rows of a new dataset are counted before its files are written. A scan counts what the files
give back, and the two counts differ in three ways: records that nest too deeply are written and
not read again (`lostRecords`), records are read from files that lay in the directory before
(`Registry.leftRecords`), and an array that is given as a room is no record, but its items are read
as rooms of their own (`nestedRecords`).

* `Registry.Added.recordsAmong_add_lostRecords` — how the two counts differ.
* `Registry.rows_eq_scanned_iff` — when they agree, also with the count of a registry that is opened
  afterwards.
-/

namespace Campus

variable {kind : Kind} {records : List Json}

/-! ### Counting -/

/-- How many records are written and not read again. Sections share one file. -/
def lostRecords (kind : Kind) (records : List Json) : Nat :=
  match kind with
  | .courses =>
    if (Json.array records).depth ≤ Json.nestingLimit then 0
    else records.countP (isRecord .courses)
  | .rooms => records.countP fun v => isRecord .rooms v && decide (Json.nestingLimit < v.depth)

/-- How many rooms are read from the file of one. -/
def nestedInRoom (stored : Json) : Nat :=
  match stored with
  | .array items => recordsFiled .rooms (.array items)
  | _ => 0

/-- How many records are read though they are only items of what was given. -/
def nestedRecords (kind : Kind) (records : List Json) : Nat :=
  match kind with
  | .courses => 0
  | .rooms => (records.map nestedInRoom).sum

/-- What one room accounts for. -/
theorem recordsFiled_room (stored : Json) :
    recordsFiled .rooms stored +
        [stored].countP (fun v => isRecord .rooms v && decide (Json.nestingLimit < v.depth)) =
      [stored].countP (isRecord .rooms) + nestedInRoom stored := by
  have hplain : stored.elements = [stored] → nestedInRoom stored = 0 →
      recordsFiled .rooms stored +
          [stored].countP (fun v => isRecord .rooms v && decide (Json.nestingLimit < v.depth)) =
        [stored].countP (isRecord .rooms) + nestedInRoom stored := by
    intro helements hnested
    rw [hnested, recordsFiled, helements]
    by_cases hdepth : stored.depth ≤ Json.nestingLimit
    · simp [hdepth, Nat.not_lt.mpr hdepth]
    · simp [hdepth, Nat.lt_of_not_le hdepth]
  cases stored with
  | array items =>
      have hnone : isRecord .rooms (.array items) = false :=
        isRecord_eq_false Json.Shape.noConfusion
      simp [hnone, nestedInRoom]
  | null | bool b | number n | string s | object members => exact hplain rfl rfl

/-- The records in the files of a dataset. -/
theorem sum_recordsFiled (kind : Kind) (records : List Json) :
    ((recordFilesOf kind records).map fun f => recordsFiled kind f.2).sum +
        lostRecords kind records =
      records.countP (isRecord kind) + nestedRecords kind records := by
  cases kind with
  | courses =>
      simp only [recordFilesOf, lostRecords, nestedRecords, recordsFiled, List.map_cons,
        List.map_nil, List.sum_cons, List.sum_nil, Json.elements]
      split <;> omega
  | rooms =>
      -- The names of the files do not matter for their sum, so the numbers of the rooms go.
      have hfiles : (recordFilesOf .rooms records).map (fun f => recordsFiled .rooms f.2) =
          records.map (recordsFiled .rooms) := by
        conv_rhs => rw [← List.zipIdx_map_fst 0 records]
        simp only [recordFilesOf, List.map_map, Function.comp_def]
      rw [hfiles]
      clear hfiles
      unfold lostRecords nestedRecords
      dsimp only
      induction records with
      | nil => rfl
      | cons v records ih =>
          have hv := recordsFiled_room v
          rw [← List.singleton_append, List.countP_append, List.countP_append]
          simp only [List.singleton_append, List.map_cons, List.sum_cons]
          omega

/-- Values that are written to files are as well-formed as the records. -/
theorem forall_mem_recordFilesOf (kind : Kind) {p : Json → Prop}
    (hp : ∀ items : List Json, (∀ v ∈ items, p v) → p (.array items)) (h : ∀ v ∈ records, p v) :
    ∀ f ∈ recordFilesOf kind records, p f.2 := by
  cases kind with
  | courses =>
      intro f hf
      obtain rfl := List.mem_singleton.mp hf
      exact hp records h
  | rooms =>
      intro f hf
      obtain ⟨⟨v, i⟩, hv, rfl⟩ := List.mem_map.mp hf
      exact h v (List.fst_mem_of_mem_zipIdx hv)

/-- The records in the entries that the files of a dataset are written as. -/
theorem recordsAmong_ofFiles (hnames : ∀ v ∈ records, v.DistinctNames)
    (hfit : ∀ v ∈ records, v.NumbersFit) :
    recordsAmong kind (Tree.ofFiles (recordFilesOf kind records)) =
      ((recordFilesOf kind records).map fun f => recordsFiled kind f.2).sum := by
  have hnames' := forall_mem_recordFilesOf kind
    (fun _ => Json.distinctNamesItems_iff.mpr) hnames
  have hfit' := forall_mem_recordFilesOf kind
    (fun _ => Json.numbersFitItems_iff.mpr) hfit
  rw [recordsAmong, Tree.ofFiles, List.map_map]
  congr 1
  refine List.map_congr_left fun f hf => ?_
  rw [Function.comp_apply, recordsAt_file (isRecordName_of_mem_recordFilesOf f hf)]
  exact recordsInFile_toText (hnames' f hf) (hfit' f hf)

namespace Registry

variable {r : Registry} {disk : Tree} {id : String} {place : Place}

/-! ### Adding -/

/-- What lies in the directory of a dataset when its files are to be written. -/
def entriesBefore (r : Registry) (disk : Tree) (id : String) (kind : Kind) :
    List (String × Tree) :=
  ((disk.makeDirs (r.datasetPlace kind id)).2.list (r.datasetPlace kind id)).toOption.getD []

/-- How many records lie in the directory of a dataset in files that are not written over. -/
def leftRecords (r : Registry) (disk : Tree) (id : String) (kind : Kind) (records : List Json) :
    Nat :=
  recordsAmong kind
    (Assoc.eraseAll (Assoc.names (recordFilesOf kind records)) (r.entriesBefore disk id kind))

/-- What lies in the directory of a dataset when its files are written. -/
def entriesAfter (r : Registry) (disk : Tree) (id : String) (kind : Kind) (records : List Json) :
    List (String × Tree) :=
  Assoc.putAll (r.entriesBefore disk id kind) (Tree.ofFiles (recordFilesOf kind records))

/-- The files of a dataset are among the entries of its directory afterwards. -/
theorem hasEntries_of_persist {files : List (String × Json)} {written : Tree}
    (h : persist (r.datasetPlace kind id) files disk = (.ok (), written)) :
    ∃ path, written.HasEntries (r.datasetPlace kind id) path
      (Assoc.putAll (r.entriesBefore disk id kind) (Tree.ofFiles files)) := by
  obtain ⟨made, hmade, hwritten⟩ := exists_made_of_persist h
  obtain ⟨path, entries, hlocate⟩ := Tree.locate_of_makeDirs
    (p := r.datasetPlace kind id) (by simp [datasetPlace, Place.child]) hmade
  have hentries : made.HasEntries (r.datasetPlace kind id) path entries := hlocate
  have hbefore : r.entriesBefore disk id kind = entries := by
    rw [entriesBefore, hmade, hentries.list_eq]
    rfl
  exact ⟨path, hbefore ▸ (hentries.writeFiles hwritten).2⟩

/-- What a dataset that is added leaves: its listing, and its files in its directory. -/
structure Added (r : Registry) (disk : Tree) (id : String) (kind : Kind) (records : List Json)
    (l : Listing) (path : Path) : Prop where
  listing : l = ⟨id, kind, countRecords kind records⟩
  found : (r.add disk id kind records).registry.find? id = some l
  place : (r.add disk id kind records).registry.place = r.place
  files : (r.add disk id kind records).disk.HasEntries (r.datasetPlace kind id) path
    (r.entriesAfter disk id kind records)

theorem exists_added {l : Listing} (h : (r.add disk id kind records).result = .ok l) :
    ∃ path, r.Added disk id kind records l path := by
  have hadds := r.adds disk id kind records
  generalize hchange : r.add disk id kind records = change at hadds h
  cases hadds with
  | refused reason => cases h
  | failed valid free nonempty failure => cases h
  | done valid free nonempty success =>
      cases h
      obtain ⟨path, hfiles⟩ := hasEntries_of_persist success
      refine ⟨path, rfl, ?_, by rw [hchange], by rw [hchange]; exact hfiles⟩
      rw [hchange]
      have hnone : r.listings.find? (fun l => l.id = id) = none := find?_eq_none_iff.mpr free
      simp [Registry.find?, hnone]

variable {l : Listing} {path : Path}

/-- A scan of the dataset meets the files of its directory. -/
theorem Added.batches_eq (h : r.Added disk id kind records l path) :
    (r.add disk id kind records).registry.batches (r.add disk id kind records).disk id =
      .ok (Batch.ofEntries kind (r.datasetPlace kind id)
        (r.entriesAfter disk id kind records)) := by
  have hplace : (r.add disk id kind records).registry.datasetPlace kind id =
      r.datasetPlace kind id := by
    simp [datasetPlace, kindPlace, h.place]
  have hkind : l.kind = kind := by rw [h.listing]
  simp only [batches, h.found, hkind, hplace, Batch.ofDirectory, h.files.list_eq]
  rfl

/-- How the rows of a dataset that is added differ from the records of its files. -/
theorem Added.recordsAmong_add_lostRecords (h : r.Added disk id kind records l path)
    (hnames : ∀ v ∈ records, v.DistinctNames) (hfit : ∀ v ∈ records, v.NumbersFit) :
    recordsAmong kind (r.entriesAfter disk id kind records) + lostRecords kind records =
      l.rows + (r.leftRecords disk id kind records + nestedRecords kind records) := by
  have hnodup : (Assoc.names (Tree.ofFiles (recordFilesOf kind records))).Nodup := by
    rw [Tree.names_ofFiles]
    exact names_recordFilesOf_nodup kind records
  have hperm := Assoc.putAll_perm hnodup (r.entriesBefore disk id kind)
  have hrows : l.rows = records.countP (isRecord kind) := by
    rw [h.listing, countRecords_eq]
  have hsum := sum_recordsFiled kind records
  rw [Tree.names_ofFiles] at hperm
  rw [entriesAfter, recordsAmong_perm hperm, recordsAmong_append,
    recordsAmong_ofFiles hnames hfit, leftRecords]
  omega

/-- The rows of a new dataset are the records that a scan of it visits exactly if as many records
are lost as come from files that lay there before and from arrays that are given as rooms. A
registry that is opened afterwards lists it with the records that the scan visits, in any case. -/
theorem rows_eq_scanned_iff (hnames : ∀ v ∈ records, v.DistinctNames)
    (hfit : ∀ v ∈ records, v.NumbersFit) (h : (r.add disk id kind records).result = .ok l) :
    ∃ batches, (r.add disk id kind records).registry.batches (r.add disk id kind records).disk id =
        .ok batches ∧
      (l.rows = (scanAll batches).scanned ↔
        lostRecords kind records =
          r.leftRecords disk id kind records + nestedRecords kind records) ∧
      ∀ opened, (openAt r.place (r.add disk id kind records).disk).result = .ok opened →
        ∀ l' ∈ opened.listings, l'.id = id → l'.kind = kind →
          l'.rows = (scanAll batches).scanned := by
  obtain ⟨path, hadded⟩ := exists_added h
  have hcount := hadded.recordsAmong_add_lostRecords hnames hfit
  refine ⟨_, hadded.batches_eq, ?_, ?_⟩
  · rw [scanned_ofEntries]
    omega
  · rintro opened hopened l' hl' rfl rfl
    rw [scanned_ofEntries]
    exact rows_of_openAt hopened hl' hadded.files

/-- A room as it is stored. -/
def sampleRoom : Json :=
  .object [("fullname", .string "Hall"), ("shortname", .string "H"), ("number", .string "1"),
    ("name", .string "H_1"), ("address", .string ""), ("type", .string "Small"),
    ("furniture", .string "Fixed"), ("href", .string ""), ("lat", .number (.integer 49)),
    ("lon", .string "-123.2"), ("seats", .number (.integer 20))]

theorem wellFormed_sampleRoom : sampleRoom.DistinctNames ∧ sampleRoom.NumbersFit := by
  constructor
  · simp [sampleRoom, Json.DistinctNames, Json.DistinctNamesMembers]
  · simp [sampleRoom, Json.NumbersFit, Json.NumbersFitMembers, Json.Num.Fits, Json.Num.fits]

/-- One room is one row, and a scan visits it. -/
theorem rows_eq_scanned_sampleRoom :
    (sampleRegistry.add .empty "r" .rooms [sampleRoom]).result = .ok ⟨"r", .rooms, 1⟩ ∧
      ∃ batches, (sampleRegistry.add .empty "r" .rooms [sampleRoom]).registry.batches
          (sampleRegistry.add .empty "r" .rooms [sampleRoom]).disk "r" = .ok batches ∧
        1 = (scanAll batches).scanned := by
  have hresult : (sampleRegistry.add .empty "r" .rooms [sampleRoom]).result =
      .ok ⟨"r", .rooms, 1⟩ := by
    decide +kernel
  have hnames : ∀ v ∈ [sampleRoom], v.DistinctNames := by simpa using wellFormed_sampleRoom.1
  have hfit : ∀ v ∈ [sampleRoom], v.NumbersFit := by simpa using wellFormed_sampleRoom.2
  obtain ⟨batches, hbatches, hiff, -⟩ := rows_eq_scanned_iff hnames hfit hresult
  exact ⟨hresult, batches, hbatches, hiff.mpr (by decide +kernel)⟩

/-- A room, and an array that is given as a room. -/
def sampleRooms : List Json := [sampleRoom, .array [sampleRoom, sampleRoom]]

theorem wellFormed_sampleRooms : ∀ v ∈ sampleRooms, v.DistinctNames ∧ v.NumbersFit := by
  have hroom := wellFormed_sampleRoom
  simp [sampleRooms, Json.DistinctNames, Json.DistinctNamesItems, Json.NumbersFit,
    Json.NumbersFitItems, hroom]

/-- Some dataset has fewer rows than a scan visits: the items of an array that is given as a room
are read as rooms. -/
theorem exists_rows_ne_scanned : ∃ r disk id kind records l batches,
    (∀ v ∈ records, v.DistinctNames ∧ v.NumbersFit) ∧
      (Registry.add r disk id kind records).result = .ok l ∧
      (r.add disk id kind records).registry.batches (r.add disk id kind records).disk id =
        .ok batches ∧
      l.rows ≠ (scanAll batches).scanned := by
  have hresult : (sampleRegistry.add .empty "r" .rooms sampleRooms).result =
      .ok ⟨"r", .rooms, 1⟩ := by
    decide +kernel
  obtain ⟨path, hadded⟩ := exists_added hresult
  have hcount := hadded.recordsAmong_add_lostRecords (fun v hv => (wellFormed_sampleRooms v hv).1)
    fun v hv => (wellFormed_sampleRooms v hv).2
  have hlost : lostRecords .rooms sampleRooms = 0 := by decide +kernel
  have hnested : nestedRecords .rooms sampleRooms = 2 := by decide +kernel
  refine ⟨sampleRegistry, .empty, "r", .rooms, sampleRooms, _, _, wellFormed_sampleRooms, hresult,
    hadded.batches_eq, ?_⟩
  rw [scanned_ofEntries]
  dsimp only at hcount ⊢
  omega

end Registry

end Campus
