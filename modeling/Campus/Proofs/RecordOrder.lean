import Campus.Proofs.Disk.Writing
import Campus.Proofs.RecordFile

/-!
# The order of record files

Files are read in the order of their paths. The number of a room has zeros in front, so up to
`10 ^ roomDigits` rooms have names in the order of their numbers (`roomFileName_lt`), and the files
of a dataset are read in the order in which they are written (`sortedRecordFiles_ofFiles`). So the
records that are read are those that were given, in the order in which they were given
(`flatMap_sortedRecordFiles`).
-/

namespace Campus

open Number.Numeral (AllDigits digitsValue allDigits_printNat digitsValue_printNat
  digitsValue_zeros_append allDigits_zeros)

variable {kind : Kind} {records : List Json}

/-- Objects that come back from their files: there are numbers with `roomDigits` digits for all of
them, they leave room for the array around them, and they are values that texts denote. -/
structure Storable (records : List Json) : Prop where
  length : records.length ≤ 10 ^ roomDigits
  objects : ∀ v ∈ records, v.shape = .object
  depth : ∀ v ∈ records, v.depth < Json.nestingLimit
  names : ∀ v ∈ records, v.DistinctNames
  numbers : ∀ v ∈ records, v.NumbersFit

/-- So there may be 100000 of them, of depth 126. -/
example : 10 ^ roomDigits = 100000 ∧ Json.nestingLimit = 127 := by decide

/-! ### Digits -/

theorem digitsValue_cons (c : Char) (cs : List Char) :
    digitsValue (c :: cs) = 10 ^ cs.length * (c.toNat - '0'.toNat) + digitsValue cs := by
  rw [digitsValue, Nat.ofDigitChars_cons, Nat.ofDigitChars_eq_ofDigitChars_zero, Nat.mul_zero,
    Nat.zero_add, digitsValue]

theorem digitsValue_lt {cs : List Char} (h : AllDigits cs) : digitsValue cs < 10 ^ cs.length := by
  induction cs with
  | nil => exact Nat.one_pos
  | cons c cs ih =>
      have hc := Char.isDigit_iff_toNat.mp (h c List.mem_cons_self)
      have hcs := ih fun d hd => h d (List.mem_cons_of_mem _ hd)
      have hdigit : c.toNat - '0'.toNat ≤ 9 := by
        change _ ∧ c.toNat ≤ 57 at hc
        change c.toNat - 48 ≤ 9
        omega
      rw [digitsValue_cons, List.length_cons, Nat.pow_succ]
      calc 10 ^ cs.length * (c.toNat - '0'.toNat) + digitsValue cs
          < 10 ^ cs.length * 9 + 10 ^ cs.length :=
            Nat.add_lt_add_of_le_of_lt (Nat.mul_le_mul_left _ hdigit) hcs
        _ = 10 ^ cs.length * 10 := by ring

/-- Numerals with equally many digits are in the order of their values, whatever follows. -/
theorem append_lt_of_digitsValue_lt {cs ds : List Char} (hcs : AllDigits cs) (hds : AllDigits ds)
    (hlength : cs.length = ds.length) (h : digitsValue cs < digitsValue ds) (rest : List Char) :
    cs ++ rest < ds ++ rest := by
  induction cs generalizing ds with
  | nil =>
      rw [List.eq_nil_of_length_eq_zero hlength.symm] at h
      exact absurd h (Nat.lt_irrefl _)
  | cons c cs ih =>
      obtain ⟨d, ds, rfl⟩ := List.exists_cons_of_length_eq_add_one hlength.symm
      have hc := Char.isDigit_iff_toNat.mp (hcs c List.mem_cons_self)
      have hd := Char.isDigit_iff_toNat.mp (hds d List.mem_cons_self)
      have hcs' : AllDigits cs := fun x hx => hcs x (List.mem_cons_of_mem _ hx)
      have hds' : AllDigits ds := fun x hx => hds x (List.mem_cons_of_mem _ hx)
      have hlength' : cs.length = ds.length := by simpa using hlength
      rw [digitsValue_cons, digitsValue_cons, hlength'] at h
      rw [List.cons_append, List.cons_append, List.cons_lt_cons_iff]
      rcases lt_trichotomy c.toNat d.toNat with hlt | heq | hgt
      · left
        exact Char.lt_def.mpr hlt
      · right
        obtain rfl : c = d := Char.toNat_inj.mp heq
        exact ⟨rfl, ih hcs' hds' hlength' (by omega)⟩
      · -- A greater first digit outweighs all that follow.
        exfalso
        have hbound := digitsValue_lt hds'
        have hstep : d.toNat - '0'.toNat + 1 ≤ c.toNat - '0'.toNat := by omega
        have hscaled := Nat.mul_le_mul_left (10 ^ ds.length) hstep
        rw [Nat.mul_add, Nat.mul_one] at hscaled
        omega

theorem allDigits_roomNumber (number : Nat) :
    AllDigits ((Nat.toDigits 10 number).leftpad roomDigits '0') :=
  (allDigits_zeros _).append (allDigits_printNat number)

/-- The names of rooms are in the order of their numbers. -/
theorem roomFileName_lt {i j : Nat} (h : i < j) (hj : j < 10 ^ roomDigits) :
    roomFileName i < roomFileName j := by
  have hlength : ∀ k < 10 ^ roomDigits,
      ((Nat.toDigits 10 k).leftpad roomDigits '0').length = roomDigits := by
    intro k hk
    rw [List.length_leftpad]
    exact max_eq_left ((Nat.length_toDigits_le_iff (by decide) (by decide)).mpr hk)
  have hvalue : ∀ k, digitsValue ((Nat.toDigits 10 k).leftpad roomDigits '0') = k :=
    fun k => (digitsValue_zeros_append _ _).trans (digitsValue_printNat k)
  rw [String.lt_iff_toList_lt, toList_roomFileName, toList_roomFileName]
  refine List.append_left_lt (append_lt_of_digitsValue_lt (allDigits_roomNumber i)
    (allDigits_roomNumber j) ?_ ?_ _)
  · rw [hlength i (h.trans hj), hlength j hj]
  · rwa [hvalue, hvalue]

/-! ### The order in a directory -/

theorem pairwise_roomFileName_zipIdx {α : Type} {rooms : List α}
    (h : rooms.length ≤ 10 ^ roomDigits) :
    rooms.zipIdx.Pairwise fun a b => roomFileName a.2 < roomFileName b.2 := by
  have hnumbers : rooms.zipIdx.Pairwise fun a b => a.2 < b.2 := by
    rw [← List.pairwise_map, List.zipIdx_map_snd]
    exact List.pairwise_lt_range'
  refine hnumbers.imp_of_mem ?_
  rintro ⟨v, i⟩ ⟨w, j⟩ - hmem hlt
  have hj := List.snd_lt_of_mem_zipIdx hmem
  exact roomFileName_lt hlt (by omega)

/-- The files of a dataset are written in the order of their names. -/
theorem pairwise_recordFilesOf (hlength : records.length ≤ 10 ^ roomDigits) :
    (recordFilesOf kind records).Pairwise fun f g => f.1 < g.1 := by
  cases kind with
  | courses => exact List.pairwise_singleton _ _
  | rooms => exact List.pairwise_map.mpr (pairwise_roomFileName_zipIdx hlength)

/-- Files at different paths are read in one order, however they are listed. -/
theorem sortedRecordFiles_congr {entries entries' : List (String × Tree)}
    (hperm : (Tree.recordFilesAmong entries).Perm (Tree.recordFilesAmong entries'))
    (hdistinct : ((Tree.recordFilesAmong entries).map Prod.fst).Nodup) :
    sortedRecordFiles entries = sortedRecordFiles entries' :=
  Sorting.mergeSort_congr Prod.fst hperm hdistinct

/-- Files of a directory lie in it under their names. -/
theorem recordFilesAmong_ofFiles {files : List (String × Json)}
    (h : ∀ f ∈ files, isRecordName f.1 = true) :
    Tree.recordFilesAmong (Tree.ofFiles files) =
      files.map fun f => ([f.1], f.2.toText.toUTF8) := by
  induction files with
  | nil => rfl
  | cons f files ih =>
      obtain ⟨hf, hfiles⟩ := List.forall_mem_cons.mp h
      have hcons : Tree.ofFiles (f :: files) =
          (f.1, .file f.2.toText.toUTF8) :: Tree.ofFiles files := rfl
      rw [hcons, Tree.recordFilesAmong, ih hfiles, Tree.recordFiles, if_pos hf, List.map_cons,
        List.singleton_append]

/-- The files of a dataset are read in the order in which they are written. -/
theorem sortedRecordFiles_ofFiles (hlength : records.length ≤ 10 ^ roomDigits) :
    sortedRecordFiles (Tree.ofFiles (recordFilesOf kind records)) =
      (recordFilesOf kind records).map fun f => ([f.1], f.2.toText.toUTF8) := by
  rw [sortedRecordFiles, recordFilesAmong_ofFiles isRecordName_of_mem_recordFilesOf]
  refine List.mergeSort_of_pairwise (List.pairwise_map.mpr ?_)
  refine (pairwise_recordFilesOf hlength).imp fun {f g} hlt => ?_
  have hcompare : compare f.1 g.1 = .lt := compare_lt_iff_lt.mpr hlt
  rw [List.compare_cons_cons, hcompare]
  rfl

/-! ### The records in the files -/

/-- The record that comes back from the file of one object. -/
theorem fileRecords_object {v : Json} (hobject : v.shape = .object) (hnames : v.DistinctNames)
    (hfit : v.NumbersFit) :
    fileRecords kind v.toText.toUTF8 =
      if v.depth ≤ Json.nestingLimit then (Record.ofStored? kind v).toList else [] := by
  have helements : v.elements = [v] := by
    cases v with
    | object members => rfl
    | null | bool b | number n | string s | array items => cases hobject
  rw [fileRecords_toText hnames hfit, helements]
  cases hrecord : Record.ofStored? kind v <;> simp [hrecord]

/-- The numbers of the rooms do not matter for what is in their files. -/
theorem flatMap_recordFilesOf_rooms {β : Type} (f : Json → List β) (records : List Json) :
    (recordFilesOf .rooms records).flatMap (fun file => f file.2) = records.flatMap f := by
  rw [recordFilesOf, List.flatMap_map]
  calc records.zipIdx.flatMap (fun record => f record.1)
      = (records.zipIdx.map Prod.fst).flatMap f := by rw [List.flatMap_map]
    _ = records.flatMap f := by rw [List.zipIdx_map_fst]

/-- The files of a dataset hold the records that were given, in the order in which they were
given. -/
theorem flatMap_fileRecords (h : Storable records) :
    (recordFilesOf kind records).flatMap (fun f => fileRecords kind f.2.toText.toUTF8) =
      records.filterMap (Record.ofStored? kind) := by
  obtain ⟨-, hobjects, hdepth, hnames, hfit⟩ := h
  cases kind with
  | courses =>
      have hread : (Json.array records).depth ≤ Json.nestingLimit := by
        rw [Json.depth]
        have hitems := Json.depthOfItems_le_iff.mpr fun v hv => Nat.le_sub_one_of_lt (hdepth v hv)
        have hpos : 0 < Json.nestingLimit := by decide
        omega
      have hnames' : (Json.array records).DistinctNames := Json.distinctNamesItems_iff.mpr hnames
      have hfit' : (Json.array records).NumbersFit := Json.numbersFitItems_iff.mpr hfit
      rw [recordFilesOf, List.flatMap_singleton, fileRecords_toText hnames' hfit', if_pos hread]
      rfl
  | rooms =>
      have hfile : ∀ v ∈ records, fileRecords .rooms v.toText.toUTF8 =
          (Record.ofStored? .rooms v).toList := by
        intro v hv
        rw [fileRecords_object (hobjects v hv) (hnames v hv) (hfit v hv), if_pos (hdepth v hv).le]
      rw [flatMap_recordFilesOf_rooms fun v => fileRecords .rooms v.toText.toUTF8,
        List.flatMap_congr hfile, List.filterMap_eq_flatMap_toList]

/-- A scan of the directory with the files of a dataset visits the records that were given. -/
theorem flatMap_sortedRecordFiles (h : Storable records) :
    (sortedRecordFiles (Tree.ofFiles (recordFilesOf kind records))).flatMap
        (fun f => fileRecords kind f.2) =
      records.filterMap (Record.ofStored? kind) := by
  rw [sortedRecordFiles_ofFiles h.length, List.flatMap_map]
  exact flatMap_fileRecords h

end Campus
