import Campus.Proofs.RecordOrder

/-!
# The order of rooms

Every room has a file of its own, and its place in a scan is that of the file's name
(`byFileName`, `flatMap_sortedRecordFiles_rooms`). The number in the name is written with at least
`roomDigits` digits, so the names are in the order of the numbers as long as no number needs more of
them. The first that does comes too early, and so rooms that differ are read in the order in which
they were given exactly up to `10 ^ roomDigits` of them (`byFileName_eq_self_iff`).
-/

namespace Campus

open Number.Numeral (AllDigits)

variable {α β : Type} {rooms : List α}

/-- Rooms in the order of the names of their files. -/
def byFileName (rooms : List α) : List α :=
  (rooms.zipIdx.mergeSort fun a b => (compare (roomFileName a.2) (roomFileName b.2)).isLE).map (·.1)

theorem byFileName_perm (rooms : List α) : (byFileName rooms).Perm rooms := by
  have hperm := (List.mergeSort_perm rooms.zipIdx fun a b =>
    (compare (roomFileName a.2) (roomFileName b.2)).isLE).map Prod.fst
  rwa [List.zipIdx_map_fst] at hperm

/-- The order depends on the numbers of the rooms only. -/
theorem map_byFileName (f : α → β) (rooms : List α) :
    (byFileName rooms).map f = byFileName (rooms.map f) := by
  have hsort : (rooms.zipIdx.mergeSort fun a b =>
        (compare (roomFileName a.2) (roomFileName b.2)).isLE).map (Prod.map f id) =
      (rooms.zipIdx.map (Prod.map f id)).mergeSort fun a b =>
        (compare (roomFileName a.2) (roomFileName b.2)).isLE :=
    List.map_mergeSort fun a _ b _ => rfl
  rw [byFileName, byFileName, List.zipIdx_map, ← hsort, List.map_map, List.map_map]
  rfl

/-- Where all of some values are found, it is the order of what is found. -/
theorem filterMap_byFileName {f : α → Option β} {found : List β}
    (h : rooms.map f = found.map some) : (byFileName rooms).filterMap f = byFileName found := by
  calc (byFileName rooms).filterMap f
      = ((byFileName rooms).map f).filterMap id := by rw [List.filterMap_map, Function.id_comp]
    _ = ((byFileName found).map some).filterMap id := by rw [map_byFileName, h, ← map_byFileName]
    _ = byFileName found := by rw [List.filterMap_map, Function.id_comp, List.filterMap_some]

/-! ### Up to the last number of `roomDigits` digits -/

theorem byFileName_eq_self (h : rooms.length ≤ 10 ^ roomDigits) : byFileName rooms = rooms := by
  rw [byFileName, List.mergeSort_of_pairwise, List.zipIdx_map_fst]
  refine (pairwise_roomFileName_zipIdx h).imp fun {a b} hlt => ?_
  rw [compare_lt_iff_lt.mpr hlt]
  rfl

/-! ### Beyond it -/

/-- The first number that has more digits comes before others that have fewer. -/
theorem roomFileName_first_long :
    roomFileName (10 ^ roomDigits) < roomFileName (10 ^ (roomDigits - 1) + 1) := by
  decide +kernel

theorem pairwise_byFileName (rooms : List α) :
    (rooms.zipIdx.mergeSort fun a b =>
      (compare (roomFileName a.2) (roomFileName b.2)).isLE).Pairwise fun a b =>
        roomFileName a.2 ≤ roomFileName b.2 := by
  have hle : ∀ {a b : α × Nat}, (compare (roomFileName a.2) (roomFileName b.2)).isLE = true ↔
      roomFileName a.2 ≤ roomFileName b.2 := Std.LawfulBCmp.isLE_iff_le
  have hsorted := Sorting.pairwise_mergeSort (fun a : α × Nat => roomFileName a.2) rooms.zipIdx
  exact hsorted.imp hle.mp

/-- Rooms that differ and stand in their places have their numbers. -/
theorem eq_zipIdx_of_perm {numbered : List (α × Nat)} (hperm : numbered.Perm rooms.zipIdx)
    (hrooms : numbered.map Prod.fst = rooms) (hnodup : rooms.Nodup) : numbered = rooms.zipIdx := by
  have hinj := List.inj_on_of_nodup_map (f := Prod.fst) (l := rooms.zipIdx)
    (by rwa [List.zipIdx_map_fst])
  refine List.ext_getElem hperm.length_eq fun i hi hi' => ?_
  refine hinj (hperm.mem_iff.mp (List.getElem_mem hi)) (List.getElem_mem hi') ?_
  have hplace : (numbered.map Prod.fst)[i]? = rooms[i]? := congrArg (·[i]?) hrooms
  rw [List.getElem?_map, List.getElem?_eq_getElem hi, Option.map_some] at hplace
  rw [List.getElem_zipIdx]
  exact (List.getElem?_eq_some_iff.mp hplace.symm).2.symm

theorem length_le_of_byFileName_eq (hnodup : rooms.Nodup) (h : byFileName rooms = rooms) :
    rooms.length ≤ 10 ^ roomDigits := by
  by_contra hlong
  have hnames : ∀ i j, i < j → j < rooms.length → roomFileName i ≤ roomFileName j := by
    intro i j hij hj
    have hsorted := pairwise_byFileName rooms
    rw [eq_zipIdx_of_perm (List.mergeSort_perm _ _) h hnodup, List.pairwise_iff_getElem] at hsorted
    have hle := hsorted i j (by rw [List.length_zipIdx]; omega) (by rwa [List.length_zipIdx]) hij
    rwa [List.getElem_zipIdx, List.getElem_zipIdx, Nat.zero_add, Nat.zero_add] at hle
  have hless : 10 ^ (roomDigits - 1) + 1 < 10 ^ roomDigits := by decide
  exact absurd roomFileName_first_long (not_lt.mpr (hnames _ _ hless (not_le.mp hlong)))

/-- Rooms that differ are read in the order in which they were given exactly if there are numbers
of `roomDigits` digits for all of them. -/
theorem byFileName_eq_self_iff (hnodup : rooms.Nodup) :
    byFileName rooms = rooms ↔ rooms.length ≤ 10 ^ roomDigits :=
  ⟨length_le_of_byFileName_eq hnodup, byFileName_eq_self⟩

/-! ### The files of rooms -/

/-- The record that comes back from the file of a room, if it can be read again. -/
def Record.reread? (room : Json) : Option Record :=
  if room.depth ≤ Json.nestingLimit then Record.ofStored? .rooms room else none

/-- The files of rooms are read in the order of their names. -/
theorem sortedRecordFiles_rooms (records : List Json) :
    sortedRecordFiles (Tree.ofFiles (recordFilesOf .rooms records)) =
      (records.zipIdx.mergeSort fun a b =>
        (compare (roomFileName a.2) (roomFileName b.2)).isLE).map
          fun a => ([roomFileName a.2], a.1.toText.toUTF8) := by
  have hcompare : ∀ a b : String, compare [a] [b] = compare a b := by
    intro a b
    rw [List.compare_cons_cons, List.compare_nil_nil, Ordering.then_eq]
  rw [sortedRecordFiles, recordFilesAmong_ofFiles isRecordName_of_mem_recordFilesOf, recordFilesOf,
    List.map_map]
  refine (List.map_mergeSort fun a _ b _ => ?_).symm
  rw [Function.comp_apply, Function.comp_apply, hcompare]

/-- What a scan of the files of rooms visits. -/
theorem flatMap_sortedRecordFiles_rooms {records : List Json}
    (hobjects : ∀ v ∈ records, v.shape = .object) (hnames : ∀ v ∈ records, v.DistinctNames)
    (hfit : ∀ v ∈ records, v.NumbersFit) :
    (sortedRecordFiles (Tree.ofFiles (recordFilesOf .rooms records))).flatMap
        (fun f => fileRecords .rooms f.2) =
      (byFileName records).filterMap Record.reread? := by
  have hfile : ∀ v ∈ byFileName records,
      fileRecords .rooms v.toText.toUTF8 = (Record.reread? v).toList := by
    intro v hv
    have hmem := (byFileName_perm records).mem_iff.mp hv
    rw [fileRecords_object (hobjects v hmem) (hnames v hmem) (hfit v hmem), Record.reread?]
    split <;> rfl
  rw [sortedRecordFiles_rooms, List.flatMap_map, List.filterMap_eq_flatMap_toList,
    ← List.flatMap_congr hfile, byFileName, List.flatMap_map]

/-! ### Where rooms can be written -/

namespace Place

variable {place : Place} {name other : String}

theorem error?_eq_none_iff : place.error? = none ↔
    '\x00' ∉ place.text.toList ∧ place.text.utf8ByteSize ≤ textLimit ∧ place.text ≠ "" := by
  unfold error?
  split
  · next hnul => simp_all
  · next hnul =>
    split
    · next hlong => simp [Nat.not_le.mpr hlong]
    · next hlong =>
      split
      · next hempty => simp_all
      · next hempty => simp_all

theorem toList_text_child (place : Place) (name : String) :
    (place.child name).text.toList = place.text.toList ++
      ((if needsSeparator place.text.toList then [separator] else []) ++ name.toList) := by
  rw [child, String.toList_ofList, List.append_assoc]

/-- A name is admitted where one is that is no shorter. -/
theorem admits_of_le (hname : name ≠ "") (hnul : '\x00' ∉ name.toList)
    (hle : name.utf8ByteSize ≤ other.utf8ByteSize) (h : place.admits other = true) :
    place.admits name = true := by
  simp only [admits, Bool.and_eq_true, Option.isNone_iff_eq_none, decide_eq_true_eq,
    error?_eq_none_iff, toList_text_child, List.mem_append, not_or,
    ← String.utf8Len_toList (place.child _).text, String.utf8Len_append, String.utf8Len_toList]
    at h ⊢
  obtain ⟨⟨⟨htext, hgap, -⟩, hsize, -⟩, hshort⟩ := h
  refine ⟨⟨⟨htext, hgap, hnul⟩, by omega, fun hempty => ?_⟩, by omega⟩
  have hnil := congrArg String.toList hempty
  rw [toList_text_child] at hnil
  simp [hname] at hnil

end Place

theorem utf8Len_of_allDigits {cs : List Char} (h : AllDigits cs) :
    String.utf8Len cs = cs.length := by
  induction cs with
  | nil => rfl
  | cons c cs ih =>
      have hc := Char.isDigit_iff_toNat.mp (h c List.mem_cons_self)
      have hsize : c.utf8Size = 1 := by
        rw [Char.utf8Size_eq_one_iff, UInt32.le_iff_toNat_le]
        change _ ∧ c.toNat ≤ 57 at hc
        change c.toNat ≤ 127
        omega
      rw [String.utf8Len_cons, ih fun d hd => h d (List.mem_cons_of_mem _ hd), hsize,
        List.length_cons]

theorem utf8ByteSize_roomFileName (number : Nat) :
    (roomFileName number).utf8ByteSize = 10 + max roomDigits (Nat.toDigits 10 number).length := by
  have hbegin : String.utf8Len "room_".toList = 5 := by decide
  have hend : String.utf8Len recordSuffix = 5 := by decide
  rw [← String.utf8Len_toList, toList_roomFileName, String.utf8Len_append, String.utf8Len_append,
    utf8Len_of_allDigits (allDigits_roomNumber number), List.length_leftpad, hbegin, hend]
  omega

theorem nul_not_mem_roomFileName (number : Nat) : '\x00' ∉ (roomFileName number).toList := by
  rw [toList_roomFileName, List.mem_append, List.mem_append]
  rintro (hmem | hmem | hmem)
  · exact absurd hmem (by decide)
  · exact absurd (allDigits_roomNumber number _ hmem) (by decide)
  · exact absurd hmem (by decide)

/-- A directory that admits the file of a room admits those with smaller numbers. -/
theorem admits_roomFileName {place : Place} {number limit : Nat} (hle : number ≤ limit)
    (h : place.admits (roomFileName limit) = true) :
    place.admits (roomFileName number) = true := by
  have hdigits : (Nat.toDigits 10 number).length ≤ (Nat.toDigits 10 limit).length := by
    have hpos := Nat.length_toDigits_pos (b := 10) (n := limit)
    have hlimit := (Nat.length_toDigits_le_iff (n := limit) (by decide) hpos).mp le_rfl
    exact (Nat.length_toDigits_le_iff (by decide) hpos).mpr (hle.trans_lt hlimit)
  refine Place.admits_of_le (fun hempty => ?_) (nul_not_mem_roomFileName number) ?_ h
  · have hsize := utf8ByteSize_roomFileName number
    rw [hempty, String.utf8ByteSize_empty] at hsize
    omega
  · rw [utf8ByteSize_roomFileName, utf8ByteSize_roomFileName]
    omega

end Campus
