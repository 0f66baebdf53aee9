import Campus.Proofs.Json.Rereading
import Campus.Proofs.Record
import Campus.Proofs.Scan
import Campus.Registry.Change

/-!
# How many records lie in files

The number of records that a scan visits is a sum over the files of a directory
(`scanned_ofEntries`), whatever their order. A file that holds a value has the records among the
elements of the value, unless the value nests too deeply to be read again
(`fileRecords_toText`).
-/

namespace Campus

variable {kind : Kind} {stored : Json}

/-! ### Files -/

/-- How many records a file holds. -/
def recordsInFile (kind : Kind) (content : ByteArray) : Nat :=
  (Batch.ofFile kind "" content).records.length

/-- The values that a file has entries for, if it holds the value. -/
def Json.elements : Json → List Json
  | .array items => items
  | value => [value]

/-- The records that a file holds: those among the elements of its value, if it has one. -/
def fileRecords (kind : Kind) (content : ByteArray) : List Record :=
  match (String.fromUTF8? content).bind Json.read? with
  | some value => value.elements.filterMap (Record.ofStored? kind)
  | none => []

/-- How many records a file has from a value that it was written for. -/
def recordsFiled (kind : Kind) (stored : Json) : Nat :=
  if stored.depth ≤ Json.nestingLimit then stored.elements.countP (isRecord kind) else 0

theorem Entry.ofText?_eq (kind : Kind) (text : String) :
    Entry.ofText? kind text =
      (Json.read? text).map fun value => value.elements.map (Record.ofStored kind) := by
  unfold Entry.ofText?
  congr 1
  funext value
  cases value <;> rfl

/-- The records of a file are the same at any path. -/
theorem records_ofFile (kind : Kind) (path : String) (content : ByteArray) :
    (Batch.ofFile kind path content).records = fileRecords kind content := by
  unfold Batch.ofFile fileRecords
  cases String.fromUTF8? content with
  | none => rfl
  | some text =>
      rw [Option.bind_some]
      dsimp only
      rw [Entry.ofText?_eq]
      cases Json.read? text with
      | none => rfl
      | some value => exact List.filterMap_map

/-- The records of a file are held by values that a text can denote. -/
theorem exists_stored_of_mem_fileRecords {content : ByteArray} {r : Record}
    (h : r ∈ fileRecords kind content) :
    ∃ stored : Json, stored.NumbersFit ∧ Record.ofStored kind stored = .ok r := by
  unfold fileRecords at h
  split at h
  · next value hvalue =>
    obtain ⟨text, -, hread⟩ := Option.bind_eq_some_iff.mp hvalue
    have hfit : value.NumbersFit := Json.numbersFit_of_read? hread
    obtain ⟨stored, hmem, hstored⟩ := List.mem_filterMap.mp h
    refine ⟨stored, ?_, Record.ofStored?_eq_some_iff.mp hstored⟩
    cases value with
    | array items => exact Json.numbersFitItems_iff.mp hfit stored hmem
    | null | bool b | number n | string s | object members =>
        obtain rfl := List.mem_singleton.mp hmem
        exact hfit
  · cases h

theorem length_fileRecords (kind : Kind) (content : ByteArray) :
    (fileRecords kind content).length = recordsInFile kind content := by
  rw [← records_ofFile kind ""]
  rfl

/-- What a scan of some entries visits, file by file. -/
theorem flatMap_records_ofEntries (kind : Kind) (place : Place) (entries : List (String × Tree)) :
    (Batch.ofEntries kind place entries).flatMap Batch.records =
      (sortedRecordFiles entries).flatMap fun f => fileRecords kind f.2 := by
  rw [Batch.ofEntries, List.flatMap_map]
  simp only [records_ofFile]

theorem Registry.countRecords_eq (kind : Kind) (records : List Json) :
    Registry.countRecords kind records = records.countP (isRecord kind) :=
  List.length_filterMap_eq_countP

/-- The records in the file that was written for a value. -/
theorem fileRecords_toText (hnames : stored.DistinctNames) (hfit : stored.NumbersFit) :
    fileRecords kind stored.toText.toUTF8 =
      if stored.depth ≤ Json.nestingLimit then
        stored.elements.filterMap (Record.ofStored? kind)
      else [] := by
  have htext : String.fromUTF8? stored.toText.toUTF8 = some stored.toText :=
    dif_pos stored.toText.isValidUTF8
  have hread : Json.read? stored.toText =
      if stored.depth ≤ Json.nestingLimit then some stored else none :=
    Json.readWithin?_toText hnames hfit _
  rw [fileRecords, htext, Option.bind_some, hread]
  by_cases hdepth : stored.depth ≤ Json.nestingLimit
  · rw [if_pos hdepth, if_pos hdepth]
  · rw [if_neg hdepth, if_neg hdepth]

theorem recordsInFile_toText (hnames : stored.DistinctNames) (hfit : stored.NumbersFit) :
    recordsInFile kind stored.toText.toUTF8 = recordsFiled kind stored := by
  rw [← length_fileRecords, fileRecords_toText hnames hfit, recordsFiled]
  split
  · exact List.length_filterMap_eq_countP
  · rfl

/-! ### Directories -/

/-- How many records lie at and below a named node. -/
def recordsAt (kind : Kind) (entry : String × Tree) : Nat :=
  ((entry.2.recordFiles entry.1).map fun f => recordsInFile kind f.2).sum

/-- How many records lie at and below some entries. -/
def recordsAmong (kind : Kind) (entries : List (String × Tree)) : Nat :=
  (entries.map (recordsAt kind)).sum

theorem recordsAmong_append (kind : Kind) (entries entries' : List (String × Tree)) :
    recordsAmong kind (entries ++ entries') =
      recordsAmong kind entries + recordsAmong kind entries' := by
  simp [recordsAmong]

theorem recordsAmong_perm {entries entries' : List (String × Tree)} (h : entries.Perm entries') :
    recordsAmong kind entries = recordsAmong kind entries' :=
  (h.map _).sum_eq

theorem sum_recordFilesAmong (kind : Kind) (entries : List (String × Tree)) :
    ((Tree.recordFilesAmong entries).map fun f => recordsInFile kind f.2).sum =
      recordsAmong kind entries := by
  induction entries with
  | nil => rfl
  | cons entry entries ih =>
      obtain ⟨name, t⟩ := entry
      simp [Tree.recordFilesAmong, ih, recordsAmong, recordsAt]

/-- A complete scan of a directory visits the records among its entries. -/
theorem scanned_ofEntries (kind : Kind) (place : Place) (entries : List (String × Tree)) :
    (scanAll (Batch.ofEntries kind place entries)).scanned = recordsAmong kind entries := by
  rw [scanned_scanAll, flatMap_records_ofEntries, List.length_flatMap, ← sum_recordFilesAmong]
  simp only [length_fileRecords]
  exact ((List.mergeSort_perm _ _).map _).sum_eq

theorem recordsAt_file {name : String} (h : isRecordName name = true) (content : ByteArray) :
    recordsAt kind (name, .file content) = recordsInFile kind content := by
  simp [recordsAt, Tree.recordFiles, h]

/-! ### The files of a dataset -/

theorem toList_roomFileName (number : Nat) :
    (roomFileName number).toList =
      "room_".toList ++ ((Nat.toDigits 10 number).leftpad roomDigits '0' ++ recordSuffix) := by
  simp [roomFileName, recordSuffix]

/-- The zeros in front of the number of a room do not hide it. -/
theorem roomFileName_injective : Function.Injective roomFileName := by
  intro m n h
  have hlist := congrArg String.toList h
  rw [toList_roomFileName, toList_roomFileName] at hlist
  -- Both names begin and end alike, so their digits, with zeros in front, are the same.
  have hdigits := List.append_cancel_right (List.append_cancel_left hlist)
  have hvalue := congrArg Number.Numeral.digitsValue hdigits
  simp only [List.leftpad, Number.Numeral.digitsValue_zeros_append] at hvalue
  exact (Number.Numeral.digitsValue_printNat m).symm.trans
    (hvalue.trans (Number.Numeral.digitsValue_printNat n))

theorem isRecordName_roomFileName (number : Nat) : isRecordName (roomFileName number) = true := by
  simp only [isRecordName, toList_roomFileName, Bool.and_eq_true, decide_eq_true_eq,
    List.isSuffixOf_iff_suffix]
  refine ⟨?_, ?_⟩
  · simp
    omega
  · exact (List.suffix_append _ _).trans (List.suffix_append _ _)

/-- All files of a dataset are record files. -/
theorem isRecordName_of_mem_recordFilesOf {records : List Json} :
    ∀ f ∈ recordFilesOf kind records, isRecordName f.1 = true := by
  cases kind with
  | courses =>
      intro f hf
      obtain rfl := List.mem_singleton.mp hf
      exact (by decide : isRecordName sectionsFileName = true)
  | rooms =>
      intro f hf
      obtain ⟨record, -, rfl⟩ := List.mem_map.mp hf
      exact isRecordName_roomFileName _

/-- No two files of a dataset have the same name. -/
theorem names_recordFilesOf_nodup (kind : Kind) (records : List Json) :
    (Assoc.names (recordFilesOf kind records)).Nodup := by
  cases kind with
  | courses => simp [recordFilesOf]
  | rooms =>
      have hnames : Assoc.names (recordFilesOf .rooms records) =
          (records.zipIdx.map Prod.snd).map roomFileName := by
        simp only [recordFilesOf, Assoc.names, List.map_map, Function.comp_def]
      rw [hnames, List.zipIdx_map_snd]
      exact (List.nodup_range' 1).map roomFileName_injective

end Campus
