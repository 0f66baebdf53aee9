import Campus.Proofs.Assoc
import Campus.Proofs.Key
import Campus.Registry.Change

/-!
# What a change of the registry can do

`Registry.Adds` and `Registry.Removes` list everything that adding and removing a dataset can come
to, each with what is known in that case. Facts about changes are case analyses of the two.

A registry is well-formed if no id repeats and all ids are valid (`Registry.WellFormed`). Changes
keep it so, whether they succeed or not.
-/

namespace Campus

/-- Whether it was the disk that failed. -/
def DatasetError.fromDisk : DatasetError → Bool
  | .io _ _ => true
  | _ => false

theorem ne_empty_of_isValidId {id : String} (h : isValidId id = true) : id ≠ "" := by
  rintro rfl
  simp [isValidId, Text.allBlank] at h

/-- An id can be the first part of a key. -/
theorem isKeyPart_of_isValidId {id : String} (h : isValidId id = true) : IsKeyPart id := by
  refine ⟨ne_empty_of_isValidId h, fun hmem => ?_⟩
  simp only [isValidId, Bool.and_eq_true, Bool.not_eq_true', List.any_eq_false] at h
  simpa [isReserved] using h.1.1.2 _ hmem

namespace Registry

variable {r : Registry} {disk : Tree} {id : String}

/-! ### The registered datasets -/

theorem names_datasets (r : Registry) : Assoc.names r.datasets = r.ids := by
  simp [Assoc.names, datasets, ids, Function.comp_def]

theorem lookup_datasets_eq_none_iff : r.datasets.lookup id = none ↔ id ∉ r.ids := by
  rw [Assoc.lookup_eq_none, names_datasets]

/-! ### Adding -/

/-- What adding a dataset can come to. -/
inductive Adds (r : Registry) (disk : Tree) (id : String) (kind : Kind) (records : List Json) :
    Change → Prop
  /-- It is refused before the disk is touched. -/
  | refused {e : DatasetError} (reason : e.fromDisk = false) :
      Adds r disk id kind records (r.refuse disk e)
  /-- The disk fails. -/
  | failed {e : DatasetError} {left : Tree} (valid : isValidId id = true) (free : id ∉ r.ids)
      (nonempty : countRecords kind records ≠ 0)
      (failure : persist (r.datasetPlace kind id) (recordFilesOf kind records) disk =
        (.error e, left)) :
      Adds r disk id kind records (r.refuse left e)
  /-- The dataset is added. -/
  | done {written : Tree} {log : List LogLine} (valid : isValidId id = true) (free : id ∉ r.ids)
      (nonempty : countRecords kind records ≠ 0)
      (success : persist (r.datasetPlace kind id) (recordFilesOf kind records) disk =
        (.ok (), written)) :
      Adds r disk id kind records
        { result := .ok ⟨id, kind, countRecords kind records⟩
          registry := ⟨r.place, r.listings ++ [⟨id, kind, countRecords kind records⟩]⟩
          disk := written
          log }

theorem find?_isSome_iff : (r.find? id).isSome = true ↔ id ∈ r.ids := by
  simp [find?, ids]

theorem find?_eq_none_iff : r.find? id = none ↔ id ∉ r.ids := by
  rw [← find?_isSome_iff, Option.not_isSome_iff_eq_none]

theorem adds (r : Registry) (disk : Tree) (id : String) (kind : Kind) (records : List Json) :
    Adds r disk id kind records (r.add disk id kind records) := by
  unfold add
  split
  · exact .refused (e := .invalidId id) rfl
  · next hvalid =>
    split
    · exact .refused (e := .duplicateId id) rfl
    · next hfree =>
      have valid : isValidId id = true := by simpa using hvalid
      have free : id ∉ r.ids := fun h => hfree (find?_isSome_iff.mpr h)
      dsimp only
      split
      · exact .refused (e := .noValidRecords id) rfl
      · next hrows =>
        split
        · next hpersist => exact .failed valid free hrows hpersist
        · next hpersist => exact .done valid free hrows hpersist

theorem persist_error_fromDisk {place : Place} {files : List (String × Json)} {e : DatasetError}
    {left : Tree} (h : persist place files disk = (.error e, left)) : e.fromDisk = true := by
  unfold persist at h
  split at h
  · cases h
    rfl
  · split at h
    · cases h
      rfl
    · cases h

/-- The directory is made before the files are written into it. -/
theorem exists_made_of_persist {place : Place} {files : List (String × Json)} {written : Tree}
    (h : persist place files disk = (.ok (), written)) :
    ∃ made, disk.makeDirs place = (.ok (), made) ∧ writeFiles place files made = .ok written := by
  unfold persist at h
  split at h
  · cases h
  · next made hmade =>
    split at h
    · cases h
    · next hwritten =>
      cases h
      exact ⟨made, hmade, hwritten⟩

/-! ### Removing -/

/-- The registry without a dataset. -/
def without (r : Registry) (id : String) : Registry :=
  { r with listings := r.listings.eraseP fun l => l.id = id }

/-- What removing a dataset can come to. -/
inductive Removes (r : Registry) (disk : Tree) (id : String) : Change → Prop
  /-- It is refused before the disk is touched. -/
  | refused {e : DatasetError} (reason : e.fromDisk = false) : Removes r disk id (r.refuse disk e)
  /-- The disk fails, and the dataset is gone from the registry. -/
  | failed {l : Listing} {e : DiskError} (found : r.find? id = some l)
      (failure : disk.removeTree (r.datasetPlace l.kind id) = .error e) :
      Removes r disk id
        ((r.without id).refuse disk (.ofDisk (r.datasetPlace l.kind id) e))
  /-- The dataset is removed. -/
  | done {l : Listing} {left : Tree} {log : List LogLine} (found : r.find? id = some l)
      (success : disk.removeTree (r.datasetPlace l.kind id) = .ok left) :
      Removes r disk id { result := .ok l, registry := r.without id, disk := left, log }

theorem removes (r : Registry) (disk : Tree) (id : String) :
    Removes r disk id (r.remove disk id) := by
  unfold remove
  split
  · exact .refused (e := .invalidId id) rfl
  · split
    · exact .refused (e := .notFound id) rfl
    · next hfound =>
      dsimp only
      split
      · next hfailure => exact .failed hfound hfailure
      · next hsuccess => exact .done hfound hsuccess

/-! ### Well-formed registries -/

/-- No id repeats, and all are valid. -/
structure WellFormed (r : Registry) : Prop where
  distinct : r.ids.Nodup
  valid : ∀ id ∈ r.ids, isValidId id = true

theorem WellFormed.append {l : Listing} (h : r.WellFormed) (valid : isValidId l.id = true)
    (free : l.id ∉ r.ids) : (Registry.mk r.place (r.listings ++ [l])).WellFormed := by
  have hids : (Registry.mk r.place (r.listings ++ [l])).ids = r.ids ++ [l.id] := by simp [ids]
  constructor
  · rw [hids, List.nodup_append]
    refine ⟨h.distinct, by simp, ?_⟩
    rintro other hother _ hmem rfl
    exact free (by simpa [List.mem_singleton.mp hmem] using hother)
  · rw [hids]
    simpa [or_imp, forall_and, valid] using h.valid

theorem ids_without_sublist : (r.without id).ids.Sublist r.ids :=
  List.eraseP_sublist.map _

theorem WellFormed.without (h : r.WellFormed) : (r.without id).WellFormed :=
  ⟨h.distinct.sublist ids_without_sublist,
    fun other hother => h.valid other (ids_without_sublist.subset hother)⟩

/-- A dataset has one kind. -/
theorem WellFormed.kind_eq (h : r.WellFormed) {kind kind' : Kind} (hmem : (id, kind) ∈ r.datasets)
    (hmem' : (id, kind') ∈ r.datasets) : kind = kind' := by
  have hnames : (Assoc.names r.datasets).Nodup := by
    rw [names_datasets]
    exact h.distinct
  rw [← Assoc.lookup_eq_some hnames] at hmem hmem'
  exact Option.some.inj (hmem.symm.trans hmem')

/-- If no id repeats, the one dataset of the id is gone. -/
theorem WellFormed.listings_without (h : r.WellFormed) :
    (r.without id).listings = r.listings.filter fun l => l.id ≠ id := by
  obtain ⟨place, listings⟩ := r
  have hdistinct : (listings.map (·.id)).Nodup := h.distinct
  clear h
  change (listings.eraseP fun l => l.id = id) = listings.filter fun l => l.id ≠ id
  induction listings with
  | nil => rfl
  | cons l listings ih =>
      rw [List.map_cons, List.nodup_cons] at hdistinct
      by_cases heq : l.id = id
      · have hrest : ∀ other ∈ listings, other.id ≠ id := by
          intro other hother hid
          exact hdistinct.1 (heq ▸ hid ▸ List.mem_map_of_mem hother)
        rw [List.eraseP_cons_of_pos (by simpa using heq),
          List.filter_cons_of_neg (by simpa using heq)]
        exact (List.filter_eq_self.mpr (by simpa using hrest)).symm
      · rw [List.eraseP_cons_of_neg (by simpa using heq),
          List.filter_cons_of_pos (by simpa using heq), ih hdistinct.2]

theorem WellFormed.mem_datasets_without (h : r.WellFormed) {entry : String × Kind} :
    entry ∈ (r.without id).datasets ↔ entry ∈ r.datasets ∧ entry.1 ≠ id := by
  rw [datasets, h.listings_without]
  simp only [datasets, List.mem_map, List.mem_filter, decide_eq_true_eq]
  constructor
  · intro hentry
    obtain ⟨l, ⟨hl, hid⟩, rfl⟩ := hentry
    exact ⟨⟨l, hl, rfl⟩, hid⟩
  · intro hentry
    obtain ⟨⟨l, hl, rfl⟩, hid⟩ := hentry
    exact ⟨l, ⟨hl, hid⟩, rfl⟩

theorem WellFormed.not_mem_ids_without (h : r.WellFormed) : id ∉ (r.without id).ids := by
  rw [ids, h.listings_without]
  simp

theorem WellFormed.add (h : r.WellFormed) (disk : Tree) (id : String) (kind : Kind)
    (records : List Json) : (r.add disk id kind records).registry.WellFormed := by
  have hadds := r.adds disk id kind records
  generalize r.add disk id kind records = change at hadds ⊢
  cases hadds with
  | refused reason => exact h
  | failed valid free nonempty failure => exact h
  | done valid free nonempty success => exact h.append valid free

theorem WellFormed.remove (h : r.WellFormed) (disk : Tree) (id : String) :
    (r.remove disk id).registry.WellFormed := by
  have hremoves := r.removes disk id
  generalize r.remove disk id = change at hremoves ⊢
  cases hremoves with
  | refused reason => exact h
  | failed found failure => exact h.without
  | done found success => exact h.without

/-! ### A dataset to try changes on -/

/-- A section as it is stored. -/
def sampleSection : Json :=
  .object [("Subject", .string "math"), ("Course", .string "221"), ("Professor", .string ""),
    ("Title", .string "algebra"), ("id", .string "7"), ("Avg", .number (.integer 81)),
    ("Pass", .number (.integer 40)), ("Fail", .number (.integer 2)),
    ("Audit", .number (.integer 0)), ("Year", .string "2015")]

/-- A data directory. -/
def sampleRegistry : Registry := ⟨.ofText "data", []⟩

end Registry

end Campus
