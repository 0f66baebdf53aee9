import Campus.Proofs.Disk.Access
import Campus.Proofs.Registry.Change

/-!
# What a change that fails leaves

A change that is refused leaves everything as it was. Where the disk fails, adding leaves the
registry but not always the disk, and removing leaves the disk but not the registry.

* `Registry.failed_change_iff` — when a change that fails leaves the registry and the disk.
-/

namespace Campus

variable {disk : Tree} {place : Place} {id : String}

/-- A dataset that cannot be put at a place leaves no trace. If its directory cannot be made,
nothing may be missing on the way. If a file cannot be written, its directory must have been
missing, and whatever else was made must lie in it. -/
def Tree.TracelessAt (disk : Tree) (place : Place) : Prop :=
  match disk.makeDirs place with
  | (.error _, _) => disk.locate place ≠ .error .notFound
  | (.ok (), made) =>
    ∃ s, made.locate place = .ok s ∧ disk.find? s.path = none ∧
      ∀ q, (made.find? q).isSome = true → (disk.find? q).isSome = true ∨ s.path <+: q

/-- The directory of an entry is made and erased without a trace if it was missing and all that is
made lies in it. -/
theorem Tree.erase_makeDirs_eq_iff {made : Tree} {s : Spot} {name : String}
    (hmade : disk.makeDirs (place.child name) = (.ok (), made))
    (hs : made.locate (place.child name) = .ok s) :
    made.erase s.path = disk ↔ disk.find? s.path = none ∧
      ∀ q, (made.find? q).isSome = true → (disk.find? q).isSome = true ∨ s.path <+: q := by
  obtain ⟨above, habove, haround⟩ := exists_around_of_locate_child hs
  have hmakes : disk.Makes made := by
    simpa [hmade] using disk.makeDirs_makes (place.child name)
  rw [habove]
  constructor
  · -- Whatever is not below the erased path is still there, so it was there before.
    intro heq
    refine ⟨heq ▸ find?_erase_self haround, fun q hq => ?_⟩
    by_cases hbelow : above ++ [name] <+: q
    · exact .inr hbelow
    · exact .inl (heq ▸ isSome_find?_erase hq hbelow)
  · intro h
    obtain ⟨hmissing, hbelow⟩ := h
    -- The directory around is not below itself, so it was not made.
    have hsome : (disk.find? above).isSome = true := by
      refine (hbelow above haround.isSome).resolve_right fun h => ?_
      have hlength := h.length_le
      simp only [List.length_append, List.length_singleton] at hlength
      omega
    have hdirectory := hmakes.hasDirectory_of_isSome haround hsome
    rw [hmakes.erase_eq hdirectory hbelow, erase_of_missing hdirectory hmissing]

namespace Registry

variable {r : Registry}

/-- How putting the files of a dataset into its directory fails. -/
theorem persist_error_cases {name : String} {files : List (String × Json)} {e : DatasetError}
    {left : Tree} (h : persist (place.child name) files disk = (.error e, left)) :
    (∃ cause, disk.makeDirs (place.child name) = (.error cause, left)) ∨
      ∃ made s, disk.makeDirs (place.child name) = (.ok (), made) ∧
        made.locate (place.child name) = .ok s ∧ left = made.erase s.path := by
  unfold persist at h
  split at h
  · next cause left hmade =>
    cases h
    exact .inl ⟨cause, hmade⟩
  · next made hmade =>
    split at h
    · cases h
      obtain ⟨path, entries, hlocate⟩ :=
        Tree.locate_of_makeDirs (p := place.child name) (by simp [Place.child]) hmade
      refine .inr ⟨made, _, hmade, hlocate, ?_⟩
      simp [Tree.removeTree, hlocate, Except.toOption]
    · cases h

theorem text_child_isEmpty {name : String} (h : name ≠ "") :
    (place.child name).text.isEmpty = false := by
  have htext : (place.child name).text ≠ "" := by
    intro heq
    have hlist := congrArg String.toList heq
    simp only [Place.child, String.toList_ofList, String.toList_empty,
      List.append_eq_nil_iff] at hlist
    exact h (String.toList_inj.mp hlist.2)
  simpa using htext

/-- A dataset that cannot be put on the disk leaves it as it was exactly if it is traceless. -/
theorem left_eq_iff {name : String} (hname : name ≠ "") {files : List (String × Json)}
    {e : DatasetError} {left : Tree}
    (h : persist (place.child name) files disk = (.error e, left)) :
    left = disk ↔ disk.TracelessAt (place.child name) := by
  unfold Tree.TracelessAt
  rcases persist_error_cases h with ⟨cause, hmade⟩ | ⟨made, s, hmade, hs, rfl⟩
  · have hiff := Tree.makeDirs_error_iff (text_child_isEmpty hname) (by rw [hmade])
    rw [hmade] at hiff ⊢
    exact hiff
  · simp only [hmade, hs, Except.ok.injEq, exists_eq_left']
    exact Tree.erase_makeDirs_eq_iff hmade hs

theorem without_ne (h : id ∈ r.ids) : r.without id ≠ r := by
  obtain ⟨l, hl, rfl⟩ := List.mem_map.mp h
  intro heq
  have herase : (r.listings.eraseP fun other => other.id = l.id) = r.listings :=
    congrArg Registry.listings heq
  simpa using List.eraseP_eq_self_iff.mp herase l hl

/-- Adding that fails leaves the registry, and leaves the disk unless the disk fails and there are
traces. -/
theorem add_error_leaves {kind : Kind} {records : List Json} {e : DatasetError}
    (h : (r.add disk id kind records).result = .error e) :
    (r.add disk id kind records).registry = r ∧
      ((r.add disk id kind records).disk = disk ↔
        (e.fromDisk = true → disk.TracelessAt (r.datasetPlace kind id))) := by
  have hadds := r.adds disk id kind records
  generalize r.add disk id kind records = change at hadds h ⊢
  cases hadds with
  | refused reason =>
      cases h
      simp [refuse, reason]
  | @failed e' left valid free nonempty failure =>
      cases h
      refine ⟨rfl, ?_⟩
      rw [persist_error_fromDisk failure]
      exact (left_eq_iff (ne_empty_of_isValidId valid) failure).trans (by simp [datasetPlace])
  | done valid free nonempty success => cases h

/-- Removing that fails leaves the disk, and leaves the registry unless the disk fails. -/
theorem remove_error_leaves {e : DatasetError} (h : (r.remove disk id).result = .error e) :
    (r.remove disk id).disk = disk ∧
      ((r.remove disk id).registry = r ↔ e.fromDisk = false) := by
  have hremoves := r.removes disk id
  generalize r.remove disk id = change at hremoves h ⊢
  cases hremoves with
  | refused reason =>
      cases h
      simp [refuse, reason]
  | failed found failure =>
      -- The dataset is off the list before its directory is touched.
      cases h
      have hid : id ∈ r.ids := find?_isSome_iff.mp (by simp [found])
      simp [refuse, without_ne hid, DatasetError.ofDisk, DatasetError.fromDisk]
  | done found success => cases h

/-- What a change that fails leaves: adding a dataset leaves the registry, and leaves the disk
unless the disk fails and there are traces; removing a dataset leaves the disk, and leaves the
registry unless the disk fails. -/
theorem failed_change_iff (r : Registry) (disk : Tree) (id : String) :
    (∀ kind records e, (r.add disk id kind records).result = .error e →
      (r.add disk id kind records).registry = r ∧
        ((r.add disk id kind records).disk = disk ↔
          (e.fromDisk = true → disk.TracelessAt (r.datasetPlace kind id)))) ∧
    ∀ e, (r.remove disk id).result = .error e →
      (r.remove disk id).disk = disk ∧ ((r.remove disk id).registry = r ↔ e.fromDisk = false) :=
  ⟨fun _ _ _ => add_error_leaves, fun _ => remove_error_leaves⟩

/-- A registry whose dataset lies nowhere on an empty disk. -/
def lostRegistry : Registry := ⟨sampleRegistry.place, [⟨"c", .courses, 1⟩]⟩

/-- A disk on which the records of a dataset cannot be written, since a directory has the name of
the file. -/
def blockedDisk : Tree :=
  Tree.empty.put ["data", "courses", "c", sectionsFileName] .empty

/-- Removing a dataset that is lost leaves the disk and not the registry; adding one where it is
blocked leaves the registry and not the disk. -/
theorem failed_change_samples :
    (lostRegistry.remove .empty "c").registry ≠ lostRegistry ∧
      (sampleRegistry.add blockedDisk "c" .courses [sampleSection]).registry = sampleRegistry := by
  constructor
  · have hresult : (lostRegistry.remove .empty "c").result =
        .error (.io "data/courses/c" DiskError.notFound.message) := by
      decide +kernel
    have hiff := ((failed_change_iff lostRegistry .empty "c").2 _ hresult).2
    rw [ne_eq, hiff]
    decide
  · have hresult : (sampleRegistry.add blockedDisk "c" .courses [sampleSection]).result =
        .error (.io "data/courses/c/sections.json" DiskError.isADirectory.message) := by
      decide +kernel
    exact ((failed_change_iff sampleRegistry blockedDisk "c").1 _ _ _ hresult).1

/-- Some change that fails leaves another registry, and some change that fails another disk. -/
theorem exists_failed_change_with_traces :
    (∃ r disk id e, (Registry.remove r disk id).result = .error e ∧
        (r.remove disk id).registry ≠ r) ∧
      ∃ r disk id kind records e, (Registry.add r disk id kind records).result = .error e ∧
        (r.add disk id kind records).disk ≠ disk := by
  constructor
  · refine ⟨lostRegistry, .empty, "c", .io "data/courses/c" DiskError.notFound.message, ?_, ?_⟩
    · decide +kernel
    · decide +kernel
  · refine ⟨sampleRegistry, blockedDisk, "c", .courses, [sampleSection],
      .io "data/courses/c/sections.json" DiskError.isADirectory.message, ?_, fun heq => ?_⟩
    · decide +kernel
    · have hthere : (blockedDisk.find? ["data", "courses", "c"]).isSome = true := by
        decide +kernel
      rw [← heq] at hthere
      revert hthere
      decide +kernel

end Registry

end Campus
