import Campus.Proofs.Disk.Frame
import Campus.Proofs.Reading
import Campus.Proofs.Registry.Failure

/-!
# What a change leaves alone

Adding a dataset puts its directory into that of its kind, and removing one takes it away. Whatever
becomes of the change, all else on the disk stays as it is (`Registry.changesOnly_add`,
`Registry.changesOnly_remove`): a valid id is one name, so it leads to one entry. The other datasets
stay registered, and are scanned as before if the directories of the kinds are still found
(`Registry.batches_of_changesOnly`), which they are unless the data directory is reached through
the directory that changes (`Registry.HasKinds.of_changesOnly`).
-/

namespace Campus

variable {t t' : Tree} {place : Place} {path : Path} {id other : String} {kind : Kind}
  {entries : List (String × Tree)}

/-! ### The disk -/

namespace Registry

variable {files : List (String × Json)}

/-- A dataset that is put on the disk sets the files of its directory, and nothing else. -/
theorem exists_put_of_persist (h : t.spot place.steps = .ok ⟨path, some (.directory entries)⟩)
    (hpersist : persist (place.child id) files t = (.ok (), t')) :
    ∃ inner, (entries.lookup id).getD .empty = .directory inner ∧
      t' = t.put (path ++ [id]) (.directory (Assoc.putAll inner (Tree.ofFiles files))) ∧
      t'.HasEntries (place.child id) (path ++ [id])
        (Assoc.putAll inner (Tree.ofFiles files)) := by
  obtain ⟨made, hmade, hwritten⟩ := exists_made_of_persist hpersist
  obtain ⟨inner, hinner, hput, -, hentries⟩ := Tree.makeDirs_child h hmade
  obtain ⟨hafter, hentries'⟩ := hentries.writeFiles hwritten
  refine ⟨inner, hinner, ?_, hentries'⟩
  rw [hafter, hput, Tree.put_put]

/-- A dataset that cannot be put on the disk leaves it as it was or without its directory. -/
theorem eq_or_eq_erase_of_persist {e : DatasetError}
    (h : t.spot place.steps = .ok ⟨path, some (.directory entries)⟩)
    (hpersist : persist (place.child id) files t = (.error e, t')) :
    t' = t ∨ t' = t.erase (path ++ [id]) := by
  rcases persist_error_cases hpersist with ⟨cause, hmade⟩ | ⟨made, s, hmade, hs, rfl⟩
  · exact .inl (Tree.eq_of_makeDirs_child_eq_error h hmade)
  · right
    obtain ⟨inner, -, hput, -, hentries⟩ := Tree.makeDirs_child h hmade
    obtain rfl : s = ⟨path ++ [id], some (.directory inner)⟩ := by
      rw [Tree.HasEntries, hs] at hentries
      exact Except.ok.inj hentries
    rw [hput]
    exact Tree.erase_put ⟨entries, Tree.find?_spot h⟩ [] _

theorem changesOnly_persist {result : Except DatasetError Unit}
    (h : t.spot place.steps = .ok ⟨path, some (.directory entries)⟩)
    (hpersist : persist (place.child id) files t = (result, t')) :
    t.ChangesOnly (place.child id).path t' := by
  have hpath : path = place.path := Tree.path_of_spot h
  rw [Place.path_child, ← hpath]
  cases result with
  | ok _ =>
      obtain ⟨inner, -, rfl, -⟩ := exists_put_of_persist h hpersist
      exact .put ⟨entries, Tree.find?_spot h⟩ id _
  | error e =>
      rcases eq_or_eq_erase_of_persist h hpersist with rfl | rfl
      · exact .refl _ _
      · exact .erase _ _

end Registry

theorem Tree.changesOnly_removeTree (h : t.removeTree place = .ok t') :
    t.ChangesOnly place.path t' := by
  unfold removeTree at h
  split at h
  · cases h
  · cases h
  · cases h
  · next path entries hlocate =>
    cases h
    rw [← HasEntries.path_eq hlocate]
    exact .erase _ _

namespace Registry

variable {r : Registry} {disk left : Tree} {records : List Json} {l : Listing}

/-- The disk has the directories of the kinds. -/
def HasKinds (r : Registry) (disk : Tree) : Prop :=
  ∀ kind : Kind, ∃ entries, disk.list (r.kindPlace kind) = .ok entries

theorem hasKinds_of_isSome (h : ∀ kind, (disk.list (r.kindPlace kind)).toOption.isSome = true) :
    r.HasKinds disk := by
  intro kind
  have hsome := h kind
  cases hlist : disk.list (r.kindPlace kind) with
  | ok entries => exact ⟨entries, rfl⟩
  | error e =>
      rw [hlist] at hsome
      cases hsome

theorem changesOnly_add (h : r.HasKinds disk) (id : String) (kind : Kind) (records : List Json) :
    disk.ChangesOnly (r.datasetPlace kind id).path (r.add disk id kind records).disk := by
  obtain ⟨entries, hlist⟩ := h kind
  obtain ⟨path, hentries⟩ := Tree.hasEntries_of_list hlist
  have hadds := r.adds disk id kind records
  generalize r.add disk id kind records = change at hadds ⊢
  cases hadds with
  | refused reason => exact .refl _ _
  | failed valid free nonempty failure => exact changesOnly_persist hentries.spot_eq failure
  | done valid free nonempty success => exact changesOnly_persist hentries.spot_eq success

theorem add_disk_of_invalid (h : isValidId id = false) :
    (r.add disk id kind records).disk = disk := by
  rw [add, if_pos (by rw [h]; rfl)]
  rfl

theorem changesOnly_remove (h : r.find? id = some l) :
    disk.ChangesOnly (r.datasetPlace l.kind id).path (r.remove disk id).disk := by
  have hremoves := r.removes disk id
  generalize r.remove disk id = change at hremoves ⊢
  cases hremoves with
  | refused reason => exact .refl _ _
  | failed found failure => exact .refl _ _
  | done found success =>
      rw [h] at found
      cases found
      exact Tree.changesOnly_removeTree success

theorem remove_disk_of_not_found (h : r.find? id = none) : (r.remove disk id).disk = disk := by
  have hremoves := r.removes disk id
  generalize r.remove disk id = change at hremoves ⊢
  cases hremoves with
  | refused reason => rfl
  | failed found failure => rfl
  | done found success =>
      rw [h] at found
      cases found

/-! ### The other datasets -/

theorem find?_add_of_ne (h : other ≠ id) :
    (r.add disk id kind records).registry.find? other = r.find? other := by
  have hadds := r.adds disk id kind records
  generalize r.add disk id kind records = change at hadds ⊢
  cases hadds with
  | refused reason => rfl
  | failed valid free nonempty failure => rfl
  | done valid free nonempty success => simp [find?, Ne.symm h]

theorem find?_without_of_ne (h : other ≠ id) : (r.without id).find? other = r.find? other := by
  obtain ⟨place, listings⟩ := r
  change (listings.eraseP fun l => l.id = id).find? (fun l => l.id = other) =
    listings.find? fun l => l.id = other
  induction listings with
  | nil => rfl
  | cons l listings ih =>
      by_cases hl : l.id = id
      · have hother : l.id ≠ other := fun heq => h (heq.symm.trans hl)
        simp [hl, Ne.symm h]
      · by_cases hother : l.id = other
        · simp [hother, h]
        · simpa [List.eraseP_cons, hl, hother] using ih

theorem find?_remove_of_ne (h : other ≠ id) :
    (r.remove disk id).registry.find? other = r.find? other := by
  have hremoves := r.removes disk id
  generalize r.remove disk id = change at hremoves ⊢
  cases hremoves with
  | refused reason => rfl
  | failed found failure => exact find?_without_of_ne h
  | done found success => exact find?_without_of_ne h

theorem place_add (r : Registry) (disk : Tree) (id : String) (kind : Kind) (records : List Json) :
    (r.add disk id kind records).registry.place = r.place := by
  have hadds := r.adds disk id kind records
  generalize r.add disk id kind records = change at hadds ⊢
  cases hadds <;> rfl

theorem place_remove (r : Registry) (disk : Tree) (id : String) :
    (r.remove disk id).registry.place = r.place := by
  have hremoves := r.removes disk id
  generalize r.remove disk id = change at hremoves ⊢
  cases hremoves <;> rfl

theorem path_datasetPlace (r : Registry) (kind : Kind) (id : String) :
    (r.datasetPlace kind id).path = r.place.path ++ [kind.name, id] := by
  simp [datasetPlace, kindPlace]

/-- Datasets of different ids lie in different directories, none in that of another. -/
theorem not_path_prefix_of_ne (h : other ≠ id) (kind kind' : Kind) :
    ¬ (r.datasetPlace kind other).path <+: (r.datasetPlace kind' id).path := by
  rw [path_datasetPlace, path_datasetPlace, List.prefix_append_right_inj]
  intro hbelow
  have heq := hbelow.eq_of_length rfl
  simp only [List.cons.injEq] at heq
  exact h heq.2.1

/-- The directory of a kind is reached through a dataset only if the data directory is. -/
theorem leadsThrough_kindPlace_iff (r : Registry) (kind kind' : Kind) (id : String) :
    (r.kindPlace kind).LeadsThrough (r.datasetPlace kind' id).path ↔
      r.place.LeadsThrough (r.datasetPlace kind' id).path := by
  have hkind : ¬ (r.datasetPlace kind' id).path <+: r.place.path ++ [kind.name] := by
    intro hbelow
    have hlength := hbelow.length_le
    simp only [path_datasetPlace, List.length_append, List.length_cons, List.length_nil] at hlength
    omega
  rw [kindPlace, Place.leadsThrough_child_iff, or_iff_left hkind]

/-- The directories of the kinds are found after a change of a dataset through which the data
directory is not reached. -/
theorem HasKinds.of_changesOnly (h : r.HasKinds disk)
    (hchange : disk.ChangesOnly (r.datasetPlace kind id).path left)
    (hway : ¬ r.place.LeadsThrough (r.datasetPlace kind id).path) : r.HasKinds left := by
  intro kind'
  obtain ⟨entries, hlist⟩ := h kind'
  obtain ⟨path, hentries⟩ := Tree.hasEntries_of_list hlist
  rw [← leadsThrough_kindPlace_iff r kind'] at hway
  obtain ⟨entries', hleft⟩ := hchange.exists_hasEntries hentries hway
  exact ⟨entries', hleft.list_eq⟩

/-- A scan depends on the data directory and on the kind of the dataset only. -/
theorem batches_congr {r' : Registry} (hplace : r'.place = r.place)
    (hkind : (r'.find? id).map (·.kind) = (r.find? id).map (·.kind)) (disk : Tree) :
    r'.batches disk id = r.batches disk id := by
  have hdataset : ∀ kind, r'.datasetPlace kind id = r.datasetPlace kind id := by
    intro kind
    rw [datasetPlace, kindPlace, hplace]
    rfl
  unfold batches
  cases hfind' : r'.find? id with
  | none =>
      rw [hfind', Option.map_none, eq_comm, Option.map_eq_none_iff] at hkind
      rw [hkind]
  | some l' =>
      rw [hfind', Option.map_some, eq_comm, Option.map_eq_some_iff] at hkind
      obtain ⟨l, hfind, hl⟩ := hkind
      simp only [hfind, hl, hdataset]

/-- A dataset is scanned as before if only another changes and its kind is still found. -/
theorem batches_of_changesOnly (hne : other ≠ id)
    (hchange : disk.ChangesOnly (r.datasetPlace kind id).path left) (hkinds : r.HasKinds left)
    {met : List Batch} (hmet : r.batches disk other = .ok met) :
    r.batches left other = .ok met := by
  unfold batches at hmet ⊢
  split at hmet
  · cases hmet
  · next l hl =>
    rw [mapError_eq_ok_iff, Batch.ofDirectory, map_eq_ok_iff] at hmet ⊢
    obtain ⟨entries, hlist, rfl⟩ := hmet
    obtain ⟨path, hentries⟩ := Tree.hasEntries_of_list hlist
    obtain ⟨around, haround⟩ := hkinds l.kind
    obtain ⟨above, haround⟩ := Tree.hasEntries_of_list haround
    have hleft : left.HasEntries (r.datasetPlace l.kind other) path entries := by
      refine hchange.hasEntries_child hentries haround ?_ ?_ <;> rw [hentries.path_eq]
      · exact not_path_prefix_of_ne (Ne.symm hne) kind l.kind
      · exact not_path_prefix_of_ne hne l.kind kind
    exact ⟨entries, hleft.list_eq, rfl⟩

end Registry

end Campus
