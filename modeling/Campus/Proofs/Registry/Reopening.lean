import Campus.Proofs.Assoc
import Campus.Proofs.Disk.Writing
import Campus.Proofs.RecordFile
import Campus.Proofs.Registry.Opening

/-!
# What an opened registry lists

Opening a data directory lists a dataset with the records that lie in its directory, however the
directories come back from the disk: of two entries of one name the first counts, for finding as for
registering (`Registry.lookup_sortedDirectories`).

* `Registry.rows_of_openAt` — how many rows an opened registry lists.
-/

namespace Campus.Registry

variable {r opened : Registry} {disk : Tree} {kind : Kind} {id : String} {l : Listing}
  {entries : List (String × Tree)}

/-! ### Sorting -/

/-- A directory that is found under its name is found among the sorted directories. -/
theorem lookup_sortedDirectories {inner : List (String × Tree)}
    (h : entries.lookup id = some (.directory inner)) :
    (sortedDirectories entries).lookup id = some (.directory inner) := by
  rw [Assoc.lookup_eq_head?_filter] at h ⊢
  rw [sortedDirectories, Assoc.filter_mergeSort, List.filter_filter]
  obtain ⟨entry, hentry, hinner⟩ := Option.map_eq_some_iff.mp h
  obtain ⟨rest, hrest⟩ := List.head?_eq_some_iff.mp hentry
  have hswap : (entries.filter fun entry => entry.1 == id && entry.2.isDirectory) =
      (entries.filter fun entry => entry.1 == id).filter fun entry => entry.2.isDirectory := by
    rw [List.filter_filter]
    simp only [Bool.and_comm]
  rw [hswap, hrest, List.filter_cons_of_pos (by rw [hinner]; rfl)]
  simp [hinner]

/-! ### Registering -/

/-- A listing that registering some entries adds: the first entry of its name counts. -/
structure Registered (r : Registry) (kind : Kind) (entries : List (String × Tree)) (l : Listing) :
    Prop where
  kind_eq : l.kind = kind
  valid : isValidId l.id = true
  free : l.id ∉ r.ids
  rows : ∃ t, entries.lookup l.id = some t ∧ l.rows = recordsAmong kind t.entries

theorem mem_register {name : String} {t : Tree} (h : l ∈ (r.register kind (name, t)).1.listings) :
    l ∈ r.listings ∨ Registered r kind [(name, t)] l := by
  unfold register at h
  dsimp only at h
  split at h
  · exact .inl h
  · next hvalid =>
    split at h
    · exact .inl h
    · next hfree =>
      rcases List.mem_append.mp h with h | h
      · exact .inl h
      · rw [List.mem_singleton.mp h, scanned_ofEntries]
        exact .inr ⟨rfl, by simpa using hvalid, fun hmem => hfree (find?_isSome_iff.mpr hmem),
          t, by simp, rfl⟩

/-- Registering a directory adds it under its name, if that is a valid id that is free. -/
theorem datasets_register (r : Registry) (kind : Kind) (name : String) (t : Tree) :
    (r.register kind (name, t)).1.datasets =
      if isValidId name = true ∧ name ∉ r.ids then r.datasets ++ [(name, kind)]
      else r.datasets := by
  unfold register
  dsimp only
  split
  · next hinvalid => rw [if_neg fun h => by simp [h.1] at hinvalid]
  · next hvalid =>
    split
    · next htaken => rw [if_neg fun h => h.2 (find?_isSome_iff.mp htaken)]
    · next hfree =>
      rw [if_pos ⟨by simpa using hvalid, fun hmem => hfree (find?_isSome_iff.mpr hmem)⟩]
      simp [datasets]

theorem ids_register_subset (r : Registry) (kind : Kind) (entry : String × Tree) :
    r.ids ⊆ (r.register kind entry).1.ids := by
  obtain ⟨name, t⟩ := entry
  unfold register
  dsimp only
  split
  · exact List.Subset.refl _
  · split
    · exact List.Subset.refl _
    · simp [ids]

/-- Once a directory is offered under a valid name, the name is taken. -/
theorem mem_ids_register {name : String} (t : Tree) (h : isValidId name = true) :
    name ∈ (r.register kind (name, t)).1.ids := by
  unfold register
  dsimp only
  rw [if_neg (by simp [h])]
  split
  · next htaken => exact find?_isSome_iff.mp htaken
  · simp [ids]

theorem mem_registerAll (h : l ∈ (r.registerAll kind entries).1.listings) :
    l ∈ r.listings ∨ Registered r kind entries l := by
  induction entries generalizing r with
  | nil => exact .inl h
  | cons entry entries ih =>
      obtain ⟨name, t⟩ := entry
      rcases ih h with hfirst | hlater
      · refine (mem_register hfirst).imp_right fun hadded => ?_
        obtain ⟨t', ht', hrows⟩ := hadded.rows
        have hname : l.id = name := by
          by_contra hne
          simp [List.lookup_cons, beq_false_of_ne hne] at ht'
        exact ⟨hadded.kind_eq, hadded.valid, hadded.free, t', by simpa [hname] using ht', hrows⟩
      · -- The name of a later listing has not been offered yet.
        have hne : l.id ≠ name := by
          intro hname
          exact hlater.free (hname ▸ mem_ids_register t (hname ▸ hlater.valid))
        have hfree : l.id ∉ r.ids :=
          fun hmem => hlater.free (ids_register_subset r kind (name, t) hmem)
        obtain ⟨t', ht', hrows⟩ := hlater.rows
        refine .inr ⟨hlater.kind_eq, hlater.valid, hfree, t', ?_, hrows⟩
        rwa [List.lookup_cons, beq_false_of_ne hne]

/-- A listing that opening adds: it was registered on a disk on which no more than directories have
been made. -/
def Opened (r : Registry) (disk : Tree) (l : Listing) : Prop :=
  ∃ disk' path entries, disk.Makes disk' ∧ disk'.HasEntries (r.kindPlace l.kind) path entries ∧
    ∃ t, (sortedDirectories entries).lookup l.id = some t ∧
      l.rows = recordsAmong l.kind t.entries

theorem place_registerAll (r : Registry) (kind : Kind) (entries : List (String × Tree)) :
    (r.registerAll kind entries).1.place = r.place := by
  induction entries generalizing r with
  | nil => rfl
  | cons entry entries ih =>
      refine (ih (r.register kind entry).1).trans ?_
      unfold register
      dsimp only
      split
      · rfl
      · split <;> rfl

theorem mem_openKinds {kinds : List Kind} (h : (r.openKinds disk kinds).result = .ok opened)
    (hl : l ∈ opened.listings) : l ∈ r.listings ∨ Opened r disk l := by
  induction kinds generalizing r disk with
  | nil =>
      cases h
      exact .inl hl
  | cons kind kinds ih =>
      obtain ⟨made, entries, hmade, hlist, hrest, -⟩ := exists_openKinds_cons h
      have hmakes := disk.makeDirs_makes (r.kindPlace kind)
      rw [hmade] at hmakes
      rcases ih hrest with hfirst | hlater
      · refine (mem_registerAll hfirst).imp_right fun hadded => ?_
        obtain ⟨path, hentries⟩ := Tree.hasEntries_of_list hlist
        obtain rfl := hadded.kind_eq
        exact ⟨made, path, entries, hmakes, hentries, hadded.rows⟩
      · obtain ⟨disk', path, entries', hmakes', hentries, hrows⟩ := hlater
        refine .inr ⟨disk', path, entries', hmakes.trans hmakes', ?_, hrows⟩
        simpa [kindPlace, place_registerAll] using hentries

/-- The rows that an opened registry lists are the records that lie in the directory. -/
theorem rows_of_openAt {place : Place} (h : (openAt place disk).result = .ok opened)
    (hl : l ∈ opened.listings) {path : Path}
    (hentries : disk.HasEntries ((place.child l.kind.name).child l.id) path entries) :
    l.rows = recordsAmong l.kind entries := by
  rcases mem_openKinds h hl with hnone | ⟨disk', outerPath, around, hmakes, haround, t, ht, hrows⟩
  · cases hnone
  · obtain ⟨entries', hfind, hfiles⟩ := hmakes.recordFilesAmong_eq hentries.find?_eq
    have hchild :=
      haround.locate_child (hentries.of_directories (fun _ => hmakes.hasDirectory) hfind)
    have hlookup : around.lookup l.id = some (.directory entries') := by
      simpa using (congrArg Spot.node? hchild).symm
    -- The directory that was registered is the one that the place leads to.
    rw [lookup_sortedDirectories hlookup] at ht
    cases ht
    rw [hrows, ← sum_recordFilesAmong, ← sum_recordFilesAmong, Tree.entries_directory, hfiles]

end Campus.Registry
