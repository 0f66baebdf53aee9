import Campus.Proofs.Registry.DataDirectory

/-!
# Registries that their data directory mirrors

As long as no one else changes the data directory, it holds a directory for every registered dataset
and nothing else (`Registry.Mirrors`): every change of the registry keeps it so, whether it succeeds
or fails (`Registry.Mirrors.add`, `Registry.Mirrors.remove`), and removing never fails on the disk.
So opening the data directory registers the same datasets again, kind by kind and in the order of
their ids (`Registry.Mirrors.datasets_ofKinds`).
-/

namespace Campus

namespace Registry

variable {r : Registry} {disk : Tree} {kind : Kind} {id : String} {path : Path}
  {entries : List (String × Tree)}

/-! ### What is registered -/

/-- Directories with valid names that are all new are registered one after the other. -/
theorem datasets_registerAll (hvalid : ∀ name ∈ Assoc.names entries, isValidId name = true)
    (hnew : (r.ids ++ Assoc.names entries).Nodup) :
    (r.registerAll kind entries).1.datasets =
      r.datasets ++ (Assoc.names entries).map fun name => (name, kind) := by
  induction entries generalizing r with
  | nil => simp [registerAll]
  | cons entry entries ih =>
      obtain ⟨name, t⟩ := entry
      rw [Assoc.names_cons, List.forall_mem_cons] at hvalid
      rw [Assoc.names_cons, List.nodup_middle, List.nodup_cons, List.mem_append, not_or] at hnew
      have hfirst : (r.register kind (name, t)).1.datasets = r.datasets ++ [(name, kind)] := by
        rw [datasets_register, if_pos ⟨hvalid.1, hnew.1.1⟩]
      have hids : (r.register kind (name, t)).1.ids = r.ids ++ [name] := by
        rw [← names_datasets, hfirst, Assoc.names_append, names_datasets]
        rfl
      have hrest := ih (r := (r.register kind (name, t)).1) hvalid.2 (by
        rw [hids, List.append_assoc, List.singleton_append, List.nodup_middle, List.nodup_cons,
          List.mem_append, not_or]
        exact hnew)
      rw [registerAll]
      dsimp only
      rw [hrest, hfirst, List.append_assoc]
      rfl

theorem sortedDirectories_perm (h : ∀ entry ∈ entries, entry.2.isDirectory = true) :
    (sortedDirectories entries).Perm entries := by
  unfold sortedDirectories
  rw [List.filter_eq_self.mpr h]
  exact List.mergeSort_perm _ _

/-- Directories whose names do not repeat are sorted by their names. -/
theorem pairwise_sortedDirectories (h : (Assoc.names entries).Nodup) :
    (Assoc.names (sortedDirectories entries)).Pairwise (· < ·) := by
  have hle : ∀ {a b : String × Tree}, (compare a.1 b.1).isLE = true ↔ a.1 ≤ b.1 :=
    Std.LawfulBCmp.isLE_iff_le
  have hsorted : (sortedDirectories entries).Pairwise fun a b => (compare a.1 b.1).isLE = true :=
    Sorting.pairwise_mergeSort Prod.fst _
  have hdistinct : (sortedDirectories entries).Pairwise fun a b => a.1 ≠ b.1 := by
    have hnames : (Assoc.names (sortedDirectories entries)).Nodup := by
      rw [sortedDirectories, (Assoc.names_perm (List.mergeSort_perm _ _)).nodup_iff]
      exact h.sublist (List.filter_sublist.map _)
    exact List.pairwise_map.mp hnames
  refine List.pairwise_map.mpr (hsorted.imp₂ (fun a b hab hne => ?_) hdistinct)
  exact lt_of_le_of_ne (hle.mp hab) hne

/-! ### The invariant -/

/-- The data directory holds a directory for every registered dataset, and nothing else. -/
structure Mirrors (r : Registry) (disk : Tree) (node : Kind → List (String × Tree)) : Prop where
  wellFormed : r.WellFormed
  holds : disk.HoldsKinds r.place r.place.path fun kind => .directory (node kind)
  directories : ∀ kind, ∀ entry ∈ node kind, entry.2.isDirectory = true
  distinct : ∀ kind, (Assoc.names (node kind)).Nodup
  registered : ∀ kind id, id ∈ Assoc.names (node kind) ↔ (id, kind) ∈ r.datasets
  admitted : ∀ l ∈ r.listings, (r.kindPlace l.kind).admits l.id = true
  /-- The data directory is not reached through any dataset. -/
  apart : ∀ kind id, ¬ r.place.LeadsThrough (r.datasetPlace kind id).path

namespace Mirrors

variable {node : Kind → List (String × Tree)} {l : Listing} {records : List Json}

theorem kindPlace (h : r.Mirrors disk node) (kind : Kind) :
    disk.HasEntries (r.kindPlace kind) (r.kindPlace kind).path (node kind) := by
  rw [Registry.kindPlace, Place.path_child]
  exact h.holds.hasEntries rfl

/-- An id that is not registered has no directory. -/
theorem lookup_eq_none (h : r.Mirrors disk node) (hfree : id ∉ r.ids) (kind : Kind) :
    (node kind).lookup id = none := by
  rw [Assoc.lookup_eq_none, h.registered, ← names_datasets] at *
  exact fun hmem => hfree (Assoc.mem_names_of_mem hmem)

/-- A registered dataset has a directory. -/
theorem exists_hasEntries (h : r.Mirrors disk node) (hl : l ∈ r.listings) :
    ∃ inner, disk.HasEntries (r.datasetPlace l.kind l.id)
      (r.datasetPlace l.kind l.id).path inner := by
  have hname : l.id ∈ Assoc.names (node l.kind) :=
    (h.registered _ _).mpr (List.mem_map_of_mem (f := fun l => (l.id, l.kind)) hl)
  obtain ⟨t, ht⟩ := Option.isSome_iff_exists.mp (Assoc.lookup_isSome.mpr hname)
  have hdirectory := h.directories _ _ (Assoc.mem_of_lookup ht)
  cases t with
  | file content => cases hdirectory
  | directory inner =>
      refine ⟨inner, ?_⟩
      have hlocate := (h.kindPlace l.kind).locate_child_of_admits (h.admitted l hl)
      rw [ht] at hlocate
      rw [datasetPlace, Place.path_child]
      exact hlocate

/-- The entries of one kind change, on the disk as in the registry. -/
theorem update {r' : Registry} {disk' : Tree} {inner : List (String × Tree)}
    (h : r.Mirrors disk node) (hplace : r'.place = r.place) (hwellFormed : r'.WellFormed)
    (hholds : disk'.HoldsKinds r.place r.place.path
      (Function.update (fun kind => .directory (node kind)) kind (.directory inner)))
    (hdirectories : ∀ entry ∈ inner, entry.2.isDirectory = true)
    (hdistinct : (Assoc.names inner).Nodup)
    (hregistered : ∀ id, id ∈ Assoc.names inner ↔ (id, kind) ∈ r'.datasets)
    (hothers : ∀ other, other ≠ kind → ∀ id, (id, other) ∈ r.datasets ↔ (id, other) ∈ r'.datasets)
    (hadmitted : ∀ l ∈ r'.listings, (r'.kindPlace l.kind).admits l.id = true) :
    r'.Mirrors disk' (Function.update node kind inner) := by
  have hnode : (fun other => Tree.directory (Function.update node kind inner other)) =
      Function.update (fun kind => .directory (node kind)) kind (.directory inner) := by
    funext other
    exact Function.apply_update (fun _ => Tree.directory) node kind inner other
  refine ⟨hwellFormed, ?_, fun other => ?_, fun other => ?_, fun other id => ?_, hadmitted, ?_⟩
  · rwa [hnode, hplace]
  · by_cases heq : other = kind
    · subst heq
      rwa [Function.update_self]
    · rw [Function.update_of_ne heq]
      exact h.directories other
  · by_cases heq : other = kind
    · subst heq
      rwa [Function.update_self]
    · rw [Function.update_of_ne heq]
      exact h.distinct other
  · by_cases heq : other = kind
    · subst heq
      rw [Function.update_self]
      exact hregistered id
    · rw [Function.update_of_ne heq, h.registered]
      exact hothers other heq id
  · rw [hplace]
    intro other id
    rw [path_datasetPlace, hplace, ← path_datasetPlace]
    exact h.apart other id

/-! ### Adding -/

/-- Adding that fails leaves the disk: where no dataset is registered, no directory is in the
way. -/
theorem eq_of_persist_eq_error (h : r.Mirrors disk node) (hfree : id ∉ r.ids)
    {files : List (String × Json)} {e : DatasetError} {left : Tree}
    (hpersist : persist (r.datasetPlace kind id) files disk = (.error e, left)) : left = disk := by
  have hkind := h.kindPlace kind
  rcases eq_or_eq_erase_of_persist hkind.spot_eq hpersist with rfl | rfl
  · rfl
  · refine Tree.erase_of_missing ⟨node kind, hkind.find?_eq⟩ ?_
    rw [Tree.find?_append, hkind.find?_eq]
    simp [Tree.find?_cons, h.lookup_eq_none hfree kind]

theorem added (h : r.Mirrors disk node) (hvalid : isValidId id = true) (hfree : id ∉ r.ids)
    {left : Tree} (rows : Nat)
    (hpersist : persist (r.datasetPlace kind id) (recordFilesOf kind records) disk =
      (.ok (), left)) :
    ∃ node', Mirrors ⟨r.place, r.listings ++ [⟨id, kind, rows⟩]⟩ left node' := by
  have hnone := h.lookup_eq_none hfree kind
  obtain ⟨hholds, path, hentries⟩ := h.holds.persist (names_recordFilesOf_nodup kind records)
    (show Tree.directory (node kind) = .directory (node kind) from rfl) hnone hpersist
  rw [Assoc.lookup_eq_none] at hnone
  rw [Assoc.put_of_not_mem hnone] at hholds
  have hdatasets : Registry.datasets ⟨r.place, r.listings ++ [⟨id, kind, rows⟩]⟩ =
      r.datasets ++ [(id, kind)] := by
    simp [datasets]
  refine ⟨_, h.update rfl (h.wellFormed.append hvalid hfree) hholds ?_ ?_ ?_ ?_ ?_⟩
  · rw [List.forall_mem_append, List.forall_mem_singleton]
    exact ⟨h.directories kind, rfl⟩
  · rw [Assoc.names_append, Assoc.names_cons, Assoc.names_nil, ← List.concat_eq_append,
      List.nodup_concat]
    exact ⟨hnone, h.distinct kind⟩
  · intro other
    rw [hdatasets, Assoc.names_append, List.mem_append, List.mem_append, h.registered]
    simp
  · intro otherKind hne other
    rw [hdatasets, List.mem_append]
    simp [hne]
  · rw [List.forall_mem_append, List.forall_mem_singleton]
    exact ⟨h.admitted, hentries.admits⟩

/-- Every way of adding a dataset, also one that fails, keeps the data directory a mirror. -/
theorem add (h : r.Mirrors disk node) (id : String) (kind : Kind) (records : List Json) :
    ∃ node', (r.add disk id kind records).registry.Mirrors (r.add disk id kind records).disk
      node' := by
  have hadds := r.adds disk id kind records
  generalize r.add disk id kind records = change at hadds ⊢
  cases hadds with
  | refused reason => exact ⟨node, h⟩
  | failed valid free nonempty failure =>
      obtain rfl := h.eq_of_persist_eq_error free failure
      exact ⟨node, h⟩
  | done valid free nonempty success => exact h.added valid free _ success

/-! ### Removing -/

/-- The directory of a registered dataset can be removed. -/
theorem removeTree_eq_ok (h : r.Mirrors disk node) (hfound : r.find? id = some l) :
    disk.removeTree (r.datasetPlace l.kind id) =
      .ok (disk.erase (r.datasetPlace l.kind id).path) := by
  obtain rfl : l.id = id := by simpa using List.find?_some hfound
  obtain ⟨inner, hentries⟩ := h.exists_hasEntries (List.mem_of_find?_eq_some hfound)
  rw [Tree.removeTree, hentries]

/-- Removing does not fail on the disk. -/
theorem fromDisk_of_remove (h : r.Mirrors disk node) {e : DatasetError}
    (hresult : (r.remove disk id).result = .error e) : e.fromDisk = false := by
  have hremoves := r.removes disk id
  generalize r.remove disk id = change at hremoves hresult
  cases hremoves with
  | refused reason =>
      cases hresult
      exact reason
  | failed found failure =>
      rw [h.removeTree_eq_ok found] at failure
      cases failure
  | done found success => cases hresult

theorem removed (h : r.Mirrors disk node) (hfound : r.find? id = some l) :
    ∃ node', (r.without id).Mirrors (disk.erase (r.datasetPlace l.kind id).path) node' := by
  have hid : l.id = id := by simpa using List.find?_some hfound
  have hl := List.mem_of_find?_eq_some hfound
  have happart := h.apart l.kind id
  rw [path_datasetPlace] at happart ⊢
  have hholds := h.holds.erase
    (show Tree.directory (node l.kind) = .directory (node l.kind) from rfl) happart
  refine ⟨_, h.update rfl h.wellFormed.without hholds ?_ ?_ ?_ ?_ ?_⟩
  · intro entry hentry
    exact h.directories l.kind entry (List.mem_of_mem_filter hentry)
  · exact (h.distinct l.kind).sublist (List.filter_sublist.map _)
  · intro other
    rw [h.wellFormed.mem_datasets_without, ← h.registered]
    simp [Assoc.names]
  · intro otherKind hne other
    rw [h.wellFormed.mem_datasets_without, iff_self_and]
    rintro hmem rfl
    refine hne (h.wellFormed.kind_eq hmem ?_)
    exact List.mem_map.mpr ⟨l, hl, by rw [hid]⟩
  · intro other hother
    exact h.admitted other (List.eraseP_sublist.subset hother)

theorem remove (h : r.Mirrors disk node) (id : String) :
    ∃ node', (r.remove disk id).registry.Mirrors (r.remove disk id).disk node' := by
  have hremoves := r.removes disk id
  generalize r.remove disk id = change at hremoves ⊢
  cases hremoves with
  | refused reason => exact ⟨node, h⟩
  | failed found failure =>
      rw [h.removeTree_eq_ok found] at failure
      cases failure
  | done found success =>
      rw [h.removeTree_eq_ok found] at success
      cases success
      exact h.removed found

/-! ### Opening -/

/-- A data directory that is opened empty mirrors its registry. -/
theorem of_empty {place : Place} (hempty : disk.list place = .ok []) {left : Tree}
    (hholds : left.HoldsKinds place place.path fun _ => .empty) :
    Mirrors ⟨place, []⟩ left fun _ => [] := by
  obtain ⟨path, hentries⟩ := Tree.hasEntries_of_list hempty
  obtain rfl := hentries.path_eq
  refine ⟨⟨by simp [ids], by simp [ids]⟩, hholds, by simp, by simp, by simp [datasets], by simp, ?_⟩
  intro kind id hthrough
  obtain ⟨before, ⟨behind, hsteps⟩, htarget⟩ := hthrough
  have hspot := hentries.spot_eq
  rw [path_datasetPlace] at htarget
  rw [show place.steps = before ++ behind from hsteps.symm] at hspot
  cases behind with
  | nil =>
      rw [List.append_nil] at hsteps
      have hlength := htarget.length_le
      rw [hsteps] at hlength
      simp [Place.path] at hlength
  | cons step behind =>
      -- What the way comes by was there when the data directory was still empty.
      obtain ⟨rest, hrest⟩ := htarget
      have hsome := (Tree.hasDirectory_of_spot hspot).isSome
      rw [← hrest, List.append_assoc, Tree.find?_append, hentries.find?_eq] at hsome
      simp [Tree.find?_cons] at hsome

/-- The names of the directories of a kind, in order. -/
theorem mem_names_sortedDirectories (h : r.Mirrors disk node) (kind : Kind) (id : String) :
    id ∈ Assoc.names (sortedDirectories (node kind)) ↔ (id, kind) ∈ r.datasets := by
  rw [(Assoc.names_perm (sortedDirectories_perm (h.directories kind))).mem_iff, h.registered]

/-- Directories of some kinds are registered after the others if these have other ids. -/
theorem datasets_foldl (h : r.Mirrors disk node) {kinds : List Kind} (hkinds : kinds.Nodup)
    {r' : Registry} (hdistinct : r'.ids.Nodup)
    (hnew : ∀ kind ∈ kinds, ∀ id ∈ r'.ids, (id, kind) ∉ r.datasets) :
    (kinds.foldl (fun r' kind => (r'.registerAll kind (sortedDirectories (node kind))).1)
      r').datasets =
      r'.datasets ++ kinds.flatMap fun kind =>
        (Assoc.names (sortedDirectories (node kind))).map fun id => (id, kind) := by
  induction kinds generalizing r' with
  | nil => simp
  | cons kind kinds ih =>
      rw [List.nodup_cons] at hkinds
      rw [List.forall_mem_cons] at hnew
      have hvalid : ∀ id ∈ Assoc.names (sortedDirectories (node kind)), isValidId id = true := by
        intro id hid
        rw [h.mem_names_sortedDirectories] at hid
        exact h.wellFormed.valid id (names_datasets r ▸ Assoc.mem_names_of_mem hid)
      have hnodup : (r'.ids ++ Assoc.names (sortedDirectories (node kind))).Nodup := by
        rw [List.nodup_append]
        refine ⟨hdistinct, (pairwise_sortedDirectories (h.distinct kind)).imp fun hlt => hlt.ne, ?_⟩
        rintro id hid _ hid' rfl
        rw [h.mem_names_sortedDirectories] at hid'
        exact hnew.1 id hid hid'
      have hfirst : (r'.registerAll kind (sortedDirectories (node kind))).1.datasets =
          r'.datasets ++ (Assoc.names (sortedDirectories (node kind))).map fun id => (id, kind) :=
        datasets_registerAll hvalid hnodup
      have hids : (r'.registerAll kind (sortedDirectories (node kind))).1.ids =
          r'.ids ++ Assoc.names (sortedDirectories (node kind)) := by
        rw [← names_datasets, hfirst, Assoc.names_append, names_datasets]
        simp [Assoc.names, Function.comp_def]
      rw [List.foldl_cons, ih hkinds.2 (hids ▸ hnodup), hfirst, List.flatMap_cons,
        List.append_assoc]
      -- An id has one kind, so it is new to the kinds that follow.
      intro other hother id hid hmem
      rw [hids, List.mem_append, h.mem_names_sortedDirectories] at hid
      rcases hid with hid | hid
      · exact hnew.2 other hother id hid hmem
      · exact hkinds.1 (h.wellFormed.kind_eq hid hmem ▸ hother)

/-- The datasets that opening registers are the directories of the kinds. -/
theorem datasets_ofKinds (h : r.Mirrors disk node) :
    (ofKinds r.place fun kind => .directory (node kind)).datasets =
      Kind.all.flatMap fun kind =>
        (Assoc.names (sortedDirectories (node kind))).map fun id => (id, kind) :=
  h.datasets_foldl (by decide) (by simp [ids]) (by simp [ids])

/-- The datasets that opening registers are those that were registered. -/
theorem datasets_ofKinds_perm (h : r.Mirrors disk node)
    (hopened : (openAt r.place disk).result =
      .ok (ofKinds r.place fun kind => .directory (node kind))) :
    (ofKinds r.place fun kind => .directory (node kind)).datasets.Perm r.datasets := by
  have hnodup : ∀ r : Registry, r.WellFormed → r.datasets.Nodup := by
    intro r hr
    have hnames : (Assoc.names r.datasets).Nodup := by
      rw [names_datasets]
      exact hr.distinct
    exact .of_map _ hnames
  rw [List.perm_ext_iff_of_nodup (hnodup _ (wellFormed_of_openAt hopened))
    (hnodup r h.wellFormed), h.datasets_ofKinds]
  rintro ⟨id, kind⟩
  have hall : kind ∈ Kind.all := by
    cases kind <;> decide
  simp only [List.mem_flatMap, List.mem_map, Prod.mk.injEq]
  constructor
  · intro hmem
    obtain ⟨kind', -, id', hid, rfl, rfl⟩ := hmem
    exact (h.mem_names_sortedDirectories _ _).mp hid
  · intro hmem
    exact ⟨kind, hall, id, (h.mem_names_sortedDirectories _ _).mpr hmem, rfl, rfl⟩

end Mirrors

end Registry

end Campus
