import Campus.Proofs.Disk.Reordered
import Campus.Proofs.RecordOrder
import Campus.Proofs.Registry.Mirror
import Campus.Proofs.Registry.Removal

/-!
# What does not depend on the order of directories

The record files of a dataset are the files with such names at and below its directory
(`Tree.mem_recordFilesAmong_iff`), each at its own path, so the order in which directories are
listed is gone when the files are sorted (`Tree.Reordered.sortedRecordFiles_eq`). The directories
of datasets are sorted by their names in the same way. So opening a data directory gives the same
registry with the same lines in the log (`Tree.Reordered.openKinds`), and every dataset is the same
to a scan (`Tree.Reordered.batches_eq`), whatever the orders.
-/

namespace Campus

variable {disk disk' : Tree} {path : Path} {name : String} {content : ByteArray}
  {entries entries' : List (String × Tree)}

/-! ### Record files -/

namespace Tree

theorem mem_recordFiles_cons_iff {t : Tree} {first : String} :
    (first :: path, content) ∈ t.recordFiles name ↔
      first = name ∧
        ((path = [] ∧ t = .file content ∧ isRecordName name = true) ∨
          (path, content) ∈ recordFilesAmong t.entries) := by
  cases t with
  | file found =>
      rw [recordFiles, entries_file, recordFilesAmong]
      split
      · next hname => simp [hname, eq_comm, and_assoc]
      · next hname => simp [hname]
  | directory entries =>
      rw [recordFiles, entries_directory, List.mem_map]
      constructor
      · rintro ⟨f, hf, heq⟩
        cases heq
        exact ⟨rfl, .inr hf⟩
      · rintro ⟨rfl, ⟨-, hfile, -⟩ | hmem⟩
        · cases hfile
        · exact ⟨_, hmem, rfl⟩

/-- Every record file lies at the path of some name. -/
theorem head?_of_mem_recordFiles {t : Tree} {f : Path × ByteArray} (hf : f ∈ t.recordFiles name) :
    f.1.head? = some name := by
  cases t with
  | file found =>
      rw [recordFiles] at hf
      split at hf
      · rw [List.mem_singleton.mp hf]
        rfl
      · cases hf
  | directory entries =>
      rw [recordFiles, List.mem_map] at hf
      obtain ⟨g, -, rfl⟩ := hf
      rfl

theorem head?_of_mem_recordFilesAmong {f : Path × ByteArray} (hf : f ∈ recordFilesAmong entries) :
    ∃ name ∈ Assoc.names entries, f.1.head? = some name := by
  rw [recordFilesAmong_eq_flatMap, List.mem_flatMap] at hf
  obtain ⟨entry, hentry, hf⟩ := hf
  exact ⟨entry.1, List.mem_map_of_mem hentry, head?_of_mem_recordFiles hf⟩

/-- The record files are the files that are found at a path that ends in the name of one. -/
theorem mem_recordFilesAmong_iff (h : (directory entries).DistinctEntries) :
    (path, content) ∈ recordFilesAmong entries ↔
      (directory entries).find? path = some (.file content) ∧
        ∃ name ∈ path.getLast?, isRecordName name = true := by
  induction path generalizing entries with
  | nil =>
      constructor
      · intro hmem
        obtain ⟨name, -, hhead⟩ := head?_of_mem_recordFilesAmong hmem
        cases hhead
      · rintro ⟨hfind, -⟩
        cases hfind
  | cons first path ih =>
      rw [recordFilesAmong_eq_flatMap, List.mem_flatMap, find?_cons, entries_directory]
      constructor
      · rintro ⟨⟨name, t⟩, hentry, hmem⟩
        obtain ⟨rfl, ⟨rfl, rfl, hname⟩ | hmem⟩ := mem_recordFiles_cons_iff.mp hmem
        · rw [h.lookup_of_mem hentry]
          exact ⟨rfl, first, rfl, hname⟩
        · cases t with
          | file found => cases hmem
          | directory inner =>
              obtain ⟨hfind, last, hlast, hname⟩ := (ih (h.of_mem hentry)).mp hmem
              rw [h.lookup_of_mem hentry]
              refine ⟨hfind, last, ?_, hname⟩
              cases path with
              | nil => cases hlast
              | cons second path => simpa using hlast
      · rintro ⟨hfind, last, hlast, hname⟩
        rw [Option.bind_eq_some_iff] at hfind
        obtain ⟨t, hlookup, hfind⟩ := hfind
        have hentry := Assoc.mem_of_lookup hlookup
        refine ⟨(first, t), hentry, mem_recordFiles_cons_iff.mpr ⟨rfl, ?_⟩⟩
        cases path with
        | nil =>
            cases hfind
            cases hlast
            exact .inl ⟨rfl, rfl, hname⟩
        | cons second path =>
            cases t with
            | file found => cases hfind
            | directory inner =>
                exact .inr ((ih (h.of_mem hentry)).mpr ⟨hfind, last, by simpa using hlast, hname⟩)

mutual

/-- No two record files lie at one path. -/
theorem nodup_paths_recordFiles (name : String) :
    ∀ t : Tree, t.DistinctEntries → ((t.recordFiles name).map Prod.fst).Nodup
  | .file content, _ => by
      rw [recordFiles]
      split
      · exact List.nodup_singleton _
      · exact List.nodup_nil
  | .directory entries, h => by
      rw [recordFiles]
      have hpaths := nodup_paths_recordFilesAmong entries h.nodup fun _ => h.of_mem
      simpa [Function.comp_def] using hpaths.map (List.cons_injective (a := name))

theorem nodup_paths_recordFilesAmong :
    ∀ entries : List (String × Tree), (Assoc.names entries).Nodup →
      (∀ entry ∈ entries, entry.2.DistinctEntries) →
      ((recordFilesAmong entries).map Prod.fst).Nodup
  | [], _, _ => List.nodup_nil
  | (name, t) :: entries, hnames, hentries => by
      obtain ⟨ht, hentries⟩ := List.forall_mem_cons.mp hentries
      rw [Assoc.names_cons, List.nodup_cons] at hnames
      rw [recordFilesAmong, List.map_append]
      refine List.nodup_append.mpr ⟨nodup_paths_recordFiles name t ht,
        nodup_paths_recordFilesAmong entries hnames.2 hentries, ?_⟩
      rintro path hpath _ hpath' rfl
      obtain ⟨f, hf, rfl⟩ := List.mem_map.mp hpath
      obtain ⟨g, hg, heq⟩ := List.mem_map.mp hpath'
      obtain ⟨other, hother, hhead⟩ := head?_of_mem_recordFilesAmong hg
      rw [heq, head?_of_mem_recordFiles hf, Option.some.injEq] at hhead
      exact hnames.1 (hhead ▸ hother)

end

namespace Reordered

theorem find?_eq_file_iff {t t' : Tree} (h : t.Reordered t') (path : Path) :
    t.find? path = some (.file content) ↔ t'.find? path = some (.file content) := by
  obtain ⟨hnode, hnode'⟩ | ⟨found, hnode, hnode'⟩ | ⟨entries, entries', hnode, hnode', -⟩ :=
    h.find?_cases path <;> simp [hnode, hnode']

/-- The record files are read in one order, whatever the order in which they are listed. -/
theorem sortedRecordFiles_eq (h : (directory entries).Reordered (directory entries')) :
    sortedRecordFiles entries' = sortedRecordFiles entries := by
  have hpaths := nodup_paths_recordFilesAmong entries h.distinct.nodup fun _ => h.distinct.of_mem
  have hpaths' :=
    nodup_paths_recordFilesAmong entries' h.distinct'.nodup fun _ => h.distinct'.of_mem
  refine sortedRecordFiles_congr ?_ hpaths'
  rw [List.perm_ext_iff_of_nodup (.of_map _ hpaths') (.of_map _ hpaths)]
  rintro ⟨path, content⟩
  rw [mem_recordFilesAmong_iff h.distinct, mem_recordFilesAmong_iff h.distinct',
    h.find?_eq_file_iff path]

theorem ofEntries_eq {t t' : Tree} (h : t.Reordered t') (kind : Kind) (place : Place) :
    Batch.ofEntries kind place t'.entries = Batch.ofEntries kind place t.entries := by
  obtain ⟨content, rfl, rfl⟩ | ⟨entries, entries', rfl, rfl⟩ := h.file_or_directory
  · rfl
  · rw [Batch.ofEntries, Batch.ofEntries, entries_directory, entries_directory,
      h.sortedRecordFiles_eq]

/-- What a scan of a directory meets is the same on both disks. -/
theorem ofDirectory_eq (h : disk.Reordered disk') (kind : Kind) (place : Place) :
    Batch.ofDirectory kind place disk' = Batch.ofDirectory kind place disk := by
  unfold Batch.ofDirectory
  obtain ⟨e, hlist, hlist'⟩ | ⟨entries, entries', hlist, hlist', hentries⟩ := h.list_eq_or place
  · rw [hlist, hlist']
  · rw [hlist, hlist']
    exact congrArg Except.ok (hentries.ofEntries_eq kind place)

theorem batches_eq (h : disk.Reordered disk') (r : Registry) (id : String) :
    r.batches disk' id = r.batches disk id := by
  unfold Registry.batches
  simp only [h.ofDirectory_eq]

end Reordered

end Tree

/-! ### Registering directories -/

namespace Tree.Reordered

theorem names_sortedDirectories_subset (h : (directory entries).Reordered (directory entries')) :
    Assoc.names (Registry.sortedDirectories entries) ⊆
      Assoc.names (Registry.sortedDirectories entries') := by
  intro name hname
  rw [Registry.mem_names_sortedDirectories_iff] at hname ⊢
  obtain ⟨inner, hmem⟩ := hname
  obtain ⟨node', hmem', hnode⟩ := h.exists_mem hmem
  obtain ⟨content, hfile, -⟩ | ⟨_, inner', -, rfl⟩ := hnode.file_or_directory
  · cases hfile
  · exact ⟨inner', hmem'⟩

/-- The directories have the same names on both disks, and names are sorted in one way only. -/
theorem names_sortedDirectories_eq (h : (directory entries).Reordered (directory entries')) :
    Assoc.names (Registry.sortedDirectories entries) =
      Assoc.names (Registry.sortedDirectories entries') := by
  have hsorted : (Assoc.names (Registry.sortedDirectories entries)).Pairwise (· < ·) :=
    Registry.pairwise_sortedDirectories h.distinct.nodup
  have hsorted' : (Assoc.names (Registry.sortedDirectories entries')).Pairwise (· < ·) :=
    Registry.pairwise_sortedDirectories h.distinct'.nodup
  have hperm : (Assoc.names (Registry.sortedDirectories entries)).Perm
      (Assoc.names (Registry.sortedDirectories entries')) := by
    rw [List.perm_ext_iff_of_nodup (hsorted.imp fun hlt => hlt.ne) (hsorted'.imp fun hlt => hlt.ne)]
    exact fun name => ⟨fun hname => h.names_sortedDirectories_subset hname,
      fun hname => h.symm.names_sortedDirectories_subset hname⟩
  exact hperm.eq_of_pairwise (fun a b _ _ hab hba => absurd hab (lt_asymm hba)) hsorted hsorted'

theorem register_eq {node node' : Tree} (h : node.Reordered node') (r : Registry) (kind : Kind)
    (id : String) : r.register kind (id, node') = r.register kind (id, node) := by
  simp only [Registry.register, h.ofEntries_eq]

/-- Directories with the same names and the same files are registered alike. -/
theorem registerAll_eq {found found' : List (String × Tree)}
    (hnames : Assoc.names found = Assoc.names found')
    (hnodes : ∀ name node node', (name, node) ∈ found → (name, node') ∈ found' →
      node.Reordered node') (r : Registry) (kind : Kind) :
    r.registerAll kind found' = r.registerAll kind found := by
  induction found generalizing found' r with
  | nil =>
      obtain rfl : found' = [] := List.map_eq_nil_iff.mp hnames.symm
      rfl
  | cons entry found ih =>
      obtain ⟨id, node⟩ := entry
      cases found' with
      | nil => cases hnames
      | cons entry' found' =>
          obtain ⟨id', node'⟩ := entry'
          rw [Assoc.names_cons, Assoc.names_cons, List.cons.injEq] at hnames
          obtain ⟨rfl : id = id', hnames⟩ := hnames
          have hnode := hnodes id node node' List.mem_cons_self List.mem_cons_self
          have hrest := ih hnames fun name t t' ht ht' =>
            hnodes name t t' (List.mem_cons_of_mem _ ht) (List.mem_cons_of_mem _ ht')
          simp only [Registry.registerAll, hnode.register_eq, hrest]

theorem registerAll_sortedDirectories_eq
    (h : (directory entries).Reordered (directory entries')) (r : Registry) (kind : Kind) :
    r.registerAll kind (Registry.sortedDirectories entries') =
      r.registerAll kind (Registry.sortedDirectories entries) := by
  have hsub : ∀ {entries : List (String × Tree)} {entry : String × Tree},
      entry ∈ Registry.sortedDirectories entries → entry ∈ entries := fun hmem =>
    (List.mem_filter.mp (List.mem_mergeSort.mp hmem)).1
  refine registerAll_eq h.names_sortedDirectories_eq (fun name node node' hmem hmem' => ?_) r kind
  exact h.of_mem (hsub hmem) (hsub hmem')

/-! ### Opening -/

/-- Opening has the same result and logs the same lines on both disks, and what is made is made on
both. -/
theorem openKinds (h : disk.Reordered disk') (r : Registry) (kinds : List Kind) :
    (r.openKinds disk' kinds).result = (r.openKinds disk kinds).result ∧
      (r.openKinds disk' kinds).log = (r.openKinds disk kinds).log ∧
      (r.openKinds disk kinds).disk.Reordered (r.openKinds disk' kinds).disk := by
  induction kinds generalizing r disk disk' with
  | nil => exact ⟨rfl, rfl, h⟩
  | cons kind kinds ih =>
      obtain ⟨hmade, hleft⟩ := h.makeDirs (r.kindPlace kind)
      unfold Registry.openKinds
      dsimp only
      generalize disk.makeDirs (r.kindPlace kind) = making at hmade hleft ⊢
      generalize disk'.makeDirs (r.kindPlace kind) = making' at hmade hleft ⊢
      obtain ⟨result, left⟩ := making
      obtain ⟨result', left'⟩ := making'
      obtain rfl : result' = result := hmade
      cases result' with
      | error e => exact ⟨rfl, rfl, hleft⟩
      | ok _ =>
          dsimp only
          obtain ⟨e, hlist, hlist'⟩ | ⟨entries, entries', hlist, hlist', hentries⟩ :=
            hleft.list_eq_or (r.kindPlace kind)
          · rw [hlist, hlist']
            exact ⟨rfl, rfl, hleft⟩
          · rw [hlist, hlist']
            dsimp only
            rw [hentries.registerAll_sortedDirectories_eq]
            obtain ⟨hresult, hlog, hdisk⟩ := ih hleft
              (r.registerAll kind (Registry.sortedDirectories entries)).1
            exact ⟨hresult, congrArg _ hlog, hdisk⟩

end Tree.Reordered

end Campus
