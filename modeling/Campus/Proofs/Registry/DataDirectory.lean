import Campus.Proofs.Registry.Isolation
import Campus.Proofs.Registry.Reopening

/-!
# What lies in a data directory

Opening leaves a data directory that has a directory for every kind, and registers what lies in
them (`Registry.openKinds_of_spot`). Adding puts one directory into that of its kind, with the files
of the dataset, and leaves all else (`Tree.HoldsKinds.persist`); removing takes one away
(`Tree.HoldsKinds.erase`). So what lies in the directories of the kinds is all that has to be known
of a disk to say what adding, removing and opening come to (`Tree.HoldsKinds`).
-/

namespace Campus

variable {place : Place} {path : Path} {kind : Kind} {id : String} {entries : List (String × Tree)}

/-- The data directory at a place has a directory for every kind, which is `node kind`. -/
structure Tree.HoldsKinds (t : Tree) (place : Place) (path : Path) (node : Kind → Tree) : Prop where
  found : ∃ entries, t.spot place.steps = .ok ⟨path, some (.directory entries)⟩ ∧
    ∀ kind : Kind, entries.lookup kind.name = some (node kind)
  allowed : ∀ kind : Kind, (place.child kind.name).error? = none

/-! ### Opening -/

namespace Registry

variable {r opened : Registry} {disk : Tree} {kinds : List Kind}

/-- The directory of a kind among the entries of a data directory, empty if there is none yet. -/
def kindNode (entries : List (String × Tree)) (kind : Kind) : Tree :=
  (entries.lookup kind.name).getD .empty

theorem kindNode_put_of_ne {other : Kind} (h : other.name ≠ kind.name) (node : Tree)
    (entries : List (String × Tree)) :
    kindNode (Assoc.put kind.name node entries) other = kindNode entries other := by
  rw [kindNode, kindNode, Assoc.lookup_put_of_ne h]

/-- The registry of what lies in the directories of the kinds. -/
def ofKinds (place : Place) (node : Kind → Tree) : Registry :=
  Kind.all.foldl (fun r kind => (r.registerAll kind (sortedDirectories (node kind).entries)).1)
    ⟨place, []⟩

theorem place_ofKinds (place : Place) (node : Kind → Tree) :
    (ofKinds place node).place = place := by
  simp [ofKinds, Kind.all, place_registerAll]

/-- Opening registers what lies in the directories of the kinds, and leaves a data directory that
has them all. -/
theorem openKinds_of_spot (hdistinct : (kinds.map Kind.name).Nodup)
    (h : disk.spot r.place.steps = .ok ⟨path, some (.directory entries)⟩)
    (hopened : (r.openKinds disk kinds).result = .ok opened) :
    opened = kinds.foldl (fun r kind =>
        (r.registerAll kind (sortedDirectories (kindNode entries kind).entries)).1) r ∧
      (∀ kind ∈ kinds, (r.kindPlace kind).error? = none ∧
        (kindNode entries kind).isDirectory = true) ∧
      ∃ entries', (r.openKinds disk kinds).disk.spot r.place.steps =
          .ok ⟨path, some (.directory entries')⟩ ∧
        (∀ kind ∈ kinds, entries'.lookup kind.name = some (kindNode entries kind)) ∧
        ∀ name ∉ kinds.map Kind.name, entries'.lookup name = entries.lookup name := by
  induction kinds generalizing r disk entries with
  | nil =>
      cases hopened
      exact ⟨rfl, by simp, entries, h, by simp, fun _ _ => rfl⟩
  | cons kind kinds ih =>
      rw [List.map_cons, List.nodup_cons] at hdistinct
      obtain ⟨made, listed, hmade, hlist, hrest, hdisk⟩ := exists_openKinds_cons hopened
      obtain ⟨inner, hinner, -, hspot, hentries⟩ := Tree.makeDirs_child h hmade
      have hlisted : listed = inner := by
        have hsame := hentries.list_eq
        rw [show made.list (r.place.child kind.name) = .ok listed from hlist] at hsame
        exact Except.ok.inj hsame
      subst hlisted
      have hnode : kindNode entries kind = .directory listed := hinner
      rw [← place_registerAll r kind (sortedDirectories listed)] at hspot
      obtain ⟨hopened', hready, entries', hspot', hkinds, hothers⟩ := ih hdistinct.2 hspot hrest
      -- The directories of the other kinds are the same as before.
      have hkeep : ∀ other ∈ kinds,
          kindNode (Assoc.put kind.name (.directory listed) entries) other =
            kindNode entries other :=
        fun other hother => kindNode_put_of_ne
          (fun heq => hdistinct.1 (heq ▸ List.mem_map_of_mem hother)) _ _
      simp only [kindPlace, place_registerAll] at hspot' hready
      refine ⟨?_, ?_, entries', by rw [hdisk]; exact hspot', ?_, ?_⟩
      · rw [hopened', List.foldl_cons, hnode]
        refine List.foldl_ext _ _ _ fun r other hother => ?_
        rw [hkeep other hother]
      · rw [List.forall_mem_cons]
        refine ⟨⟨hentries.error?_eq_none, by rw [hnode]; rfl⟩, fun other hother => ?_⟩
        rw [← hkeep other hother]
        exact hready other hother
      · rw [List.forall_mem_cons]
        refine ⟨?_, fun other hother => ?_⟩
        · rw [hothers _ hdistinct.1, Assoc.lookup_put_self, hnode]
        · rw [hkinds other hother, hkeep other hother]
      · intro name hname
        rw [List.map_cons, List.mem_cons, not_or] at hname
        rw [hothers name hname.2, Assoc.lookup_put_of_ne hname.1]

theorem openAt_of_spot (h : disk.spot place.steps = .ok ⟨path, some (.directory entries)⟩)
    (hopened : (openAt place disk).result = .ok opened) :
    opened = ofKinds place (kindNode entries) ∧
      (openAt place disk).disk.HoldsKinds place path (kindNode entries) ∧
      ∀ kind, (kindNode entries kind).isDirectory = true := by
  have hall : ∀ kind : Kind, kind ∈ Kind.all := by
    intro kind
    cases kind <;> decide
  have hdistinct : (Kind.all.map Kind.name).Nodup := by decide
  obtain ⟨hregistry, hready, entries', hspot, hkinds, -⟩ :=
    openKinds_of_spot (r := ⟨place, []⟩) hdistinct h hopened
  exact ⟨hregistry, ⟨⟨entries', hspot, fun kind => hkinds kind (hall kind)⟩,
    fun kind => (hready kind (hall kind)).1⟩, fun kind => (hready kind (hall kind)).2⟩

/-- Directories that are there need not be made, and are opened as they are. -/
theorem exists_openKinds (h : ∀ kind ∈ kinds, ∃ path entries,
      disk.HasEntries (r.kindPlace kind) path entries) :
    ∃ opened, (r.openKinds disk kinds).result = .ok opened ∧
      (r.openKinds disk kinds).disk = disk := by
  induction kinds generalizing r with
  | nil => exact ⟨r, rfl, rfl⟩
  | cons kind kinds ih =>
      rw [List.forall_mem_cons] at h
      obtain ⟨⟨path, entries, hentries⟩, hrest⟩ := h
      simp only [openKinds, hentries.makeDirs_eq, hentries.list_eq]
      refine ih fun other hother => ?_
      obtain ⟨path', entries', hentries'⟩ := hrest other hother
      refine ⟨path', entries', ?_⟩
      rwa [kindPlace, place_registerAll]

end Registry

namespace Tree.HoldsKinds

open Registry (kindNode openAt ofKinds)

variable {t t' : Tree} {node : Kind → Tree}

theorem spot_kind (h : t.HoldsKinds place path node) (kind : Kind) :
    t.spot (place.child kind.name).steps = .ok ⟨path ++ [kind.name], some (node kind)⟩ := by
  obtain ⟨entries, hspot, hkinds⟩ := h.found
  have hshort : ¬ nameLimit < kind.name.utf8ByteSize := by
    cases kind <;> decide
  refine spot_child_eq_ok_iff.mpr ⟨path, entries, hspot, hshort, ?_⟩
  rw [hkinds]

theorem hasEntries (h : t.HoldsKinds place path node) {inner : List (String × Tree)}
    (hnode : node kind = .directory inner) :
    t.HasEntries (place.child kind.name) (path ++ [kind.name]) inner := by
  unfold HasEntries
  rw [locate_eq_spot (h.allowed kind), h.spot_kind, hnode]

/-- A data directory that has all directories is opened as it is. -/
theorem openAt_eq (h : t.HoldsKinds place path node)
    (hdirectories : ∀ kind, (node kind).isDirectory = true) :
    (openAt place t).result = .ok (ofKinds place node) ∧ (openAt place t).disk = t := by
  obtain ⟨opened, hopened, hdisk⟩ :
      ∃ opened, (openAt place t).result = .ok opened ∧ (openAt place t).disk = t := by
    refine Registry.exists_openKinds fun kind _ => ?_
    obtain ⟨inner, hinner⟩ := exists_of_isDirectory (hdirectories kind)
    exact ⟨_, inner, h.hasEntries hinner⟩
  obtain ⟨entries, hspot, hkinds⟩ := h.found
  have hnode : kindNode entries = node := by
    funext kind
    rw [kindNode, hkinds, Option.getD_some]
  obtain ⟨rfl, -⟩ := Registry.openAt_of_spot hspot hopened
  rw [hnode] at hopened
  exact ⟨hopened, hdisk⟩

end Tree.HoldsKinds

/-! ### Adding -/

/-- Files that are written where nothing was are all that is in their directory. -/
theorem Registry.persist_child {t t' : Tree} {files : List (String × Json)}
    (hnames : (Assoc.names files).Nodup)
    (h : t.spot place.steps = .ok ⟨path, some (.directory entries)⟩)
    (hfree : entries.lookup id = none)
    (hpersist : persist (place.child id) files t = (.ok (), t')) :
    t' = t.put (path ++ [id]) (.directory (Tree.ofFiles files)) ∧
      t'.HasEntries (place.child id) (path ++ [id]) (Tree.ofFiles files) := by
  obtain ⟨inner, hinner, hput, hentries⟩ := exists_put_of_persist h hpersist
  obtain rfl : [] = inner := by
    rw [hfree] at hinner
    exact Tree.directory.inj hinner
  have hfiles : Assoc.putAll [] (Tree.ofFiles files) = Tree.ofFiles files := by
    have hnodup : (Assoc.names ([] ++ Tree.ofFiles files)).Nodup := by
      rwa [List.nil_append, Tree.names_ofFiles]
    rw [Assoc.putAll_eq_append hnodup, List.nil_append]
  rw [hfiles] at hput hentries
  exact ⟨hput, hentries⟩

/-- The directory of one kind is replaced. -/
theorem lookup_put_kind {node : Kind → Tree}
    (h : ∀ kind : Kind, entries.lookup kind.name = some (node kind)) (kind : Kind) (new : Tree)
    (other : Kind) :
    (Assoc.put kind.name new entries).lookup other.name =
      some (Function.update node kind new other) := by
  by_cases heq : other = kind
  · subst heq
    rw [Assoc.lookup_put_self, Function.update_self]
  · have hne : other.name ≠ kind.name := by
      cases other <;> cases kind <;> first | exact absurd rfl heq | decide
    rw [Assoc.lookup_put_of_ne hne, Function.update_of_ne heq, h]

/-- A new dataset is put into the directory of its kind with its files, and nothing else
changes. -/
theorem Tree.HoldsKinds.persist {t t' : Tree} {node : Kind → Tree} {inner : List (String × Tree)}
    {files : List (String × Json)} (h : t.HoldsKinds place path node)
    (hnames : (Assoc.names files).Nodup) (hnode : node kind = .directory inner)
    (hfree : inner.lookup id = none)
    (hpersist : Registry.persist ((place.child kind.name).child id) files t = (.ok (), t')) :
    t'.HoldsKinds place path (Function.update node kind
        (.directory (Assoc.put id (.directory (ofFiles files)) inner))) ∧
      ∃ path', t'.HasEntries ((place.child kind.name).child id) path' (ofFiles files) := by
  obtain ⟨entries, hspot, hkinds⟩ := h.found
  have hkind := h.spot_kind kind
  rw [hnode] at hkind
  obtain ⟨hput, hentries⟩ := Registry.persist_child hnames hkind hfree hpersist
  refine ⟨⟨?_, h.allowed⟩, _, hentries⟩
  have hnone : t.find? (path ++ [kind.name] ++ [id]) = none := by
    rw [find?_append, find?_spot hkind]
    simp [find?_cons, hfree]
  have hnot : ¬ t.HasDirectory (path ++ [kind.name] ++ [id]) := by
    intro hdirectory
    have hsome := hdirectory.isSome
    rw [hnone] at hsome
    cases hsome
  refine ⟨Assoc.put kind.name (.directory (Assoc.put id (.directory (ofFiles files)) inner))
    entries, ?_, lookup_put_kind hkinds kind _⟩
  rw [hput, spot_of_directories (fun _ hq => hq.put hnot _) hspot, List.append_assoc,
    find?_put_above (find?_spot hspot)]
  simp only [List.singleton_append, put, entries_directory, hkinds, hnode, Option.getD_some]

/-! ### Removing -/

/-- A dataset that is erased is gone from the directory of its kind, and nothing else changes. -/
theorem Tree.HoldsKinds.erase {t : Tree} {node : Kind → Tree} {inner : List (String × Tree)}
    (h : t.HoldsKinds place path node) (hnode : node kind = .directory inner)
    (hway : ¬ place.LeadsThrough (path ++ [kind.name, id])) :
    (t.erase (path ++ [kind.name, id])).HoldsKinds place path (Function.update node kind
      (.directory (inner.filter fun entry => entry.1 != id))) := by
  obtain ⟨entries, hspot, hkinds⟩ := h.found
  refine ⟨⟨Assoc.put kind.name (.directory (inner.filter fun entry => entry.1 != id)) entries, ?_,
    lookup_put_kind hkinds kind _⟩, h.allowed⟩
  have hway' : ∀ before, before <+: place.steps → ¬ path ++ [kind.name, id] <+: pathOf before :=
    fun before hbefore htarget => hway ⟨before, hbefore, htarget⟩
  rw [(ChangesOnly.erase t _).spot_eq hway' hspot, find?_erase_above, find?_spot hspot]
  simp only [Option.map_some, Tree.erase, hkinds, hnode]

end Campus
