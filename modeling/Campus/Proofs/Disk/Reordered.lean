import Campus.Proofs.Disk.Writing

/-!
# Disks that list their directories in other orders

Two disks with the same files and directories may differ in the order in which each directory lists
its entries (`Tree.Reordered`). Steps lead to the same paths on both (`Tree.Reordered.spot_eq_or`),
and making directories succeeds or fails alike and leaves disks that differ in that order only
(`Tree.Reordered.makeDirs`).
-/

namespace Campus.Tree

variable {t t' t'' node node' : Tree} {path : Path} {name : String}
  {entries entries' : List (String × Tree)}

/-! ### The relation -/

/-- The content of a file. A directory has none. -/
def content? : Tree → Option ByteArray
  | .file content => some content
  | .directory _ => none

/-- No directory has two entries of one name. -/
def DistinctEntries (t : Tree) : Prop :=
  ∀ path node, t.find? path = some node → (Assoc.names node.entries).Nodup

/-- At every path there is a file with one content in both trees, a directory in both, or nothing in
both. The order of the entries may differ in every directory. -/
structure Reordered (t t' : Tree) : Prop where
  same : ∀ path, (t.find? path).map content? = (t'.find? path).map content?
  distinct : t.DistinctEntries
  distinct' : t'.DistinctEntries

theorem DistinctEntries.nodup (h : t.DistinctEntries) : (Assoc.names t.entries).Nodup := h [] t rfl

theorem DistinctEntries.of_find? (h : t.DistinctEntries) (hnode : t.find? path = some node) :
    node.DistinctEntries := by
  intro rest inner hinner
  refine h (path ++ rest) inner ?_
  rw [find?_append, hnode]
  exact hinner

theorem DistinctEntries.lookup_of_mem (h : (directory entries).DistinctEntries)
    (hmem : (name, node) ∈ entries) : entries.lookup name = some node :=
  (Assoc.lookup_eq_some h.nodup).mpr hmem

theorem DistinctEntries.of_mem (h : (directory entries).DistinctEntries)
    (hmem : (name, node) ∈ entries) : node.DistinctEntries := by
  have hfind : (directory entries).find? [name] = some node := by
    rw [find?_cons, entries_directory, h.lookup_of_mem hmem]
    rfl
  exact h.of_find? hfind

theorem distinctEntries_file (content : ByteArray) : (file content).DistinctEntries := by
  intro path node hnode
  cases path with
  | nil =>
      cases hnode
      exact List.nodup_nil
  | cons name path => cases hnode

theorem distinctEntries_directory (hnames : (Assoc.names entries).Nodup)
    (hentries : ∀ entry ∈ entries, entry.2.DistinctEntries) :
    (directory entries).DistinctEntries := by
  intro path node hnode
  cases path with
  | nil =>
      cases hnode
      exact hnames
  | cons name path =>
      rw [find?_cons, entries_directory, Option.bind_eq_some_iff] at hnode
      obtain ⟨child, hchild, hnode⟩ := hnode
      exact hentries _ (Assoc.mem_of_lookup hchild) path node hnode

namespace Reordered

theorem refl (h : t.DistinctEntries) : t.Reordered t := ⟨fun _ => rfl, h, h⟩

theorem symm (h : t.Reordered t') : t'.Reordered t :=
  ⟨fun path => (h.same path).symm, h.distinct', h.distinct⟩

theorem trans (h : t.Reordered t') (h' : t'.Reordered t'') : t.Reordered t'' :=
  ⟨fun path => (h.same path).trans (h'.same path), h.distinct, h'.distinct'⟩

/-- The nodes at one path are reordered as well. -/
theorem find?_rel (h : t.Reordered t') (path : Path) :
    Option.Rel Reordered (t.find? path) (t'.find? path) := by
  have hsame := h.same path
  cases hnode : t.find? path with
  | none =>
      rw [hnode, Option.map_none, eq_comm, Option.map_eq_none_iff] at hsame
      rw [hsame]
      exact .none
  | some node =>
      rw [hnode, Option.map_some, eq_comm, Option.map_eq_some_iff] at hsame
      obtain ⟨node', hnode', -⟩ := hsame
      rw [hnode']
      refine .some ⟨fun rest => ?_, h.distinct.of_find? hnode, h.distinct'.of_find? hnode'⟩
      have hrest := h.same (path ++ rest)
      rwa [find?_append, find?_append, hnode, hnode'] at hrest

theorem lookup_rel (h : t.Reordered t') (name : String) :
    Option.Rel Reordered (t.entries.lookup name) (t'.entries.lookup name) := by
  have hrel := h.find?_rel [name]
  simpa only [find?_cons, find?_nil, Option.bind_fun_some] using hrel

/-- A directory has an entry for each entry of the other, of the same name. -/
theorem exists_mem (h : (directory entries).Reordered (directory entries'))
    (hmem : (name, node) ∈ entries) : ∃ node', (name, node') ∈ entries' ∧ node.Reordered node' := by
  have hrel := h.lookup_rel name
  rw [entries_directory, entries_directory, h.distinct.lookup_of_mem hmem] at hrel
  generalize hlookup : entries'.lookup name = node? at hrel
  cases hrel with
  | some hnode => exact ⟨_, Assoc.mem_of_lookup hlookup, hnode⟩

theorem of_mem (h : (directory entries).Reordered (directory entries'))
    (hmem : (name, node) ∈ entries) (hmem' : (name, node') ∈ entries') : node.Reordered node' := by
  obtain ⟨found, hfound, hnode⟩ := h.exists_mem hmem
  have hlookup := (h.distinct'.lookup_of_mem hfound).symm.trans (h.distinct'.lookup_of_mem hmem')
  rwa [Option.some.inj hlookup] at hnode

/-- Files have one content, and directories are paired with directories. -/
theorem file_or_directory (h : t.Reordered t') :
    (∃ content, t = .file content ∧ t' = .file content) ∨
      ∃ entries entries', t = .directory entries ∧ t' = .directory entries' := by
  have hsame := h.same []
  rw [find?_nil, find?_nil, Option.map_some, Option.map_some, Option.some.injEq] at hsame
  cases t with
  | file content =>
      cases t' with
      | file content' =>
          cases hsame
          exact .inl ⟨content, rfl, rfl⟩
      | directory entries' => cases hsame
  | directory entries =>
      cases t' with
      | file content' => cases hsame
      | directory entries' => exact .inr ⟨entries, entries', rfl, rfl⟩

/-- What may be at a path of both trees. -/
theorem find?_cases (h : t.Reordered t') (path : Path) :
    (t.find? path = none ∧ t'.find? path = none) ∨
      (∃ content, t.find? path = some (.file content) ∧ t'.find? path = some (.file content)) ∨
      ∃ entries entries', t.find? path = some (.directory entries) ∧
        t'.find? path = some (.directory entries') ∧
        (directory entries).Reordered (directory entries') := by
  have hrel := h.find?_rel path
  generalize t.find? path = node? at hrel ⊢
  generalize t'.find? path = node?' at hrel ⊢
  cases hrel with
  | none => exact .inl ⟨rfl, rfl⟩
  | some hnode =>
      obtain ⟨content, rfl, rfl⟩ | ⟨entries, entries', rfl, rfl⟩ := hnode.file_or_directory
      · exact .inr (.inl ⟨content, rfl, rfl⟩)
      · exact .inr (.inr ⟨entries, entries', rfl, rfl, hnode⟩)

end Reordered

/-- Directories are reordered if each name stands for reordered nodes. -/
theorem reordered_directory (hnames : (Assoc.names entries).Nodup)
    (hnames' : (Assoc.names entries').Nodup)
    (hlookup : ∀ name, Option.Rel Reordered (entries.lookup name) (entries'.lookup name)) :
    (directory entries).Reordered (directory entries') := by
  have hnodes : ∀ {child? child?' : Option Tree}, Option.Rel Reordered child? child?' →
      (∀ child ∈ child?, child.DistinctEntries) ∧ ∀ child ∈ child?', child.DistinctEntries := by
    intro child? child?' hrel
    cases hrel with
    | none => simp
    | some hchild => simp [hchild.distinct, hchild.distinct']
  refine ⟨fun path => ?_, distinctEntries_directory hnames ?_, distinctEntries_directory hnames' ?_⟩
  · cases path with
    | nil => rfl
    | cons name path =>
        have hrel := hlookup name
        rw [find?_cons, find?_cons, entries_directory, entries_directory]
        generalize entries.lookup name = child? at hrel ⊢
        generalize entries'.lookup name = child?' at hrel ⊢
        cases hrel with
        | none => rfl
        | some hchild => exact hchild.same path
  · intro entry hmem
    exact (hnodes (hlookup entry.1)).1 _ ((Assoc.lookup_eq_some hnames).mpr hmem)
  · intro entry hmem
    exact (hnodes (hlookup entry.1)).2 _ ((Assoc.lookup_eq_some hnames').mpr hmem)

/-- Directories are reordered if the entries of the one, each with its node reordered, are those of
the other in some order. -/
theorem reordered_directory_of_perm {middle : List (String × Tree)}
    (hnames : (Assoc.names entries).Nodup)
    (hnodes : List.Forall₂ (fun entry entry' => entry.1 = entry'.1 ∧ entry.2.Reordered entry'.2)
      entries middle)
    (hperm : middle.Perm entries') : (directory entries).Reordered (directory entries') := by
  have hmiddle : Assoc.names middle = Assoc.names entries ∧
      ∀ name, Option.Rel Reordered (entries.lookup name) (middle.lookup name) := by
    clear hnames hperm
    induction hnodes with
    | nil => exact ⟨rfl, fun _ => .none⟩
    | @cons entry entry' entries middle hentry _ ih =>
        obtain ⟨first, child⟩ := entry
        obtain ⟨first', child'⟩ := entry'
        obtain ⟨rfl : first = first', hchild⟩ := hentry
        refine ⟨by rw [Assoc.names_cons, Assoc.names_cons, ih.1], fun name => ?_⟩
        rw [List.lookup_cons, List.lookup_cons]
        cases name == first with
        | true => exact .some hchild
        | false => exact ih.2 name
  have hnames' : (Assoc.names middle).Nodup := hmiddle.1 ▸ hnames
  refine reordered_directory hnames ((Assoc.names_perm hperm).nodup_iff.mp hnames') fun name => ?_
  rw [← Assoc.lookup_eq_of_perm hnames' hperm name]
  exact hmiddle.2 name

/-! ### Changing -/

theorem distinctEntries_empty : empty.DistinctEntries :=
  distinctEntries_directory List.nodup_nil (by simp)

namespace Reordered

/-- Reordered trees stay so when reordered nodes are put at one path. -/
theorem put (h : t.Reordered t') (path : Path) {new new' : Tree} (hnew : new.Reordered new') :
    (t.put path new).Reordered (t'.put path new') := by
  induction path generalizing t t' with
  | nil => exact hnew
  | cons name path ih =>
      have hchild : ((t.entries.lookup name).getD empty).Reordered
          ((t'.entries.lookup name).getD empty) := by
        have hrel := h.lookup_rel name
        generalize t.entries.lookup name = child? at hrel ⊢
        generalize t'.entries.lookup name = child?' at hrel ⊢
        cases hrel with
        | none => exact .refl distinctEntries_empty
        | some hchild => exact hchild
      refine reordered_directory (Assoc.nodup_names_put h.distinct.nodup _)
        (Assoc.nodup_names_put h.distinct'.nodup _) fun other => ?_
      by_cases heq : other = name
      · subst heq
        rw [Assoc.lookup_put_self, Assoc.lookup_put_self]
        exact .some (ih hchild)
      · rw [Assoc.lookup_put_of_ne heq, Assoc.lookup_put_of_ne heq]
        exact h.lookup_rel other

end Reordered

/-! ### Following steps -/

namespace Reordered

theorem path_follow_eq (h : t.Reordered t') (trail : Path) (steps : List Step) :
    (t'.follow trail (t'.find? trail.reverse) steps).map Spot.path =
      (t.follow trail (t.find? trail.reverse) steps).map Spot.path := by
  induction steps generalizing trail with
  | nil => rfl
  | cons step steps ih =>
      obtain ⟨hnode, hnode'⟩ | ⟨content, hnode, hnode'⟩ | ⟨entries, entries', hnode, hnode', -⟩ :=
        h.find?_cases trail.reverse
      · rw [hnode, hnode']
        rfl
      · rw [hnode, hnode']
        rfl
      · rw [hnode, hnode']
        cases step with
        | stay =>
            have hrest := ih trail
            rwa [hnode, hnode'] at hrest
        | up => exact ih (outer trail)
        | down name =>
            have hrest := ih (name :: trail)
            rw [List.reverse_cons, find?_append, find?_append, hnode, hnode'] at hrest
            simp only [follow]
            split
            · rfl
            · simpa [find?_cons] using hrest

/-- Steps lead to the same path on both disks, or fail with the same error. -/
theorem spot_eq_or (h : t.Reordered t') (steps : List Step) :
    (∃ e, t.spot steps = .error e ∧ t'.spot steps = .error e) ∨
      ∃ path, t.spot steps = .ok ⟨path, t.find? path⟩ ∧
        t'.spot steps = .ok ⟨path, t'.find? path⟩ := by
  have hpath : (t'.spot steps).map Spot.path = (t.spot steps).map Spot.path :=
    h.path_follow_eq [] steps
  cases hs : t.spot steps with
  | error e =>
      cases hs' : t'.spot steps with
      | error e' =>
          rw [hs, hs'] at hpath
          cases hpath
          exact .inl ⟨e, rfl, rfl⟩
      | ok s' =>
          rw [hs, hs'] at hpath
          cases hpath
  | ok s =>
      cases hs' : t'.spot steps with
      | error e' =>
          rw [hs, hs'] at hpath
          cases hpath
      | ok s' =>
          rw [hs, hs'] at hpath
          have hsame : s'.path = s.path := Except.ok.inj hpath
          refine .inr ⟨s.path, ?_, ?_⟩
          · rw [find?_spot hs]
          · rw [← hsame, find?_spot hs']

/-! ### Making directories -/

/-- A directory is made on both disks, or on neither. -/
theorem makeDir_eq_or (h : t.Reordered t') (steps : List Step) :
    (∃ e, t.makeDir steps = .error e ∧ t'.makeDir steps = .error e) ∨
      ∃ made made', t.makeDir steps = .ok made ∧ t'.makeDir steps = .ok made' ∧
        made.Reordered made' := by
  unfold makeDir
  obtain ⟨e, hs, hs'⟩ | ⟨path, hs, hs'⟩ := h.spot_eq_or steps
  · rw [hs, hs']
    exact .inl ⟨e, rfl, rfl⟩
  · rw [hs, hs']
    obtain ⟨hnode, hnode'⟩ | ⟨content, hnode, hnode'⟩ | ⟨entries, entries', hnode, hnode', -⟩ :=
      h.find?_cases path
    · rw [hnode, hnode']
      exact .inr ⟨_, _, rfl, rfl, h.put path (.refl distinctEntries_empty)⟩
    · rw [hnode, hnode']
      exact .inl ⟨_, rfl, rfl⟩
    · rw [hnode, hnode']
      exact .inr ⟨t, t', rfl, rfl, h⟩

theorem makeWay (h : t.Reordered t') (steps : List Step) :
    (t'.makeWay steps).1 = (t.makeWay steps).1 ∧
      (t.makeWay steps).2.Reordered (t'.makeWay steps).2 := by
  induction steps with
  | nil => exact ⟨rfl, h⟩
  | cons step above ih =>
      rw [Tree.makeWay, Tree.makeWay]
      obtain ⟨e, hmade, hmade'⟩ | ⟨made, made', hmade, hmade', hreordered⟩ :=
        h.makeDir_eq_or (step :: above).reverse
      · rw [hmade, hmade']
        cases e with
        | notFound =>
            -- Something is missing on the way, so the way is made before, and then the directory.
            dsimp only
            obtain ⟨hway, hleft⟩ := ih
            generalize t.makeWay above = way at hway hleft ⊢
            generalize t'.makeWay above = way' at hway hleft ⊢
            obtain ⟨result, left⟩ := way
            obtain ⟨result', left'⟩ := way'
            obtain rfl : result' = result := hway
            cases result' with
            | error e => exact ⟨rfl, hleft⟩
            | ok _ =>
                dsimp only
                obtain ⟨e, hmade, hmade'⟩ | ⟨made, made', hmade, hmade', hreordered⟩ :=
                  hleft.makeDir_eq_or (step :: above).reverse
                · rw [hmade, hmade']
                  exact ⟨rfl, hleft⟩
                · rw [hmade, hmade']
                  exact ⟨rfl, hreordered⟩
        | _ => exact ⟨rfl, h⟩
      · rw [hmade, hmade']
        exact ⟨rfl, hreordered⟩

/-- Making a directory with those around it succeeds on both disks or fails alike on both, and what
has been made is the same. -/
theorem makeDirs (h : t.Reordered t') (p : Place) :
    (t'.makeDirs p).1 = (t.makeDirs p).1 ∧
      (t.makeDirs p).2.Reordered (t'.makeDirs p).2 := by
  unfold Tree.makeDirs
  split
  · exact ⟨rfl, h⟩
  · exact h.makeWay p.steps.reverse

/-! ### Listing -/

/-- A directory is listed on both disks, with the same entries in some order, or on neither. -/
theorem list_eq_or (h : t.Reordered t') (p : Place) :
    (∃ e, t.list p = .error e ∧ t'.list p = .error e) ∨
      ∃ entries entries', t.list p = .ok entries ∧ t'.list p = .ok entries' ∧
        (directory entries).Reordered (directory entries') := by
  unfold list locate
  cases p.error? with
  | some e => exact .inl ⟨e, rfl, rfl⟩
  | none =>
      dsimp only
      obtain ⟨e, hs, hs'⟩ | ⟨path, hs, hs'⟩ := h.spot_eq_or p.steps
      · rw [hs, hs']
        exact .inl ⟨e, rfl, rfl⟩
      · rw [hs, hs']
        obtain ⟨hnode, hnode'⟩ | ⟨content, hnode, hnode'⟩ |
          ⟨entries, entries', hnode, hnode', hentries⟩ := h.find?_cases path
        · rw [hnode, hnode']
          exact .inl ⟨_, rfl, rfl⟩
        · rw [hnode, hnode']
          exact .inl ⟨_, rfl, rfl⟩
        · rw [hnode, hnode']
          exact .inr ⟨entries, entries', rfl, rfl, hentries⟩

end Reordered

end Campus.Tree
