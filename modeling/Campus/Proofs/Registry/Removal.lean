import Campus.Proofs.Registry.DataDirectory

/-!
# Removing a dataset for good

A registry is found again in the directories of the kinds, and of two directories with one name only
the first is registered. Removing takes away the directory that was registered. So a registry that
is opened afterwards has the id again exactly if another kind has a directory of that name, or if
opening has to make the directory anew because the data directory is reached through it
(`Registry.mem_ids_reopened_iff`).
-/

namespace Campus

namespace Registry

variable {r r' : Registry} {disk : Tree} {kind : Kind} {id : String} {place : Place} {l : Listing}
  {entries : List (String × Tree)}

/-! ### What opening registers -/

theorem mem_ids_registerAll_iff (hvalid : isValidId id = true) :
    id ∈ (r.registerAll kind entries).1.ids ↔ id ∈ r.ids ∨ id ∈ Assoc.names entries := by
  induction entries generalizing r with
  | nil => simp [registerAll]
  | cons entry entries ih =>
      obtain ⟨name, t⟩ := entry
      have hfirst : id ∈ (r.register kind (name, t)).1.ids ↔ id ∈ r.ids ∨ id = name := by
        rw [← names_datasets, datasets_register]
        split
        · rw [Assoc.names_append, names_datasets, List.mem_append]
          simp
        · next htaken =>
          rw [names_datasets, iff_self_or]
          rintro rfl
          by_contra hfree
          exact htaken ⟨hvalid, hfree⟩
      rw [registerAll]
      dsimp only
      rw [ih, hfirst, Assoc.names_cons, List.mem_cons, or_assoc]

theorem mem_names_sortedDirectories_iff :
    id ∈ Assoc.names (sortedDirectories entries) ↔
      ∃ inner, (id, Tree.directory inner) ∈ entries := by
  unfold sortedDirectories
  rw [(Assoc.names_perm (List.mergeSort_perm _ _)).mem_iff]
  constructor
  · intro h
    obtain ⟨⟨name, t⟩, hmem, rfl⟩ := List.mem_map.mp h
    obtain ⟨hmem, hdirectory⟩ := List.mem_filter.mp hmem
    cases t with
    | file content => cases hdirectory
    | directory inner => exact ⟨inner, hmem⟩
  · intro h
    obtain ⟨inner, hmem⟩ := h
    exact Assoc.mem_names_of_mem (List.mem_filter.mpr ⟨hmem, rfl⟩)

/-- A valid id is registered if some kind has a directory of that name. -/
theorem mem_ids_ofKinds_iff (hvalid : isValidId id = true) {node : Kind → Tree} :
    id ∈ (ofKinds place node).ids ↔
      ∃ kind inner, (id, Tree.directory inner) ∈ (node kind).entries := by
  have hfoldl : ∀ (kinds : List Kind) (r : Registry),
      id ∈ (kinds.foldl (fun r kind =>
        (r.registerAll kind (sortedDirectories (node kind).entries)).1) r).ids ↔
        id ∈ r.ids ∨ ∃ kind ∈ kinds, ∃ inner, (id, Tree.directory inner) ∈ (node kind).entries := by
    intro kinds
    induction kinds with
    | nil => simp
    | cons kind kinds ih =>
        intro r
        rw [List.foldl_cons, ih, mem_ids_registerAll_iff hvalid, mem_names_sortedDirectories_iff]
        simp [or_assoc]
  have hall : ∀ kind : Kind, kind ∈ Kind.all := by
    intro kind
    cases kind <;> decide
  rw [ofKinds, hfoldl]
  simp [ids, hall]

/-- The directories of the kinds, as they are listed. -/
theorem HasKinds.exists_holdsKinds (h : r.HasKinds disk) :
    ∃ inner : Kind → List (String × Tree),
      (disk.HoldsKinds r.place r.place.path fun kind => .directory (inner kind)) ∧
      ∀ kind, disk.list (r.kindPlace kind) = .ok (inner kind) := by
  choose inner hlist using h
  have hentries : ∀ kind, ∃ path, disk.HasEntries (r.kindPlace kind) path (inner kind) :=
    fun kind => Tree.hasEntries_of_list (hlist kind)
  -- All kinds are entries of one directory.
  have haround : ∀ kind : Kind, ∃ entries,
      disk.spot r.place.steps = .ok ⟨r.place.path, some (.directory entries)⟩ ∧
        entries.lookup kind.name = some (.directory (inner kind)) := by
    intro kind
    obtain ⟨path, hpath⟩ := hentries kind
    obtain ⟨above, entries, hspot, -, heq⟩ := Tree.spot_child_eq_ok_iff.mp hpath.spot_eq
    obtain rfl : above = r.place.path := Tree.path_of_spot hspot
    exact ⟨entries, hspot, (congrArg Spot.node? heq).symm⟩
  obtain ⟨entries, hspot, -⟩ := haround .courses
  refine ⟨inner, ⟨⟨entries, hspot, fun kind => ?_⟩, fun kind => ?_⟩, hlist⟩
  · obtain ⟨entries', hspot', hlookup⟩ := haround kind
    rw [hspot] at hspot'
    cases hspot'
    exact hlookup
  · obtain ⟨path, hpath⟩ := hentries kind
    exact hpath.error?_eq_none

/-! ### Removing -/

/-- A directory of another kind has the id of the dataset for its name. -/
def Repeated (r : Registry) (disk : Tree) (kind : Kind) (id : String) : Prop :=
  ∃ other, other ≠ kind ∧ ∃ entries inner, disk.list (r.kindPlace other) = .ok entries ∧
    (id, Tree.directory inner) ∈ entries

/-- A dataset that is removed has had a directory, and now has none. -/
theorem exists_of_remove_eq_ok (h : (r.remove disk id).result = .ok l) :
    isValidId id = true ∧
      (r.remove disk id).disk = disk.erase (r.datasetPlace l.kind id).path := by
  have hvalid : isValidId id = true := by
    by_contra hinvalid
    rw [remove, if_pos (by simpa using hinvalid)] at h
    cases h
  refine ⟨hvalid, ?_⟩
  have hremoves := r.removes disk id
  generalize r.remove disk id = change at hremoves h ⊢
  cases hremoves with
  | refused reason => cases h
  | failed found failure => cases h
  | done found success =>
      cases h
      unfold Tree.removeTree at success
      split at success
      · cases success
      · cases success
      · cases success
      · next path entries hlocate =>
        cases success
        rw [← Tree.HasEntries.path_eq hlocate]

/-- What is left of the directories of the kinds, if the data directory is still reached. -/
theorem HasKinds.exists_holdsKinds_erase (h : r.HasKinds disk)
    (hway : ¬ r.place.LeadsThrough (r.datasetPlace kind id).path) :
    ∃ inner : Kind → List (String × Tree),
      ((disk.erase (r.datasetPlace kind id).path).HoldsKinds r.place r.place.path
        (Function.update (fun kind => .directory (inner kind)) kind
          (.directory ((inner kind).filter fun entry => entry.1 != id)))) ∧
      ∀ kind, disk.list (r.kindPlace kind) = .ok (inner kind) := by
  obtain ⟨inner, hholds, hlist⟩ := h.exists_holdsKinds
  rw [path_datasetPlace] at hway ⊢
  exact ⟨inner, hholds.erase rfl hway, hlist⟩

theorem isDirectory_update (inner : Kind → List (String × Tree)) (kind : Kind)
    (entries : List (String × Tree)) (other : Kind) :
    (Function.update (fun kind => Tree.directory (inner kind)) kind (.directory entries)
      other).isDirectory = true := by
  rw [Function.update_apply]
  split <;> rfl

/-- Without the directory of a dataset, an id is found again in the directories of other kinds. -/
theorem exists_mem_update_iff {inner : Kind → List (String × Tree)}
    (hlist : ∀ kind, disk.list (r.kindPlace kind) = .ok (inner kind)) :
    (∃ other found, (id, Tree.directory found) ∈
      (Function.update (fun kind => Tree.directory (inner kind)) kind
        (.directory ((inner kind).filter fun entry => entry.1 != id)) other).entries) ↔
      r.Repeated disk kind id := by
  constructor
  · intro h
    obtain ⟨other, found, hmem⟩ := h
    by_cases heq : other = kind
    · subst heq
      rw [Function.update_self] at hmem
      simp at hmem
    · rw [Function.update_of_ne heq] at hmem
      exact ⟨other, heq, inner other, found, hlist other, hmem⟩
  · intro h
    obtain ⟨other, hne, entries, found, hentries, hmem⟩ := h
    rw [hlist] at hentries
    cases hentries
    refine ⟨other, found, ?_⟩
    rw [Function.update_of_ne hne]
    exact hmem

/-! ### A data directory that is reached through a dataset -/

/-- Opening makes the way to the data directory and the directories of the kinds, and registers what
is there then. -/
theorem exists_made_of_openAt (h : (openAt place disk).result = .ok r) :
    ∃ (made : Tree) (entries : List (String × Tree)),
      (∀ before, before <+: place.steps → made.HasDirectory (pathOf before)) ∧
      made.spot place.steps = .ok ⟨place.path, some (.directory entries)⟩ ∧
      r = ofKinds place (kindNode entries) ∧ r.HasKinds (openAt place disk).disk := by
  have hcons : ((Registry.mk place []).openKinds disk (.courses :: [.rooms])).result = .ok r := h
  obtain ⟨made, listed, hmade, hlist, hrest, hdisk⟩ := exists_openKinds_cons hcons
  obtain ⟨path, hentries⟩ := Tree.hasEntries_of_list hlist
  obtain ⟨above, entries, hspot, -⟩ := Tree.spot_child_eq_ok_iff.mp hentries.spot_eq
  obtain rfl : above = place.path := Tree.path_of_spot hspot
  -- The directories are there, so opening again changes nothing.
  have hagain : (openAt place made).result = .ok r ∧
      (openAt place made).disk = (openAt place disk).disk := by
    simp only [openAt, Kind.all] at hdisk ⊢
    rw [hdisk, openKinds, hentries.makeDirs_eq]
    simp only [hlist, and_true]
    exact hrest
  obtain ⟨rfl, hholds, hdirectories⟩ := openAt_of_spot hspot hagain.1
  rw [hagain.2] at hholds
  refine ⟨made, entries, fun before hbefore => ?_, hspot, rfl, fun kind => ?_⟩
  · obtain ⟨behind, hbehind⟩ := hbefore
    obtain ⟨step, others, hothers⟩ : ∃ step others,
        behind ++ [Step.down Kind.courses.name] = step :: others := by
      cases behind <;> exact ⟨_, _, rfl⟩
    have hspot' : made.spot (before ++ step :: others) = .ok ⟨path, some (.directory listed)⟩ := by
      rw [← hothers, ← List.append_assoc, hbehind]
      exact hentries.spot_eq
    exact Tree.hasDirectory_of_spot hspot'
  · obtain ⟨inner, hinner⟩ := Tree.exists_of_isDirectory (hdirectories kind)
    rw [kindPlace, place_ofKinds]
    exact ⟨inner, (hholds.hasEntries hinner).list_eq⟩

/-- What the data directory is reached through is made by opening it. -/
theorem mem_ids_of_leadsThrough (hvalid : isValidId id = true)
    (h : r.place.LeadsThrough (r.datasetPlace kind id).path)
    (hopened : (openAt r.place disk).result = .ok r') : id ∈ r'.ids := by
  obtain ⟨made, entries, hway, hspot, rfl, -⟩ := exists_made_of_openAt hopened
  obtain ⟨before, hbefore, htarget⟩ := h
  obtain ⟨inner, hinner⟩ := (hway before hbefore).above htarget
  rw [path_datasetPlace, Tree.find?_append, Tree.find?_spot hspot] at hinner
  rw [mem_ids_ofKinds_iff hvalid]
  -- The directory of the dataset is found in that of its kind.
  simp only [Option.bind_some, Tree.find?_cons, Tree.entries_directory, Tree.find?_nil,
    Option.bind_eq_some_iff, Option.some.injEq] at hinner
  obtain ⟨node, hnode, child, hchild, rfl⟩ := hinner
  refine ⟨kind, inner, ?_⟩
  rw [kindNode, hnode, Option.getD_some]
  exact Assoc.mem_of_lookup hchild

/-! ### Opening after a removal -/

/-- After a dataset is removed, its data directory can be opened, unless it was reached through the
dataset; and a registry that is opened on it has the id exactly if another kind has a directory of
that name or the data directory was reached through the dataset. -/
theorem HasKinds.mem_ids_openAt_remove_iff (hkinds : r.HasKinds disk)
    (h : (r.remove disk id).result = .ok l) :
    let left := (r.remove disk id).disk
    let through := r.place.LeadsThrough (r.datasetPlace l.kind id).path
    (¬ through → ∃ r', (openAt r.place left).result = .ok r') ∧
      ∀ r', (openAt r.place left).result = .ok r' →
        (id ∈ r'.ids ↔ r.Repeated disk l.kind id ∨ through) := by
  intro left through
  obtain ⟨hvalid, hleft⟩ := exists_of_remove_eq_ok h
  have hopen : ¬ through → ∃ r', (openAt r.place left).result = .ok r' ∧
      (id ∈ r'.ids ↔ r.Repeated disk l.kind id) := by
    intro hway
    obtain ⟨inner, hholds, hlist⟩ := hkinds.exists_holdsKinds_erase hway
    rw [← hleft] at hholds
    obtain ⟨hopened, -⟩ := hholds.openAt_eq (isDirectory_update inner l.kind _)
    exact ⟨_, hopened, (mem_ids_ofKinds_iff hvalid).trans (exists_mem_update_iff hlist)⟩
  refine ⟨fun hway => ?_, fun r' hr' => ?_⟩
  · obtain ⟨r', hr', -⟩ := hopen hway
    exact ⟨r', hr'⟩
  · by_cases hway : through
    · exact iff_of_true (mem_ids_of_leadsThrough hvalid hway hr') (.inr hway)
    · obtain ⟨opened, hopened, hiff⟩ := hopen hway
      rw [hr'] at hopened
      cases hopened
      rw [hiff, or_iff_left hway]

/-- What lies in a data directory is opened, one dataset is removed, and what is left is opened
again: the id is there again exactly if another kind has a directory of that name, which was left
out as a repetition before, or the data directory was reached through the dataset. -/
theorem mem_ids_reopened_iff (hopened : (openAt place disk).result = .ok r)
    (h : (r.remove (openAt place disk).disk id).result = .ok l) :
    let left := (r.remove (openAt place disk).disk id).disk
    let through := place.LeadsThrough (r.datasetPlace l.kind id).path
    (¬ through → ∃ r', (openAt place left).result = .ok r') ∧
      ∀ r', (openAt place left).result = .ok r' →
        (id ∈ r'.ids ↔ r.Repeated (openAt place disk).disk l.kind id ∨ through) := by
  obtain ⟨made, entries, -, -, hr, hkinds⟩ := exists_made_of_openAt hopened
  have hplace : r.place = place := by
    rw [hr, place_ofKinds]
  have hiff := hkinds.mem_ids_openAt_remove_iff h
  rwa [hplace] at hiff

/-- A data directory with one dataset, which has no files. -/
def singleDisk : Tree := Tree.empty.put ["data", "courses", "c"] .empty

/-- The registry of that data directory. -/
def singleRegistry : Registry := ⟨sampleRegistry.place, [⟨"c", .courses, 0⟩]⟩

/-- Where one directory only has the id for its name, the dataset is gone for good. -/
theorem mem_ids_reopened_single :
    let opening := openAt sampleRegistry.place singleDisk
    opening.result = .ok singleRegistry ∧
      ∃ r', (openAt sampleRegistry.place (singleRegistry.remove opening.disk "c").disk).result =
        .ok r' ∧ "c" ∉ r'.ids := by
  intro opening
  have hopened : opening.result = .ok singleRegistry := by
    decide +kernel
  have hremoved : (singleRegistry.remove opening.disk "c").result = .ok ⟨"c", .courses, 0⟩ := by
    decide +kernel
  have hway : ¬ sampleRegistry.place.LeadsThrough
      (singleRegistry.datasetPlace .courses "c").path := by
    decide +kernel
  have hrooms : (opening.disk.list (singleRegistry.kindPlace .rooms)).toOption.map Assoc.names =
      some [] := by
    decide +kernel
  have hsingle : ¬ singleRegistry.Repeated opening.disk .courses "c" := by
    rintro ⟨other, hother, entries, inner, hlist, hmem⟩
    cases other with
    | courses => exact hother rfl
    | rooms =>
        rw [hlist] at hrooms
        have hnames := Assoc.mem_names_of_mem hmem
        rw [Option.some.inj hrooms] at hnames
        cases hnames
  obtain ⟨hopens, hiff⟩ := mem_ids_reopened_iff hopened hremoved
  obtain ⟨r', hr'⟩ := hopens hway
  refine ⟨hopened, r', hr', fun hmem => ?_⟩
  rcases (hiff r' hr').mp hmem with hrepeated | hthrough
  · exact hsingle hrepeated
  · exact hway hthrough

/-- A data directory with a directory of one name for each kind. -/
def repeatedDisk : Tree :=
  (Tree.empty.put ["data", "courses", "c"] .empty).put ["data", "rooms", "c"] .empty

/-- A dataset that is removed can come back, from a directory that was left out before. -/
theorem exists_mem_ids_reopened :
    ¬ ∀ (place : Place) (disk : Tree) (r r' : Registry) (id : String) (l : Listing),
      (openAt place disk).result = .ok r →
      (r.remove (openAt place disk).disk id).result = .ok l →
      (openAt place (r.remove (openAt place disk).disk id).disk).result = .ok r' →
      id ∉ r'.ids := by
  intro h
  have hopened : (openAt sampleRegistry.place repeatedDisk).result = .ok singleRegistry := by
    decide +kernel
  refine h sampleRegistry.place repeatedDisk singleRegistry
    ⟨sampleRegistry.place, [⟨"c", .rooms, 0⟩]⟩ "c" ⟨"c", .courses, 0⟩ hopened ?_ ?_ (by decide)
  · decide +kernel
  · decide +kernel

end Registry

end Campus
