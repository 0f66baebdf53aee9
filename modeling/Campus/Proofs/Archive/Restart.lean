import Campus.Proofs.Archive.Isolation
import Campus.Proofs.Registry.Mirror

/-!
# Opening an archive again

An archive on a data directory that no one else changes can be closed and opened again at any time:
`Archive.restart_runAlone` says that the archive that is opened has the same datasets and answers
all queries alike. The invariant is `Archive.Mirrored`: the data directory mirrors the registry and
the catalog is a copy of it.

The two archives may list different numbers of rows, and list the datasets in different orders. So
they do not have the same registry, but they agree on the kind and on the batches of every dataset,
which is all that a query depends on (`Engine.result_ask_of_agree_all`).
-/

namespace Campus

/-- Engines answer all queries alike that agree on all datasets. -/
theorem Engine.result_ask_of_agree_all {e e' : Engine} {source source' : Source}
    (hcatalog : ∀ id, e'.catalog.kindOf? id = e.catalog.kindOf? id)
    (hkind : ∀ id, source'.kindOf? id = source.kindOf? id)
    (hbatches : ∀ id, source'.batches id = source.batches id) (stamp stamp' : Stamp)
    (query : Json) :
    (e'.ask source' stamp' query).result = (e.ask source stamp query).result := by
  cases hq : Query.ofJson e.catalog query with
  | ok q => exact result_ask_of_agree hq (hcatalog _) (hkind _) (hbatches _) stamp stamp'
  | error rejection =>
      cases hq' : Query.ofJson e'.catalog query with
      | error rejection' =>
          simp only [ask, conclude, outcome, hq, hq']
          rfl
      | ok q =>
          rw [Query.ofJson_of_kindOf?_eq hq' (hcatalog q.dataset).symm] at hq
          cases hq

namespace Archive

variable {a b : Archive} {disk : Tree} {place : Place}

/-! ### The invariant -/

/-- The data directory mirrors the registry, and so does the catalog. -/
def Mirrored (a : Archive) (disk : Tree) : Prop :=
  a.Sound false ∧ ∃ node, a.registry.Mirrors disk node

/-- Removing does not fail on the disk, so the catalog never begins to lag behind. -/
theorem Mirrored.lagsAfter_eq_false (h : a.Mirrored disk) (c : Call) :
    a.lagsAfter disk false c = false := by
  obtain ⟨-, node, hmirrors⟩ := h
  cases c with
  | add id kind records =>
      rw [lagsAfter]
      split <;> rfl
  | remove id =>
      rw [lagsAfter]
      split
      · rfl
      · next hresult => rw [hmirrors.fromDisk_of_remove hresult, Bool.or_false]
  | ask stamp query => rfl

theorem Mirrored.call (h : a.Mirrored disk) (c : Call) :
    (a.call disk c).Mirrored (a.diskAfter disk c) := by
  have hlags := h.lagsAfter_eq_false c
  obtain ⟨hsound, node, hmirrors⟩ := h
  refine ⟨hlags ▸ hsound.call c, ?_⟩
  cases c with
  | add id kind records =>
      rw [Archive.call, diskAfter, Archive.add, registry_follow, disk_follow]
      exact hmirrors.add id kind records
  | remove id =>
      rw [Archive.call, diskAfter, Archive.remove, registry_follow, disk_follow]
      exact hmirrors.remove id
  | ask stamp query => exact ⟨node, hmirrors⟩

theorem Mirrored.runAlone (h : a.Mirrored disk) (calls : List Call) :
    (a.runAlone disk calls).1.Mirrored (a.runAlone disk calls).2 := by
  induction calls generalizing a disk with
  | nil => exact h
  | cons c calls ih => exact ih (h.call c)

theorem place_runAlone (a : Archive) (disk : Tree) (calls : List Call) :
    (a.runAlone disk calls).1.registry.place = a.registry.place := by
  induction calls generalizing a disk with
  | nil => rfl
  | cons c calls ih => exact (ih _ _).trans (place_call a disk c)

theorem mirrored_of_empty (hempty : disk.list place = .ok [])
    (hopened : (Registry.openAt place disk).archive = .ok a) :
    a.registry.place = place ∧ a.Mirrored (Registry.openAt place disk).disk := by
  obtain ⟨rfl, path, hholds⟩ := openAt_of_empty hempty hopened
  obtain ⟨entries, hspot, -⟩ := hholds.found
  obtain rfl : path = place.path := Tree.path_of_spot hspot
  exact ⟨rfl, sound_of_openAt hopened, _, .of_empty hempty hholds⟩

/-! ### Opening again -/

/-- Two archives with the same datasets at the same place answer all queries alike. -/
theorem result_ask_of_perm (ha : a.Sound false) (hb : b.Sound false)
    (hplace : b.registry.place = a.registry.place)
    (hperm : b.registry.datasets.Perm a.registry.datasets) (stamp stamp' : Stamp) (query : Json) :
    (b.ask disk stamp query).result = (a.ask disk stamp' query).result := by
  have hnames : (Assoc.names b.registry.datasets).Nodup := by
    rw [Registry.names_datasets]
    exact hb.wellFormed.distinct
  have hlookup := Assoc.lookup_eq_of_perm hnames hperm
  have hkind : ∀ id, (b.source disk).kindOf? id = (a.source disk).kindOf? id := hlookup
  refine Engine.result_ask_of_agree_all (fun id => ?_) hkind (fun id => ?_) stamp' stamp query
  · rw [ha.copy rfl, hb.copy rfl]
    exact hlookup id
  · refine Registry.batches_congr hplace ?_ disk
    rw [← Registry.kindOf?_source _ disk, ← Registry.kindOf?_source _ disk]
    exact hkind id

/-- A mirrored archive is opened again with the same datasets, kind by kind and in the order of
their ids. -/
theorem Mirrored.exists_reopened (h : a.Mirrored disk) :
    ∃ b, (Registry.openAt a.registry.place disk).archive = .ok b ∧
      (Registry.openAt a.registry.place disk).disk = disk ∧
      b.registry.place = a.registry.place ∧
      b.registry.datasets.Perm a.registry.datasets ∧
      ∃ names : Kind → List String, (∀ kind, (names kind).Pairwise (· < ·)) ∧
        b.registry.datasets =
          Kind.all.flatMap fun kind => (names kind).map fun id => (id, kind) := by
  obtain ⟨-, node, hmirrors⟩ := h
  obtain ⟨hresult, hdisk⟩ := hmirrors.holds.openAt_eq fun _ => rfl
  refine ⟨ofRegistry (Registry.ofKinds a.registry.place fun kind => .directory (node kind)), ?_,
    hdisk, Registry.place_ofKinds _ _, hmirrors.datasets_ofKinds_perm hresult,
    fun kind => Assoc.names (Registry.sortedDirectories (node kind)),
    fun kind => Registry.pairwise_sortedDirectories (hmirrors.distinct kind),
    hmirrors.datasets_ofKinds⟩
  rw [Opening.archive, hresult]

/-- Whatever datasets were added to a data directory that was empty and removed from it, an archive
that is opened on it afterwards has the same datasets, those of courses before those of rooms and
each in the order of their ids, and answers all queries alike. -/
theorem restart_runAlone (hempty : disk.list place = .ok [])
    (hopened : (Registry.openAt place disk).archive = .ok a) (calls : List Call) :
    let live := a.runAlone (Registry.openAt place disk).disk calls
    let reopening := Registry.openAt place live.2
    ∃ b, reopening.archive = .ok b ∧
      b.registry.datasets.Perm live.1.registry.datasets ∧
      (∃ courses rooms : List String, courses.Pairwise (· < ·) ∧ rooms.Pairwise (· < ·) ∧
        b.registry.datasets = courses.map (fun id => (id, .courses)) ++
          rooms.map fun id => (id, .rooms)) ∧
      ∀ stamp stamp' query, (b.ask reopening.disk stamp query).result =
        (live.1.ask live.2 stamp' query).result := by
  intro live reopening
  obtain ⟨hplace, hmirrored⟩ := mirrored_of_empty hempty hopened
  have hlive : live.1.Mirrored live.2 := hmirrored.runAlone calls
  have hplace' : live.1.registry.place = place := (place_runAlone _ _ calls).trans hplace
  obtain ⟨b, hb, hdisk, hbplace, hperm, names, hsorted, hdatasets⟩ := hlive.exists_reopened
  rw [hplace'] at hb hdisk
  refine ⟨b, hb, hperm, ⟨names .courses, names .rooms, hsorted _, hsorted _, ?_⟩, ?_⟩
  · simpa [Kind.all] using hdatasets
  · intro stamp stamp' query
    rw [show reopening.disk = live.2 from hdisk]
    exact result_ask_of_perm hlive.1 (sound_of_openAt hb) hbplace hperm stamp stamp' query

/-- Two datasets are added to an empty data directory and one of them is removed; an archive that is
opened afterwards answers a query of the other. -/
theorem restart_runAlone_sections :
    let place := Place.ofText "data"
    let disk := Tree.directory [("data", .empty)]
    let a := ofRegistry ⟨place, []⟩
    let live := a.runAlone (Registry.openAt place disk).disk
      [addSection "d", addSection "c", .remove "c"]
    disk.list place = .ok [] ∧ (Registry.openAt place disk).archive = .ok a ∧
      live.1.registry.datasets = [("d", .courses)] ∧
      ∃ b, (Registry.openAt place live.2).archive = .ok b ∧
        (b.ask (Registry.openAt place live.2).disk ⟨"q", "1"⟩
          (columnQuery "d_dept")).result.toOption.map List.length = some 1 := by
  intro place disk a live
  have hempty : disk.list place = .ok [] := by
    have hallowed : place.error? = none := by decide +kernel
    have hsteps : place.steps = [.down "data"] := by decide +kernel
    rw [Tree.list, Tree.locate_eq_spot hallowed, hsteps]
    rfl
  have hopened : (Registry.openAt place disk).archive = .ok a := by decide +kernel
  have hdatasets : live.1.registry.datasets = [("d", .courses)] := by decide +kernel
  have hone : (live.1.ask live.2 ⟨"q", "1"⟩ (columnQuery "d_dept")).result.toOption.map
      List.length = some 1 := by
    decide +kernel
  obtain ⟨b, hb, -, -, hsame⟩ := restart_runAlone hempty hopened
    [addSection "d", addSection "c", .remove "c"]
  refine ⟨hempty, hopened, hdatasets, b, hb, ?_⟩
  rw [hsame ⟨"q", "1"⟩ ⟨"q", "1"⟩]
  exact hone

end Archive

end Campus
