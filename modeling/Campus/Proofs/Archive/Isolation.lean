import Campus.Proofs.Archive.Answers
import Campus.Proofs.Archive.Refinement
import Campus.Proofs.Query.Locality
import Campus.Proofs.Registry.Isolation

/-!
# Datasets do not interfere

Adding or removing a dataset concerns the directory of that dataset (`Archive.target?`) and the
queries of it. `Archive.isolated_change` says so of every archive that can come about and every
disk: elsewhere on the disk nothing changes, and a query of another dataset that was answered is
answered alike afterwards, if the directories of the kinds are still found. They are, unless the
data directory is reached through the directory that changes; then they can be lost
(`Archive.not_isolated_detour`).

What a query comes to depends on the kind of its dataset in the catalog, and on the kind and the
batches that the source has for it (`Engine.result_ask_of_agree`). The catalog may lag behind the
registry, but it has every registered dataset with its kind (`Archive.Covers`).
-/

namespace Campus

/-! ### Engines -/

namespace Engine

variable {e e' : Engine} {source source' : Source} {query : Json} {q : Query}

/-- Engines answer a query alike that agree on its dataset. -/
theorem result_ask_of_agree (hq : Query.ofJson e.catalog query = .ok q)
    (hcatalog : e'.catalog.kindOf? q.dataset = e.catalog.kindOf? q.dataset)
    (hkind : source'.kindOf? q.dataset = source.kindOf? q.dataset)
    (hbatches : source'.batches q.dataset = source.batches q.dataset) (stamp stamp' : Stamp) :
    (e'.ask source' stamp' query).result = (e.ask source stamp query).result := by
  have hq' := Query.ofJson_of_kindOf?_eq hq hcatalog
  rw [result_ask_of_ofJson hq, result_ask_of_ofJson hq']
  simp only [Query.run, hkind, hbatches]

/-- The caller of the query gets rows, or is told that too many records match. -/
def Settles (e : Engine) (source : Source) (stamp : Stamp) (query : Json) : Prop :=
  (∃ rows, (e.ask source stamp query).result = .ok rows) ∨
    (e.ask source stamp query).result = .error (.ofQueryFailure (.tooLarge matchLimit))

theorem settles_of_isSome {stamp : Stamp}
    (h : (e.ask source stamp query).result.toOption.isSome = true) :
    e.Settles source stamp query := by
  cases hresult : (e.ask source stamp query).result with
  | ok rows => exact .inl ⟨rows, hresult⟩
  | error e =>
      rw [hresult] at h
      cases h

/-- A query that is settled has found its dataset. -/
theorem Settles.exists_batches {stamp : Stamp} (h : e.Settles source stamp query)
    (hq : Query.ofJson e.catalog query = .ok q) :
    ∃ kind batches, source.kindOf? q.dataset = some kind ∧
      source.batches q.dataset = .ok batches := by
  have hfound : ∀ dataset reason, (q.run source matchLimit).1 ≠
      .error (.unavailable dataset reason) := by
    intro dataset reason hrun
    unfold Settles at h
    rw [result_ask_of_ofJson hq, hrun] at h
    rcases h with ⟨rows, h⟩ | h
    · cases h
    · simp [Except.map, Except.mapError, ServiceError.ofQueryFailure] at h
  unfold Query.run at hfound
  split at hfound
  · exact absurd rfl (hfound _ _)
  · next kind hkind =>
    split at hfound
    · exact absurd rfl (hfound _ _)
    · next batches hbatches => exact ⟨kind, batches, hkind, hbatches⟩

end Engine

/-! ### Changes -/

/-- The id of the dataset that a call adds or removes. -/
def Call.changed? : Call → Option String
  | .add id _ _ => some id
  | .remove id => some id
  | .ask _ _ => none

namespace Archive

variable {a a₀ : Archive} {lagging : Bool} {disk disk₀ : Tree} {place : Place} {c : Call}
  {id other : String}

/-- The disk after a call. -/
def diskAfter (a : Archive) (disk : Tree) : Call → Tree
  | .add id kind records => (a.add disk id kind records).disk
  | .remove id => (a.remove disk id).disk
  | .ask _ _ => disk

/-- The archive and the disk after some calls, if no one else changes the disk. -/
def runAlone (a : Archive) (disk : Tree) : List Call → Archive × Tree
  | [] => (a, disk)
  | call :: calls => (a.call disk call).runAlone (a.diskAfter disk call) calls

/-- Where a call may change the disk: in the directory of the dataset that it adds or removes. An id
that is not valid has none, and neither has a dataset that is to be removed and is not
registered. -/
def target? (a : Archive) : Call → Option Place
  | .add id kind _ => if isValidId id then some (a.registry.datasetPlace kind id) else none
  | .remove id => (a.registry.find? id).map fun l => a.registry.datasetPlace l.kind id
  | .ask _ _ => none

theorem target?_of_invalid (h : a.registry.WellFormed) (hid : c.changed? = some id)
    (hinvalid : isValidId id = false) : a.target? c = none := by
  cases c with
  | add id' kind records =>
      cases hid
      simp [target?, hinvalid]
  | remove id' =>
      cases hid
      have hnone : a.registry.find? id = none := by
        rw [Registry.find?_eq_none_iff]
        intro hmem
        simp [h.valid id hmem] at hinvalid
      rw [target?, hnone, Option.map_none]
  | ask stamp query => cases hid

theorem diskAfter_of_target?_eq_none (h : a.target? c = none) : a.diskAfter disk c = disk := by
  cases c with
  | add id kind records =>
      have hinvalid : isValidId id = false := by simpa [target?] using h
      rw [diskAfter, Archive.add, disk_follow, Registry.add_disk_of_invalid hinvalid]
  | remove id =>
      have hnone : a.registry.find? id = none := by simpa [target?] using h
      rw [diskAfter, Archive.remove, disk_follow, Registry.remove_disk_of_not_found hnone]
  | ask stamp query => rfl

theorem changesOnly_diskAfter (h : a.registry.HasKinds disk) {p : Place}
    (hp : a.target? c = some p) : disk.ChangesOnly p.path (a.diskAfter disk c) := by
  cases c with
  | add id kind records =>
      obtain ⟨-, rfl⟩ : isValidId id = true ∧ a.registry.datasetPlace kind id = p := by
        simpa [target?] using hp
      rw [diskAfter, Archive.add, disk_follow]
      exact Registry.changesOnly_add h id kind records
  | remove id =>
      obtain ⟨l, hl, rfl⟩ := Option.map_eq_some_iff.mp hp
      rw [diskAfter, Archive.remove, disk_follow]
      exact Registry.changesOnly_remove hl
  | ask stamp query => cases hp

/-- The place that a call may change is one of the dataset that it adds or removes. -/
theorem exists_target?_eq (hid : c.changed? = some id) {p : Place} (hp : a.target? c = some p) :
    ∃ kind, p = a.registry.datasetPlace kind id := by
  cases c with
  | add id' kind records =>
      cases hid
      obtain ⟨-, rfl⟩ : isValidId id = true ∧ a.registry.datasetPlace kind id = p := by
        simpa [target?] using hp
      exact ⟨kind, rfl⟩
  | remove id' =>
      cases hid
      obtain ⟨l, -, rfl⟩ := Option.map_eq_some_iff.mp hp
      exact ⟨l.kind, rfl⟩
  | ask stamp query => cases hid

theorem find?_call_of_ne (hid : c.changed? = some id) (hne : other ≠ id) (disk : Tree) :
    (a.call disk c).registry.find? other = a.registry.find? other := by
  cases c with
  | add id' kind records =>
      cases hid
      rw [Archive.call, Archive.add, registry_follow, Registry.find?_add_of_ne hne]
  | remove id' =>
      cases hid
      rw [Archive.call, Archive.remove, registry_follow, Registry.find?_remove_of_ne hne]
  | ask stamp query => cases hid

theorem place_call (a : Archive) (disk : Tree) (c : Call) :
    (a.call disk c).registry.place = a.registry.place := by
  cases c with
  | add id kind records =>
      rw [Archive.call, Archive.add, registry_follow, Registry.place_add]
  | remove id => rw [Archive.call, Archive.remove, registry_follow, Registry.place_remove]
  | ask stamp query => rfl

/-! ### Other datasets -/

/-- A dataset that is registered and stays so is of the same kind in the catalog. -/
theorem Covers.kindOf?_eq {a' : Archive} (h : a.Covers) (h' : a'.Covers)
    (hfind : a'.registry.find? other = a.registry.find? other)
    (hmem : (a.registry.find? other).isSome = true) :
    a'.engine.catalog.kindOf? other = a.engine.catalog.kindOf? other := by
  obtain ⟨l, hl⟩ := Option.isSome_iff_exists.mp hmem
  have hid : l.id = other := by simpa using List.find?_some hl
  rw [← hid, h l (List.mem_of_find?_eq_some hl),
    h' l (List.mem_of_find?_eq_some (hfind.trans hl))]

/-- The directories of the kinds are found after a change, unless the data directory is reached
through what changes. -/
theorem hasKinds_diskAfter (hkinds : a.registry.HasKinds disk) (hid : c.changed? = some id)
    (hway : ∀ p ∈ a.target? c, ¬ a.registry.place.LeadsThrough p.path) :
    a.registry.HasKinds (a.diskAfter disk c) := by
  cases htarget : a.target? c with
  | none => rwa [diskAfter_of_target?_eq_none htarget]
  | some p =>
      obtain ⟨kind, rfl⟩ := exists_target?_eq hid htarget
      exact hkinds.of_changesOnly (changesOnly_diskAfter hkinds htarget) (hway _ htarget)

/-- A query of another dataset is answered after a change as it was before. -/
theorem result_ask_call (hsound : a.Sound lagging) (hcovers : a.Covers)
    (hkinds : a.registry.HasKinds disk) (hid : c.changed? = some id)
    (hleft : a.registry.HasKinds (a.diskAfter disk c)) {stamp : Stamp}
    {query : Json} {q : Query} (hq : Query.ofJson a.engine.catalog query = .ok q)
    (hne : q.dataset ≠ id) (hsettles : a.engine.Settles (a.source disk) stamp query)
    (stamp' : Stamp) :
    ((a.call disk c).ask (a.diskAfter disk c) stamp' query).result =
      (a.ask disk stamp query).result := by
  obtain ⟨kind, batches, hkind, hbatches⟩ := hsettles.exists_batches hq
  have hfind := find?_call_of_ne (a := a) hid hne disk
  have hkind' : ((a.call disk c).source (a.diskAfter disk c)).kindOf? q.dataset =
      (a.source disk).kindOf? q.dataset := by
    rw [source, source, Registry.kindOf?_source, Registry.kindOf?_source, hfind]
  have hmem : (a.registry.find? q.dataset).isSome = true := by
    rw [source, Registry.kindOf?_source] at hkind
    rw [← Option.isSome_map (f := (·.kind)), hkind]
    rfl
  have hbatches' : a.registry.batches (a.diskAfter disk c) q.dataset = .ok batches := by
    cases htarget : a.target? c with
    | none => rwa [diskAfter_of_target?_eq_none htarget]
    | some p =>
        obtain ⟨k, rfl⟩ := exists_target?_eq hid htarget
        exact Registry.batches_of_changesOnly hne (changesOnly_diskAfter hkinds htarget) hleft
          hbatches
  rw [← Registry.batches_congr (place_call a disk c) (by rw [hfind])] at hbatches'
  exact Engine.result_ask_of_agree hq (hcovers.kindOf?_eq (hcovers.call hsound c) hfind hmem) hkind'
    (hbatches'.trans hbatches.symm) stamp stamp'

/-- Adding or removing a dataset changes the disk in the directory of that dataset only, and not at
all for an id that is not valid; and every query of another dataset that was settled before comes to
the same afterwards, as long as the directories of the kinds are found. They still are, unless the
data directory is reached through the directory that changes. -/
theorem isolated_change (hopened : (Registry.openAt place disk₀).archive = .ok a₀)
    (calls : List (Tree × Call)) (hkinds : (a₀.run calls).registry.HasKinds disk)
    (hid : c.changed? = some id) :
    let a := a₀.run calls
    let left := a.diskAfter disk c
    (isValidId id = false → a.target? c = none) ∧ (a.target? c = none → left = disk) ∧
      (∀ p ∈ a.target? c, disk.ChangesOnly p.path left) ∧
      ((∀ p ∈ a.target? c, ¬ a.registry.place.LeadsThrough p.path) → a.registry.HasKinds left) ∧
      (a.registry.HasKinds left →
        ∀ query q stamp stamp', Query.ofJson a.engine.catalog query = .ok q → q.dataset ≠ id →
          a.engine.Settles (a.source disk) stamp query →
          ((a.call disk c).ask left stamp' query).result = (a.ask disk stamp query).result) := by
  intro a left
  have hsound := (sound_of_openAt hopened).run calls
  have hcovers : a.Covers := by
    obtain ⟨r, hr, rfl⟩ := exists_of_archive_eq_ok hopened
    have hwellFormed := Registry.wellFormed_of_openAt hr
    exact (covers_ofRegistry hwellFormed).run (sound_ofRegistry hwellFormed) calls
  exact ⟨target?_of_invalid hsound.wellFormed hid, diskAfter_of_target?_eq_none,
    fun p hp => changesOnly_diskAfter hkinds hp, hasKinds_diskAfter hkinds hid,
    fun hleft query q stamp stamp' hq hne hsettles =>
      result_ask_call hsound hcovers hkinds hid hleft hq hne hsettles stamp'⟩

/-- The call that adds a dataset of one section. -/
def addSection (id : String) : Call := .add id .courses [Registry.sampleSection]

/-- The disk after some calls of an archive that is opened on an empty disk. -/
def sampleDisk (calls : List Call) : Tree :=
  ((ofRegistry Registry.sampleRegistry).runAlone
    (Registry.openAt Registry.sampleRegistry.place .empty).disk calls).2

/-- An archive of two datasets of one section each. -/
def sectionsArchive : Archive :=
  (ofRegistry Registry.sampleRegistry).run
    [(sampleDisk [], addSection "c"), (sampleDisk [addSection "c"], addSection "d")]

/-- The disk with two datasets of one section each. -/
def sectionsDisk : Tree := sampleDisk [addSection "c", addSection "d"]

/-- The query of the departments of one dataset. -/
theorem ofJson_department {c : Catalog} (h : c.kindOf? "d" = some .courses) :
    Query.ofJson c (columnQuery "d_dept") = .ok ⟨"d", .all, none, ["d_dept"], none⟩ := by
  have hadmits : c.Admits .any ⟨"d", "dept"⟩ :=
    ⟨by decide, by decide, .courses, ⟨"dept", "Subject", .text⟩, h, by decide, rfl, rfl⟩
  have htext : Key.text ⟨"d", "dept"⟩ = "d_dept" := by decide
  rw [← htext]
  exact ofJson_columnQuery hadmits

/-- One of two datasets is removed, and a query of the other is answered as before. -/
theorem isolated_change_sections :
    ((sectionsArchive.call sectionsDisk (.remove "c")).ask
        (sectionsArchive.diskAfter sectionsDisk (.remove "c")) ⟨"r", "2"⟩
        (columnQuery "d_dept")).result =
      (sectionsArchive.ask sectionsDisk ⟨"q", "1"⟩ (columnQuery "d_dept")).result ∧
    (sectionsArchive.ask sectionsDisk ⟨"q", "1"⟩ (columnQuery "d_dept")).result.toOption.isSome =
      true ∧
    (sectionsArchive.remove sectionsDisk "c").result = .ok "c" := by
  have hopened : (Registry.openAt Registry.sampleRegistry.place .empty).archive =
      .ok (ofRegistry Registry.sampleRegistry) := by
    decide +kernel
  have hkinds : sectionsArchive.registry.HasKinds sectionsDisk := by
    refine Registry.hasKinds_of_isSome fun kind => ?_
    cases kind <;> decide +kernel
  have hanswered : (sectionsArchive.ask sectionsDisk ⟨"q", "1"⟩
      (columnQuery "d_dept")).result.toOption.isSome = true := by
    decide +kernel
  have hway : ∀ p ∈ sectionsArchive.target? (.remove "c"),
      ¬ sectionsArchive.registry.place.LeadsThrough p.path := by
    decide +kernel
  have hq : Query.ofJson sectionsArchive.engine.catalog (columnQuery "d_dept") =
      .ok ⟨"d", .all, none, ["d_dept"], none⟩ :=
    ofJson_department (by decide +kernel)
  obtain ⟨-, -, -, hkept, hothers⟩ := isolated_change hopened
    [(sampleDisk [], addSection "c"), (sampleDisk [addSection "c"], addSection "d")] hkinds
    (c := .remove "c") rfl
  refine ⟨hothers (hkept hway) (columnQuery "d_dept") _ ⟨"q", "1"⟩ ⟨"r", "2"⟩ hq ?_ ?_, hanswered, ?_⟩
  · decide
  · exact Engine.settles_of_isSome hanswered
  · decide +kernel

/-- A data directory that is reached through one of its own datasets. -/
def detour : Place := .ofText "data/courses/c/../.."

/-- The archive that is opened there on an empty disk. The dataset on the way is made and
registered. -/
def detourArchive : Archive := ofRegistry ⟨detour, [⟨"c", .courses, 0⟩]⟩

/-- Its disk when another dataset has been added. -/
def detourDisk : Tree :=
  (detourArchive.runAlone (Registry.openAt detour .empty).disk [addSection "d"]).2

/-- Removing a dataset can take away the way to the data directory, and with it the answers to
queries of other datasets. -/
theorem not_isolated_detour :
    ¬ ∀ (place : Place) (disk₀ disk : Tree) (a₀ : Archive) (calls : List (Tree × Call)) (c : Call)
      (id : String) (query : Json) (q : Query) (stamp stamp' : Stamp),
      (Registry.openAt place disk₀).archive = .ok a₀ →
      (a₀.run calls).registry.HasKinds disk → c.changed? = some id →
      Query.ofJson (a₀.run calls).engine.catalog query = .ok q → q.dataset ≠ id →
      (a₀.run calls).engine.Settles ((a₀.run calls).source disk) stamp query →
      (((a₀.run calls).call disk c).ask ((a₀.run calls).diskAfter disk c) stamp' query).result =
        ((a₀.run calls).ask disk stamp query).result := by
  intro hisolated
  have hopened : (Registry.openAt detour .empty).archive = .ok detourArchive := by
    decide +kernel
  let calls := [((Registry.openAt detour .empty).disk, addSection "d")]
  have hkinds : (detourArchive.run calls).registry.HasKinds detourDisk := by
    refine Registry.hasKinds_of_isSome fun kind => ?_
    cases kind <;> decide +kernel
  have hq : Query.ofJson (detourArchive.run calls).engine.catalog (columnQuery "d_dept") =
      .ok ⟨"d", .all, none, ["d_dept"], none⟩ :=
    ofJson_department (by decide +kernel)
  have hanswered : ((detourArchive.run calls).ask detourDisk ⟨"q", "1"⟩
      (columnQuery "d_dept")).result.toOption.isSome = true := by
    decide +kernel
  have hlost : (((detourArchive.run calls).call detourDisk (.remove "c")).ask
      ((detourArchive.run calls).diskAfter detourDisk (.remove "c")) ⟨"r", "2"⟩
      (columnQuery "d_dept")).result.toOption.isSome = false := by
    decide +kernel
  have hsame := hisolated detour .empty detourDisk detourArchive calls (.remove "c") "c"
    (columnQuery "d_dept") _ ⟨"q", "1"⟩ ⟨"r", "2"⟩ hopened hkinds rfl hq (by decide)
    (Engine.settles_of_isSome hanswered)
  rw [hsame, hanswered] at hlost
  cases hlost

end Archive

end Campus
