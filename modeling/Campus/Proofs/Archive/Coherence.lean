import Campus.Archive
import Campus.Proofs.Query.Acceptance
import Campus.Proofs.Registry.Opening

/-!
# The catalog and the registry

The engine of an archive reads queries against a catalog, which is a copy of the registry. The copy
is made anew at each change that succeeds. A dataset whose directory cannot be removed leaves the
registry all the same, but then the copy is not made anew: the catalog lags behind until another
change succeeds. `Archive.Sound` says so of one archive; every call keeps it (`Archive.Sound.call`).

* `Archive.coherent_run_iff` — after any run, the catalog agrees with the registry exactly if it
  does not lag behind, and exactly then no query that is read is of a dataset that is not
  registered.
-/

namespace Campus

/-! ### The registered datasets -/

namespace Registry

theorem WellFormed.catalog_eq {r : Registry} (h : r.WellFormed) :
    Catalog.ofList r.datasets = ⟨r.datasets⟩ := by
  have hnames : (Assoc.names ([] ++ r.datasets)).Nodup := by
    rw [List.nil_append, names_datasets]
    exact h.distinct
  rw [Catalog.ofList, Assoc.putAll_eq_append hnames, List.nil_append]

end Registry

/-! ### Runs -/

/-- A call of an archive. -/
inductive Call where
  | add (id : String) (kind : Kind) (records : List Json)
  | remove (id : String)
  | ask (stamp : Stamp) (query : Json)

namespace Archive

/-- The archive after a call on the disk as it is then. -/
def call (a : Archive) (disk : Tree) : Call → Archive
  | .add id kind records => (a.add disk id kind records).archive
  | .remove id => (a.remove disk id).archive
  | .ask stamp query => { a with engine := (a.ask disk stamp query).engine }

/-- The archive after some calls. Others may change the disk between the calls in any way. -/
def run (a : Archive) : List (Tree × Call) → Archive
  | [] => a
  | (disk, call) :: calls => (a.call disk call).run calls

/-- Whether the catalog lags behind after a call, given whether it did before: it begins to when
the disk fails to remove a dataset, and ends to when a change succeeds. -/
def lagsAfter (a : Archive) (disk : Tree) (lagging : Bool) : Call → Bool
  | .add id kind records =>
    match (a.registry.add disk id kind records).result with
    | .ok _ => false
    | .error _ => lagging
  | .remove id =>
    match (a.registry.remove disk id).result with
    | .ok _ => false
    | .error e => lagging || e.fromDisk
  | .ask _ _ => lagging

/-- Whether the catalog lags behind after some calls. -/
def lags (a : Archive) (lagging : Bool) : List (Tree × Call) → Bool
  | [] => lagging
  | (disk, call) :: calls => (a.call disk call).lags (a.lagsAfter disk lagging call) calls

/-- The catalog and the registry agree on all ids. -/
def Coherent (a : Archive) : Prop :=
  ∀ disk id, a.engine.catalog.kindOf? id = (a.source disk).kindOf? id

/-! ### Taking over a change -/

section

variable {α : Type} (a : Archive) (change : Change) (result : Listing → Registry → α)

theorem disk_follow : (a.follow change result).disk = change.disk := by
  unfold follow
  split <;> rfl

theorem registry_follow : (a.follow change result).archive.registry = change.registry := by
  unfold follow
  split <;> rfl

theorem result_follow {l : Listing} (h : change.result = .ok l) :
    (a.follow change result).result = .ok (result l change.registry) := by
  rw [follow, h]

theorem exists_of_follow_eq_ok {value : α} (h : (a.follow change result).result = .ok value) :
    ∃ l, change.result = .ok l := by
  unfold follow at h
  split at h
  · cases h
  · next l hl => exact ⟨l, hl⟩

end

/-! ### The invariant -/

/-- What holds of an archive, given whether its catalog lags behind: it either is a copy of the
registry, or has a dataset that the registry has no more. -/
structure Sound (a : Archive) (lagging : Bool) : Prop where
  wellFormed : a.registry.WellFormed
  copy : lagging = false → a.engine.catalog = ⟨a.registry.datasets⟩
  gone : lagging = true → ∃ id kind, a.engine.catalog.kindOf? id = some kind ∧
    isValidId id = true ∧ id ∉ a.registry.ids

variable {a : Archive} {lagging : Bool} {disk : Tree}

theorem sound_ofRegistry {r : Registry} (h : r.WellFormed) : (ofRegistry r).Sound false :=
  ⟨h, fun _ => h.catalog_eq, by simp⟩

theorem Sound.add (h : a.Sound lagging) (id : String) (kind : Kind) (records : List Json) :
    (a.call disk (.add id kind records)).Sound
      (a.lagsAfter disk lagging (.add id kind records)) := by
  have hwellFormed := h.wellFormed.add disk id kind records
  have hadds := a.registry.adds disk id kind records
  simp only [Archive.call, Archive.add, lagsAfter]
  generalize a.registry.add disk id kind records = change at hadds hwellFormed ⊢
  cases hadds with
  | refused reason => exact ⟨h.wellFormed, h.copy, h.gone⟩
  | failed valid free nonempty failure => exact ⟨h.wellFormed, h.copy, h.gone⟩
  | done valid free nonempty success =>
      exact ⟨hwellFormed, fun _ => hwellFormed.catalog_eq, by simp⟩

theorem Sound.remove (h : a.Sound lagging) (id : String) :
    (a.call disk (.remove id)).Sound (a.lagsAfter disk lagging (.remove id)) := by
  have hwellFormed := h.wellFormed.remove disk id
  have hremoves := a.registry.removes disk id
  simp only [Archive.call, Archive.remove, lagsAfter]
  generalize a.registry.remove disk id = change at hremoves hwellFormed ⊢
  cases hremoves with
  | refused reason =>
      simp only [Registry.refuse, follow, reason, Bool.or_false]
      exact ⟨h.wellFormed, h.copy, h.gone⟩
  | @failed l e found failure =>
      refine ⟨hwellFormed, by simp [Registry.refuse, DatasetError.ofDisk, DatasetError.fromDisk],
        fun _ => ?_⟩
      cases hlagging : lagging with
      | true =>
          -- What was gone before is still gone.
          obtain ⟨other, kind, hkind, hvalid, hother⟩ := h.gone hlagging
          exact ⟨other, kind, hkind, hvalid,
            fun hmem => hother (Registry.ids_without_sublist.subset hmem)⟩
      | false =>
          have hid : id ∈ a.registry.ids := Registry.find?_isSome_iff.mp (by simp [found])
          obtain ⟨kind, hkind⟩ : ∃ kind, a.engine.catalog.kindOf? id = some kind := by
            rw [h.copy hlagging, ← Option.isSome_iff_exists]
            rw [← Registry.names_datasets] at hid
            exact Assoc.lookup_isSome.mpr hid
          exact ⟨id, kind, hkind, h.wellFormed.valid id hid, h.wellFormed.not_mem_ids_without⟩
  | done found success => exact ⟨hwellFormed, fun _ => hwellFormed.catalog_eq, by simp⟩

/-- A query changes the metrics only. -/
theorem Sound.ask (h : a.Sound lagging) (stamp : Stamp) (query : Json) :
    (a.call disk (.ask stamp query)).Sound (a.lagsAfter disk lagging (.ask stamp query)) :=
  ⟨h.wellFormed, h.copy, h.gone⟩

theorem Sound.call (h : a.Sound lagging) (c : Call) :
    (a.call disk c).Sound (a.lagsAfter disk lagging c) := by
  cases c with
  | add id kind records => exact h.add id kind records
  | remove id => exact h.remove id
  | ask stamp query => exact h.ask stamp query

theorem Sound.run (h : a.Sound lagging) (calls : List (Tree × Call)) :
    (a.run calls).Sound (a.lags lagging calls) := by
  induction calls generalizing a lagging with
  | nil => exact h
  | cons step calls ih => exact ih (h.call step.2)

theorem exists_of_archive_eq_ok {o : Opening} (h : o.archive = .ok a) :
    ∃ r, o.result = .ok r ∧ a = ofRegistry r := by
  unfold Opening.archive at h
  split at h
  · next r hr =>
    cases h
    exact ⟨r, hr, rfl⟩
  · cases h

theorem sound_of_openAt {place : Place} (h : (Registry.openAt place disk).archive = .ok a) :
    a.Sound false := by
  obtain ⟨r, hr, rfl⟩ := exists_of_archive_eq_ok h
  exact sound_ofRegistry (Registry.wellFormed_of_openAt hr)

/-! ### Coherence -/

theorem Sound.coherent_iff (h : a.Sound lagging) : a.Coherent ↔ lagging = false := by
  constructor
  · intro hcoherent
    by_contra hlagging
    obtain ⟨id, kind, hkind, -, hid⟩ := h.gone (by simpa using hlagging)
    have hnone : (a.source .empty).kindOf? id = none :=
      Registry.lookup_datasets_eq_none_iff.mpr hid
    simp [← hcoherent .empty id, hkind] at hnone
  · intro hlagging disk id
    rw [h.copy hlagging]
    rfl

end Archive

/-! ### Queries of datasets that are not registered -/

/-- A query comes to nothing because its dataset is not registered, in the words of the query or in
those of the registry. -/
def Outcome.Unregistered (o : Outcome) : Prop :=
  ∃ id reason, o = .failed id (.unavailable id reason) ∧
    reason ∈ ["not registered", "dataset not registered"]

/-- The query for one column of all records. -/
def columnQuery (column : String) : Json :=
  .object [("WHERE", .object []),
    ("OPTIONS", .object [("COLUMNS", .array [.string column])])]

theorem ofJson_columnQuery {c : Catalog} {key : Key} (h : c.Admits .any key) :
    Query.ofJson c (columnQuery key.text) = .ok ⟨key.dataset, .all, none, [key.text], none⟩ := by
  have hnames : (columnQuery key.text).DistinctNames := by
    simp [columnQuery, Json.DistinctNames, Json.DistinctNamesItems, Json.DistinctNamesMembers]
  rw [Query.ofJson_eq_ok_iff hnames]
  exact .query (.refl _) (.refl _) .all .none (by simpa [IsColumn] using ⟨key, h, rfl, rfl⟩)
    (by simp) .none (by simp [Filter.keys]) (by simp)

namespace Archive

variable {a : Archive} {lagging : Bool} {disk : Tree}

theorem batches_ne_unregistered {id reason : String} (hid : id ∈ a.registry.ids)
    (h : a.registry.batches disk id = .error reason) :
    reason ∉ ["not registered", "dataset not registered"] := by
  unfold Registry.batches at h
  split at h
  · next hnone => exact absurd hid (Registry.find?_eq_none_iff.mp hnone)
  · next l _ =>
    cases hdirectory : Batch.ofDirectory l.kind (a.registry.datasetPlace l.kind id) disk with
    | error e =>
        rw [hdirectory] at h
        cases h
        cases e <;> decide
    | ok batches => simp [hdirectory, Except.mapError] at h

/-- Why a query that is read may be unavailable: with an id in the registry, it is not for the
registry. -/
theorem run_ne_unregistered {q : Query} {limit : Nat} {dataset reason : String}
    {log : List LogLine} (hid : q.dataset ∈ a.registry.ids)
    (h : q.run (a.source disk) limit = (.error (.unavailable dataset reason), log)) :
    reason ∉ ["not registered", "dataset not registered"] := by
  unfold Query.run at h
  split at h
  · next hkind => exact absurd hid (Registry.lookup_datasets_eq_none_iff.mp hkind)
  · split at h
    · next hbatches =>
      cases h
      exact batches_ne_unregistered hid hbatches
    · dsimp only at h
      split at h <;> cases h

theorem Sound.unregistered_iff (h : a.Sound lagging) (disk : Tree) :
    (∃ query, (a.engine.outcome (a.source disk) query).1.Unregistered) ↔ lagging = true := by
  constructor
  · intro hunregistered
    obtain ⟨query, id, reason, houtcome, hreason⟩ := hunregistered
    by_contra hlagging
    unfold Engine.outcome at houtcome
    split at houtcome
    · cases houtcome
    · next q hq =>
      have hid : q.dataset ∈ a.registry.ids := by
        obtain ⟨kind, hkind⟩ := Query.kindOf?_dataset_of_ofJson hq
        rw [h.copy (by simpa using hlagging)] at hkind
        by_contra hid
        rw [Catalog.kindOf?, Registry.lookup_datasets_eq_none_iff.mpr hid] at hkind
        cases hkind
      split at houtcome
      · next hrun =>
        cases houtcome
        exact run_ne_unregistered hid hrun hreason
      · cases houtcome
  · intro hlagging
    obtain ⟨id, kind, hkind, hvalid, hid⟩ := h.gone hlagging
    -- The query for any column of the dataset that is gone is read and finds no dataset.
    obtain ⟨f, hf⟩ : ∃ f, f ∈ kind.fields ∧ IsKeyPart f.name := by
      cases kind
      · exact ⟨⟨"dept", "Subject", .text⟩, by decide, by decide⟩
      · exact ⟨⟨"seats", "seats", .numeric⟩, by decide, by decide⟩
    have hadmits : a.engine.catalog.Admits .any ⟨id, f.name⟩ :=
      ⟨isKeyPart_of_isValidId hvalid, hf.2, kind, f, hkind, hf.1, rfl, rfl⟩
    refine ⟨columnQuery (Key.text ⟨id, f.name⟩), id, "not registered", ?_, by simp⟩
    have hnone : (a.source disk).kindOf? id = none :=
      Registry.lookup_datasets_eq_none_iff.mpr hid
    simp only [Engine.outcome, ofJson_columnQuery hadmits, Query.run, hnone]

/-- After any run from an opened archive, the registry is well-formed; the catalog agrees with it
exactly if it does not lag behind; and exactly if it lags behind, some query that is read is of a
dataset that is not registered. -/
theorem coherent_run_iff {place : Place} {disk : Tree} {a : Archive}
    (h : (Registry.openAt place disk).archive = .ok a) (calls : List (Tree × Call)) :
    let b := a.run calls
    b.registry.WellFormed ∧ (b.Coherent ↔ a.lags false calls = false) ∧
      ∀ disk, (∃ query, (b.engine.outcome (b.source disk) query).1.Unregistered) ↔
        a.lags false calls = true := by
  have hsound := (sound_of_openAt h).run calls
  exact ⟨hsound.wellFormed, hsound.coherent_iff, hsound.unregistered_iff⟩

/-- A dataset is added; its directory disappears, and the dataset is removed. -/
def failedRemoval : List (Tree × Call) :=
  [(.empty, .add "c" .courses [Registry.sampleSection]), (.empty, .remove "c")]

/-- The catalog of an archive lags behind after the removal that failed. -/
theorem coherent_run_failedRemoval :
    ∃ a, (Registry.openAt Registry.sampleRegistry.place .empty).archive = .ok a ∧
      a.lags false failedRemoval = true ∧ ¬ (a.run failedRemoval).Coherent := by
  have hopened : (Registry.openAt Registry.sampleRegistry.place .empty).archive =
      .ok (.ofRegistry Registry.sampleRegistry) := by
    decide +kernel
  have hlags : (ofRegistry Registry.sampleRegistry).lags false failedRemoval = true := by
    decide +kernel
  refine ⟨_, hopened, hlags, ?_⟩
  rw [(coherent_run_iff hopened failedRemoval).2.1, hlags]
  decide

/-- Not every archive is coherent after every run. -/
theorem exists_run_not_coherent :
    ¬ ∀ (place : Place) (disk : Tree) (a : Archive) (calls : List (Tree × Call)),
      (Registry.openAt place disk).archive = .ok a → (a.run calls).Coherent := by
  intro h
  have hopened : (Registry.openAt Registry.sampleRegistry.place .empty).archive =
      .ok (.ofRegistry Registry.sampleRegistry) := by
    decide +kernel
  have hsame := h _ _ _ failedRemoval hopened .empty "c"
  revert hsame
  decide +kernel

end Archive

end Campus
