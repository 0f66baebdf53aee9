import Campus.Proofs.Archive.Refinement
import Campus.Proofs.Query.Rows

/-!
# The shape of an answer

Whatever a query asks, and whatever has become of the engine that is asked (`Engine.Serves`), an
answer has the same shape: `Engine.rows_of_ask` says that every row has the columns of the query,
repetitions aside, and that the order names only columns that are there.

The engine reads the columns against its catalog and finds the values by the kind that its source
gives the dataset, so both have to agree on the kind. They do, even for an archive whose catalog
lags behind its registry: a dataset that is registered is always in the catalog, with its kind
(`Archive.Covers`).
-/

namespace Campus

/-! ### The kinds in the catalog -/

namespace Archive

variable {a : Archive} {lagging : Bool} {disk : Tree}

/-- Every registered dataset is in the catalog with its kind. -/
def Covers (a : Archive) : Prop :=
  ∀ l ∈ a.registry.listings, a.engine.catalog.kindOf? l.id = some l.kind

theorem covers_of_copy (h : a.registry.WellFormed)
    (hcopy : a.engine.catalog = ⟨a.registry.datasets⟩) : a.Covers := by
  intro l hl
  have hnames : (Assoc.names a.registry.datasets).Nodup := by
    rw [Registry.names_datasets]
    exact h.distinct
  rw [hcopy]
  exact (Assoc.lookup_eq_some hnames).mpr (List.mem_map_of_mem (f := fun l => (l.id, l.kind)) hl)

theorem covers_ofRegistry {r : Registry} (h : r.WellFormed) : (ofRegistry r).Covers :=
  covers_of_copy h h.catalog_eq

theorem Covers.add (hsound : a.Sound lagging) (h : a.Covers) (id : String) (kind : Kind)
    (records : List Json) : (a.call disk (.add id kind records)).Covers := by
  have hwellFormed := hsound.wellFormed.add disk id kind records
  have hadds := a.registry.adds disk id kind records
  simp only [Archive.call, Archive.add]
  generalize a.registry.add disk id kind records = change at hadds hwellFormed ⊢
  cases hadds with
  | refused reason => exact h
  | failed valid free nonempty failure => exact h
  | done valid free nonempty success => exact covers_of_copy hwellFormed hwellFormed.catalog_eq

/-- A removal that fails takes a dataset from the registry only. -/
theorem Covers.remove (hsound : a.Sound lagging) (h : a.Covers) (id : String) :
    (a.call disk (.remove id)).Covers := by
  have hwellFormed := hsound.wellFormed.remove disk id
  have hremoves := a.registry.removes disk id
  simp only [Archive.call, Archive.remove]
  generalize a.registry.remove disk id = change at hremoves hwellFormed ⊢
  cases hremoves with
  | refused reason => exact h
  | failed found failure => exact fun l hl => h l (List.eraseP_sublist.subset hl)
  | done found success => exact covers_of_copy hwellFormed hwellFormed.catalog_eq

theorem Covers.call (hsound : a.Sound lagging) (h : a.Covers) (c : Call) :
    (a.call disk c).Covers := by
  cases c with
  | add id kind records => exact h.add hsound id kind records
  | remove id => exact h.remove hsound id
  | ask stamp query => exact h

theorem Covers.run (hsound : a.Sound lagging) (h : a.Covers) (calls : List (Tree × Call)) :
    (a.run calls).Covers := by
  induction calls generalizing a lagging with
  | nil => exact h
  | cons step calls ih => exact ih (hsound.call step.2) (h.call hsound step.2)

end Archive

/-! ### Engines and their sources -/

/-- The engine answers from the source, and all records of the source are as they are stored. The
engine is one over datasets in memory, or that of an archive after any calls, whatever the disk is
then. -/
inductive Engine.Serves : Engine → Source → Prop
  | memory {m : Memory} (metrics : Metrics) (distinct : (Assoc.names m.entries).Nodup)
      (stored : ∀ id kind records, m.entries.lookup id = some (kind, records) →
        ∀ r ∈ records, Record.IsStored kind r) :
      Serves ⟨m.source.catalog, metrics⟩ m.source
  | archive {r : Registry} (wellFormed : r.WellFormed) (calls : List (Tree × Call)) (disk : Tree) :
      Serves ((Archive.ofRegistry r).run calls).engine
        (((Archive.ofRegistry r).run calls).source disk)

theorem isStored_of_mem_fileRecords {kind : Kind} {content : ByteArray} {r : Record}
    (h : r ∈ fileRecords kind content) : Record.IsStored kind r := by
  obtain ⟨stored, -, hstored⟩ := exists_stored_of_mem_fileRecords h
  exact ⟨stored, hstored⟩

theorem Memory.names_datasets_perm (m : Memory) :
    (Assoc.names m.datasets).Perm (Assoc.names m.entries) := by
  have hnames := Assoc.names_perm (List.mergeSort_perm
    (m.entries.map fun e => (e.1, e.2.1)) fun a b => compare a.1 b.1 != .gt)
  rwa [Assoc.names_map_snd Prod.fst] at hnames

namespace Engine.Serves

variable {e : Engine} {source : Source}

/-- A dataset of the source is in the catalog with its kind. -/
theorem kindOf?_catalog (h : e.Serves source) {id : String} {kind : Kind}
    (hkind : source.kindOf? id = some kind) : e.catalog.kindOf? id = some kind := by
  cases h with
  | @memory m metrics distinct stored =>
      have hnames : (Assoc.names ([] ++ m.datasets)).Nodup :=
        m.names_datasets_perm.nodup_iff.mpr distinct
      have hcatalog : m.source.catalog = ⟨m.datasets⟩ := by
        rw [Source.catalog, Catalog.ofList]
        exact congrArg Catalog.mk (Assoc.putAll_eq_append hnames)
      rw [hcatalog]
      exact hkind
  | @archive r wellFormed calls disk =>
      have hcovers := (Archive.covers_ofRegistry wellFormed).run
        (Archive.sound_ofRegistry wellFormed) calls
      rw [Archive.source, Registry.kindOf?_source, Option.map_eq_some_iff] at hkind
      obtain ⟨l, hl, rfl⟩ := hkind
      have hid : l.id = id := by simpa using List.find?_some hl
      rw [← hid]
      exact hcovers l (List.mem_of_find?_eq_some hl)

/-- A dataset that can be scanned has records, all as they are stored. -/
theorem exists_holds (h : e.Serves source) {id : String} {batches : List Batch}
    (hbatches : source.batches id = .ok batches) :
    ∃ kind records, source.Holds id kind records ∧ ∀ r ∈ records, Record.IsStored kind r := by
  cases h with
  | @memory m metrics distinct stored =>
      simp only [Memory.source, Memory.batches] at hbatches
      split at hbatches
      · next kind records hentry => exact ⟨kind, records, .memory hentry, stored id _ _ hentry⟩
      · cases hbatches
  | @archive r wellFormed calls disk =>
      simp only [Archive.source, Registry.source, Registry.batches] at hbatches
      split at hbatches
      · cases hbatches
      · next l hl =>
        rw [mapError_eq_ok_iff, Batch.ofDirectory, map_eq_ok_iff] at hbatches
        obtain ⟨entries, hlist, -⟩ := hbatches
        refine ⟨l.kind, _, .disk hl hlist, fun r hr => ?_⟩
        obtain ⟨f, -, hf⟩ := List.mem_flatMap.mp hr
        exact isStored_of_mem_fileRecords hf

end Engine.Serves

/-! ### What a query asks for -/

/-- The member of a value, if it is an object and has one of that name. -/
def Json.at? (v : Json) (name : String) : Option Json :=
  match v with
  | .object members => member? members name
  | _ => none

/-- The value is an order by the column, alone or with others. -/
def Json.OrdersBy (node : Json) (column : String) : Prop :=
  node = .string column ∨ ∃ items, node.at? "keys" = some (.array items) ∧ .string column ∈ items

theorem Order.Spelled.mem_columns {columns : List String} {node : Json} {order : Order}
    (h : order.Spelled columns node) {column : String} (hcolumn : node.OrdersBy column) :
    column ∈ columns := by
  cases h with
  | @column name shown =>
      rcases hcolumn with hname | ⟨items, hitems, -⟩
      · cases hname
        exact shown
      · cases hitems
  | @keys members word direction names exactly known nonempty shown =>
      rcases hcolumn with hname | ⟨items, hitems, hcolumn⟩
      · cases hname
      · have hkeys : Json.member? members "keys" = some (.array (names.map .string)) :=
          ((Assoc.perm_pair_iff (by decide)).mp exactly).2.2
        rw [Json.at?, hkeys, Option.some.injEq, Json.array.injEq] at hitems
        rw [← hitems] at hcolumn
        obtain ⟨name, hname, heq⟩ := List.mem_map.mp hcolumn
        cases heq
        exact shown _ hname

namespace Engine

variable {e : Engine} {source : Source} {stamp : Stamp} {query : Json} {rows : List Row}

theorem exists_run_of_ask (h : (e.ask source stamp query).result = .ok rows) :
    ∃ q a, Query.ofJson e.catalog query = .ok q ∧ (q.run source matchLimit).1 = .ok a ∧
      a.rows = rows := by
  simp only [ask, conclude, outcome] at h
  split at h
  · cases h
  · next q hq =>
    split at h
    · cases h
    · next a log hrun =>
      refine ⟨q, a, hq, by rw [hrun], ?_⟩
      cases h
      rfl

/-- Every row of an answer has the columns of the query, each once; a column that the query orders
by is in every row; and without a grouping, each row shows a matching record, and each matching
record is shown. -/
theorem rows_of_ask (h : e.Serves source) (hrows : (e.ask source stamp query).result = .ok rows) :
    ∃ columns : List String,
      (query.at? "OPTIONS").bind (·.at? "COLUMNS") = some (.array (columns.map .string)) ∧
      (∀ row ∈ rows, row.names = columns.eraseDups) ∧
      (∀ node column, (query.at? "OPTIONS").bind (·.at? "ORDER") = some node →
        node.OrdersBy column → ∀ row ∈ rows, column ∈ row.names) ∧
      (query.at? "TRANSFORMATIONS" = none → ∃ q kind records shown,
        Query.ofJson e.catalog query = .ok q ∧ source.Holds q.dataset kind records ∧
          shown.Perm (q.found kind records) ∧
          List.Forall₂ (Row.Shows · kind columns ·) rows shown) := by
  obtain ⟨q, a, hq, hrun, rfl⟩ := exists_run_of_ask hrows
  obtain ⟨-, batches, -, hbatches, -⟩ := Query.exists_batches_of_run hrun
  obtain ⟨kind, records, hholds, hstored⟩ := h.exists_holds hbatches
  obtain ⟨members, options, rfl, hread⟩ := Query.exists_readFrom_of_ofJson hq
  have hcomplete : q.Complete e.catalog kind (q.found kind records) :=
    ⟨hread.columns, h.kindOf?_catalog hholds.kindOf?_eq,
      fun r hr => hstored r (List.mem_of_mem_filter hr)⟩
  have hshown : a.rows = q.rows kind (q.found kind records) := Query.rows_of_run hholds hrun
  have hnames : ∀ row ∈ a.rows, row.names = q.columns.eraseDups := by
    intro row hrow
    rw [hshown] at hrow
    exact hcomplete.names_of_mem_rows hrow
  have hclause : (Json.object members).at? "OPTIONS" = some (.object options) := hread.clause
  refine ⟨q.columns, ?_, hnames, ?_, ?_⟩
  · rw [hclause]
    exact hread.listed
  · intro node column hnode hcolumn row hrow
    rw [hclause] at hnode
    have horder := hread.order
    rw [show Json.member? options Options.orderMember = some node from hnode] at horder
    cases hspelled : q.order with
    | none =>
        rw [hspelled] at horder
        cases horder
    | some order =>
        rw [hspelled] at horder
        cases horder with
        | some hspelled =>
            rw [hnames row hrow, List.mem_eraseDups]
            exact hspelled.mem_columns hcolumn
  · intro hplain
    have hgrouping : q.grouping = none := by
      have hrel := hread.grouping
      rw [show Json.member? members Clause.grouping.name = none from hplain] at hrel
      cases hg : q.grouping with
      | none => rfl
      | some g =>
          rw [hg] at hrel
          cases hrel
    obtain ⟨shown, hperm, hforall⟩ := hcomplete.exists_shown hgrouping
    rw [← hshown] at hforall
    exact ⟨q, kind, records, shown, hq, hholds, hperm, hforall⟩

theorem isStored_of_isSome {kind : Kind} {v : Json} (h : (Record.ofStored? kind v).isSome = true) :
    Record.IsStored kind ((Record.ofStored? kind v).getD .empty) := by
  obtain ⟨r, hr⟩ := Option.isSome_iff_exists.mp h
  refine ⟨v, Record.ofStored?_eq_some_iff.mp ?_⟩
  rw [hr, Option.getD_some]

/-- The record of a section. -/
def sampleRecord : Record := (Record.ofStored? .courses Registry.sampleSection).getD .empty

/-- A dataset of one section in memory. -/
def sampleMemory : Memory := .insert .empty "c" .courses [sampleRecord]

theorem isStored_sampleRecord : Record.IsStored .courses sampleRecord :=
  isStored_of_isSome (by decide +kernel)

/-- An engine answers from one dataset of stored records in memory. -/
theorem serves_oneDataset {id : String} {kind : Kind} {records : List Record}
    (h : ∀ r ∈ records, Record.IsStored kind r) :
    (Engine.ofSource (Memory.empty.insert id kind records).source).Serves
      (Memory.empty.insert id kind records).source := by
  refine .memory .zero (List.nodup_singleton id) fun id' kind' records' hlookup r hr => ?_
  obtain rfl : id' = id := by
    have hid := Assoc.mem_names_of_mem (Assoc.mem_of_lookup hlookup)
    simpa [Memory.insert, Memory.empty, Assoc.put] using hid
  simp only [Memory.insert, Memory.empty, Assoc.put, List.lookup_cons_self] at hlookup
  cases hlookup
  exact h r hr

/-- A section of another department, with a lower average than that of the first. -/
def lowerSection : Json :=
  .object [("Subject", .string "phil"), ("Course", .string "100"), ("Professor", .string ""),
    ("Title", .string "logic"), ("id", .string "8"), ("Avg", .number (.integer 70)),
    ("Pass", .number (.integer 12)), ("Fail", .number (.integer 1)),
    ("Audit", .number (.integer 0)), ("Year", .string "2015")]

/-- The record of the section with the lower average. -/
def lowerRecord : Record := (Record.ofStored? .courses lowerSection).getD .empty

/-- A dataset of two sections in memory. -/
def twoSections : Memory := .insert .empty "c" .courses [sampleRecord, lowerRecord]

theorem serves_twoSections : (Engine.ofSource twoSections.source).Serves twoSections.source := by
  refine serves_oneDataset fun r hr => ?_
  rcases List.mem_pair.mp hr with rfl | rfl
  · exact isStored_sampleRecord
  · exact isStored_of_isSome (by decide +kernel)

/-- A query that lists the department twice and orders by the average. -/
def averagesQuery : Json :=
  .object [("WHERE", .object []),
    ("OPTIONS", .object [("COLUMNS", .array (["c_dept", "c_avg", "c_dept"].map .string)),
      ("ORDER", .string "c_avg")])]

/-- What the query for the averages is read as. -/
def averages : Query := ⟨"c", .all, none, ["c_dept", "c_avg", "c_dept"], some (.column "c_avg")⟩

theorem ofJson_averagesQuery :
    Query.ofJson (Engine.ofSource twoSections.source).catalog averagesQuery = .ok averages := by
  have hnames : averagesQuery.DistinctNames := by
    simp [averagesQuery, Json.DistinctNames, Json.DistinctNamesItems, Json.DistinctNamesMembers]
  have hkind : (Engine.ofSource twoSections.source).catalog.kindOf? "c" = some .courses := by
    decide +kernel
  have hid : IsKeyPart "c" := by decide
  have hparts : ∀ f ∈ Kind.courses.fields, IsKeyPart f.name := by decide
  have hcolumns : ∀ column ∈ averages.columns,
      IsColumn (Engine.ofSource twoSections.source).catalog "c" none column := by
    intro column hcolumn
    have hfield : ∃ f ∈ Kind.courses.fields, Key.text ⟨"c", f.name⟩ = column := by
      revert column
      decide
    obtain ⟨f, hf, rfl⟩ := hfield
    exact ⟨_, ⟨hid, hparts f hf, .courses, f, hkind, hf, rfl, rfl⟩, rfl, rfl⟩
  rw [Query.ofJson_eq_ok_iff hnames]
  exact .query (.refl _) (.refl _) .all .none hcolumns (by simp [averages])
    (.some (.column (by decide))) (by simp [Filter.keys, averages]) (by simp [averages])

theorem result_ask_averagesQuery :
    ((Engine.ofSource twoSections.source).ask twoSections.source ⟨"q", "1"⟩
      averagesQuery).result = .ok (averages.rows .courses [sampleRecord, lowerRecord]) := by
  have hholds : twoSections.source.Holds averages.dataset .courses _ := .memory rfl
  rw [result_ask_of_ofJson ofJson_averagesQuery, Query.rows_run hholds]
  rfl

/-- Both sections are shown, with the department once, and with the average that the order
names. -/
theorem rows_of_ask_section : ∃ rows shown,
    ((Engine.ofSource twoSections.source).ask twoSections.source ⟨"q", "1"⟩
      averagesQuery).result = .ok rows ∧
    (∀ row ∈ rows, row.names = ["c_dept", "c_avg"]) ∧ (∀ row ∈ rows, "c_avg" ∈ row.names) ∧
    shown.Perm [sampleRecord, lowerRecord] ∧
    List.Forall₂ (Row.Shows · .courses ["c_dept", "c_avg", "c_dept"] ·) rows shown := by
  obtain ⟨columns, hcolumns, hnames, horder, hplain⟩ :=
    rows_of_ask serves_twoSections result_ask_averagesQuery
  obtain rfl : columns = ["c_dept", "c_avg", "c_dept"] := by
    have hlisted : some (Json.array (["c_dept", "c_avg", "c_dept"].map .string)) =
      some (.array (columns.map .string)) := hcolumns
    rw [Option.some.injEq, Json.array.injEq] at hlisted
    exact (List.map_injective_iff.mpr (fun _ _ => Json.string.inj) hlisted).symm
  obtain ⟨q, kind, records, shown, hq, hholds, hperm, hshows⟩ := hplain rfl
  obtain rfl : q = averages := Except.ok.inj (hq.symm.trans ofJson_averagesQuery)
  obtain ⟨rfl, rfl⟩ := Source.Holds.unique (.memory rfl) hholds
  exact ⟨_, shown, result_ask_averagesQuery, hnames, horder _ "c_avg" rfl (.inl rfl), hperm,
    hshows⟩

end Engine

end Campus
