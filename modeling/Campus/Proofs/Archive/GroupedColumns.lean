import Campus.Proofs.Archive.Answers
import Campus.Proofs.Archive.Refinement

/-!
# Grouping by the columns

A query without a grouping and an order shows a row for each match, by looking up the columns in the
record. The same query with the columns for group keys and no rules finds groups, puts a row of
values under the texts of the keys together for each, and narrows it to the columns. Both ways lead
to the same rows: `Engine.result_ask_groupedByColumns` says that the second one shows those of the
first without their repetitions.

Both are rows of values under keys (`Row.ofKeys`): a record is projected to the row of its values
(`Row.project_eq_ofKeys`), and a group is shown as the row of its tuple
(`Grouping.rows_eq_map_ofKeys`). Such rows count as the same if the tuples do.
-/

namespace Campus

variable {c : Catalog} {kind : Kind} {keys : List Key} {columns : List String}

/-! ### Rows of values under keys -/

/-- The row that has values under the texts of keys. -/
def Row.ofKeys (keys : List Key) (values : List Scalar) : Row := ⟨(keys.map Key.text).zip values⟩

theorem zip_beq_zip {names : List String} {vs ws : List Scalar} (hvs : vs.length = names.length)
    (hws : ws.length = names.length) : (names.zip vs == names.zip ws) = (vs == ws) := by
  induction names generalizing vs ws with
  | nil =>
      rw [List.length_nil, List.length_eq_zero_iff] at hvs hws
      rw [hvs, hws]
      rfl
  | cons name names ih =>
      obtain ⟨v, vs, rfl⟩ := List.exists_cons_of_length_eq_add_one hvs
      obtain ⟨w, ws, rfl⟩ := List.exists_cons_of_length_eq_add_one hws
      have hcell : ((name, v) == (name, w)) = (v == w) := by
        change (name == name && v == w) = (v == w)
        rw [BEq.rfl, Bool.true_and]
      rw [List.zip_cons_cons, List.zip_cons_cons, List.cons_beq_cons, List.cons_beq_cons, hcell,
        ih (Nat.succ.inj hvs) (Nat.succ.inj hws)]

namespace Row

theorem ofKeys_beq_ofKeys {values values' : List Scalar} (h : values.length = keys.length)
    (h' : values'.length = keys.length) :
    (ofKeys keys values == ofKeys keys values') = (values == values') :=
  zip_beq_zip (by simpa using h) (by simpa using h')

theorem names_ofKeys {values : List Scalar} (h : values.length = keys.length) :
    (ofKeys keys values).names = keys.map Key.text := by
  rw [names, ofKeys, Assoc.names, List.map_fst_zip (by simp [h])]

/-- A record is projected to the row of its values. -/
theorem project_eq_ofKeys {r : Record} (hcolumns : columns.eraseDups = keys.map Key.text)
    (hdataset : ∀ key ∈ keys, IsKeyPart key.dataset)
    (hfound : ∀ key ∈ keys, (r.field? kind key.field).isSome = true) :
    r.project kind columns = ofKeys keys (keys.map (r.groupValue kind)) := by
  rw [project, gather, hcolumns, List.filterMap_map, ofKeys, List.zip_map', ← List.filterMap_eq_map]
  congr 1
  refine List.filterMap_congr fun key hkey => ?_
  obtain ⟨value, hvalue⟩ := Option.isSome_iff_exists.mp (hfound key hkey)
  have hcell : r.get? (kind.columnField key.text) = some value := by
    rw [Kind.columnField_text (hdataset key hkey)]
    exact hvalue
  simp [hcell, groupValue, hvalue]

/-- A row is not changed by narrowing it to its own columns. -/
theorem select_ofKeys {values : List Scalar} (hcolumns : columns.eraseDups = keys.map Key.text)
    (h : values.length = keys.length) :
    (ofKeys keys values).select columns = ofKeys keys values := by
  have hnames := names_ofKeys h
  have hnodup : (ofKeys keys values).names.Nodup := by
    rw [hnames, ← hcolumns]
    exact nodup_eraseDups columns
  rw [select, gather, hcolumns, ← hnames]
  exact congrArg Row.mk (Assoc.filterMap_lookup_names hnodup)

end Row

namespace Grouping

/-- Without rules, the row of a group is that of its tuple. -/
theorem row_eq_ofKeys (hnodup : (keys.map Key.text).Nodup) {group : Group}
    (h : group.values.length = keys.length) :
    (Grouping.mk keys []).row kind group = Row.ofKeys keys group.values := by
  have hcells : (Assoc.names ([] ++ (keys.map Key.text).zip group.values)).Nodup := by
    rwa [List.nil_append, Assoc.names, List.map_fst_zip (by simp [h])]
  rw [row, List.map_nil, List.append_nil, Row.ofList, Assoc.putAll_eq_append hcells]
  rfl

/-- Without rules, the groups are shown as the rows of their tuples. -/
theorem rows_eq_map_ofKeys (hcolumns : columns.eraseDups = keys.map Key.text)
    (records : List Record) :
    (Grouping.mk keys []).rows kind columns records =
      (tuplesOf (fun r => keys.map (r.groupValue kind)) records).map (Row.ofKeys keys) := by
  have hnodup : (keys.map Key.text).Nodup := hcolumns ▸ nodup_eraseDups columns
  rw [rows, groups, groupsOf_eq, List.map_map]
  refine List.map_congr_left fun tuple htuple => ?_
  have hlength : tuple.length = keys.length := by
    obtain ⟨r, -, rfl⟩ := List.mem_map.mp (mem_of_mem_eraseDups htuple)
    exact List.length_map _
  rw [Function.comp_apply, row_eq_ofKeys hnodup hlength, Row.select_ofKeys hcolumns hlength]

/-- Grouping by the columns shows the rows of the records without their repetitions. -/
theorem rows_eq_eraseDups {records : List Record}
    (hcolumns : columns.eraseDups = keys.map Key.text)
    (hdataset : ∀ key ∈ keys, IsKeyPart key.dataset)
    (hfound : ∀ r ∈ records, ∀ key ∈ keys, (r.field? kind key.field).isSome = true) :
    (Grouping.mk keys []).rows kind columns records =
      (records.map (·.project kind columns)).eraseDups := by
  have hprojected : records.map (·.project kind columns) =
      (records.map fun r => keys.map (r.groupValue kind)).map (Row.ofKeys keys) := by
    rw [List.map_map]
    exact List.map_congr_left fun r hr => Row.project_eq_ofKeys hcolumns hdataset (hfound r hr)
  have hlength : ∀ values ∈ records.map (fun r => keys.map (r.groupValue kind)),
      values.length = keys.length := by
    intro values hvalues
    obtain ⟨r, -, rfl⟩ := List.mem_map.mp hvalues
    exact List.length_map _
  rw [rows_eq_map_ofKeys hcolumns, hprojected, tuplesOf]
  exact (eraseDups_map fun values hvalues values' hvalues' =>
    Row.ofKeys_beq_ofKeys (hlength values hvalues) (hlength values' hvalues')).symm

end Grouping

/-! ### Adding the clause -/

/-- One more clause is sorted out with the others. -/
theorem Outline.ofJson_put_grouping {members : List (String × Json)} {o : Outline}
    (h : ofJson (.object members) = .ok o) (node : Json) :
    ofJson (.object (Assoc.put Clause.grouping.name node members)) =
      .ok { o with grouping := some node } := by
  obtain ⟨hknown, hfilter, hfields, hoptions, -⟩ := ofJson_object_eq_ok_iff.mp h
  refine ofJson_object_eq_ok_iff.mpr ⟨fun name hname => ?_, ?_, hfields, ?_, ?_⟩
  · rw [Assoc.names_put] at hname
    split at hname
    · exact hknown name hname
    · rcases List.mem_append.mp hname with hname | hname
      · exact hknown name hname
      · rw [List.mem_singleton.mp hname]
        decide
  · rw [Json.member?, Assoc.lookup_put_of_ne (by decide)]
    exact hfilter
  · rw [Json.member?, Assoc.lookup_put_of_ne (by decide)]
    exact hoptions
  · exact Assoc.lookup_put_self _ _ _

namespace Query

variable {q : Query} {members : List (String × Json)}

/-- The query with keys for its groups, each once, and no rules. -/
def groupedBy (q : Query) (keys : List Key) : Query :=
  { q with grouping := some ⟨keys.eraseDups, []⟩ }

/-- The members of a query, with the columns for group keys and no rules. -/
def groupedByColumns (columns : Json) (members : List (String × Json)) : Json :=
  .object (Assoc.put "TRANSFORMATIONS" (.object [("GROUP", columns), ("APPLY", .array [])]) members)

theorem eraseDups_map_text (h : ∀ key ∈ keys, c.Admits .any key) :
    (keys.map Key.text).eraseDups = keys.eraseDups.map Key.text := by
  refine eraseDups_map fun key hkey key' hkey' => ?_
  have hadmits := h key hkey
  have hadmits' := h key' hkey'
  rw [Bool.eq_iff_iff, beq_iff_eq, beq_iff_eq]
  exact ⟨Key.text_inj ⟨hadmits.dataset, hadmits.field⟩ ⟨hadmits'.dataset, hadmits'.field⟩,
    congrArg Key.text⟩

/-- Grouping by the columns of a query that is read gives a query that is read. -/
theorem ofJson_groupedByColumns (h : ofJson c (.object members) = .ok q)
    (hplain : (Json.object members).at? "TRANSFORMATIONS" = none) :
    q.grouping = none ∧ ∃ keys : List Key, q.columns = keys.map Key.text ∧
      (∀ key ∈ keys, c.Admits .any key ∧ key.dataset = q.dataset) ∧
      ofJson c (groupedByColumns (.array (q.columns.map .string)) members) =
        .ok (q.groupedBy keys) := by
  simp only [ofJson, bind_eq_ok_iff, mapError_eq_ok_iff, pure_eq_ok_iff, Prod.exists,
    Reading.runIn_eq_ok_iff, readGrouping_eq_ok_iff, Options.gives_read_iff, Filter.gives_read_iff,
    Mentions.expectSingle_eq_ok_iff] at h ⊢
  obtain ⟨⟨filterNode, options, node?⟩, houtline, grouping, _, ⟨hgrouping, rfl⟩, o, m,
    ⟨hknown, hlisted, hne, horder, hcolumns⟩, f, _, ⟨hfilter, rfl⟩, dataset, hdataset, rfl⟩ := h
  have hnode : Json.member? members Clause.grouping.name = node? :=
    (Outline.ofJson_object_eq_ok_iff.mp houtline).2.2.2.2
  obtain rfl : node? = none := hnode.symm.trans hplain
  cases hgrouping
  obtain ⟨hshown, hfilterDataset, -⟩ :=
    (exists_columnsGiven_iff hne (by simp)).mp ⟨m, hcolumns, hdataset⟩
  obtain ⟨keys, hkeys, hadmits⟩ := exists_keys_of_isColumn hshown
  have hkeysNe : keys ≠ [] := fun hnil => hne (by rw [hkeys, hnil, List.map_nil])
  have hspelled : Grouping.Spelled c
      (.object [("GROUP", .array (o.columns.map .string)), ("APPLY", .array [])])
      ⟨keys.eraseDups, []⟩ := by
    rw [hkeys, List.map_map]
    exact .clause (.refl _) hkeysNe (fun key hkey => (hadmits key hkey).1) .nil
  have hrel := Option.Rel.some hspelled
  -- The groups have the columns, and now it is they that mention the dataset.
  have hshown' : ∀ column ∈ o.columns, IsColumn c dataset (some ⟨keys.eraseDups, []⟩) column := by
    intro column hcolumn
    rw [hkeys] at hcolumn
    simpa [IsColumn, Grouping.columns] using hcolumn
  have hgroupingDataset : ∀ g ∈ some (Grouping.mk keys.eraseDups []), ∀ key ∈ g.allKeys,
      key.dataset = dataset := by
    intro g hg key hkey
    cases hg
    exact (hadmits key (by simpa [Grouping.allKeys] using hkey)).2
  obtain ⟨m', hcolumns', hdataset'⟩ := (exists_columnsGiven_iff hne
    (keys_ne_nil_of_rel hrel)).mpr ⟨hshown', hfilterDataset, hgroupingDataset⟩
  exact ⟨rfl, keys, hkeys, hadmits, _, Outline.ofJson_put_grouping houtline _, _, _, ⟨hrel, rfl⟩, o,
    m', ⟨hknown, hlisted, hne, horder, hcolumns'⟩, f, _, ⟨hfilter, rfl⟩, dataset, hdataset', rfl⟩

/-! ### Answers -/

/-- Grouping by the columns shows the rows without their repetitions. -/
theorem rows_reference_groupedBy (hgrouping : q.grouping = none) (horder : q.order = none)
    (hcolumns : q.columns = keys.map Key.text)
    (hadmits : ∀ key ∈ keys, c.Admits .any key ∧ key.dataset = q.dataset)
    (hkind : c.kindOf? q.dataset = some kind) {records : List Record}
    (hstored : ∀ r ∈ records, Record.IsStored kind r) (limit : Nat) :
    ((q.groupedBy keys).reference kind limit records).map (·.2.2) =
      ((q.reference kind limit records).map (·.2.2)).map List.eraseDups := by
  have hdistinct : q.columns.eraseDups = keys.eraseDups.map Key.text := by
    rw [hcolumns, eraseDups_map_text fun key hkey => (hadmits key hkey).1]
  have hkeys : ∀ key ∈ keys.eraseDups, c.Admits .any key ∧ key.dataset = q.dataset :=
    fun key hkey => hadmits key (List.mem_eraseDups.mp hkey)
  have hrows : (q.groupedBy keys).shaped kind (q.found kind records) =
      (q.shaped kind (q.found kind records)).eraseDups := by
    simp only [shaped, groupedBy, hgrouping]
    refine Grouping.rows_eq_eraseDups hdistinct (fun key hkey => (hkeys key hkey).1.dataset) ?_
    intro r hr key hkey
    obtain ⟨hadmitted, hdataset⟩ := hkeys key hkey
    exact hadmitted.isSome_get? (hdataset ▸ hkind) (hstored r (List.mem_of_mem_filter hr))
  have hfound : (q.groupedBy keys).found kind records = q.found kind records := rfl
  have horder' : (q.groupedBy keys).order = none := horder
  rw [reference, reference, hfound, hrows, horder, horder']
  dsimp only
  split <;> rfl

end Query

namespace Engine

variable {e : Engine} {source : Source} {q : Query} {members : List (String × Json)}

theorem rows_run_groupedBy (h : e.Serves source) (hgrouping : q.grouping = none)
    (horder : q.order = none) (hcolumns : q.columns = keys.map Key.text)
    (hadmits : ∀ key ∈ keys, e.catalog.Admits .any key ∧ key.dataset = q.dataset) (limit : Nat) :
    ((q.groupedBy keys).run source limit).1.map (·.rows) =
      ((q.run source limit).1.map (·.rows)).map List.eraseDups := by
  have hdataset : (q.groupedBy keys).dataset = q.dataset := rfl
  -- What is not registered or cannot be scanned fails alike, whatever the grouping is.
  cases hkind : source.kindOf? q.dataset with
  | none =>
      simp only [Query.run, hdataset, hkind]
      rfl
  | some kind =>
  cases hbatches : source.batches q.dataset with
  | error reason =>
      simp only [Query.run, hdataset, hkind, hbatches]
      rfl
  | ok batches =>
      obtain ⟨kind, records, hholds, hstored⟩ := h.exists_holds hbatches
      have hholds' : source.Holds (q.groupedBy keys).dataset kind records := hholds
      rw [Query.rows_run hholds', Query.rows_run hholds]
      exact Query.rows_reference_groupedBy hgrouping horder hcolumns hadmits
        (h.kindOf?_catalog hholds.kindOf?_eq) hstored limit

/-- A valid query that neither groups nor orders stays valid with its columns for group keys and no
rules. It then shows the rows that it showed, in their order, with the repetitions of rows left out;
or it fails as it failed. -/
theorem result_ask_groupedByColumns (h : e.Serves source)
    (hvalid : e.isValid (.object members) = true)
    (hplain : (Json.object members).at? "TRANSFORMATIONS" = none)
    (hunordered : ((Json.object members).at? "OPTIONS").bind (·.at? "ORDER") = none)
    {columns : Json}
    (hcolumns : ((Json.object members).at? "OPTIONS").bind (·.at? "COLUMNS") = some columns)
    (stamp stamp' : Stamp) :
    e.isValid (Query.groupedByColumns columns members) = true ∧
      (e.ask source stamp' (Query.groupedByColumns columns members)).result =
        (e.ask source stamp (.object members)).result.map List.eraseDups := by
  obtain ⟨q, hq⟩ := (Query.isValid_iff_exists _ _).mp hvalid
  obtain ⟨hgrouping, keys, hkeys, hadmits, hgrouped⟩ := Query.ofJson_groupedByColumns hq hplain
  obtain ⟨_, options, heq, hread⟩ := Query.exists_readFrom_of_ofJson hq
  cases heq
  have hclause : (Json.object members).at? "OPTIONS" = some (.object options) := hread.clause
  rw [hclause] at hunordered hcolumns
  have horder : q.order = none := hread.order_eq_none hunordered
  obtain rfl : columns = .array (q.columns.map .string) :=
    Option.some.inj (hcolumns.symm.trans hread.listed)
  refine ⟨(Query.isValid_iff_exists _ _).mpr ⟨_, hgrouped⟩, ?_⟩
  rw [result_ask_of_ofJson hgrouped, result_ask_of_ofJson hq,
    rows_run_groupedBy h hgrouping horder hkeys hadmits]
  cases (q.run source matchLimit).1 <;> rfl

/-- A dataset in memory that has one section twice. -/
def repeatedSection : Memory := .insert .empty "c" .courses [sampleRecord, sampleRecord]

/-- The members of a query for the departments of sections. -/
def departmentMembers : List (String × Json) :=
  [("WHERE", .object []), ("OPTIONS", .object [("COLUMNS", .array [.string "c_dept"])])]

/-- The department of the section is shown for each of two records, and once with a grouping. -/
theorem result_ask_departments :
    (((Engine.ofSource repeatedSection.source).ask repeatedSection.source ⟨"q", "1"⟩
      (.object departmentMembers)).result.map List.length).toOption = some 2 ∧
    (((Engine.ofSource repeatedSection.source).ask repeatedSection.source ⟨"r", "1"⟩
      (Query.groupedByColumns (.array [.string "c_dept"]) departmentMembers)).result.map
        List.length).toOption = some 1 := by
  have hserves : (Engine.ofSource repeatedSection.source).Serves repeatedSection.source := by
    refine serves_oneDataset fun r hr => ?_
    rw [List.eq_of_mem_replicate (n := 2) hr]
    exact isStored_sampleRecord
  have hvalid : (Engine.ofSource repeatedSection.source).isValid (.object departmentMembers) =
      true := by
    decide +kernel
  obtain ⟨-, hresult⟩ := result_ask_groupedByColumns hserves hvalid rfl rfl rfl ⟨"q", "1"⟩
    ⟨"r", "1"⟩
  rw [hresult]
  decide +kernel

end Engine

end Campus
