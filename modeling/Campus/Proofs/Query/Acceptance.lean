import Campus.Proofs.Query.Reading

/-!
# Which values are queries

Reading accepts a value exactly if it spells a query, and gives that query. The clauses are sorted
out first (`Outline.ofJson_eq_ok_iff`); what the grouping and the columns mention decides in the end
whether there is one dataset (`Query.exists_columnsGiven_iff`).

* `Query.ofJson_eq_ok_iff` — which query is read;
* `Query.isValid_iff_inGrammar` — whether one is read.
-/

namespace Campus

variable {c : Catalog}

/-! ### Clauses -/

theorem Filter.SpelledClause.exists_object {node : Json} {f : Filter}
    (h : SpelledClause c node f) : ∃ members, node = .object members := by
  cases h with
  | all => exact ⟨_, rfl⟩
  | node h => cases h <;> exact ⟨_, rfl⟩

theorem names_clauseMembers (filter options : Json) (grouping : Option Json) :
    Assoc.names (Query.clauseMembers filter options grouping) =
      "WHERE" :: "OPTIONS" :: (grouping.map fun _ => "TRANSFORMATIONS").toList := by
  cases grouping <;> rfl

/-- The clauses that are sorted out are members, also if names repeat, and there are no others. -/
theorem Outline.ofJson_object_eq_ok_iff {members : List (String × Json)} {o : Outline} :
    ofJson (.object members) = .ok o ↔
      (∀ name ∈ Assoc.names members, name ∈ ["WHERE", "OPTIONS", "TRANSFORMATIONS"]) ∧
        Json.member? members Clause.filter.name = some o.filter ∧
        (∃ fields, o.filter = .object fields) ∧
        Json.member? members Clause.options.name = some (.object o.options) ∧
        Json.member? members Clause.grouping.name = o.grouping := by
  obtain ⟨filter, options, grouping⟩ := o
  have hfind : (∀ name ∈ Assoc.names members, name ∈ ["WHERE", "OPTIONS", "TRANSFORMATIONS"]) ↔
      members.find? (fun member =>
        !([Clause.filter, .options, .grouping].map Clause.name).contains member.1) = none := by
    simp [Assoc.names, Clause.name, or_iff_not_imp_left]
  simp only [hfind, ofJson, bind_eq_ok_iff, Json.expectObject_eq_ok_iff, Json.object.injEq,
    exists_eq_left']
  generalize members.find? _ = unknown
  cases unknown with
  | some _ => simp [bind_eq_ok_iff, throw_eq_ok_iff]
  | none =>
  cases Json.member? members Clause.filter.name with
  | none => simp [throw_eq_ok_iff]
  | some filterNode =>
  cases Json.member? members Clause.options.name with
  | none => simp [throw_eq_ok_iff]
  | some optionsNode =>
      simp only [bind_eq_ok_iff, Json.expectObject_eq_ok_iff, pure_eq_ok_iff, mk.injEq,
        Option.some.injEq, true_and]
      constructor
      · intro h
        obtain ⟨options, rfl, fields, rfl, rfl, rfl, rfl⟩ := h
        exact ⟨rfl, ⟨fields, rfl⟩, rfl, rfl⟩
      · intro h
        obtain ⟨rfl, ⟨fields, rfl⟩, rfl, rfl⟩ := h
        exact ⟨options, rfl, fields, rfl, rfl, rfl, rfl⟩

theorem Outline.exists_object_of_ofJson {value : Json} {o : Outline} (h : ofJson value = .ok o) :
    ∃ members, value = .object members := by
  simp only [ofJson, bind_eq_ok_iff, Json.expectObject_eq_ok_iff] at h
  obtain ⟨members, rfl, -⟩ := h
  exact ⟨members, rfl⟩

/-- Without repeated names, the clauses are their members if there is no further one. -/
theorem perm_clauseMembers_iff {members : List (String × Json)}
    (hnames : (Assoc.names members).Nodup) {filter options : Json} {grouping : Option Json} :
    members.Perm (Query.clauseMembers filter options grouping) ↔
      (∀ name ∈ Assoc.names members, name ∈ ["WHERE", "OPTIONS", "TRANSFORMATIONS"]) ∧
        Json.member? members Clause.filter.name = some filter ∧
        Json.member? members Clause.options.name = some options ∧
        Json.member? members Clause.grouping.name = grouping := by
  have hnodup : (Assoc.names (Query.clauseMembers filter options grouping)).Nodup := by
    cases grouping <;> simp [names_clauseMembers]
  have hknown : ∀ name ∈ Assoc.names (Query.clauseMembers filter options grouping),
      name ∈ ["WHERE", "OPTIONS", "TRANSFORMATIONS"] := by
    cases grouping <;> simp [names_clauseMembers]
  have hfilter : (Query.clauseMembers filter options grouping).lookup "WHERE" = some filter := rfl
  have hoptions : (Query.clauseMembers filter options grouping).lookup "OPTIONS" =
      some options := rfl
  have hgrouping : (Query.clauseMembers filter options grouping).lookup "TRANSFORMATIONS" =
      grouping := by
    cases grouping <;> rfl
  rw [Assoc.perm_iff_of_known hnames hnodup hknown]
  simp [Json.member?, Clause.name, hfilter, hoptions, hgrouping]

theorem Outline.ofJson_eq_ok_iff {value : Json} (h : value.DistinctNames) {o : Outline} :
    ofJson value = .ok o ↔
      ∃ members, value = .object members ∧ (∃ fields, o.filter = .object fields) ∧
        members.Perm (Query.clauseMembers o.filter (.object o.options) o.grouping) := by
  constructor
  · intro hread
    obtain ⟨members, rfl⟩ := exists_object_of_ofJson hread
    obtain ⟨hknown, hfilter, hfields, hoptions, hgrouping⟩ := ofJson_object_eq_ok_iff.mp hread
    exact ⟨members, rfl, hfields,
      (perm_clauseMembers_iff h.1).mpr ⟨hknown, hfilter, hoptions, hgrouping⟩⟩
  · intro hspelled
    obtain ⟨members, rfl, hfields, hperm⟩ := hspelled
    obtain ⟨hknown, hfilter, hoptions, hgrouping⟩ := (perm_clauseMembers_iff h.1).mp hperm
    exact ofJson_object_eq_ok_iff.mpr ⟨hknown, hfilter, hfields, hoptions, hgrouping⟩

/-! ### What a query mentions -/

theorem Mentions.expectSingle_eq_ok_iff {m : Mentions} {id : String} :
    m.expectSingle = .ok id ↔ m.datasets = [id] := by
  unfold expectSingle
  split <;> simp_all

namespace Grouping

theorem hasColumn_mentions {g : Grouping} {column : String} :
    g.mentions.hasColumn column = true ↔ column ∈ g.columns := by
  simp [Mentions.hasColumn, mentions, columns]

theorem Spelled.admits {node : Json} {g : Grouping} (h : Spelled c node g) :
    ∀ key ∈ g.keys, c.Admits .any key := by
  cases h with
  | clause exactly nonempty admitted each =>
      exact fun key hkey => admitted key (List.mem_eraseDups.mp hkey)

theorem Spelled.admits_rule {node : Json} {g : Grouping} (h : Spelled c node g) :
    ∀ rule ∈ g.rules, c.Admits (if rule.aggregate = .count then .any else .numeric) rule.key := by
  cases h with
  | clause exactly nonempty admitted each =>
      clear exactly
      induction each with
      | nil => exact fun rule hrule => nomatch hrule
      | cons first others ih =>
          cases first with
          | rule known admitted_rule => exact List.forall_mem_cons.mpr ⟨admitted_rule, ih⟩

theorem Spelled.keys_ne_nil {node : Json} {g : Grouping} (h : Spelled c node g) :
    g.keys ≠ [] := by
  cases h with
  | clause exactly nonempty admitted each =>
      obtain ⟨key, keys, rfl⟩ := List.exists_cons_of_ne_nil nonempty
      simp [List.eraseDups_cons]

end Grouping

namespace Query

/-- What is mentioned after the grouping, if there is one. -/
def groupingMentions : Option Grouping → Mentions
  | none => .none
  | some g => g.mentions

theorem readGrouping_eq_ok_iff {node? : Option Json} {grouping : Option Grouping} {m : Mentions} :
    readGrouping c node? = .ok (grouping, m) ↔
      Option.Rel (Grouping.Spelled c) node? grouping ∧ m = groupingMentions grouping := by
  cases node? with
  | none => cases grouping <;> simp [readGrouping, groupingMentions, eq_comm]
  | some node =>
      simp only [readGrouping, map_eq_ok_iff, Prod.exists, Reading.runIn_eq_ok_iff,
        Grouping.gives_read_iff, Prod.mk.injEq]
      constructor
      · intro h
        obtain ⟨g, _, ⟨hspelled, rfl⟩, rfl, rfl⟩ := h
        exact ⟨.some hspelled, rfl⟩
      · intro h
        obtain ⟨hrel, rfl⟩ := h
        cases hrel with
        | some hspelled => exact ⟨_, _, ⟨hspelled, rfl⟩, rfl, rfl⟩

theorem keys_ne_nil_of_rel {node? : Option Json} {grouping : Option Grouping}
    (h : Option.Rel (Grouping.Spelled c) node? grouping) : ∀ g ∈ grouping, g.keys ≠ [] := by
  intro g hg
  cases h with
  | none => cases hg
  | some hspelled =>
      cases hg
      exact hspelled.keys_ne_nil

/-- Without a grouping, the columns are the texts of keys of the dataset. -/
theorem exists_keys_of_isColumn {columns : List String} {id : String}
    (h : ∀ column ∈ columns, IsColumn c id none column) :
    ∃ keys : List Key, columns = keys.map Key.text ∧
      ∀ key ∈ keys, c.Admits .any key ∧ key.dataset = id := by
  induction columns with
  | nil => exact ⟨[], rfl, by simp⟩
  | cons column columns ih =>
      rw [List.forall_mem_cons] at h
      obtain ⟨key, hadmits, hkey, rfl⟩ := h.1
      obtain ⟨keys, rfl, hkeys⟩ := ih h.2
      exact ⟨key :: keys, rfl, List.forall_mem_cons.mpr ⟨⟨hadmits, hkey⟩, hkeys⟩⟩

/-- The columns are right and all that is mentioned is of one dataset if the columns are those of
that dataset and so is every key. -/
theorem exists_columnsGiven_iff {grouping : Option Grouping} {columns : List String}
    {keys : List Key} {id : String} (hcolumns : columns ≠ [])
    (hkeys : ∀ g ∈ grouping, g.keys ≠ []) :
    (∃ m, Options.ColumnsGiven c grouping.isSome (groupingMentions grouping) columns m ∧
        (m.addKeys keys).datasets = [id]) ↔
      (∀ column ∈ columns, IsColumn c id grouping column) ∧ (∀ key ∈ keys, key.dataset = id) ∧
        ∀ g ∈ grouping, ∀ key ∈ g.allKeys, key.dataset = id := by
  cases grouping with
  | none =>
      simp only [Options.ColumnsGiven, Option.isSome_none, Bool.false_eq_true, if_false,
        groupingMentions]
      constructor
      · intro h
        obtain ⟨_, ⟨columnKeys, rfl, hadmits, rfl⟩, hdatasets⟩ := h
        rw [← Mentions.addKeys_append, Mentions.datasets_addKeys_none_iff] at hdatasets
        refine ⟨fun column hcolumn => ?_, fun key hkey => hdatasets.2 key (by simp [hkey]), by simp⟩
        obtain ⟨key, hkey, rfl⟩ := List.mem_map.mp hcolumn
        exact ⟨key, hadmits key hkey, hdatasets.2 key (by simp [hkey]), rfl⟩
      · intro h
        obtain ⟨hshown, hdataset, -⟩ := h
        obtain ⟨columnKeys, rfl, hcolumnKeys⟩ := exists_keys_of_isColumn hshown
        refine ⟨_, ⟨columnKeys, rfl, fun key hkey => (hcolumnKeys key hkey).1, rfl⟩, ?_⟩
        rw [← Mentions.addKeys_append, Mentions.datasets_addKeys_none_iff, List.forall_mem_append]
        exact ⟨by simpa using fun h => absurd h (by simpa using hcolumns),
          fun key hkey => (hcolumnKeys key hkey).2, hdataset⟩
  | some g =>
      -- With a grouping the columns mention no key, but the grouping does.
      have hdatasets : ((groupingMentions (some g)).addKeys keys).datasets = [id] ↔
          ∀ key ∈ g.allKeys ++ keys, key.dataset = id := by
        have hsame : ((groupingMentions (some g)).addKeys keys).datasets =
            (Mentions.none.addKeys (g.allKeys ++ keys)).datasets := by
          rw [Mentions.addKeys_append]
          exact Mentions.datasets_addKeys_congr
            (show g.mentions.datasets = (Mentions.none.addKeys g.allKeys).datasets from rfl) keys
        rw [hsame, Mentions.datasets_addKeys_none_iff, and_iff_right]
        simp [Grouping.allKeys, hkeys g rfl]
      simp only [Options.ColumnsGiven, Option.isSome_some, if_true, and_assoc, exists_and_left,
        exists_eq_left, hdatasets, List.forall_mem_append, Option.mem_some_iff, forall_eq']
      exact and_congr (forall₂_congr fun _ _ => Grouping.hasColumn_mentions) and_comm

/-! ### Reading and the grammar -/

theorem names_options_nodup {members options : List (String × Json)} {filter : Json}
    {grouping : Option Json} (h : (Json.object members).DistinctNames)
    (hexactly : members.Perm (clauseMembers filter (.object options) grouping)) :
    (Assoc.names options).Nodup := by
  have hmem : ("OPTIONS", Json.object options) ∈ members :=
    hexactly.mem_iff.mpr (by simp [clauseMembers])
  exact (Json.distinctNamesMembers_iff.mp h.2 _ hmem).1

/-- Reading a value gives a query exactly if the value spells that query. -/
theorem ofJson_eq_ok_iff {value : Json} (h : value.DistinctNames) {q : Query} :
    ofJson c value = .ok q ↔ Spelled c value q := by
  simp only [ofJson, bind_eq_ok_iff, mapError_eq_ok_iff, Outline.ofJson_eq_ok_iff h,
    pure_eq_ok_iff, Prod.exists, Reading.runIn_eq_ok_iff, readGrouping_eq_ok_iff,
    Filter.gives_read_iff, Mentions.expectSingle_eq_ok_iff]
  constructor
  · intro hread
    obtain ⟨⟨filterNode, options, groupingNode⟩, ⟨members, rfl, -, hexactly⟩, grouping, _,
      ⟨hgrouping, rfl⟩, o, m, hoptions, f, _, ⟨hfilter, rfl⟩, dataset, hdataset, rfl⟩ := hread
    rw [Options.gives_read_iff_perm (names_options_nodup h hexactly)] at hoptions
    obtain ⟨orderNode, hexactlyOptions, hne, horder, hcolumns⟩ := hoptions
    obtain ⟨hshown, hfilterDataset, hgroupingDataset⟩ :=
      (exists_columnsGiven_iff hne (keys_ne_nil_of_rel hgrouping)).mp ⟨m, hcolumns, hdataset⟩
    exact .query hexactly hexactlyOptions hfilter hgrouping hshown hne horder hfilterDataset
      hgroupingDataset
  · intro hspelled
    cases hspelled with
    | @query members options filterNode groupingNode orderNode _ exactly exactly_options filter
        grouping columns nonempty order filter_dataset grouping_dataset =>
        obtain ⟨m, hcolumns, hdataset⟩ :=
          (exists_columnsGiven_iff nonempty (keys_ne_nil_of_rel grouping)).mpr
            ⟨columns, filter_dataset, grouping_dataset⟩
        have hoptions := (Options.gives_read_iff_perm (o := ⟨q.columns, q.order⟩)
          (names_options_nodup h exactly)).mpr
            ⟨orderNode, exactly_options, nonempty, order, hcolumns⟩
        exact ⟨⟨filterNode, options, groupingNode⟩,
          ⟨members, rfl, filter.exists_object, exactly⟩, q.grouping, _, ⟨grouping, rfl⟩,
          ⟨q.columns, q.order⟩, m, hoptions, q.filter, _, ⟨filter, rfl⟩, q.dataset, hdataset, rfl⟩

/-- What is known of a query that is read from an object, also if names repeat in the object. -/
structure ReadFrom (c : Catalog) (members options : List (String × Json)) (q : Query) : Prop where
  clause : Json.member? members Clause.options.name = some (.object options)
  grouping : Option.Rel (Grouping.Spelled c) (Json.member? members Clause.grouping.name) q.grouping
  listed : Json.member? options Options.columnsMember = some (.array (q.columns.map .string))
  nonempty : q.columns ≠ []
  order : Option.Rel (Order.Spelled q.columns) (Json.member? options Options.orderMember) q.order
  columns : ∀ column ∈ q.columns, IsColumn c q.dataset q.grouping column
  grouping_dataset : ∀ g ∈ q.grouping, ∀ key ∈ g.allKeys, key.dataset = q.dataset

theorem ReadFrom.order_eq_none {members options : List (String × Json)} {q : Query}
    (h : ReadFrom c members options q)
    (hnone : Json.member? options Options.orderMember = none) : q.order = none := by
  have hrel := h.order
  rw [hnone] at hrel
  cases horder : q.order with
  | none => rfl
  | some order =>
      rw [horder] at hrel
      cases hrel

theorem exists_readFrom_of_ofJson {value : Json} {q : Query} (h : ofJson c value = .ok q) :
    ∃ members options, value = .object members ∧ ReadFrom c members options q := by
  simp only [ofJson, bind_eq_ok_iff, mapError_eq_ok_iff, pure_eq_ok_iff, Prod.exists,
    Reading.runIn_eq_ok_iff, readGrouping_eq_ok_iff, Options.gives_read_iff, Filter.gives_read_iff,
    Mentions.expectSingle_eq_ok_iff] at h
  obtain ⟨⟨_, options, _⟩, houtline, grouping, _, ⟨hgrouping, rfl⟩, o, m,
    ⟨-, hlisted, hne, horder, hcolumns⟩, f, _, ⟨-, rfl⟩, dataset, hdataset, rfl⟩ := h
  obtain ⟨members, rfl⟩ := Outline.exists_object_of_ofJson houtline
  obtain ⟨-, -, -, hoptions, hnode⟩ := Outline.ofJson_object_eq_ok_iff.mp houtline
  obtain ⟨hshown, -, hgroupingDataset⟩ :=
    (exists_columnsGiven_iff hne (keys_ne_nil_of_rel hgrouping)).mp ⟨m, hcolumns, hdataset⟩
  exact ⟨members, options, rfl, hoptions, hnode ▸ hgrouping, hlisted, hne, horder, hshown,
    hgroupingDataset⟩

/-- A query that is read is one of a dataset that is registered. -/
theorem kindOf?_dataset_of_ofJson {value : Json} {q : Query} (h : ofJson c value = .ok q) :
    ∃ kind, c.kindOf? q.dataset = some kind := by
  obtain ⟨members, options, rfl, hread⟩ := exists_readFrom_of_ofJson h
  -- The first column is a key, or else the first key of the grouping is one.
  obtain ⟨key, hadmits, hkey⟩ : ∃ key, c.Admits .any key ∧ key.dataset = q.dataset := by
    have hgrouping := hread.grouping
    cases hg : q.grouping with
    | none =>
        obtain ⟨column, columns, heq⟩ := List.exists_cons_of_ne_nil hread.nonempty
        have hcolumn := hread.columns column (by simp [heq])
        simp only [IsColumn, hg] at hcolumn
        obtain ⟨key, hadmits, hkey, -⟩ := hcolumn
        exact ⟨key, hadmits, hkey⟩
    | some g =>
        rw [hg] at hgrouping
        generalize Json.member? members Clause.grouping.name = node? at hgrouping
        cases hgrouping with
        | some hspelled =>
            obtain ⟨key, keys, heq⟩ := List.exists_cons_of_ne_nil hspelled.keys_ne_nil
            exact ⟨key, hspelled.admits key (by simp [heq]),
              hread.grouping_dataset g hg key (by simp [Grouping.allKeys, heq])⟩
  obtain ⟨kind, -, hkind, -⟩ := hadmits.named
  exact ⟨kind, hkey ▸ hkind⟩

theorem isValid_iff_exists (c : Catalog) (value : Json) :
    isValid c value = true ↔ ∃ q, ofJson c value = .ok q := by
  unfold isValid
  cases ofJson c value <;> simp

/-- A value is valid exactly if it is in the grammar. -/
theorem isValid_iff_inGrammar (c : Catalog) {value : Json} (h : value.DistinctNames) :
    isValid c value = true ↔ InGrammar c value := by
  unfold isValid InGrammar
  simp only [← ofJson_eq_ok_iff h]
  cases ofJson c value <;> simp

/-- A dataset of each kind. -/
def sectionsAndHalls : Catalog := ⟨[("sections", .courses), ("halls", .rooms)]⟩

/-- A query for the means of some departments, with a key that its filter compares. -/
def meansQuery (filterKey : String) : Json :=
  .object
    [("WHERE", .object [("OR", .array
      [.object [("GT", .object [(filterKey, .number (.integer 90))])],
        .object [("NOT", .object [("IS", .object [("sections_dept", .string "*math")])])]])]),
      ("TRANSFORMATIONS", .object
        [("APPLY", .array [.object [("mean", .object [("AVG", .string "sections_avg")])]]),
          ("GROUP", .array [.string "sections_dept"])]),
      ("OPTIONS", .object
        [("ORDER", .object [("keys", .array [.string "mean"]), ("dir", .string "DOWN")]),
          ("COLUMNS", .array [.string "sections_dept", .string "mean"])])]

theorem distinctNames_meansQuery (filterKey : String) : (meansQuery filterKey).DistinctNames := by
  simp [meansQuery, Json.DistinctNames, Json.DistinctNamesItems, Json.DistinctNamesMembers]

/-- The query is one as long as the filter compares a key of the same dataset. -/
theorem inGrammar_meansQuery :
    InGrammar sectionsAndHalls (meansQuery "sections_avg") ∧
      ¬ InGrammar sectionsAndHalls (meansQuery "halls_seats") := by
  constructor
  · rw [← isValid_iff_inGrammar _ (distinctNames_meansQuery _)]
    decide +kernel
  · rw [← isValid_iff_inGrammar _ (distinctNames_meansQuery _)]
    decide +kernel

end Query

end Campus
