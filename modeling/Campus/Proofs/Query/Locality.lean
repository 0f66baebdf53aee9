import Campus.Proofs.Query.Acceptance

/-!
# What a query knows of the catalog

A query that is read asks the catalog about its own dataset only: a catalog that has the dataset as
the same kind reads the same query, whatever other datasets it has (`Query.ofJson_of_kindOf?_eq`).
Every key of the query is one of its dataset, and whether a catalog admits a key depends on the kind
of the key's dataset.
-/

namespace Campus

variable {c c' : Catalog} {id : String}

/-! ### Clauses -/

/-- A key is admitted wherever its dataset is of the same kind. -/
theorem Catalog.Admits.of_kindOf?_eq {wanted : KeyClass} {key : Key} (h : c.Admits wanted key)
    (hkind : c'.kindOf? key.dataset = c.kindOf? key.dataset) : c'.Admits wanted key := by
  obtain ⟨kind, f, hfound, hfield⟩ := h.named
  exact ⟨h.dataset, h.field, kind, f, hkind.trans hfound, hfield⟩

namespace Filter

theorem forall_mem_keysAmong_cons {p : Key → Prop} {part : Filter} {parts : List Filter} :
    (∀ key ∈ keysAmong (part :: parts), p key) ↔
      (∀ key ∈ part.keys, p key) ∧ ∀ key ∈ keysAmong parts, p key := by
  rw [keysAmong, List.forall_mem_append]

mutual

theorem Spelled.of_kindOf?_eq (hkind : c'.kindOf? id = c.kindOf? id) {node : Json} {f : Filter} :
    Spelled c node f → (∀ key ∈ f.keys, key.dataset = id) → Spelled c' node f
  | .and nonempty each, h => .and nonempty (each.of_kindOf?_eq hkind h)
  | .or nonempty each, h => .or nonempty (each.of_kindOf?_eq hkind h)
  | .not inner, h => .not (inner.of_kindOf?_eq hkind h)
  | .compare known admitted, h => by
      obtain rfl := h _ (List.mem_singleton_self _)
      exact .compare known (admitted.of_kindOf?_eq hkind)
  | .is admitted pattern_spelled, h => by
      obtain rfl := h _ (List.mem_singleton_self _)
      exact .is (admitted.of_kindOf?_eq hkind) pattern_spelled

theorem SpelledParts.of_kindOf?_eq (hkind : c'.kindOf? id = c.kindOf? id) {items : List Json}
    {parts : List Filter} :
    SpelledParts c items parts → (∀ key ∈ keysAmong parts, key.dataset = id) →
      SpelledParts c' items parts
  | .nil, _ => .nil
  | .cons first others, h =>
      have hkeys := forall_mem_keysAmong_cons.mp h
      .cons (first.of_kindOf?_eq hkind hkeys.1) (others.of_kindOf?_eq hkind hkeys.2)

end

theorem SpelledClause.of_kindOf?_eq (hkind : c'.kindOf? id = c.kindOf? id) {node : Json}
    {f : Filter} (h : SpelledClause c node f) (hkeys : ∀ key ∈ f.keys, key.dataset = id) :
    SpelledClause c' node f := by
  cases h with
  | all => exact .all
  | node h => exact .node (h.of_kindOf?_eq hkind hkeys)

end Filter

theorem Grouping.Spelled.of_kindOf?_eq (hkind : c'.kindOf? id = c.kindOf? id) {node : Json}
    {g : Grouping} (h : Spelled c node g) (hkeys : ∀ key ∈ g.allKeys, key.dataset = id) :
    Spelled c' node g := by
  cases h with
  | @clause members keys items rules exactly nonempty admitted each =>
      rw [allKeys, List.forall_mem_append, List.forall_mem_map] at hkeys
      refine .clause exactly nonempty (fun key hkey => ?_) ?_
      · have hdataset := hkeys.1 key (List.mem_eraseDups.mpr hkey)
        exact (admitted key hkey).of_kindOf?_eq (by rw [hdataset, hkind])
      · have hrules := hkeys.2
        clear exactly
        induction each with
        | nil => exact .nil
        | cons hrule _ ih =>
            rw [List.forall_mem_cons] at hrules
            refine .cons ?_ (ih ⟨hkeys.1, hrules.2⟩ hrules.2)
            cases hrule with
            | rule known admitted =>
                exact .rule known (admitted.of_kindOf?_eq (by rw [hrules.1, hkind]))

theorem IsColumn.of_kindOf?_eq (hkind : c'.kindOf? id = c.kindOf? id) {grouping : Option Grouping}
    {column : String} (h : IsColumn c id grouping column) : IsColumn c' id grouping column := by
  cases grouping with
  | some g => exact h
  | none =>
      obtain ⟨key, hadmits, rfl, hcolumn⟩ := h
      exact ⟨key, hadmits.of_kindOf?_eq hkind, rfl, hcolumn⟩

/-! ### Queries -/

/-- A query is read alike wherever its dataset is of the same kind. -/
theorem Query.ofJson_of_kindOf?_eq {value : Json} {q : Query} (h : ofJson c value = .ok q)
    (hkind : c'.kindOf? q.dataset = c.kindOf? q.dataset) : ofJson c' value = .ok q := by
  simp only [ofJson, bind_eq_ok_iff, mapError_eq_ok_iff, pure_eq_ok_iff, Prod.exists,
    Reading.runIn_eq_ok_iff, readGrouping_eq_ok_iff, Options.gives_read_iff, Filter.gives_read_iff,
    Mentions.expectSingle_eq_ok_iff] at h ⊢
  obtain ⟨⟨filterNode, options, node?⟩, houtline, grouping, _, ⟨hgrouping, rfl⟩, o, m,
    ⟨hknown, hlisted, hne, horder, hcolumns⟩, f, _, ⟨hfilter, rfl⟩, dataset, hdataset, rfl⟩ := h
  have hkeys := keys_ne_nil_of_rel hgrouping
  obtain ⟨hshown, hfilterDataset, hgroupingDataset⟩ :=
    (exists_columnsGiven_iff hne hkeys).mp ⟨m, hcolumns, hdataset⟩
  have hgrouping' : Option.Rel (Grouping.Spelled c') node? grouping := by
    cases hgrouping with
    | none => exact .none
    | some hspelled => exact .some (hspelled.of_kindOf?_eq hkind (hgroupingDataset _ rfl))
  -- All that is mentioned is of the one dataset, for the other catalog as for this one.
  obtain ⟨m', hcolumns', hdataset'⟩ := (exists_columnsGiven_iff hne hkeys).mpr
    ⟨fun column hcolumn => (hshown column hcolumn).of_kindOf?_eq hkind, hfilterDataset,
      hgroupingDataset⟩
  exact ⟨_, houtline, grouping, _, ⟨hgrouping', rfl⟩, o, m',
    ⟨hknown, hlisted, hne, horder, hcolumns'⟩, f, _,
    ⟨hfilter.of_kindOf?_eq hkind hfilterDataset, rfl⟩, dataset, hdataset', rfl⟩

end Campus
