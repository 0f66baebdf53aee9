import Campus.Proofs.Json.MemberOrder
import Campus.Proofs.Query.Acceptance

/-!
# Queries with their members in other orders

The grammar of queries lets the members of an object stand in any order, so a value that spells a
clause spells it in every other order (`Filter.Spelled.of_reordered`,
`Grouping.Spelled.of_reordered`, `Order.Spelled.of_reordered`). The reader goes through the members
in an order of its own and keeps account of what it has met, but it accepts the values of the
grammar: `Query.ofJson_of_reordered` says that it accepts a value in all orders of the members or in
none, and reads the same query.
-/

namespace Campus

variable {c : Catalog} {node node' : Json}

/-! ### Filters -/

namespace Filter

mutual

/-- A filter is spelled by a node with its members in any order. -/
theorem Spelled.of_reordered : ∀ {node node' : Json} {f : Filter},
    Spelled c node f → node.Reordered node' → Spelled c node' f
  | _, _, _, .and nonempty each, h => by
      obtain ⟨_, rfl, hinner⟩ := h.exists_of_singleton
      cases hinner with
      | array hitems =>
          exact .and (Json.Reordered.items_ne_nil hitems nonempty)
            (SpelledParts.of_reordered each hitems)
  | _, _, _, .or nonempty each, h => by
      obtain ⟨_, rfl, hinner⟩ := h.exists_of_singleton
      cases hinner with
      | array hitems =>
          exact .or (Json.Reordered.items_ne_nil hitems nonempty)
            (SpelledParts.of_reordered each hitems)
  | _, _, _, .not inner, h => by
      obtain ⟨_, rfl, hinner⟩ := h.exists_of_singleton
      exact .not (Spelled.of_reordered inner hinner)
  | _, _, _, .compare known admitted, h => by
      obtain ⟨_, rfl, hinner⟩ := h.exists_of_singleton
      obtain ⟨_, rfl, hbound⟩ := hinner.exists_of_singleton
      cases hbound
      exact .compare known admitted
  | _, _, _, .is admitted pattern_spelled, h => by
      obtain ⟨_, rfl, hinner⟩ := h.exists_of_singleton
      obtain ⟨_, rfl, htext⟩ := hinner.exists_of_singleton
      cases htext
      exact .is admitted pattern_spelled

theorem SpelledParts.of_reordered : ∀ {items items' : List Json} {parts : List Filter},
    SpelledParts c items parts → Json.ReorderedItems items items' → SpelledParts c items' parts
  | _, _, _, .nil, .nil => .nil
  | _, _, _, .cons first others, .cons hfirst hothers =>
      .cons (Spelled.of_reordered first hfirst) (SpelledParts.of_reordered others hothers)

end

theorem SpelledClause.of_reordered {f : Filter} (h : SpelledClause c node f)
    (hnode : node.Reordered node') : SpelledClause c node' f := by
  cases h with
  | all =>
      obtain ⟨members, _, rfl, hknown, hperm⟩ := hnode.exists_perm (.refl [])
      cases hknown
      rw [List.perm_nil.mp hperm]
      exact .all
  | node h => exact .node (h.of_reordered hnode)

end Filter

/-! ### Groupings and orders -/

theorem ApplyRule.Spelled.of_reordered {rule : ApplyRule} (h : Spelled c node rule)
    (hnode : node.Reordered node') : Spelled c node' rule := by
  cases h with
  | rule known admitted =>
      obtain ⟨_, rfl, hinner⟩ := hnode.exists_of_singleton
      obtain ⟨_, rfl, hkey⟩ := hinner.exists_of_singleton
      cases hkey
      exact .rule known admitted

theorem ApplyRule.spelled_of_reorderedItems {items items' : List Json} {rules : List ApplyRule}
    (h : List.Forall₂ (Spelled c) items rules) (hitems : Json.ReorderedItems items items') :
    List.Forall₂ (Spelled c) items' rules := by
  induction h generalizing items' with
  | nil =>
      cases hitems
      exact .nil
  | cons hrule _ ih =>
      cases hitems with
      | cons first others => exact .cons (hrule.of_reordered first) (ih others)

theorem Grouping.Spelled.of_reordered {g : Grouping} (h : Spelled c node g)
    (hnode : node.Reordered node') : Spelled c node' g := by
  cases h with
  | @clause members keys items rules exactly nonempty admitted each =>
      have htexts : keys.map (fun key => Json.string key.text) =
          (keys.map Key.text).map .string := by rw [List.map_map]; rfl
      rw [htexts] at exactly
      obtain ⟨members', _, rfl, hknown, hperm⟩ := hnode.exists_perm exactly
      rcases hknown with _ | ⟨hgroup, _ | ⟨happly, ⟨⟩⟩⟩
      rw [hgroup.eq_of_strings, ← htexts] at hperm
      cases happly with
      | array hitems =>
          exact .clause hperm nonempty admitted (ApplyRule.spelled_of_reorderedItems each hitems)

theorem Order.Spelled.of_reordered {columns : List String} {order : Order}
    (h : order.Spelled columns node) (hnode : node.Reordered node') :
    order.Spelled columns node' := by
  cases h with
  | column shown =>
      cases hnode
      exact .column shown
  | keys exactly known nonempty shown =>
      obtain ⟨members', _, rfl, hknown, hperm⟩ := hnode.exists_perm exactly
      rcases hknown with _ | ⟨hdirection, _ | ⟨hkeys, ⟨⟩⟩⟩
      cases hdirection
      rw [hkeys.eq_of_strings] at hperm
      exact .keys hperm known nonempty shown

/-! ### Queries -/

namespace Query

variable {value value' : Json} {q : Query}

/-- What is spelled by an optional member is spelled by it in any order. -/
theorem rel_of_reordered {α : Type} {Spells : Json → α → Prop} {node? : Option Json}
    {a? : Option α} (h : Option.Rel Spells node? a?)
    (hspells : ∀ node node' a, Spells node a → node.Reordered node' → Spells node' a)
    {name : String} {members' : List (String × Json)}
    (hmembers : Json.ReorderedMembers (node?.map (name, ·)).toList members') :
    ∃ node?', members' = (node?'.map (name, ·)).toList ∧ Option.Rel Spells node?' a? := by
  cases h with
  | none =>
      cases hmembers
      exact ⟨none, rfl, .none⟩
  | some h =>
      rcases hmembers with _ | ⟨hfirst, ⟨⟩⟩
      exact ⟨some _, rfl, .some (hspells _ _ _ h hfirst)⟩

theorem Spelled.of_reordered (h : Spelled c value q) (hvalue : value.Reordered value') :
    Spelled c value' q := by
  cases h with
  | query exactly exactly_options filter grouping columns nonempty order filter_dataset
      grouping_dataset =>
      obtain ⟨members', _, rfl, hknown, hperm⟩ := hvalue.exists_perm exactly
      rcases hknown with _ | ⟨hfilter, _ | ⟨hoptions, hgrouping⟩⟩
      obtain ⟨groupingNode, rfl, hgroupingRel⟩ :=
        rel_of_reordered grouping (fun _ _ _ => Grouping.Spelled.of_reordered) hgrouping
      obtain ⟨options', _, rfl, hlisted, hpermOptions⟩ := hoptions.exists_perm exactly_options
      rcases hlisted with _ | ⟨hcolumns, horder⟩
      obtain ⟨orderNode, rfl, horderRel⟩ :=
        rel_of_reordered order (fun _ _ _ => Order.Spelled.of_reordered) horder
      rw [hcolumns.eq_of_strings] at hpermOptions
      exact .query hperm hpermOptions (filter.of_reordered hfilter) hgroupingRel columns nonempty
        horderRel filter_dataset grouping_dataset

/-- A value is accepted in all orders of its members or in none, and the same query is read. -/
theorem ofJson_of_reordered (hnames : value.DistinctNames) (h : value.Reordered value')
    (c : Catalog) :
    isValid c value' = isValid c value ∧ ∀ q, ofJson c value' = .ok q ↔ ofJson c value = .ok q := by
  have hread : ∀ q, ofJson c value' = .ok q ↔ ofJson c value = .ok q := by
    intro q
    rw [ofJson_eq_ok_iff hnames, ofJson_eq_ok_iff (h.distinctNames hnames)]
    exact ⟨fun hspelled => hspelled.of_reordered h.symm, fun hspelled => hspelled.of_reordered h⟩
  refine ⟨?_, hread⟩
  rw [Bool.eq_iff_iff, isValid_iff_exists, isValid_iff_exists]
  exact exists_congr hread

/-- The query for means with its members in other orders, at three depths. -/
def reorderedMeansQuery : Json :=
  .object
    [("OPTIONS", .object
        [("COLUMNS", .array [.string "sections_dept", .string "mean"]),
          ("ORDER", .object [("dir", .string "DOWN"), ("keys", .array [.string "mean"])])]),
      ("TRANSFORMATIONS", .object
        [("GROUP", .array [.string "sections_dept"]),
          ("APPLY", .array [.object [("mean", .object [("AVG", .string "sections_avg")])]])]),
      ("WHERE", .object [("OR", .array
        [.object [("GT", .object [("sections_avg", .number (.integer 90))])],
          .object [("NOT", .object [("IS", .object [("sections_dept", .string "*math")])])]])])]

theorem reordered_meansQuery : (meansQuery "sections_avg").Reordered reorderedMeansQuery := by
  have hpair {first second : String × Json} :
      (Json.object [first, second]).Reordered (.object [second, first]) :=
    .object (Json.Reordered.refl_members _) (.swap _ _ _)
  have hoptions {keys dir columns : String × Json} :
      (Json.object [("ORDER", .object [keys, dir]), columns]).Reordered
        (.object [columns, ("ORDER", .object [dir, keys])]) :=
    .object (.cons hpair (.cons (.refl _) .nil)) (.swap _ _ _)
  exact .object (.cons (.refl _) (.cons hpair (.cons hoptions .nil))) (List.reverse_perm _).symm

/-- The query is read in this order as in the other one. -/
theorem ofJson_reorderedMeansQuery : ∃ q,
    ofJson sectionsAndHalls (meansQuery "sections_avg") = .ok q ∧
      ofJson sectionsAndHalls reorderedMeansQuery = .ok q := by
  obtain ⟨-, hread⟩ := ofJson_of_reordered (distinctNames_meansQuery "sections_avg")
    reordered_meansQuery sectionsAndHalls
  have hvalid : isValid sectionsAndHalls (meansQuery "sections_avg") = true := by
    decide +kernel
  obtain ⟨q, hq⟩ := (isValid_iff_exists _ _).mp hvalid
  exact ⟨q, hq, (hread q).mpr hq⟩

end Query

end Campus
