import Campus.Grouping.Reader
import Campus.Proofs.Assoc
import Campus.Proofs.Query.Grammar
import Campus.Proofs.Reading
import Mathlib.Tactic.FinCases

/-!
# What reading a grouping gives

`Grouping.gives_read_iff`: the reader of the grouping clause accepts exactly the values that spell a
grouping, gives that grouping, and notes its columns. The reader drops a group key when it has seen
the text of the key before, the grammar when it has seen the key; `Key.text_inj` makes that the
same.
-/

namespace Campus

theorem Aggregate.ofToken?_eq_some_iff {token : String} {aggregate : Aggregate} :
    Aggregate.ofToken? token = some aggregate ↔ (token, aggregate) ∈ aggregateWords := by
  constructor
  · intro h
    obtain rfl : aggregate.token = token := by simpa using List.find?_some h
    cases aggregate <;> decide
  · intro h
    fin_cases h <;> decide

theorem Aggregate.keyClass_eq (aggregate : Aggregate) :
    aggregate.keyClass = if aggregate = .count then .any else .numeric := by
  cases aggregate <;> rfl

namespace Grouping

variable {c : Catalog}

/-! ### Group keys -/

/-- The keys that are new, given the texts of earlier ones: each once. -/
def newKeys (known : List String) (keys : List Key) : List Key :=
  (keys.filter fun key => !known.contains key.text).eraseDups

theorem newKeys_nil_known (keys : List Key) : newKeys [] keys = keys.eraseDups := by
  simp [newKeys]

theorem newKeys_cons {known : List String} {key : Key} {keys : List Key}
    (hkeys : ∀ other ∈ keys, other.text = key.text → other = key) :
    newKeys known (key :: keys) =
      (if key.text ∈ known then [] else [key]) ++ newKeys (addNew known key.text) keys := by
  unfold newKeys addNew
  by_cases h : key.text ∈ known
  · simp [h]
  · have hfilter : ((keys.filter fun other => !known.contains other.text).filter
        fun other => !other == key) =
        keys.filter fun other => !(known ++ [key.text]).contains other.text := by
      rw [List.filter_filter]
      refine List.filter_congr fun other hother => ?_
      have hiff : other = key ↔ other.text = key.text :=
        ⟨fun heq => heq ▸ rfl, hkeys other hother⟩
      by_cases heq : other = key <;> simp [heq, hiff.symm]
    rw [List.filter_cons_of_pos (by simpa using h), List.eraseDups_cons, hfilter]
    simp [h]

theorem gives_noteGroupKey_iff {raw : String} {new : Bool} {m m' : Mentions} :
    (noteGroupKey raw).Gives m new m' ↔
      new = !m.groupKeys.contains raw ∧ m' = m.addGroupKey raw := by
  simp only [noteGroupKey, Reading.gives_bind, Reading.gives_get, Reading.gives_modify,
    Reading.gives_pure]
  constructor
  · intro h
    obtain ⟨_, _, ⟨rfl, rfl⟩, _, _, rfl, rfl, rfl⟩ := h
    exact ⟨rfl, rfl⟩
  · intro h
    obtain ⟨rfl, rfl⟩ := h
    exact ⟨m, m, ⟨rfl, rfl⟩, (), _, rfl, rfl, rfl⟩

/-- What is mentioned after the group keys `keys`. -/
def afterKeys (m : Mentions) (keys : List Key) : Mentions :=
  ⟨(m.addKeys keys).datasets, m.groupKeys ++ (newKeys m.groupKeys keys).map Key.text,
    m.applyNames⟩

theorem afterKeys_cons {m : Mentions} {key : Key} {keys : List Key}
    (hkeys : ∀ other ∈ keys, other.text = key.text → other = key) :
    afterKeys m (key :: keys) = afterKeys ((m.addKeys [key]).addGroupKey key.text) keys := by
  have hdatasets : (m.addKeys (key :: keys)).datasets =
      (((m.addKeys [key]).addGroupKey key.text).addKeys keys).datasets := by
    rw [Mentions.addKeys_cons]
    exact Mentions.datasets_addKeys_congr (by rfl) keys
  have hgroupKeys : ((m.addKeys [key]).addGroupKey key.text).groupKeys =
      addNew m.groupKeys key.text := rfl
  have happlyNames : ((m.addKeys [key]).addGroupKey key.text).applyNames = m.applyNames := rfl
  rw [afterKeys, afterKeys, hdatasets, hgroupKeys, happlyNames, newKeys_cons hkeys]
  by_cases h : key.text ∈ m.groupKeys <;> simp [addNew, h]

theorem gives_readKeys_iff {items : List Json} {keys : List Key} {m m' : Mentions} :
    (readKeys c items).Gives m keys m' ↔
      ∃ all : List Key, items = all.map (fun key => .string key.text) ∧
        (∀ key ∈ all, c.Admits .any key) ∧ keys = newKeys m.groupKeys all ∧
        m' = afterKeys m all := by
  induction items generalizing keys m m' with
  | nil =>
      simp only [readKeys, Reading.gives_pure]
      constructor
      · intro h
        obtain ⟨rfl, rfl⟩ := h
        exact ⟨[], by simp [newKeys, afterKeys]⟩
      · intro h
        obtain ⟨all, hall, -, rfl, rfl⟩ := h
        obtain rfl : all = [] := by simpa using hall.symm
        simp [newKeys, afterKeys]
  | cons item items ih =>
      simp only [readKeys, Reading.gives_bind, Reading.gives_lift, Json.expectString_eq_ok_iff,
        Catalog.expectKey_eq_ok_iff, Reading.gives_mention, gives_noteGroupKey_iff, ih,
        Reading.gives_pure]
      -- Admitted keys of one text are one key, so a text that is new is the text of a new key.
      have hone : ∀ {key : Key} {all : List Key}, c.Admits .any key →
          (∀ other ∈ all, c.Admits .any other) →
          ∀ other ∈ all, other.text = key.text → other = key := fun hkey hall other hother =>
        Key.text_inj ⟨(hall other hother).dataset, (hall other hother).field⟩
          ⟨hkey.dataset, hkey.field⟩
      constructor
      · intro h
        obtain ⟨_, _, ⟨rfl, rfl⟩, key, start, ⟨⟨rfl, hkey⟩, rfl⟩, _, _, rfl, _, _, ⟨rfl, rfl⟩, _, _,
          ⟨all, rfl, hall, rfl, rfl⟩, rfl, rfl⟩ := h
        refine ⟨key :: all, rfl, List.forall_mem_cons.mpr ⟨hkey, hall⟩, ?_,
          (afterKeys_cons (hone hkey hall)).symm⟩
        rw [newKeys_cons (hone hkey hall)]
        by_cases h : key.text ∈ start.groupKeys <;> simp [h, Mentions.addGroupKey]
      · intro h
        obtain ⟨_ | ⟨key, all⟩, hitems, hall, rfl, rfl⟩ := h
        · simp at hitems
        · simp only [List.map_cons, List.cons.injEq] at hitems
          obtain ⟨rfl, rfl⟩ := hitems
          simp only [List.forall_mem_cons] at hall
          refine ⟨_, m, ⟨rfl, rfl⟩, key, m, ⟨⟨rfl, hall.1⟩, rfl⟩, (), _, rfl, _, _, ⟨rfl, rfl⟩,
            _, _, ⟨all, rfl, hall.2, rfl, rfl⟩, ?_, afterKeys_cons (hone hall.1 hall.2)⟩
          rw [newKeys_cons (hone hall.1 hall.2)]
          by_cases h : key.text ∈ m.groupKeys <;> simp [h, Mentions.addGroupKey]

/-! ### Rules -/

theorem gives_readRule_iff {item : Json} {rule : ApplyRule} {m m' : Mentions} :
    (readRule c item).Gives m rule m' ↔
      rule.Spelled c item ∧ m' = (m.addKeys [rule.key]).addApplyName rule.name := by
  simp only [readRule, Reading.gives_bind, Reading.gives_lift, Json.expectObject_eq_ok_iff,
    expectSingle_eq_ok_iff]
  constructor
  · intro h
    obtain ⟨_, _, ⟨rfl, rfl⟩, ⟨name, body⟩, _, ⟨rfl, rfl⟩, _, _, ⟨rfl, rfl⟩, ⟨token, operand⟩, _,
      ⟨rfl, rfl⟩, h⟩ := h
    split at h
    · simp at h
    · next aggregate haggregate =>
      simp only [Reading.gives_bind, Reading.gives_lift, Json.expectString_eq_ok_iff,
        Catalog.expectKey_eq_ok_iff, Reading.gives_mention, Reading.gives_modify,
        Reading.gives_pure, Aggregate.keyClass_eq] at h
      obtain ⟨_, _, ⟨rfl, rfl⟩, key, _, ⟨⟨rfl, hkey⟩, rfl⟩, _, _, rfl, _, _, rfl, rfl, rfl⟩ := h
      exact ⟨.rule (Aggregate.ofToken?_eq_some_iff.mp haggregate) hkey, rfl⟩
  · intro h
    obtain ⟨h, rfl⟩ := h
    cases h with
    | @rule name word aggregate key known admitted =>
        refine ⟨_, m, ⟨rfl, rfl⟩, (name, _), m, ⟨rfl, rfl⟩, _, m, ⟨rfl, rfl⟩, (word, _), m,
          ⟨rfl, rfl⟩, ?_⟩
        simp only [Aggregate.ofToken?_eq_some_iff.mpr known, Reading.gives_bind,
          Reading.gives_lift, Json.expectString_eq_ok_iff, Catalog.expectKey_eq_ok_iff,
          Reading.gives_mention, Reading.gives_modify, Reading.gives_pure, Aggregate.keyClass_eq]
        exact ⟨_, m, ⟨rfl, rfl⟩, key, m, ⟨⟨rfl, admitted⟩, rfl⟩, (), _, rfl, (), _, rfl, rfl, rfl⟩

/-- What is mentioned after some rules. -/
def afterRules (m : Mentions) (rules : List ApplyRule) : Mentions :=
  ⟨(m.addKeys (rules.map (·.key))).datasets, m.groupKeys, m.applyNames ++ rules.map (·.name)⟩

theorem afterRules_cons (m : Mentions) (rule : ApplyRule) (rules : List ApplyRule) :
    afterRules m (rule :: rules) =
      afterRules ((m.addKeys [rule.key]).addApplyName rule.name) rules := by
  have hdatasets : (m.addKeys ((rule :: rules).map (·.key))).datasets =
      (((m.addKeys [rule.key]).addApplyName rule.name).addKeys (rules.map (·.key))).datasets := by
    rw [List.map_cons, Mentions.addKeys_cons]
    exact Mentions.datasets_addKeys_congr (by rfl) _
  simp only [afterRules, hdatasets]
  simp [Mentions.addApplyName]

theorem gives_readRules_iff {items : List Json} {rules : List ApplyRule} {m m' : Mentions} :
    (readRules c items).Gives m rules m' ↔
      List.Forall₂ (ApplyRule.Spelled c) items rules ∧ m' = afterRules m rules := by
  induction items generalizing rules m m' with
  | nil =>
      simp only [readRules, Reading.gives_pure, List.forall₂_nil_left_iff]
      constructor
      · intro h
        obtain ⟨rfl, rfl⟩ := h
        simp [afterRules]
      · intro h
        obtain ⟨rfl, rfl⟩ := h
        simp [afterRules]
  | cons item items ih =>
      simp only [readRules, Reading.gives_bind, gives_readRule_iff, ih, Reading.gives_pure,
        List.forall₂_cons_left_iff]
      constructor
      · intro h
        obtain ⟨rule, _, ⟨hrule, rfl⟩, rules, _, ⟨hrules, rfl⟩, rfl, rfl⟩ := h
        exact ⟨⟨rule, rules, hrule, hrules, rfl⟩, (afterRules_cons _ _ _).symm⟩
      · intro h
        obtain ⟨⟨rule, rules, hrule, hrules, rfl⟩, rfl⟩ := h
        exact ⟨rule, _, ⟨hrule, rfl⟩, rules, _, ⟨hrules, rfl⟩, rfl, afterRules_cons _ _ _⟩

/-! ### The clause -/

theorem gives_readGroup_iff {node : Json} {keys : List Key} {m m' : Mentions} :
    (readGroup c node).Gives m keys m' ↔
      ∃ all : List Key, node = .array (all.map fun key => .string key.text) ∧ all ≠ [] ∧
        (∀ key ∈ all, c.Admits .any key) ∧ keys = newKeys m.groupKeys all ∧
        m' = afterKeys m all := by
  simp only [readGroup, Reading.gives_bind, Reading.gives_lift, Json.expectArray_eq_ok_iff]
  constructor
  · intro h
    obtain ⟨items, _, ⟨rfl, rfl⟩, h⟩ := h
    split at h
    · simp at h
    · next hne =>
      obtain ⟨all, rfl, hall, hkeys, hm⟩ := gives_readKeys_iff.mp h
      exact ⟨all, rfl, by simpa using hne, hall, hkeys, hm⟩
  · intro h
    obtain ⟨all, rfl, hne, hall, hkeys, hm⟩ := h
    refine ⟨_, m, ⟨rfl, rfl⟩, ?_⟩
    rw [if_neg (by simpa using hne)]
    exact gives_readKeys_iff.mpr ⟨all, rfl, hall, hkeys, hm⟩

theorem gives_readApply_iff {node : Json} {rules : List ApplyRule} {m m' : Mentions} :
    (readApply c node).Gives m rules m' ↔
      ∃ items, node = .array items ∧ List.Forall₂ (ApplyRule.Spelled c) items rules ∧
        m' = afterRules m rules := by
  simp only [readApply, Reading.gives_bind, Reading.gives_lift, Json.expectArray_eq_ok_iff,
    gives_readRules_iff]
  constructor
  · intro h
    obtain ⟨items, _, ⟨rfl, rfl⟩, h⟩ := h
    exact ⟨items, rfl, h⟩
  · intro h
    obtain ⟨items, rfl, h⟩ := h
    exact ⟨items, m, ⟨rfl, rfl⟩, h⟩

/-- What is mentioned after a grouping, if nothing is before it. -/
def mentions (g : Grouping) : Mentions :=
  ⟨(Mentions.none.addKeys g.allKeys).datasets, g.keys.map Key.text, g.rules.map (·.name)⟩

theorem datasets_afterRules_afterKeys (m : Mentions) (all : List Key) (rules : List ApplyRule) :
    (afterRules (afterKeys m all) rules).datasets =
      (m.addKeys (all ++ rules.map (·.key))).datasets := by
  rw [Mentions.addKeys_append]
  exact Mentions.datasets_addKeys_congr (by rfl) _

theorem afterRules_afterKeys (all : List Key) (rules : List ApplyRule) :
    afterRules (afterKeys .none all) rules = mentions ⟨all.eraseDups, rules⟩ := by
  -- A key that is given again mentions no dataset anew.
  have hdatasets : (afterRules (afterKeys .none all) rules).datasets =
      (Mentions.none.addKeys (all.eraseDups ++ rules.map (·.key))).datasets := by
    rw [datasets_afterRules_afterKeys, Mentions.addKeys_append, Mentions.addKeys_append,
      Mentions.addKeys_eraseDups]
  rw [mentions, allKeys, ← hdatasets]
  simp [afterRules, afterKeys, Mentions.none, newKeys_nil_known]

/-- What the reader gives, whatever is mentioned before. -/
theorem gives_readFrom_iff {node : Json} {g : Grouping} {m m' : Mentions} :
    (read c node).Gives m g m' ↔
      ∃ members all items rules, node = .object members ∧
        members.Perm
          [("GROUP", .array (all.map fun key => .string key.text)), ("APPLY", .array items)] ∧
        all ≠ [] ∧ (∀ key ∈ all, c.Admits .any key) ∧
        List.Forall₂ (ApplyRule.Spelled c) items rules ∧
        g = ⟨newKeys m.groupKeys all, rules⟩ ∧ m' = afterRules (afterKeys m all) rules := by
  simp only [read, Reading.gives_bind, Reading.gives_lift, Json.expectObject_eq_ok_iff]
  constructor
  · intro h
    obtain ⟨members, _, ⟨rfl, rfl⟩, h⟩ := h
    split at h
    · next group apply hgroup happly =>
      split at h
      · next hlength =>
        simp only [Reading.gives_bind, gives_readGroup_iff, gives_readApply_iff,
          Reading.gives_pure] at h
        obtain ⟨_, _, ⟨all, rfl, hne, hall, rfl, rfl⟩, rules, _, ⟨items, rfl, hrules, rfl⟩, rfl,
          rfl⟩ := h
        have hexactly := (Assoc.perm_pair_iff (by decide)).mpr ⟨hlength, hgroup, happly⟩
        exact ⟨members, all, items, rules, rfl, hexactly, hne, hall, hrules, rfl, rfl⟩
      · simp at h
    · simp at h
  · intro h
    obtain ⟨members, all, items, rules, rfl, hexactly, hne, hall, hrules, rfl, rfl⟩ := h
    obtain ⟨hlength, hgroup, happly⟩ := (Assoc.perm_pair_iff (by decide)).mp hexactly
    refine ⟨members, m, ⟨rfl, rfl⟩, ?_⟩
    simp only [Json.member?, groupMember, applyMember, hgroup, happly, hlength, if_true,
      Reading.gives_bind, gives_readGroup_iff, gives_readApply_iff, Reading.gives_pure]
    exact ⟨_, _, ⟨all, rfl, hne, hall, rfl, rfl⟩, rules, _, ⟨items, rfl, hrules, rfl⟩, rfl, rfl⟩

theorem gives_read_iff {node : Json} {g : Grouping} {m' : Mentions} :
    (read c node).Gives .none g m' ↔ Spelled c node g ∧ m' = g.mentions := by
  have hnew (all : List Key) : newKeys Mentions.none.groupKeys all = all.eraseDups :=
    newKeys_nil_known all
  rw [gives_readFrom_iff]
  constructor
  · intro h
    obtain ⟨members, all, items, rules, rfl, hexactly, hne, hall, hrules, rfl, rfl⟩ := h
    rw [hnew]
    exact ⟨.clause hexactly hne hall hrules, afterRules_afterKeys all rules⟩
  · intro h
    obtain ⟨h, rfl⟩ := h
    cases h with
    | @clause members keys items rules exactly nonempty admitted each =>
        exact ⟨members, keys, items, rules, rfl, exactly, nonempty, admitted, each,
          by rw [hnew], (afterRules_afterKeys keys rules).symm⟩

end Grouping

end Campus
