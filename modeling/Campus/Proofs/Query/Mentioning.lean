import Campus.Proofs.Query.Acceptance

/-!
# The datasets that clauses mention

Whether a clause is read or not, what it leaves in the state is accounted for. A clause that is read
has mentioned the datasets of all its keys, from left to right. One that is not read has mentioned
the datasets of some keys, all of them registered (`Reading.Notes`): no reader notes a key before
the catalog has resolved it. `Mentions.collects_clauses` puts both together.
-/

namespace Campus

variable {α β : Type} {c : Catalog} {m m' : Mentions}

/-! ### Readings that may fail -/

namespace Reading

/-- Whatever comes of the reading, it notes keys of registered datasets only. -/
def Notes (c : Catalog) (r : Reading α) : Prop :=
  ∀ m, ∃ keys : List Key, (∀ key ∈ keys, (c.kindOf? key.dataset).isSome = true) ∧
    (r.runFrom m).2.datasets = (m.addKeys keys).datasets

theorem notes_of_unchanged {r : Reading α} (h : ∀ m, (r.runFrom m).2.datasets = m.datasets) :
    r.Notes c :=
  fun m => ⟨[], by simp, h m⟩

theorem notes_pure {a : α} : (pure a : Reading α).Notes c := notes_of_unchanged fun _ => rfl

theorem notes_throw {e : Fault} : (throw e : Reading α).Notes c := notes_of_unchanged fun _ => rfl

theorem notes_lift {e : Except Fault α} : (liftM e : Reading α).Notes c :=
  notes_of_unchanged fun _ => rfl

theorem notes_mention {key : Key} (h : (c.kindOf? key.dataset).isSome = true) :
    (mention key).Notes c :=
  fun _ => ⟨[key], by simpa using h, rfl⟩

/-- One reading after the other. The second one counts only for what the first one gives. -/
theorem notes_bind {r : Reading α} {f : α → Reading β} (hr : r.Notes c)
    (hf : ∀ a m m', r.Gives m a m' → (f a).Notes c) : (r >>= f).Notes c := by
  intro m
  obtain ⟨keys, hkeys, hdatasets⟩ := hr m
  rw [runFrom_bind]
  cases hrun : r.runFrom m with
  | mk result between =>
      rw [hrun] at hdatasets
      cases result with
      | error e => exact ⟨keys, hkeys, hdatasets⟩
      | ok a =>
          obtain ⟨others, hothers, hdatasets'⟩ := hf a m between hrun between
          refine ⟨keys ++ others, List.forall_mem_append.mpr ⟨hkeys, hothers⟩, ?_⟩
          rw [Mentions.addKeys_append]
          exact hdatasets'.trans (Mentions.datasets_addKeys_congr hdatasets others)

theorem notes_map {r : Reading α} {f : α → β} (hr : r.Notes c) : (f <$> r).Notes c := by
  rw [map_eq_pure_bind]
  exact notes_bind hr fun _ _ _ _ => notes_pure

end Reading

open Reading

theorem Catalog.Admits.isSome_kindOf? {wanted : KeyClass} {key : Key} (h : c.Admits wanted key) :
    (c.kindOf? key.dataset).isSome = true := by
  obtain ⟨kind, -, hkind, -⟩ := h.named
  rw [hkind, Option.isSome_some]

/-- A key is noted only after it has been resolved. -/
theorem Reading.notes_key {raw operator : String} {wanted : KeyClass} {f : Key → Reading α}
    (hf : ∀ key, (c.kindOf? key.dataset).isSome = true → (f key).Notes c) :
    (liftM (c.expectKey raw wanted operator) >>= f : Reading α).Notes c :=
  notes_bind notes_lift fun key _ _ hkey =>
    hf key (Catalog.expectKey_eq_ok_iff.mp (gives_lift.mp hkey).1).2.isSome_kindOf?

/-! ### Filters -/

namespace Filter

theorem notes_readCompare (op : Comparison) (members : List (String × Json)) :
    (readCompare c op members).Notes c := by
  unfold readCompare
  refine notes_bind notes_lift fun _ _ _ _ => notes_key fun key hkey => ?_
  refine notes_bind notes_lift fun _ _ _ _ => ?_
  exact notes_bind (notes_mention hkey) fun _ _ _ _ => notes_pure

theorem notes_readIs (members : List (String × Json)) : (readIs c members).Notes c := by
  unfold readIs
  refine notes_bind notes_lift fun _ _ _ _ => notes_key fun key hkey => ?_
  refine notes_bind notes_lift fun _ _ _ _ => ?_
  split
  · exact notes_throw
  · exact notes_bind (notes_mention hkey) fun _ _ _ _ => notes_pure

theorem notes_readOperand_of_shape_ne {op : Operator} {operand : Json}
    (h : operand.shape ≠ op.operandShape) : (readOperand c op operand).Notes c := by
  rw [readOperand_of_shape_ne h]
  exact notes_throw

/-- Reading a list of nodes, given that reading the nodes notes registered keys. -/
theorem notes_list {op : Operator} {items : List Json} {make : List Filter → Filter}
    (ih : (readParts c op items).Notes c) :
    (if items.isEmpty then throw (.emptyList op.token) else make <$> readParts c op items :
      Reading Filter).Notes c := by
  split
  · exact notes_throw
  · exact notes_map ih

mutual

theorem notes_readNode : ∀ members : List (String × Json), (readNode c members).Notes c
  | [] => notes_throw
  | [member] => notes_readMember member
  | _ :: _ :: _ => notes_throw

theorem notes_readMember : ∀ member : String × Json, (readMember c member).Notes c
  | (token, operand) => by
      rw [readMember]
      split
      · exact notes_throw
      · next op _ => exact notes_readOperand op operand

theorem notes_readOperand (op : Operator) : ∀ operand : Json, (readOperand c op operand).Notes c
  | .array items => by
      cases op with
      | and =>
          rw [readOperand]
          exact notes_list (notes_readParts _ items)
      | or =>
          rw [readOperand]
          exact notes_list (notes_readParts _ items)
      | _ => exact notes_readOperand_of_shape_ne nofun
  | .object members => by
      cases op with
      | not =>
          rw [readOperand]
          exact notes_map (notes_readNode members)
      | is =>
          rw [readOperand]
          exact notes_readIs members
      | compare op =>
          rw [readOperand]
          exact notes_readCompare op members
      | _ => exact notes_readOperand_of_shape_ne nofun
  | .null => notes_readOperand_of_shape_ne (by cases op <;> nofun)
  | .bool _ => notes_readOperand_of_shape_ne (by cases op <;> nofun)
  | .number _ => notes_readOperand_of_shape_ne (by cases op <;> nofun)
  | .string _ => notes_readOperand_of_shape_ne (by cases op <;> nofun)

theorem notes_readParts (op : Operator) : ∀ items : List Json, (readParts c op items).Notes c
  | [] => notes_pure
  | item :: items => by
      rw [readParts]
      refine notes_bind (notes_readPart op item) fun _ _ _ _ => ?_
      exact notes_bind (notes_readParts op items) fun _ _ _ _ => notes_pure

theorem notes_readPart (op : Operator) : ∀ item : Json, (readPart c op item).Notes c
  | .object members => notes_readNode members
  | .array _ => notes_throw
  | .null => notes_throw
  | .bool _ => notes_throw
  | .number _ => notes_throw
  | .string _ => notes_throw

end

theorem notes_read (node : Json) : (read c node).Notes c := by
  unfold read
  refine notes_bind notes_lift fun members _ _ _ => ?_
  split
  · exact notes_pure
  · exact notes_readNode members

end Filter

/-! ### Groupings -/

namespace Grouping

theorem notes_noteGroupKey (raw : String) : (noteGroupKey raw).Notes c :=
  notes_of_unchanged fun _ => rfl

theorem notes_readKeys (items : List Json) : (readKeys c items).Notes c := by
  induction items with
  | nil => exact notes_pure
  | cons item items ih =>
      rw [readKeys]
      refine notes_bind notes_lift fun raw _ _ _ => notes_key fun key hkey => ?_
      refine notes_bind (notes_mention hkey) fun _ _ _ _ => ?_
      refine notes_bind (notes_noteGroupKey raw) fun _ _ _ _ => ?_
      exact notes_bind ih fun _ _ _ _ => notes_pure

theorem notes_readRule (item : Json) : (readRule c item).Notes c := by
  unfold readRule
  refine notes_bind notes_lift fun _ _ _ _ => notes_bind notes_lift fun ⟨name, _⟩ _ _ _ => ?_
  refine notes_bind notes_lift fun _ _ _ _ => notes_bind notes_lift fun ⟨token, _⟩ _ _ _ => ?_
  dsimp only
  split
  · exact notes_throw
  · refine notes_bind notes_lift fun _ _ _ _ => notes_key fun key hkey => ?_
    refine notes_bind (notes_mention hkey) fun _ _ _ _ => ?_
    exact notes_bind (notes_of_unchanged fun _ => rfl) fun _ _ _ _ => notes_pure

theorem notes_readRules (items : List Json) : (readRules c items).Notes c := by
  induction items with
  | nil => exact notes_pure
  | cons item items ih =>
      rw [readRules]
      refine notes_bind (notes_readRule item) fun _ _ _ _ => ?_
      exact notes_bind ih fun _ _ _ _ => notes_pure

theorem notes_read (node : Json) : (read c node).Notes c := by
  unfold read
  refine notes_bind notes_lift fun members _ _ _ => ?_
  split
  · split
    · refine notes_bind ?_ fun _ _ _ _ => notes_bind ?_ fun _ _ _ _ => notes_pure
      · refine notes_bind notes_lift fun items _ _ _ => ?_
        split
        · exact notes_throw
        · exact notes_readKeys items
      · exact notes_bind notes_lift fun items _ _ _ => notes_readRules items
    · exact notes_throw
  · exact notes_throw

end Grouping

/-! ### What has been mentioned -/

namespace Mentions

/-- After what `m` mentions, the keys have been noted and no others: behind the earlier datasets
stand those of the keys, each at its first occurrence. One dataset is all that is mentioned exactly
if there is one and all of them are this one. -/
structure Collects (m : Mentions) (keys : List Key) (m' : Mentions) : Prop where
  datasets : m'.datasets = (m.datasets ++ keys.map (·.dataset)).eraseDups
  single : ∀ id, m'.single? = some id ↔
    m.datasets ++ keys.map (·.dataset) ≠ [] ∧
      ∀ other ∈ m.datasets ++ keys.map (·.dataset), other = id

theorem single?_eq_some_iff {id : String} : m.single? = some id ↔ m.datasets = [id] := by
  unfold single?
  split
  · next heq => simp [heq]
  · next hne => simpa using hne id

theorem collects_of_datasets_eq (h : m.datasets.Nodup) {keys : List Key}
    (hdatasets : m'.datasets = (m.addKeys keys).datasets) : m.Collects keys m' := by
  rw [datasets_addKeys h] at hdatasets
  refine ⟨hdatasets, fun id => ?_⟩
  rw [single?_eq_some_iff, hdatasets, eraseDups_eq_singleton_iff]

/-- What is mentioned when a clause could not be read: each dataset once, first those from before
and then registered ones. -/
structure Extends (c : Catalog) (m m' : Mentions) : Prop where
  nodup : m'.datasets.Nodup
  begins : m.datasets <+: m'.datasets
  registered : ∀ id ∈ m'.datasets, id ∈ m.datasets ∨ (c.kindOf? id).isSome = true
  collects : ∃ keys : List Key, (∀ key ∈ keys, (c.kindOf? key.dataset).isSome = true) ∧
    m.Collects keys m'

theorem extends_of_notes (h : m.datasets.Nodup) {r : Reading α} (hr : r.Notes c) :
    m.Extends c (r.runFrom m).2 := by
  obtain ⟨keys, hkeys, hdatasets⟩ := hr m
  have hcollects := collects_of_datasets_eq h hdatasets
  refine ⟨?_, ?_, fun id hid => ?_, keys, hkeys, hcollects⟩
  · rw [hcollects.datasets]
    exact nodup_eraseDups _
  · rw [hcollects.datasets, List.eraseDups_append, eraseDups_of_nodup h]
    exact List.prefix_append _ _
  · rw [hdatasets, mem_datasets_addKeys] at hid
    refine hid.imp_right fun hkey => ?_
    obtain ⟨key, hkey, rfl⟩ := hkey
    exact hkeys key hkey

/-- What the two clauses with keys mention, after datasets that do not repeat. A filter that is read
mentions its keys from left to right, a grouping the keys that its `GROUP` lists and then those of
its rules. If a clause is not read, what has been mentioned until then is still without repetitions,
begins as before and is registered for the rest. -/
theorem collects_clauses (c : Catalog) (m : Mentions) (h : m.datasets.Nodup) (node : Json) :
    (∀ f m', (Filter.read c node).runFrom m = (.ok f, m') → m.Collects f.keys m') ∧
    (∀ g m', (Grouping.read c node).runFrom m = (.ok g, m') →
      ∃ (members : List (String × Json)) (keys : List Key), node = .object members ∧
        Json.member? members "GROUP" = some (.array (keys.map fun key => .string key.text)) ∧
        m.Collects (keys ++ g.rules.map (·.key)) m') ∧
    ∀ fault m', (Filter.read c node).runFrom m = (.error fault, m') ∨
      (Grouping.read c node).runFrom m = (.error fault, m') → m.Extends c m' := by
  refine ⟨fun f m' hread => ?_, fun g m' hread => ?_, fun fault m' hread => ?_⟩
  · obtain ⟨-, rfl⟩ := Filter.gives_read_iff.mp hread
    exact collects_of_datasets_eq h rfl
  · obtain ⟨members, keys, items, rules, rfl, hexactly, -, -, -, rfl, rfl⟩ :=
      Grouping.gives_readFrom_iff.mp hread
    exact ⟨members, keys, rfl, ((Assoc.perm_pair_iff (by decide)).mp hexactly).2.1,
      collects_of_datasets_eq h (Grouping.datasets_afterRules_afterKeys m keys rules)⟩
  · rcases hread with hread | hread
    · have hextends := extends_of_notes h (Filter.notes_read (c := c) node)
      rwa [hread] at hextends
    · have hextends := extends_of_notes h (Grouping.notes_read (c := c) node)
      rwa [hread] at hextends

/-- A filter with a good mark, and then a condition on `key`. -/
def markAnd (key : String) : Json :=
  .object [("AND", .array
    [.object [("GT", .object [("sections_avg", .number (.integer 90))])],
      .object [("EQ", .object [(key, .number (.integer 0))])]])]

/-- The greatest mark in each hall, as if marks were given there. -/
def marksByHall : Json :=
  .object [("APPLY", .array [.object [("best", .object [("MAX", .string "sections_avg")])]]),
    ("GROUP", .array [.string "halls_name", .string "halls_name"])]

/-- After a filter for seats in halls, marks are the second dataset, whether the condition that
follows can be read or not. -/
theorem collects_clauses_halls :
    (Mentions.datasets ⟨["halls"], [], []⟩).Nodup ∧
    (∃ f m', (Filter.read Query.sectionsAndHalls (markAnd "halls_seats")).runFrom
        ⟨["halls"], [], []⟩ = (.ok f, m') ∧
      Collects ⟨["halls"], [], []⟩ f.keys m' ∧ m'.datasets = ["halls", "sections"]) ∧
    (∃ g m' keys, (Grouping.read Query.sectionsAndHalls marksByHall).runFrom
        ⟨["halls"], [], []⟩ = (.ok g, m') ∧
      Collects ⟨["halls"], [], []⟩ (keys ++ g.rules.map (·.key)) m' ∧
      m'.datasets = ["halls", "sections"]) ∧
    ∃ fault m', (Filter.read Query.sectionsAndHalls (markAnd "halls_name")).runFrom
        ⟨["halls"], [], []⟩ = (.error fault, m') ∧
      Extends Query.sectionsAndHalls ⟨["halls"], [], []⟩ m' ∧
      m'.datasets = ["halls", "sections"] := by
  have hnodup : (Mentions.datasets ⟨["halls"], [], []⟩).Nodup := by decide
  have hclauses := collects_clauses Query.sectionsAndHalls _ hnodup
  refine ⟨hnodup, ?_, ?_, ?_⟩
  · have hread : ((Filter.read Query.sectionsAndHalls (markAnd "halls_seats")).runFrom
        ⟨["halls"], [], []⟩).map (·.toOption.isSome) Mentions.datasets =
          (true, ["halls", "sections"]) := by
      decide +kernel
    rcases hrun : (Filter.read Query.sectionsAndHalls (markAnd "halls_seats")).runFrom
      ⟨["halls"], [], []⟩ with ⟨_ | f, m'⟩
    · rw [hrun] at hread
      cases hread
    · rw [hrun] at hread
      exact ⟨f, m', rfl, (hclauses _).1 f m' hrun, (Prod.mk.inj hread).2⟩
  · have hread : ((Grouping.read Query.sectionsAndHalls marksByHall).runFrom
        ⟨["halls"], [], []⟩).map (·.toOption.isSome) Mentions.datasets =
          (true, ["halls", "sections"]) := by
      decide +kernel
    rcases hrun : (Grouping.read Query.sectionsAndHalls marksByHall).runFrom
      ⟨["halls"], [], []⟩ with ⟨_ | g, m'⟩
    · rw [hrun] at hread
      cases hread
    · rw [hrun] at hread
      obtain ⟨-, keys, -, -, hcollects⟩ := (hclauses _).2.1 g m' hrun
      exact ⟨g, m', keys, rfl, hcollects, (Prod.mk.inj hread).2⟩
  · have hread : ((Filter.read Query.sectionsAndHalls (markAnd "halls_name")).runFrom
        ⟨["halls"], [], []⟩).map (·.toOption.isSome) Mentions.datasets =
          (false, ["halls", "sections"]) := by
      decide +kernel
    rcases hrun : (Filter.read Query.sectionsAndHalls (markAnd "halls_name")).runFrom
      ⟨["halls"], [], []⟩ with ⟨fault | _, m'⟩
    · rw [hrun] at hread
      exact ⟨fault, m', rfl, (hclauses _).2.2 fault m' (.inl hrun), (Prod.mk.inj hread).2⟩
    · rw [hrun] at hread
      cases hread

end Mentions

end Campus
