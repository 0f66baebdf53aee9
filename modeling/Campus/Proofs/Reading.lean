import Campus.Reading
import Campus.Proofs.Key
import Campus.Proofs.Repetitions

/-!
# What reading a clause gives

`Reading.Gives` says that a reading succeeds, with which value, and what is mentioned afterwards. A
reading that is put together gives what its parts give, so that each reader of a clause has one
lemma: an equivalence with the grammar. What a clause mentions is `Mentions.addKeys` of its keys,
and depends on their datasets only.
-/

namespace Campus

namespace Reading

variable {α β : Type} {m m' : Mentions}

/-- The reading succeeds after what `m` mentions, gives `a`, and leaves what `m'` mentions. -/
def Gives (r : Reading α) (m : Mentions) (a : α) (m' : Mentions) : Prop :=
  r.runFrom m = (.ok a, m')

theorem runFrom_bind (r : Reading α) (f : α → Reading β) :
    (r >>= f).runFrom m =
      match r.runFrom m with
      | (.ok a, between) => (f a).runFrom between
      | (.error e, left) => (.error e, left) := by
  change (ExceptT.bindCont f (r.runFrom m).1) (r.runFrom m).2 = _
  rcases r.runFrom m with ⟨_ | _, _⟩ <;> rfl

@[simp] theorem gives_pure {a b : α} :
    (pure a : Reading α).Gives m b m' ↔ b = a ∧ m' = m := by
  change (Except.ok a, m) = (Except.ok b, m') ↔ _
  simp [eq_comm]

@[simp] theorem gives_throw {e : Fault} {a : α} :
    (throw e : Reading α).Gives m a m' ↔ False := by
  change (Except.error e, m) = (Except.ok a, m') ↔ _
  simp

@[simp] theorem gives_lift {e : Except Fault α} {a : α} :
    (liftM e : Reading α).Gives m a m' ↔ e = .ok a ∧ m' = m := by
  change (e, m) = (Except.ok a, m') ↔ _
  simp [eq_comm]

@[simp] theorem gives_modify {f : Mentions → Mentions} {u : Unit} :
    (modify f : Reading Unit).Gives m u m' ↔ m' = f m := by
  change (Except.ok (), f m) = (Except.ok u, m') ↔ _
  simp [eq_comm]

@[simp] theorem gives_get {a : Mentions} :
    (get : Reading Mentions).Gives m a m' ↔ a = m ∧ m' = m := by
  change (Except.ok m, m) = (Except.ok a, m') ↔ _
  simp [eq_comm]

@[simp] theorem gives_bind {r : Reading α} {f : α → Reading β} {b : β} :
    (r >>= f).Gives m b m' ↔
      ∃ a between, r.Gives m a between ∧ (f a).Gives between b m' := by
  simp only [Gives, runFrom_bind]
  rcases r.runFrom m with ⟨_ | a, between⟩ <;> simp

@[simp] theorem gives_map {r : Reading α} {f : α → β} {b : β} :
    (f <$> r).Gives m b m' ↔ ∃ a, r.Gives m a m' ∧ b = f a := by
  simp only [map_eq_pure_bind, gives_bind, gives_pure]
  exact ⟨fun ⟨a, _, ha, hb, hm⟩ => ⟨a, hm ▸ ha, hb⟩, fun ⟨a, ha, hb⟩ => ⟨a, m', ha, hb, rfl⟩⟩

theorem runIn_eq_ok_iff {clause : Clause} {r : Reading α} {a : α} :
    runIn clause m r = .ok (a, m') ↔ r.Gives m a m' := by
  unfold runIn Gives
  rcases r.runFrom m with ⟨_ | a, between⟩ <;> simp

end Reading

/-! ### What keys mention -/

namespace Mentions

/-- What is mentioned after some more keys. -/
def addKeys (m : Mentions) (keys : List Key) : Mentions :=
  keys.foldl (fun m key => m.addDataset key.dataset) m

@[simp] theorem addKeys_nil (m : Mentions) : m.addKeys [] = m := rfl

@[simp] theorem addKeys_append (m : Mentions) (keys keys' : List Key) :
    m.addKeys (keys ++ keys') = (m.addKeys keys).addKeys keys' := List.foldl_append

theorem addKeys_cons (m : Mentions) (key : Key) (keys : List Key) :
    m.addKeys (key :: keys) = (m.addDataset key.dataset).addKeys keys := rfl

@[simp] theorem groupKeys_addDataset (m : Mentions) (id : String) :
    (m.addDataset id).groupKeys = m.groupKeys := rfl

@[simp] theorem applyNames_addDataset (m : Mentions) (id : String) :
    (m.addDataset id).applyNames = m.applyNames := rfl

@[simp] theorem groupKeys_addKeys (m : Mentions) (keys : List Key) :
    (m.addKeys keys).groupKeys = m.groupKeys := by
  induction keys generalizing m with
  | nil => rfl
  | cons key keys ih => rw [addKeys_cons, ih]; rfl

@[simp] theorem applyNames_addKeys (m : Mentions) (keys : List Key) :
    (m.addKeys keys).applyNames = m.applyNames := by
  induction keys generalizing m with
  | nil => rfl
  | cons key keys ih => rw [addKeys_cons, ih]; rfl

theorem addDataset_of_mem {m : Mentions} {id : String} (h : id ∈ m.datasets) :
    m.addDataset id = m := by
  simp [addDataset, addNew, h]

theorem mem_datasets_addDataset {m : Mentions} {id other : String} :
    other ∈ (m.addDataset id).datasets ↔ other ∈ m.datasets ∨ other = id := by
  simp only [addDataset, addNew]
  split
  · next hmem => exact ⟨.inl, fun h => h.elim (fun h => h) fun heq => heq ▸ hmem⟩
  · simp

theorem mem_datasets_addKeys {m : Mentions} {keys : List Key} {id : String} :
    id ∈ (m.addKeys keys).datasets ↔ id ∈ m.datasets ∨ ∃ key ∈ keys, key.dataset = id := by
  induction keys generalizing m with
  | nil => simp
  | cons key keys ih =>
      rw [addKeys_cons, ih, mem_datasets_addDataset, List.exists_mem_cons_iff, or_assoc,
        @eq_comm _ id]

theorem datasets_addKeys_congr {m n : Mentions} (h : m.datasets = n.datasets) (keys : List Key) :
    (m.addKeys keys).datasets = (n.addKeys keys).datasets := by
  induction keys generalizing m n with
  | nil => exact h
  | cons key keys ih => exact ih (by simp [addDataset, h])

/-- A key whose dataset is mentioned already may as well be left out. -/
theorem addKeys_filter_ne {m : Mentions} {key : Key} (h : key.dataset ∈ m.datasets)
    (keys : List Key) : m.addKeys (keys.filter fun other => !other == key) = m.addKeys keys := by
  induction keys generalizing m with
  | nil => rfl
  | cons other keys ih =>
      by_cases heq : other = key
      · subst heq
        simp only [List.filter_cons, beq_self_eq_true, Bool.not_true, Bool.false_eq_true, if_false]
        rw [addKeys_cons, addDataset_of_mem h, ih h]
      · simp only [List.filter_cons, beq_false_of_ne heq, Bool.not_false, if_true, addKeys_cons]
        exact ih (mem_datasets_addDataset.mpr (.inl h))

/-- The datasets of some more keys are mentioned behind the earlier ones, each at its first
occurrence. -/
theorem datasets_addKeys {m : Mentions} (h : m.datasets.Nodup) (keys : List Key) :
    (m.addKeys keys).datasets = (m.datasets ++ keys.map (·.dataset)).eraseDups := by
  induction keys using List.reverseRecOn with
  | nil => simp [eraseDups_of_nodup h]
  | append_singleton keys key ih =>
      rw [addKeys_append, addKeys_cons, addKeys_nil, List.map_append, List.map_singleton,
        ← List.append_assoc, eraseDups_concat, addDataset, addNew, ih]
      simp only [List.mem_eraseDups, List.any_eq_true, beq_iff_eq, exists_eq_right']

/-- Keys mention one dataset if there are some and all of them are of that dataset. -/
theorem datasets_addKeys_none_iff {keys : List Key} {id : String} :
    (none.addKeys keys).datasets = [id] ↔ keys ≠ [] ∧ ∀ key ∈ keys, key.dataset = id := by
  rw [datasets_addKeys List.nodup_nil, eraseDups_eq_singleton_iff]
  simp [none]

/-- Repetitions among keys mention nothing new. -/
theorem addKeys_eraseDups (m : Mentions) (keys : List Key) :
    m.addKeys keys.eraseDups = m.addKeys keys := by
  induction keys using eraseDups_induction generalizing m with
  | nil => rfl
  | cons key keys ih =>
      rw [List.eraseDups_cons, addKeys_cons, ih,
        addKeys_filter_ne (mem_datasets_addDataset.mpr (.inr rfl)), addKeys_cons]

end Mentions

@[simp] theorem Reading.gives_mention {key : Key} {u : Unit} {m m' : Mentions} :
    (Reading.mention key).Gives m u m' ↔ m' = m.addKeys [key] :=
  Reading.gives_modify

/-! ### Values of a wanted type -/

theorem bind_eq_ok_iff {ε α β : Type} {e : Except ε α} {f : α → Except ε β} {b : β} :
    (e >>= f) = .ok b ↔ ∃ a, e = .ok a ∧ f a = .ok b := by
  cases e <;> simp [bind, Except.bind]

theorem throw_eq_ok_iff {ε α : Type} {e : ε} {a : α} :
    (throw e : Except ε α) = .ok a ↔ False := by
  simp [throw, throwThe, MonadExceptOf.throw]

theorem pure_eq_ok_iff {ε α : Type} {a b : α} : (pure a : Except ε α) = .ok b ↔ a = b := by
  simp [pure, Except.pure]

theorem map_eq_ok_iff {ε α β : Type} {f : α → β} {e : Except ε α} {b : β} :
    e.map f = .ok b ↔ ∃ a, e = .ok a ∧ f a = b := by
  cases e <;> simp [Except.map]

theorem mapError_eq_ok_iff {ε ε' α : Type} {f : ε → ε'} {e : Except ε α} {a : α} :
    e.mapError f = .ok a ↔ e = .ok a := by
  cases e <;> simp [Except.mapError]

@[simp] theorem Json.expectObject_eq_ok_iff {place : String} {v : Json}
    {members : List (String × Json)} :
    v.expectObject place = .ok members ↔ v = .object members := by
  cases v <;> simp [Json.expectObject]

@[simp] theorem Json.expectArray_eq_ok_iff {place : String} {v : Json} {items : List Json} :
    v.expectArray place = .ok items ↔ v = .array items := by
  cases v <;> simp [Json.expectArray]

@[simp] theorem Json.expectString_eq_ok_iff {place : String} {v : Json} {s : String} :
    v.expectString place = .ok s ↔ v = .string s := by
  cases v <;> simp [Json.expectString]

@[simp] theorem Json.expectNumber_eq_ok_iff {place : String} {v : Json} {x : Float} :
    v.expectNumber place = .ok x ↔ ∃ n, v = .number n ∧ x = n.toFloat := by
  cases v <;> simp [Json.expectNumber, eq_comm]

@[simp] theorem expectSingle_eq_ok_iff {place : String} {members : List (String × Json)}
    {member : String × Json} :
    expectSingle place members = .ok member ↔ members = [member] := by
  rcases members with _ | ⟨_, _ | ⟨_, _⟩⟩ <;> simp [expectSingle]

@[simp] theorem Catalog.expectKey_eq_ok_iff {c : Catalog} {raw operator : String}
    {wanted : KeyClass} {key : Key} :
    c.expectKey raw wanted operator = .ok key ↔ raw = key.text ∧ c.Admits wanted key := by
  rw [← Catalog.resolve?_eq_some_iff]
  unfold Catalog.expectKey
  cases c.resolve? raw wanted <;> simp

end Campus
