import Campus.Key
import Mathlib.Data.List.Nodup

/-!
# Keys and the fields they name

A key and its text determine each other as long as neither part of the key holds the separator:
`Key.ofText?_eq_some_iff`. On top of that, `Catalog.Admits` says which keys stand for a field of a
registered dataset, and `Catalog.resolve?_eq_some_iff` that resolving a text finds exactly the
admitted key that it spells.
-/

namespace Campus

/-! ### Texts of keys -/

theorem splitAtSeparator?_eq_some_iff {cs before behind : List Char} :
    splitAtSeparator? cs = some (before, behind) ↔
      cs = before ++ keySeparator :: behind ∧ keySeparator ∉ before := by
  induction cs generalizing before with
  | nil => simp [splitAtSeparator?]
  | cons c cs ih =>
      -- The first separator ends the part before it, whatever follows.
      by_cases hc : c = keySeparator
      · subst hc
        cases before with
        | nil => simp [splitAtSeparator?]
        | cons b before => simp +contextual [splitAtSeparator?]
      · cases before with
        | nil => simp [splitAtSeparator?, hc]
        | cons b before =>
            simp only [splitAtSeparator?, hc, if_false, Option.map_eq_some_iff, Prod.exists]
            constructor
            · intro h
              obtain ⟨before', behind', hsplit, heq⟩ := h
              simp only [Prod.mk.injEq, List.cons.injEq] at heq
              obtain ⟨⟨rfl, rfl⟩, rfl⟩ := heq
              obtain ⟨rfl, hmem⟩ := ih.mp hsplit
              simp [hmem, Ne.symm hc]
            · intro h
              obtain ⟨heq, hmem⟩ := h
              simp only [List.cons_append, List.cons.injEq] at heq
              simp only [List.mem_cons, not_or] at hmem
              exact ⟨before, behind, ih.mpr ⟨heq.2, hmem.2⟩, by simp [heq.1]⟩

/-- A text that can be a part of a key: there is something to it, and it has no separator. -/
def IsKeyPart (s : String) : Prop := s ≠ "" ∧ keySeparator ∉ s.toList

instance (s : String) : Decidable (IsKeyPart s) := inferInstanceAs (Decidable (_ ∧ _))

/-- Reading is the inverse of writing on keys of two parts, and fails on all other texts. -/
theorem Key.ofText?_eq_some_iff {raw : String} {k : Key} :
    Key.ofText? raw = some k ↔ raw = k.text ∧ IsKeyPart k.dataset ∧ IsKeyPart k.field := by
  obtain ⟨dataset, field⟩ := k
  unfold Key.ofText?
  constructor
  · intro h
    split at h
    · cases h
    · next before behind hsplit =>
      obtain ⟨hraw, hmem⟩ := splitAtSeparator?_eq_some_iff.mp hsplit
      split at h
      · cases h
      · next hparts =>
        simp only [Bool.or_eq_true, List.isEmpty_iff, List.contains_eq_mem, decide_eq_true_eq,
          not_or] at hparts
        simp only [Option.some.injEq, Key.mk.injEq] at h
        obtain ⟨rfl, rfl⟩ := h
        refine ⟨?_, ⟨?_, ?_⟩, ?_, ?_⟩
        · rw [← String.toList_inj, hraw]
          simp [Key.text]
        · simpa [← String.toList_inj] using hparts.1.1
        · simpa using hmem
        · simpa [← String.toList_inj] using hparts.1.2
        · simpa using hparts.2
  · intro h
    obtain ⟨rfl, ⟨hdataset, hfree⟩, hfield, hfree'⟩ := h
    have hsplit : splitAtSeparator? (Key.text ⟨dataset, field⟩).toList =
        some (dataset.toList, field.toList) :=
      splitAtSeparator?_eq_some_iff.mpr ⟨by simp [Key.text], hfree⟩
    simp only [hsplit]
    simp [hdataset, hfield, hfree']

/-- No two keys have one text. -/
theorem Key.text_inj {k k' : Key} (hk : IsKeyPart k.dataset ∧ IsKeyPart k.field)
    (hk' : IsKeyPart k'.dataset ∧ IsKeyPart k'.field) (h : k.text = k'.text) : k = k' := by
  have hread : Key.ofText? k.text = some k := Key.ofText?_eq_some_iff.mpr ⟨rfl, hk⟩
  have hread' : Key.ofText? k.text = some k' := Key.ofText?_eq_some_iff.mpr ⟨h, hk'⟩
  exact Option.some.inj (hread.symm.trans hread')

/-! ### Fields by name -/

theorem Kind.fieldNames_nodup (k : Kind) : (k.fields.map (·.name)).Nodup := by
  cases k <;> decide

theorem Kind.field?_eq_some_iff {k : Kind} {name : String} {f : Field} :
    k.field? name = some f ↔ f ∈ k.fields ∧ f.name = name := by
  refine ⟨fun h => ⟨List.mem_of_find?_eq_some h, by simpa using List.find?_some h⟩, ?_⟩
  intro h
  obtain ⟨hmem, rfl⟩ := h
  have hsome : (k.field? f.name).isSome = true :=
    List.find?_isSome.mpr ⟨f, hmem, decide_eq_true rfl⟩
  obtain ⟨g, hg⟩ := Option.isSome_iff_exists.mp hsome
  have hname : g.name = f.name := by simpa using List.find?_some hg
  rw [hg, List.inj_on_of_nodup_map k.fieldNames_nodup (List.mem_of_find?_eq_some hg) hmem hname]

/-! ### Keys of a catalog -/

/-- A key that may stand where a field of class `wanted` is asked for: it names a field of a
registered dataset, and the field is of that class. -/
structure Catalog.Admits (c : Catalog) (wanted : KeyClass) (key : Key) : Prop where
  dataset : IsKeyPart key.dataset
  field : IsKeyPart key.field
  named : ∃ kind f, c.kindOf? key.dataset = some kind ∧ f ∈ kind.fields ∧ f.name = key.field ∧
    wanted.admits f.fieldClass = true

theorem Catalog.fieldClass?_eq_some_iff {c : Catalog} {key : Key} {found : FieldClass} :
    c.fieldClass? key = some found ↔
      ∃ kind f, c.kindOf? key.dataset = some kind ∧ f ∈ kind.fields ∧ f.name = key.field ∧
        f.fieldClass = found := by
  simp only [Catalog.fieldClass?, Kind.fieldClass?, Option.bind_eq_some_iff,
    Option.map_eq_some_iff, Kind.field?_eq_some_iff]
  exact ⟨fun ⟨kind, hkind, f, ⟨hf, hname⟩, hclass⟩ => ⟨kind, f, hkind, hf, hname, hclass⟩,
    fun ⟨kind, f, hkind, hf, hname, hclass⟩ => ⟨kind, hkind, f, ⟨hf, hname⟩, hclass⟩⟩

theorem Catalog.resolve?_eq_some_iff {c : Catalog} {raw : String} {wanted : KeyClass}
    {key : Key} : c.resolve? raw wanted = some key ↔ raw = key.text ∧ c.Admits wanted key := by
  simp only [Catalog.resolve?, Option.bind_eq_some_iff, Option.ite_none_right_eq_some,
    Option.some.injEq]
  constructor
  · intro h
    obtain ⟨key', hread, found, hclass, hadmits, rfl⟩ := h
    obtain ⟨htext, hdataset, hfield⟩ := Key.ofText?_eq_some_iff.mp hread
    obtain ⟨kind, f, hkind, hf, hname, rfl⟩ := Catalog.fieldClass?_eq_some_iff.mp hclass
    exact ⟨htext, hdataset, hfield, kind, f, hkind, hf, hname, hadmits⟩
  · intro h
    obtain ⟨htext, hdataset, hfield, kind, f, hkind, hf, hname, hadmits⟩ := h
    exact ⟨key, Key.ofText?_eq_some_iff.mpr ⟨htext, hdataset, hfield⟩, f.fieldClass,
      Catalog.fieldClass?_eq_some_iff.mpr ⟨kind, f, hkind, hf, hname, rfl⟩, hadmits, rfl⟩

end Campus
