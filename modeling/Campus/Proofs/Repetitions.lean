import Mathlib.Data.List.Induction
import Mathlib.Data.List.Nodup
import Mathlib.Data.List.Perm.Subperm
import Mathlib.Tactic.Choose

/-!
# Lists without repetitions

`List.eraseDups` keeps the first of several items that count as the same, and goes on with what is
left of the list without them. The induction that fits is on that rest and not on the tail
(`eraseDups_induction`). Items that count as the same need not be equal; where counting as the same
is an equivalence, each item counts as exactly one of those that are kept
(`exists_mem_eraseDups`, `pairwise_eraseDups`).
-/

namespace Campus

variable {α : Type} [BEq α]

/-- Induction on a list along the erasing of its repetitions. -/
theorem eraseDups_induction {motive : List α → Prop} (nil : motive [])
    (cons : ∀ item items, motive (items.filter fun other => !other == item) →
      motive (item :: items)) (items : List α) : motive items := by
  induction hlength : items.length using Nat.strongRecOn generalizing items with
  | ind n ih =>
      cases items with
      | nil => exact nil
      | cons item items =>
          refine cons item items (ih _ ?_ _ rfl)
          have := List.length_filter_le (fun other => !other == item) items
          rw [List.length_cons] at hlength
          omega

/-- What is left without repetitions was there before. -/
theorem mem_of_mem_eraseDups {items : List α} {item : α} (h : item ∈ items.eraseDups) :
    item ∈ items := by
  induction items using eraseDups_induction with
  | nil => exact h
  | cons first items ih =>
      rw [List.eraseDups_cons, List.mem_cons] at h
      rcases h with rfl | h
      · exact List.mem_cons_self
      · exact List.mem_cons_of_mem _ (List.mem_of_mem_filter (ih h))

/-- Nothing is left twice. -/
theorem nodup_eraseDups [LawfulBEq α] (items : List α) : items.eraseDups.Nodup := by
  induction items using eraseDups_induction with
  | nil => exact List.nodup_nil
  | cons first items ih =>
      rw [List.eraseDups_cons, List.nodup_cons]
      refine ⟨fun hmem => ?_, ih⟩
      simpa using List.of_mem_filter (mem_of_mem_eraseDups hmem)

/-- Where nothing is there twice, everything is left. -/
theorem eraseDups_of_nodup [LawfulBEq α] {items : List α} (h : items.Nodup) :
    items.eraseDups = items := by
  induction items with
  | nil => rfl
  | cons first items ih =>
      obtain ⟨hfirst, h⟩ := List.nodup_cons.mp h
      have hfilter : items.filter (fun other => !other == first) = items := by
        rw [List.filter_eq_self]
        intro other hother
        simpa using fun heq : other = first => hfirst (heq ▸ hother)
      rw [List.eraseDups_cons, hfilter, ih h]

/-- One item is left where there is something and nothing else. -/
theorem eraseDups_eq_singleton_iff [LawfulBEq α] {items : List α} {item : α} :
    items.eraseDups = [item] ↔ items ≠ [] ∧ ∀ other ∈ items, other = item := by
  constructor
  · intro h
    refine ⟨?_, fun other hother => ?_⟩
    · rintro rfl
      cases h
    · rw [← List.mem_eraseDups, h] at hother
      exact List.mem_singleton.mp hother
  · intro h
    obtain ⟨hne, h⟩ := h
    obtain ⟨first, rest, rfl⟩ := List.exists_cons_of_ne_nil hne
    rw [List.forall_mem_cons] at h
    obtain ⟨rfl, hrest⟩ := h
    have hnone : rest.filter (fun other => !other == first) = [] :=
      List.filter_eq_nil_iff.mpr fun other hother => by simp [hrest other hother]
    rw [List.eraseDups_cons, hnone]
    rfl

/-- Nothing that is left counts as anything else that is left. -/
theorem pairwise_eraseDups [PartialEquivBEq α] (items : List α) :
    items.eraseDups.Pairwise fun a b => (a == b) = false := by
  induction items using eraseDups_induction with
  | nil => exact .nil
  | cons first items ih =>
      rw [List.eraseDups_cons, List.pairwise_cons]
      refine ⟨fun other hother => ?_, ih⟩
      have hkept := List.of_mem_filter (mem_of_mem_eraseDups hother)
      rw [BEq.comm]
      simpa using hkept

/-- Every item counts as one that is left. -/
theorem exists_mem_eraseDups [EquivBEq α] {items : List α} {item : α} (h : item ∈ items) :
    ∃ kept ∈ items.eraseDups, (item == kept) = true := by
  induction items using eraseDups_induction with
  | nil => cases h
  | cons first items ih =>
      rw [List.eraseDups_cons]
      rcases hsame : item == first with _ | _
      · have hne : item ≠ first := by
          intro heq
          rw [heq, BEq.rfl] at hsame
          cases hsame
        have hrest := (List.mem_cons.mp h).resolve_left hne
        obtain ⟨kept, hkept, hsame'⟩ := ih (List.mem_filter.mpr ⟨hrest, by simp [hsame]⟩)
        exact ⟨kept, List.mem_cons_of_mem _ hkept, hsame'⟩
      · exact ⟨first, List.mem_cons_self, hsame⟩

/-- Without repetitions, a part of a list is not longer than the list. -/
theorem length_eraseDups_le [EquivBEq α] {items others : List α} (h : items ⊆ others) :
    items.eraseDups.length ≤ others.eraseDups.length := by
  -- Each kept item is equal to another kept one, and different ones to different ones.
  have hkept : ∀ item ∈ items.eraseDups, ∃ kept ∈ others.eraseDups, (item == kept) = true :=
    fun item hmem => exists_mem_eraseDups (h (mem_of_mem_eraseDups hmem))
  choose! kept hmem hequal using hkept
  have hnodup : (items.eraseDups.map kept).Nodup := by
    rw [List.Nodup, List.pairwise_map]
    refine (pairwise_eraseDups items).imp_of_mem fun {a b} ha hb hapart heq => ?_
    have hsame : (a == b) = true :=
      BEq.trans (hequal a ha) (heq ▸ BEq.symm (hequal b hb))
    rw [hsame] at hapart
    cases hapart
  have hsubset : items.eraseDups.map kept ⊆ others.eraseDups := by
    intro other hother
    obtain ⟨item, hitem, rfl⟩ := List.mem_map.mp hother
    exact hmem item hitem
  simpa using (List.subperm_of_subset hnodup hsubset).length_le

theorem length_eraseDups_of_perm [EquivBEq α] {items others : List α} (h : items.Perm others) :
    items.eraseDups.length = others.eraseDups.length :=
  Nat.le_antisymm (length_eraseDups_le h.subset) (length_eraseDups_le h.symm.subset)

/-- What counts as some item counts as one that is left. -/
theorem any_eraseDups [EquivBEq α] (items : List α) (item : α) :
    items.eraseDups.any (item == ·) = items.any (item == ·) := by
  rw [Bool.eq_iff_iff, List.any_eq_true, List.any_eq_true]
  constructor
  · intro h
    obtain ⟨kept, hkept, hsame⟩ := h
    exact ⟨kept, mem_of_mem_eraseDups hkept, hsame⟩
  · intro h
    obtain ⟨other, hother, hsame⟩ := h
    obtain ⟨kept, hkept, hsame'⟩ := exists_mem_eraseDups hother
    exact ⟨kept, hkept, BEq.trans hsame hsame'⟩

/-- A further item is kept if it counts as none of the earlier ones. -/
theorem eraseDups_concat [EquivBEq α] (items : List α) (item : α) :
    (items ++ [item]).eraseDups =
      if items.any (item == ·) then items.eraseDups else items.eraseDups ++ [item] := by
  induction items using eraseDups_induction with
  | nil => simp [List.eraseDups_cons]
  | cons first items ih =>
      rw [List.cons_append, List.eraseDups_cons, List.filter_append, List.eraseDups_cons,
        List.any_cons]
      cases hsame : item == first with
      | true => simp [hsame]
      | false =>
          have hany : (items.filter fun other => !other == first).any (item == ·) =
              items.any (item == ·) := by
            rw [List.any_filter]
            congr 1
            funext other
            -- What counts as the further item does not count as the first one.
            cases hother : item == other with
            | false => simp
            | true => simp [← BEq.congr_left hother, hsame]
          rw [List.filter_singleton, hsame, Bool.not_false, cond_true, ih, hany, Bool.false_or]
          split <;> rfl

/-- What is made of items has the repetitions that the items have, if it counts as the same where
they do. -/
theorem eraseDups_map {β : Type} [BEq β] {f : α → β} {items : List α}
    (hf : ∀ a ∈ items, ∀ b ∈ items, (f a == f b) = (a == b)) :
    (items.map f).eraseDups = items.eraseDups.map f := by
  induction items using eraseDups_induction with
  | nil => rfl
  | cons first items ih =>
      have hrest : ∀ other ∈ items.filter (fun other => !other == first), other ∈ first :: items :=
        fun other hother => List.mem_cons_of_mem _ (List.mem_of_mem_filter hother)
      have hfilter : (items.map f).filter (fun other => !other == f first) =
          (items.filter fun other => !other == first).map f := by
        rw [List.filter_map]
        congr 1
        refine List.filter_congr fun other hother => ?_
        rw [Function.comp_apply, hf other (List.mem_cons_of_mem _ hother) first List.mem_cons_self]
      rw [List.map_cons, List.eraseDups_cons, List.eraseDups_cons, hfilter,
        ih fun a ha b hb => hf a (hrest a ha) b (hrest b hb), List.map_cons]

/-- What is left is the first item of those that count as it. -/
theorem find?_of_mem_eraseDups [EquivBEq α] {items : List α} {item : α}
    (h : item ∈ items.eraseDups) : items.find? (· == item) = some item := by
  induction items using eraseDups_induction with
  | nil => cases h
  | cons first items ih =>
      rw [List.eraseDups_cons, List.mem_cons] at h
      rcases h with rfl | h
      · rw [List.find?_cons, BEq.rfl]
      · have hkept : (item == first) = false := by
          simpa using List.of_mem_filter (mem_of_mem_eraseDups h)
        rw [List.find?_cons, BEq.comm, hkept, ← ih h, List.find?_filter]
        show items.find? (· == item) = _
        congr 1
        funext other
        cases hother : other == item with
        | false => simp
        | true => simp [BEq.congr_left hother, hkept]

/-- What is left stands in the order in which it came up first. -/
theorem pairwise_findIdx_eraseDups [EquivBEq α] (items : List α) :
    items.eraseDups.Pairwise fun a b => items.findIdx (· == a) < items.findIdx (· == b) := by
  induction items using List.reverseRecOn with
  | nil => exact .nil
  | append_singleton items item ih =>
      have hfound : ∀ a ∈ items.eraseDups,
          (items ++ [item]).findIdx (· == a) = items.findIdx (· == a) := by
        intro a ha
        rw [List.findIdx_append, if_pos]
        exact List.findIdx_lt_length.mpr ⟨a, mem_of_mem_eraseDups ha, BEq.rfl⟩
      have hearlier : items.eraseDups.Pairwise fun a b =>
          (items ++ [item]).findIdx (· == a) < (items ++ [item]).findIdx (· == b) := by
        refine ih.imp_of_mem fun {a b} ha hb hlt => ?_
        rwa [hfound a ha, hfound b hb]
      rw [eraseDups_concat]
      split
      · exact hearlier
      · next hnew =>
        refine List.pairwise_append.mpr ⟨hearlier, List.pairwise_singleton _ _, ?_⟩
        intro a ha b hb
        obtain rfl := List.mem_singleton.mp hb
        have hnone : items.findIdx (· == b) = items.length := by
          rw [List.findIdx_eq_length]
          intro other hother
          rw [BEq.comm]
          simpa using mt (fun hsame => List.any_eq_true.mpr ⟨other, hother, hsame⟩) hnew
        rw [hfound a ha, List.findIdx_append, hnone, if_neg (Nat.lt_irrefl _)]
        have hlt : items.findIdx (· == a) < items.length :=
          List.findIdx_lt_length.mpr ⟨a, mem_of_mem_eraseDups ha, BEq.rfl⟩
        omega

end Campus
