import Mathlib.Data.List.Nodup
import Mathlib.Data.List.Perm.Basic

/-!
# Stable sorting

Rows are sorted by a comparison under which different rows can be alike. What is sorted is then
determined by the order of the items that are alike (`eq_of_pairwise_of_filter_eq`), and stable
sorting keeps this order (`filter_mergeSort`).

Directories, record files and datasets are sorted by their names or paths. What is sorted by keys
that do not repeat is determined by what it consists of (`mergeSort_congr`).
-/

namespace Campus.Sorting

/-! ### Sorting by a comparison -/

section

variable {α : Type} (cmp : α → α → Ordering) [Std.TransCmp cmp]

theorem isLE_or_isLE (a b : α) : ((cmp a b).isLE || (cmp b a).isLE) = true := by
  have hswap : cmp b a = (cmp a b).swap := Std.OrientedCmp.eq_swap
  rw [hswap]
  cases cmp a b <;> rfl

theorem pairwise_mergeSort_isLE (items : List α) :
    (items.mergeSort fun a b => (cmp a b).isLE).Pairwise fun a b => (cmp a b).isLE = true :=
  List.pairwise_mergeSort (fun _ _ _ => Std.TransCmp.isLE_trans) (isLE_or_isLE cmp) items

/-- Items that may stand in any order keep the one that they have. -/
theorem filter_mergeSort {p : α → Bool} (items : List α)
    (halike : ∀ a b, p a = true → p b = true → (cmp a b).isLE = true) :
    (items.mergeSort fun a b => (cmp a b).isLE).filter p = items.filter p := by
  have hsorted : (items.filter p).Pairwise fun a b => (cmp a b).isLE = true := by
    refine List.pairwise_of_forall_mem_list fun a ha b hb => ?_
    exact halike a b (List.mem_filter.mp ha).2 (List.mem_filter.mp hb).2
  -- They are in order whatever their order is, so the sorting, which is stable, leaves them as
  -- they are.
  have hsublist := List.sublist_mergeSort (fun _ _ _ => Std.TransCmp.isLE_trans)
    (isLE_or_isLE cmp) hsorted List.filter_sublist
  have hfiltered := hsublist.filter p
  rw [List.filter_filter] at hfiltered
  simp only [Bool.and_self] at hfiltered
  exact (hfiltered.eq_of_length ((List.mergeSort_perm _ _).filter _).length_eq.symm).symm

/-- Two sorted lists are one if items that are alike stand in the same order in both. -/
theorem eq_of_pairwise_of_filter_eq {items items' : List α}
    (hsorted : items.Pairwise fun a b => (cmp a b).isLE = true)
    (hsorted' : items'.Pairwise fun a b => (cmp a b).isLE = true)
    (halike : ∀ a, items.filter (cmp a · == .eq) = items'.filter (cmp a · == .eq)) :
    items = items' := by
  have hself (a : α) : (cmp a a == .eq) = true := beq_iff_eq.mpr Std.ReflCmp.compare_self
  have hsubset {l l' : List α} (h : ∀ a, l.filter (cmp a · == .eq) = l'.filter (cmp a · == .eq))
      {a : α} (ha : a ∈ l) : a ∈ l' := by
    have hmem : a ∈ l.filter (cmp a · == .eq) := List.mem_filter.mpr ⟨ha, hself a⟩
    rw [h a] at hmem
    exact List.mem_of_mem_filter hmem
  induction items generalizing items' with
  | nil =>
      cases items' with
      | nil => rfl
      | cons b items' => cases hsubset (fun a => (halike a).symm) List.mem_cons_self
  | cons a items ih =>
      cases items' with
      | nil => cases hsubset halike List.mem_cons_self
      | cons b items' =>
          obtain ⟨ha, hrest⟩ := List.pairwise_cons.mp hsorted
          obtain ⟨hb, hrest'⟩ := List.pairwise_cons.mp hsorted'
          -- Neither of the two first items stands before the other, so they are alike.
          have hab : (cmp a b).isLE = true := by
            rcases List.mem_cons.mp (hsubset (fun a => (halike a).symm) List.mem_cons_self)
              with heq | hmem
            · rw [heq]
              exact Std.ReflCmp.isLE_rfl
            · exact ha b hmem
          have hba : (cmp b a).isLE = true := by
            rcases List.mem_cons.mp (hsubset halike List.mem_cons_self) with heq | hmem
            · rw [heq]
              exact Std.ReflCmp.isLE_rfl
            · exact hb a hmem
          have heq : cmp a b = .eq := Std.OrientedCmp.isLE_antisymm hab hba
          obtain rfl : a = b := by
            have hfirst := congrArg List.head? (halike a)
            simpa [hself a, heq] using hfirst
          congr 1
          refine ih hrest hrest' fun c => ?_
          have hc := halike c
          rw [List.filter_cons, List.filter_cons] at hc
          split at hc
          · exact (List.cons.inj hc).2
          · exact hc

end

/-! ### Sorting by keys -/

variable {α κ : Type} [Ord κ] [Std.TransOrd κ]

theorem pairwise_mergeSort (key : α → κ) (items : List α) :
    (items.mergeSort fun a b => (compare (key a) (key b)).isLE).Pairwise
      fun a b => (compare (key a) (key b)).isLE = true :=
  pairwise_mergeSort_isLE (compareOn key) items

/-- Items of one key keep their order. -/
theorem filter_mergeSort_key [DecidableEq κ] (key : α → κ) (k : κ) (items : List α) :
    (items.mergeSort fun a b => (compare (key a) (key b)).isLE).filter (key · == k) =
      items.filter (key · == k) := by
  refine filter_mergeSort (compareOn key) items fun a b ha hb => ?_
  rw [compareOn, beq_iff_eq.mp ha, beq_iff_eq.mp hb]
  exact Std.ReflCmp.isLE_rfl

/-- Where the keys differ, sorting does not depend on the order before. -/
theorem mergeSort_congr [Std.LawfulEqOrd κ] (key : α → κ) {items items' : List α}
    (hperm : items.Perm items') (hdistinct : (items.map key).Nodup) :
    (items.mergeSort fun a b => (compare (key a) (key b)).isLE) =
      items'.mergeSort fun a b => (compare (key a) (key b)).isLE := by
  have hsorted : (items.mergeSort fun a b => (compare (key a) (key b)).isLE).Perm
      (items'.mergeSort fun a b => (compare (key a) (key b)).isLE) :=
    (List.mergeSort_perm _ _).trans (hperm.trans (List.mergeSort_perm _ _).symm)
  refine List.Perm.eq_of_pairwise (fun a b ha hb hab hba => ?_) (pairwise_mergeSort key items)
    (pairwise_mergeSort key items') hsorted
  have hkeys : key a = key b :=
    Std.LawfulEqCmp.eq_of_compare (Std.OrientedCmp.isLE_antisymm hab hba)
  exact List.inj_on_of_nodup_map hdistinct (List.mem_mergeSort.mp ha)
    (List.mem_mergeSort.mp (hsorted.mem_iff.mpr hb)) hkeys

end Campus.Sorting
