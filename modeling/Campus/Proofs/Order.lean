import Campus.Order
import Campus.Proofs.Assoc
import Campus.Proofs.Sorting
import Mathlib

/-!
# Sorting rows

Cells are compared by a total preorder, and so are rows, by the first column in which they differ.
Either direction of it is a total preorder as well, so sorting is stable in both
(`Order.sorted_and_stable`): rows that agree in every column keep their order, also downwards.

All of this is so for numbers of any type with places in an order. For doubles by their bit patterns
it covers every NaN, and rows of `Float`s are sorted like the rows of their patterns
(`Order.sort_toDoubles`).
-/

namespace Campus

open Number (Double Ranked)

variable {ν : Type} [Ranked ν]

/-! ### Comparing cells and rows -/

instance Scalar.transCmp_compare :
    Std.TransCmp (Scalar.compare : Scalar ν → Scalar ν → Ordering) where
  eq_swap := by
    intro v w
    cases v with
    | number x =>
        cases w with
        | number y => exact Std.OrientedOrd.eq_swap (α := Int)
        | text t => rfl
    | text s =>
        cases w with
        | number y => rfl
        | text t => exact Std.OrientedOrd.eq_swap (α := String)
  isLE_trans := by
    intro u v w huv hvw
    cases u with
    | number x =>
        cases w with
        | text t => rfl
        | number z =>
            cases v with
            | number y => exact Std.TransOrd.isLE_trans huv hvw
            | text s => cases hvw
    | text r =>
        cases v with
        | number y => cases huv
        | text s =>
            cases w with
            | number z => cases hvw
            | text t => exact Std.TransOrd.isLE_trans huv hvw

instance transCmp_compareCells :
    Std.TransCmp (compareCells : Option (Scalar ν) → Option (Scalar ν) → Ordering) where
  eq_swap := by
    intro a b
    cases a with
    | none => cases b <;> rfl
    | some v =>
        cases b with
        | none => rfl
        | some w => exact Scalar.transCmp_compare.eq_swap
  isLE_trans := by
    intro a b c hab hbc
    cases a with
    | none => cases c <;> rfl
    | some v =>
        cases b with
        | none => cases hab
        | some w =>
            cases c with
            | none => cases hbc
            | some u => exact Scalar.transCmp_compare.isLE_trans hab hbc

namespace Row

instance transCmp_compareBy (columns : List String) :
    Std.TransCmp fun a b : Row ν => a.compareBy b columns := by
  induction columns with
  | nil => exact { eq_swap := rfl, isLE_trans := fun _ _ => rfl }
  | cons column columns ih =>
      -- The first column is compared like the cells that stand in it.
      have hfirst : Std.TransCmp fun a b : Row ν => compareCells (a.get? column) (b.get? column) :=
        { eq_swap := transCmp_compareCells.eq_swap
          isLE_trans := transCmp_compareCells.isLE_trans }
      exact inferInstanceAs (Std.TransCmp
        (compareLex (fun a b : Row ν => compareCells (a.get? column) (b.get? column))
          fun a b : Row ν => a.compareBy b columns))

/-- The comparison of rows that an order sorts by. -/
def compareIn (order : Order) (a b : Row ν) : Ordering :=
  order.direction.apply (a.compareBy b order.columns)

instance transCmp_compareIn (order : Order) :
    Std.TransCmp (compareIn order : Row ν → Row ν → Ordering) := by
  unfold compareIn
  cases order.direction with
  | up => exact inferInstanceAs (Std.TransCmp fun a b : Row ν => a.compareBy b order.columns)
  | down =>
      have hswap : (fun a b : Row ν => Direction.down.apply (a.compareBy b order.columns)) =
          fun a b => b.compareBy a order.columns := by
        funext a b
        exact (transCmp_compareBy order.columns).eq_swap.symm
      rw [hswap]
      exact Std.TransCmp.opposite

theorem mayPrecede_eq (order : Order) :
    (mayPrecede order : Row ν → Row ν → Bool) = fun a b => (compareIn order a b).isLE := by
  funext a b
  unfold mayPrecede compareIn
  cases order.direction.apply (a.compareBy b order.columns) <;> rfl

theorem compareIn_eq_eq_iff {order : Order} {a b : Row ν} :
    compareIn order a b = .eq ↔ a.compareBy b order.columns = .eq := by
  unfold compareIn
  cases order.direction <;> cases a.compareBy b order.columns <;> decide

end Row

/-! ### Sorting -/

namespace Order

theorem sort_eq (order : Order) (rows : List (Row ν)) :
    order.sort rows = rows.mergeSort fun a b => (Row.compareIn order a b).isLE := by
  rw [sort, Row.mayPrecede_eq]

theorem pairwise_sort (order : Order) (rows : List (Row ν)) :
    (order.sort rows).Pairwise fun a b => (Row.compareIn order a b).isLE = true := by
  rw [sort_eq]
  exact Sorting.pairwise_mergeSort_isLE (Row.compareIn order) rows

/-- Rows that agree with a row in every column keep their order. -/
theorem filter_sort (order : Order) (rows : List (Row ν)) (row : Row ν) :
    (order.sort rows).filter (fun other => row.compareBy other order.columns == .eq) =
      rows.filter fun other => row.compareBy other order.columns == .eq := by
  rw [sort_eq]
  refine Sorting.filter_mergeSort (Row.compareIn order) rows fun a b ha hb => ?_
  rw [beq_iff_eq, ← Row.compareIn_eq_eq_iff] at ha hb
  have hab : Row.compareIn order a b = .eq :=
    Std.TransCmp.eq_trans (Std.OrientedCmp.eq_symm ha) hb
  rw [hab]
  rfl

/-- Sorting downwards is sorting upwards from the end. -/
theorem sort_down (names : List String) (rows : List (Row ν)) :
    (keys .down names).sort rows = ((keys .up names).sort rows.reverse).reverse := by
  refine Sorting.eq_of_pairwise_of_filter_eq (Row.compareIn (keys .down names))
    (pairwise_sort _ rows) ?_ fun row => ?_
  · rw [List.pairwise_reverse]
    refine (pairwise_sort (keys .up names) rows.reverse).imp fun {a b} hab => ?_
    have hswap : Row.compareIn (keys .down names) b a = Row.compareIn (keys .up names) a b :=
      (Row.transCmp_compareBy names).eq_swap.symm
    rwa [hswap]
  · have halike : (fun other => Row.compareIn (keys .down names) row other == .eq) =
        fun other => row.compareBy other names == .eq := by
      funext other
      rw [Bool.eq_iff_iff, beq_iff_eq, beq_iff_eq]
      exact Row.compareIn_eq_eq_iff
    have hup := filter_sort (keys .up names) rows.reverse row
    have hdown := filter_sort (keys .down names) rows row
    simp only [columns] at hup hdown
    rw [halike, hdown, List.filter_reverse, hup, List.filter_reverse, List.reverse_reverse]

end Order

/-! ### Floats and bit patterns -/

namespace Scalar

/-- The value with its number by the bit pattern. -/
def toDouble : Scalar → Scalar Double
  | .number x => .number (.ofFloat x)
  | .text s => .text s

theorem compare_toDouble (v w : Scalar) : v.toDouble.compare w.toDouble = v.compare w := by
  cases v <;> cases w <;> rfl

end Scalar

namespace Row

/-- The row with its numbers by their bit patterns. -/
def toDoubles (r : Row) : Row Double :=
  ⟨r.cells.map fun cell => (cell.1, cell.2.toDouble)⟩

@[simp] theorem get?_toDoubles (r : Row) (name : String) :
    r.toDoubles.get? name = (r.get? name).map Scalar.toDouble := by
  simp [toDoubles, get?, Assoc.lookup_map_snd]

theorem compareBy_toDoubles (a b : Row) (columns : List String) :
    a.toDoubles.compareBy b.toDoubles columns = a.compareBy b columns := by
  induction columns with
  | nil => rfl
  | cons column columns ih =>
      have hcells : ∀ v w : Option Scalar,
          compareCells (v.map Scalar.toDouble) (w.map Scalar.toDouble) = compareCells v w := by
        intro v w
        cases v <;> cases w <;> first | rfl | exact Scalar.compare_toDouble _ _
      rw [compareBy, compareBy, get?_toDoubles, get?_toDoubles, hcells, ih]

end Row

namespace Order

theorem sort_toDoubles (order : Order) (rows : List Row) :
    order.sort (rows.map Row.toDoubles) = (order.sort rows).map Row.toDoubles := by
  refine (List.map_mergeSort fun a _ b _ => ?_).symm
  rw [Row.mayPrecede, Row.mayPrecede, Row.compareBy_toDoubles]

/-- Cells that hold texts and doubles by their bit patterns, NaNs of every sign and payload among
them, are compared by a total preorder, in which a missing cell comes first. Sorting keeps all rows,
puts none after one that the comparison of their columns puts before it, upwards or downwards, and
keeps the order of rows that agree in every column. So downwards is upwards from the end. Rows of
`Float`s are sorted like the rows of their bit patterns. -/
theorem sorted_and_stable (order : Order) (rows : List (Row Double)) :
    (Std.TransCmp (compareCells : Option (Scalar Double) → Option (Scalar Double) → Ordering) ∧
        ∀ v : Scalar Double, compareCells none (some v) = .lt) ∧
      (order.sort rows).Perm rows ∧
      (order.sort rows).Pairwise (fun a b =>
        a.compareBy b order.columns ≠ if order.direction = .up then .gt else .lt) ∧
      (∀ row : Row Double, (order.sort rows).filter (fun other =>
          row.compareBy other order.columns == .eq) =
        rows.filter fun other => row.compareBy other order.columns == .eq) ∧
      (∀ names, (keys .down names).sort rows = ((keys .up names).sort rows.reverse).reverse) ∧
      ∀ floats : List Row,
        order.sort (floats.map Row.toDoubles) = (order.sort floats).map Row.toDoubles := by
  refine ⟨⟨transCmp_compareCells, fun v => rfl⟩, ?_, ?_, filter_sort order rows, fun names =>
    sort_down names rows, sort_toDoubles order⟩
  · exact List.mergeSort_perm rows _
  · refine (pairwise_sort order rows).imp fun {a b} hab => ?_
    rw [Row.compareIn] at hab
    cases hdirection : order.direction with
    | up =>
        rw [hdirection] at hab
        exact Ordering.isLE_iff_ne_gt.mp hab
    | down =>
        rw [hdirection] at hab
        rintro heq
        rw [heq] at hab
        cases hab

end Order

end Campus
