import Campus.Number.Dyadic
import Mathlib

/-!
# The order of doubles

The doubles without NaN lie on a line: each has a place (`place`), and one is less than another if
its place is (`lt_iff_place`), or equal to it if they have one place (`beq_iff_place`). NaN is
neither less than anything nor greater nor equal. So `<` is transitive (`lt_trans`), which is what
finding the greatest and the least of some numbers needs.
-/

namespace Campus.Number

open Float.Model (UnpackedFloat)
open Float.Model.UnpackedFloat

/-- The place of a double on the line: infinities at the ends, zeros in the middle, and between them
the numbers by their exponents and then by their mantissas. NaN has none, and is put anywhere. -/
def place : UnpackedFloat → ℤ ×ₗ ℤ ×ₗ ℤ
  | .infinity .negative => toLex (-2, toLex (0, 0))
  | .finite .negative mantissa exponent _ => toLex (-1, toLex (-exponent, -mantissa))
  | .zero _ => toLex (0, toLex (0, 0))
  | .finite .positive mantissa exponent _ => toLex (1, toLex (exponent, mantissa))
  | .infinity .positive => toLex (2, toLex (0, 0))
  | .notANumber => toLex (0, toLex (0, 0))

theorem toLex_lt_iff {c c' e e' m m' : ℤ} :
    toLex (c, toLex (e, m)) < toLex (c', toLex (e', m')) ↔
      c < c' ∨ c = c' ∧ (e < e' ∨ e = e' ∧ m < m') := by
  simp only [Prod.Lex.toLex_lt_toLex]

theorem compare_then_eq_lt_iff {e e' : ℤ} {m m' : ℕ} :
    (compare e e').then (compare m m') = .lt ↔ e < e' ∨ e = e' ∧ m < m' := by
  rw [Ordering.then_eq_lt, compare_lt_iff_lt, compare_eq_iff_eq, compare_lt_iff_lt]

theorem compare_then_eq_gt_iff {e e' : ℤ} {m m' : ℕ} :
    (compare e e').then (compare m m') = .gt ↔ e' < e ∨ e' = e ∧ m' < m := by
  rw [Ordering.then_eq_gt, compare_gt_iff_gt, compare_eq_iff_eq, compare_gt_iff_gt]
  simp only [eq_comm]

theorem lt_iff_place (a b : UnpackedFloat) :
    a.lt b = true ↔ a ≠ .notANumber ∧ b ≠ .notANumber ∧ place a < place b := by
  unfold UnpackedFloat.lt
  rw [beq_iff_eq]
  cases a with
  | notANumber => simp [UnpackedFloat.compare]
  | infinity s =>
      cases b with
      | notANumber => simp [UnpackedFloat.compare]
      | infinity s' =>
          cases s <;> cases s' <;> simp [UnpackedFloat.compare, place, toLex_lt_iff]
          decide
      | zero s' => cases s <;> simp [UnpackedFloat.compare, place, toLex_lt_iff]
      | finite s' m' e' h' =>
          cases s <;> cases s' <;> simp [UnpackedFloat.compare, place, toLex_lt_iff]
  | zero s =>
      cases b with
      | notANumber => simp [UnpackedFloat.compare]
      | infinity s' => cases s' <;> simp [UnpackedFloat.compare, place, toLex_lt_iff]
      | zero s' => simp [UnpackedFloat.compare, place]
      | finite s' m' e' h' => cases s' <;> simp [UnpackedFloat.compare, place, toLex_lt_iff]
  | finite s m e h =>
      cases b with
      | notANumber => simp [UnpackedFloat.compare]
      | infinity s' =>
          cases s <;> cases s' <;> simp [UnpackedFloat.compare, place, toLex_lt_iff]
      | zero s' => cases s <;> simp [UnpackedFloat.compare, place, toLex_lt_iff]
      | finite s' m' e' h' =>
          -- Of two numbers of one sign, the one with the greater exponent is farther from zero.
          cases s <;> cases s' <;>
            simp [UnpackedFloat.compare, place, toLex_lt_iff, compare_then_eq_lt_iff,
              compare_then_eq_gt_iff, @eq_comm ℤ e e']

theorem beq_iff_place (a b : UnpackedFloat) :
    a.beq b = true ↔ a ≠ .notANumber ∧ b ≠ .notANumber ∧ place a = place b := by
  unfold UnpackedFloat.beq
  rw [beq_iff_eq]
  cases a with
  | notANumber => simp [UnpackedFloat.compare]
  | infinity s =>
      cases b with
      | notANumber => simp [UnpackedFloat.compare]
      | infinity s' => cases s <;> cases s' <;> simp [UnpackedFloat.compare, place] <;> decide
      | zero s' => cases s <;> simp [UnpackedFloat.compare, place]
      | finite s' m' e' h' => cases s <;> cases s' <;> simp [UnpackedFloat.compare, place]
  | zero s =>
      cases b with
      | notANumber => simp [UnpackedFloat.compare]
      | infinity s' => cases s' <;> simp [UnpackedFloat.compare, place]
      | zero s' => simp [UnpackedFloat.compare, place]
      | finite s' m' e' h' => cases s' <;> simp [UnpackedFloat.compare, place]
  | finite s m e h =>
      cases b with
      | notANumber => simp [UnpackedFloat.compare]
      | infinity s' => cases s <;> cases s' <;> simp [UnpackedFloat.compare, place]
      | zero s' => cases s <;> simp [UnpackedFloat.compare, place]
      | finite s' m' e' h' =>
          cases s <;> cases s' <;> simp [UnpackedFloat.compare, place, Ordering.then_eq_eq]

theorem isNaN_eq_false_iff {x : Float} : x.isNaN = false ↔ x.toModel.unpack ≠ .notANumber := by
  rw [Ne, ← isNaN_iff, Bool.not_eq_true]
  rfl

theorem isNaN_eq_false {x : Float} (h : x.isFinite = true) : x.isNaN = false := by
  rw [isNaN_eq_false_iff]
  intro hnan
  have hfinite : x.toModel.unpack.isFinite = true := h
  rw [hnan] at hfinite
  cases hfinite

theorem lt_iff {x y : Float} : x < y ↔ x.isNaN = false ∧ y.isNaN = false ∧
    place x.toModel.unpack < place y.toModel.unpack := by
  rw [isNaN_eq_false_iff, isNaN_eq_false_iff, ← lt_iff_place]
  show x.lt y = true ↔ _
  unfold Float.lt
  rw [decide_eq_true_iff]
  rfl

theorem beq_iff {x y : Float} : (x == y) = true ↔ x.isNaN = false ∧ y.isNaN = false ∧
    place x.toModel.unpack = place y.toModel.unpack := by
  rw [isNaN_eq_false_iff, isNaN_eq_false_iff, ← beq_iff_place]
  rfl

theorem lt_trans {x y z : Float} (hxy : x < y) (hyz : y < z) : x < z := by
  rw [lt_iff] at hxy hyz ⊢
  exact ⟨hxy.1, hyz.2.1, hxy.2.2.trans hyz.2.2⟩

theorem lt_irrefl (x : Float) : ¬ x < x := by
  intro hlt
  exact (lt_iff.mp hlt).2.2.ne rfl

/-- NaN is less than nothing. -/
theorem not_lt_of_isNaN {x y : Float} (h : x.isNaN = true) : ¬ x < y := by
  intro hlt
  rw [lt_iff, h] at hlt
  cases hlt.1

/-- Nothing is less than NaN. -/
theorem not_lt_of_isNaN_right {x y : Float} (h : y.isNaN = true) : ¬ x < y := by
  intro hlt
  rw [lt_iff, h] at hlt
  cases hlt.2.1

end Campus.Number
