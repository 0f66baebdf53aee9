import Campus.Proofs.Json.WellFormed
import Campus.Proofs.Number.Decimals
import Campus.Proofs.Number.Values

/-!
# Values that are numbers

Finite numbers are the same value if neither is less (`beq_of_not_lt`), in particular if they are
equal as doubles (`beq_of_beq`). As JSON a value is shown by an equal one (`Scalar.ShownAs`), and a
JSON number is read as a finite double (`Json.Num.Fits.isFinite`).
-/

namespace Campus

open Number

/-! ### Numbers that are the same -/

section

variable {a b : ℚ} {x y : Float}

theorem beq_of_value (hx : value? x = some a) (hy : value? y = some a) :
    (Scalar.number x == Scalar.number y) = true := by
  change (identity x == identity y) = true
  exact beq_iff_eq.mpr (identity_eq_of_value hx hy)

/-- Of finite numbers neither of which is less, one is the other. -/
theorem beq_of_not_lt (hx : x.isFinite = true) (hy : y.isFinite = true) (hxy : ¬ x < y)
    (hyx : ¬ y < x) : (Scalar.number x == Scalar.number y) = true := by
  obtain ⟨a, ha⟩ := exists_value hx
  obtain ⟨b, hb⟩ := exists_value hy
  rw [lt_iff_value ha hb] at hxy
  rw [lt_iff_value hb ha] at hyx
  obtain rfl : a = b := le_antisymm (not_lt.mp hyx) (not_lt.mp hxy)
  exact beq_of_value ha hb

/-- Finite numbers that are equal as doubles are the same value. -/
theorem beq_of_beq (hx : x.isFinite = true) (hy : y.isFinite = true) (h : (x == y) = true) :
    (Scalar.number x == Scalar.number y) = true := by
  have hplace := (beq_iff.mp h).2.2
  refine beq_of_not_lt hx hy ?_ ?_
  · intro hlt
    exact (lt_iff.mp hlt).2.2.ne hplace
  · intro hlt
    exact (lt_iff.mp hlt).2.2.ne hplace.symm

end

/-! ### Values as JSON -/

/-- A number of a JSON text is a finite double. -/
theorem Json.Num.Fits.isFinite {n : Json.Num} (h : n.Fits) : n.toFloat.isFinite = true := by
  cases n with
  | integer n =>
      have hbound : n.natAbs < 2 ^ 64 := by
        simp only [Fits, fits, Nat.pow_eq, Bool.and_eq_true, decide_eq_true_eq] at h
        omega
      rw [toFloat, floatOfInt_eq]
      exact (rounds_withSign _ hbound).isFinite
  | real x => exact h

namespace Scalar

/-- A value is shown as a JSON value: a text as itself, and a number as an equal one. It is an
integer exactly if the exact value of the number is an integer of at most `2 ^ 53 - 1`. -/
inductive ShownAs : Scalar → Json → Prop
  | text (s : String) : ShownAs (.text s) (.string s)
  | number {x : Float} {n : Json.Num} (equal : (n.toFloat == x) = true)
      (whole : (∃ i, n = .integer i) ↔
        ∃ i : ℤ, Number.value? x = some (i : ℚ) ∧ i.natAbs ≤ 2 ^ 53 - 1) :
      ShownAs (.number x) (.number n)

theorem shownAs_numberToJson {x : Float} (h : x.isFinite = true) :
    ShownAs (.number x) (numberToJson x) := by
  have hself : (x == x) = true := by
    rw [Float.beq_self_iff]
    rintro rfl
    cases h
  have hbound : largestExactInteger = 2 ^ 53 - 1 := rfl
  unfold numberToJson
  rw [hbound]
  cases hn : Number.integer? x with
  | some n =>
      have hvalue := Number.integer?_eq_some_iff.mp hn
      dsimp only
      by_cases hsmall : n.natAbs ≤ 2 ^ 53 - 1
      · rw [if_pos hsmall]
        exact .number (Number.beq_floatOfInt hvalue)
          ⟨fun _ => ⟨n, hvalue, hsmall⟩, fun _ => ⟨n, rfl⟩⟩
      · rw [if_neg hsmall]
        refine .number hself (iff_of_false (by simp) ?_)
        rintro ⟨i, hi, hle⟩
        rw [hvalue, Option.some.injEq, Int.cast_inj] at hi
        exact hsmall (hi ▸ hle)
  | none =>
      rw [if_pos h]
      refine .number hself (iff_of_false (by simp) ?_)
      rintro ⟨i, hi, -⟩
      rw [Number.integer?_eq_some_iff.mpr hi] at hn
      cases hn

/-- The number of a value is one that a JSON text can denote. -/
theorem numbersFit_toJson (v : Scalar) : v.toJson.NumbersFit := by
  cases v with
  | text s => trivial
  | number x =>
      rw [toJson, numberToJson]
      split
      · next n hn =>
        split
        · next hexact =>
          have hbound : largestExactInteger = 2 ^ 53 - 1 := rfl
          have hfits : Json.Num.fits n = true := by
            simp only [Json.Num.fits, Bool.and_eq_true, decide_eq_true_eq, Nat.pow_eq]
            omega
          exact hfits
        · -- A double that is an integer is finite.
          obtain ⟨d, hd, -⟩ := Option.bind_eq_some_iff.mp hn
          have hsome : (Number.Dyadic.ofFloat? x).isSome = true := by rw [hd, Option.isSome_some]
          exact Number.Dyadic.isSome_ofFloat?_iff.mp hsome
      · split
        · next hfinite => exact hfinite
        · trivial

/-- The value has a text: a number does if it is finite. -/
def HasText : Scalar → Prop
  | .number x => x.isFinite = true
  | .text _ => True

theorem shownAs_toJson {v : Scalar} (h : v.HasText) : v.ShownAs v.toJson := by
  cases v with
  | number x => exact shownAs_numberToJson h
  | text s => exact .text s

end Scalar

end Campus
