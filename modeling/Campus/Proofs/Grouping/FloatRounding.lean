import Campus.Proofs.Grouping.Totals
import Campus.Proofs.Scalar.Numbers

/-!
# Two ways of rounding to two places

A total is rounded as a decimal, and in floating point if it has none. Of one double both ways make
the same, unless a midpoint between two hundredths lies so near to its decimal that the product by a
hundred can be on the other side of it (`roundToHundredths_and_decimal`). That happens
(`roundToHundredths_ne_decimal`): the floating point rounding does not see the decimal.
-/

namespace Campus

open Number

variable {x y : Float} {a v w product : ℚ} {c : Fixed}

/-- Numbers that are the same value have the same exact value. -/
theorem value?_eq_of_beq (h : (Scalar.number x == Scalar.number y) = true) :
    value? x = value? y := by
  have hzero : ∀ {z : Float}, (z == 0) = true → value? z = some ((0 : ℤ) : ℚ) := by
    intro z hz
    rcases beq_zero_iff.mp hz with rfl | rfl
    · exact integer?_eq_some_iff.mp (by decide +kernel)
    · exact integer?_eq_some_iff.mp (by decide +kernel)
  have hidentity : identity x = identity y := beq_iff_eq.mp h
  rcases identity_inj.mp hidentity with rfl | ⟨hx, hy⟩
  · rfl
  · rw [hzero hx, hzero hy]

/-- Doubles that are not great are dense enough to tell hundredths from each other. -/
theorem beq_eq_false_of_rounds (hx : Rounds (hundredths v) x) (hy : Rounds (hundredths w) y)
    (hne : hundredths v ≠ hundredths w) (hv : |hundredths v| ≤ 2 ^ 45 + 1)
    (hw : |hundredths w| ≤ 2 ^ 45 + 1) : (Scalar.number x == Scalar.number y) = false := by
  rw [← Bool.not_eq_true]
  intro hsame
  obtain ⟨b, hb⟩ := exists_value hx.isFinite
  have hb' : value? y = some b := value?_eq_of_beq hsame ▸ hb
  have hleast : (2 : ℚ) ^ (-1075 : ℤ) ≤ 2 ^ (-20 : ℤ) :=
    zpow_le_zpow_right₀ (by norm_num) (by norm_num)
  have herror := (hx.abs_sub_le hb).trans (add_le_add_right hleast _)
  have herror' := (hy.abs_sub_le hb').trans (add_le_add_right hleast _)
  have htriangle := abs_sub_le (hundredths v) b (hundredths w)
  have hfar := le_abs_hundredths_sub hne
  rw [abs_sub_comm b] at htriangle
  norm_num only at herror herror'
  linarith

/-! ### Numbers with a fraction -/

theorem beq_of_hundredths_eq (hfraction : integer? x = none)
    (hproduct : value? (x * 100) = some product) (hdecimal : Fixed.ofFloat? x = some c)
    (h : hundredths (product / 100) = hundredths (written x)) :
    (Scalar.number (roundToHundredths x) == .number c.toHundredths.toFloat) = true :=
  beq_of_rounds (h ▸ rounds_roundToHundredths hfraction hproduct) (Fixed.rounds_decimal hdecimal)

/-- Where the hundredths differ, the two roundings are neighbouring hundredths. -/
theorem neighbours_of_hundredths_ne (hx : value? x = some a) (hfraction : integer? x = none)
    (hproduct : value? (x * 100) = some product) (hdecimal : Fixed.ofFloat? x = some c)
    (h : hundredths (product / 100) ≠ hundredths (written x)) (hdense : |a| ≤ 2 ^ 45) :
    (Scalar.number (roundToHundredths x) == .number c.toHundredths.toFloat) = false ∧
      |hundredths (product / 100) - hundredths (written x)| = 1 / 100 := by
  obtain ⟨-, -, hrounds⟩ := exists_product hx hfraction
  have hgreat : 1 / 1000 ≤ |a| := by
    by_contra hsmall
    exact h (hundredths_product_of_small hx hproduct hrounds (not_le.mp hsmall))
  have hnear := abs_product_sub_written_le hx hproduct hrounds hgreat
  have hwritten := (rounds_written hx).abs_sub_le_abs hx hgreat
  have hwrittenSize := abs_sub_abs_le_abs_sub (written x) a
  have hproductSize := abs_sub_abs_le_abs_sub (product / 100) (written x)
  have hsize := abs_sub_abs_le_abs_sub (hundredths (product / 100)) (product / 100)
  have hsize' := abs_sub_abs_le_abs_sub (hundredths (written x)) (written x)
  have herror := abs_hundredths_sub_le (product / 100)
  have herror' := abs_hundredths_sub_le (written x)
  norm_num only at hwritten
  refine ⟨beq_eq_false_of_rounds (rounds_roundToHundredths hfraction hproduct)
    (Fixed.rounds_decimal hdecimal) h ?_ ?_, abs_hundredths_sub_eq h ?_⟩
  all_goals linarith

/-! ### All numbers in the range of decimals -/

theorem integer?_eq_none_iff (hx : value? x = some a) :
    integer? x = none ↔ ¬ ∃ n : ℤ, a = n := by
  rw [Option.eq_none_iff_forall_ne_some, not_exists]
  refine forall_congr' fun n => not_congr ?_
  rw [integer?_eq_some_iff, hx, Option.some.injEq]

theorem beq_of_integer {n : ℤ} (hx : value? x = some (n : ℚ))
    (hdecimal : Fixed.ofFloat? x = some c) :
    (Scalar.number x == .number c.toHundredths.toFloat) = true :=
  beq_of_rounds (rounds_written hx) (Fixed.rounds_decimal_of_integer hx hdecimal)

/-- The two ways of rounding a double in the range of decimals. Its decimal is rounded to the double
nearest to the hundredths of what the double is written as. In floating point an integer stays,
which makes no difference, and another number becomes the double nearest to the hundredths of its
product by a hundred. So both give the same where the hundredths are the same, and so they are away
from midpoints. Else, where doubles are dense enough to tell hundredths from each other, they give
neighbouring hundredths. The total of a group without a decimal total is rounded in floating
point. -/
theorem roundToHundredths_and_decimal (hx : value? x = some a) (hrange : |a| ≤ 2 ^ 96 - 1) :
    ∃ c, Fixed.ofFloat? x = some c ∧
      IsNearest (hundredths (written x)) c.toHundredths.toFloat ∧
      (∀ n : ℤ, a = n → roundToHundredths x = x ∧
        (Scalar.number x == .number c.toHundredths.toFloat) = true) ∧
      ((¬ ∃ n : ℤ, a = n) → ∃ product, value? (x * 100) = some product ∧
        IsNearest (hundredths (product / 100)) (roundToHundredths x) ∧
        (hundredths (product / 100) = hundredths (written x) →
          (Scalar.number (roundToHundredths x) == .number c.toHundredths.toFloat) = true) ∧
        (hundredths (product / 100) ≠ hundredths (written x) → |a| ≤ 2 ^ 45 →
          (Scalar.number (roundToHundredths x) == .number c.toHundredths.toFloat) = false ∧
            |hundredths (product / 100) - hundredths (written x)| = 1 / 100)) ∧
      ((∀ k : ℤ, |a| / 2 ^ 52 < |written x - (2 * k + 1) / 200|) →
        (Scalar.number (roundToHundredths x) == .number c.toHundredths.toFloat) = true) ∧
      ∀ numbers, decimalSum? numbers = none → floatSum numbers = x →
        Aggregate.sum.of (numbers.map .number) = roundToHundredths x := by
  obtain ⟨c, hdecimal⟩ := exists_decimal hx hrange
  have hinteger : ∀ n : ℤ, a = n → roundToHundredths x = x ∧
      (Scalar.number x == .number c.toHundredths.toFloat) = true := by
    rintro n rfl
    exact ⟨roundToHundredths_of_integer (integer?_eq_some_iff.mpr hx), beq_of_integer hx hdecimal⟩
  refine ⟨c, hdecimal, (Fixed.rounds_decimal hdecimal).isNearest, hinteger, fun hnone => ?_,
    fun hfar => ?_, fun numbers hnone hsum => ?_⟩
  · have hfraction := (integer?_eq_none_iff hx).mpr hnone
    obtain ⟨product, hproduct, -⟩ := exists_product hx hfraction
    exact ⟨product, hproduct, (rounds_roundToHundredths hfraction hproduct).isNearest,
      beq_of_hundredths_eq hfraction hproduct hdecimal,
      neighbours_of_hundredths_ne hx hfraction hproduct hdecimal⟩
  · by_cases hwhole : ∃ n : ℤ, a = n
    · obtain ⟨n, hn⟩ := hwhole
      obtain ⟨hself, hsame⟩ := hinteger n hn
      rwa [hself]
    · have hfraction := (integer?_eq_none_iff hx).mpr hwhole
      obtain ⟨product, hproduct, hrounds⟩ := exists_product hx hfraction
      exact beq_of_hundredths_eq hfraction hproduct hdecimal
        (hundredths_product hx hproduct hrounds hfar)
  · rw [Aggregate.sum_of, roundedSum, hnone, ← hsum]

theorem roundToHundredths_and_decimal_samplePrice :
    ∃ a, value? 2.674 = some a ∧ |a| ≤ 2 ^ 96 - 1 ∧ (¬ ∃ n : ℤ, a = n) ∧
      (∀ k : ℤ, |a| / 2 ^ 52 < |written 2.674 - (2 * k + 1) / 200|) ∧
      ∃ c product, Fixed.ofFloat? 2.674 = some c ∧ value? (2.674 * 100) = some product ∧
        IsNearest (hundredths (written 2.674)) c.toHundredths.toFloat ∧
        IsNearest (hundredths (product / 100)) (roundToHundredths 2.674) ∧
        (Scalar.number (roundToHundredths 2.674) == .number c.toHundredths.toFloat) = true := by
  have hparts : Dyadic.ofFloat? 2.674 = some ⟨false, 6021312701794353, -51⟩ := by decide +kernel
  have hx : value? 2.674 = some (6021312701794353 / 2 ^ 51) := by
    rw [value?_of_ofFloat? hparts]
    norm_num [Number.Dyadic.value, signed]
  have hsize : |(6021312701794353 / 2 ^ 51 : ℚ)| ≤ 3 := by
    rw [abs_of_pos (by norm_num)]
    norm_num
  have hrange : |(6021312701794353 / 2 ^ 51 : ℚ)| ≤ 2 ^ 96 - 1 := hsize.trans (by norm_num)
  have hfraction := (integer?_eq_none_iff hx).mp (by decide +kernel)
  have hwritten : written 2.674 = 2674 / 1000 := by
    have hs : Scientific.ofFloat? .away 2.674 = some ⟨false, 2674, -3⟩ := by decide +kernel
    rw [written, hs]
    norm_num [Scientific.value, signed]
  have hfar : ∀ k : ℤ, |(6021312701794353 / 2 ^ 51 : ℚ)| / 2 ^ 52 <
      |written 2.674 - (2 * k + 1) / 200| := by
    intro k
    -- Midpoints are multiples of five thousandths.
    have hone : (1 : ℚ) ≤ |((2674 - 5 * (2 * k + 1) : ℤ) : ℚ)| := by
      exact_mod_cast Int.one_le_abs (by omega)
    have hdistance : (2674 / 1000 - (2 * k + 1) / 200 : ℚ) =
        ((2674 - 5 * (2 * k + 1) : ℤ) : ℚ) / 1000 := by
      push_cast
      ring
    rw [hwritten, hdistance, abs_div ((2674 - 5 * (2 * k + 1) : ℤ) : ℚ),
      abs_of_pos (by norm_num : (0 : ℚ) < 1000)]
    linarith
  obtain ⟨c, hdecimal, hnearest, -, hrounded, hsame, -⟩ := roundToHundredths_and_decimal hx hrange
  obtain ⟨product, hproduct, hnearest', -⟩ := hrounded hfraction
  exact ⟨_, hx, hrange, hfraction, hfar, c, product, hdecimal, hproduct, hnearest, hnearest',
    hsame hfar⟩

/-- Totals of which the running total leaves the range of decimals on the way. -/
def sampleDetour : List Float := [5e28, 5e28, -5e28, -5e28, 1.005]

/-- What `1.005` is written as is a midpoint, but its product by a hundred is less than `100.5`. A
total that has no decimal only because the running total has left the range is rounded in floating
point as well, and not like any other. -/
theorem roundToHundredths_ne_decimal :
    ∃ a c, value? 1.005 = some a ∧ |a| ≤ 2 ^ 96 - 1 ∧ Fixed.ofFloat? 1.005 = some c ∧
      (Scalar.number c.toHundredths.toFloat == .number 1.01) = true ∧
      (Scalar.number (roundToHundredths 1.005) == .number 1) = true ∧
      (Scalar.number (roundToHundredths 1.005) == .number c.toHundredths.toFloat) = false ∧
      decimalSum? sampleDetour = none ∧ floatSum sampleDetour = 1.005 ∧
      (Scalar.number (Aggregate.sum.of (sampleDetour.map .number)) == .number 1) = true := by
  have hparts : Dyadic.ofFloat? 1.005 = some ⟨false, 4526117625507348, -52⟩ := by decide +kernel
  refine ⟨_, ⟨false, 1005, 3⟩, value?_of_ofFloat? hparts, ?_, by decide +kernel, by decide +kernel,
    by decide +kernel, by decide +kernel, by decide +kernel, by decide +kernel, by decide +kernel⟩
  rw [Dyadic.abs_value]
  norm_num

end Campus
