import Campus.Proofs.Number.Decimals

/-!
# Rounding to two places

A number is rounded to hundredths exactly when it is a decimal (`Fixed.rounds_decimal`). A double is
rounded by calculating: it is multiplied by a hundred, rounded to an integer and divided by a
hundred. The second of these steps is exact (`value?_roundToInteger`), so what comes out is rounded
from the hundredths of the product (`rounds_roundToHundredths`).

The two agree unless a midpoint lies between the decimal of the double and its product
(`exists_midpoint`), and these are near to each other (`abs_product_sub_written_le`).
-/

namespace Campus.Number

variable {tie : Tie} {x y : Float} {a b v w product : ℚ} {mantissa : ℕ} {exponent : ℤ} {c : Fixed}

/-! ### Hundredths -/

theorem hundredths_neg (v : ℚ) : hundredths (-v) = -hundredths v := by
  rcases lt_trichotomy v 0 with h | rfl | h
  · simp [hundredths, signed, h, h.le]
  · simp [hundredths, signed]
  · simp [hundredths, signed, h, h.le]

theorem exists_hundredths (v : ℚ) : ∃ k : ℤ, hundredths v = k / 100 := by
  unfold hundredths signed
  split
  · exact ⟨-round (100 * |v|), by push_cast; ring⟩
  · exact ⟨round (100 * |v|), rfl⟩

theorem abs_hundredths_sub_le (v : ℚ) : |hundredths v - v| ≤ 1 / 200 := by
  have hround := abs_sub_round (100 * |v|)
  have hdistance : hundredths v - v = signed (decide (v < 0)) (round (100 * |v|) / 100 - |v|) := by
    nth_rewrite 2 [← signed_decide_abs v]
    rw [hundredths]
    cases decide (v < 0) with
    | false => rfl
    | true => exact (neg_sub_neg _ _).trans (neg_sub _ _).symm
  rw [hdistance, abs_signed, abs_le]
  obtain ⟨hlow, hhigh⟩ := abs_le.mp hround
  constructor <;> linarith

theorem hundredths_intCast (n : ℤ) : hundredths n = n := by
  have hwhole : (100 * |(n : ℚ)|) = ((100 * |n| : ℤ) : ℚ) := by push_cast; rfl
  rw [hundredths, hwhole, round_intCast, Int.cast_mul, Int.cast_ofNat,
    mul_div_cancel_left₀ _ (by norm_num), Int.cast_abs, signed_decide_abs]

theorem exists_hundredths_sub (v w : ℚ) :
    ∃ k : ℤ, hundredths v - hundredths w = k / 100 := by
  obtain ⟨j, hj⟩ := exists_hundredths v
  obtain ⟨l, hl⟩ := exists_hundredths w
  exact ⟨j - l, by rw [hj, hl, ← sub_div, Int.cast_sub]⟩

/-- Different hundredths are apart by a hundredth at least. -/
theorem le_abs_hundredths_sub (h : hundredths v ≠ hundredths w) :
    1 / 100 ≤ |hundredths v - hundredths w| := by
  obtain ⟨k, hk⟩ := exists_hundredths_sub v w
  have hne : k ≠ 0 := by
    rintro rfl
    rw [Int.cast_zero, zero_div, sub_eq_zero] at hk
    exact h hk
  have hone : 1 ≤ |(k : ℚ)| := by exact_mod_cast Int.one_le_abs hne
  rw [hk, abs_div, abs_of_pos (by norm_num : (0 : ℚ) < 100)]
  gcongr

/-- Numbers that are less than a hundredth apart have the same hundredths or neighbouring ones. -/
theorem abs_hundredths_sub_eq (h : hundredths v ≠ hundredths w) (hnear : |v - w| < 1 / 100) :
    |hundredths v - hundredths w| = 1 / 100 := by
  have hfar := le_abs_hundredths_sub h
  have hfirst := abs_sub_le (hundredths v) v (hundredths w)
  have hsecond := abs_sub_le v w (hundredths w)
  have herror := abs_hundredths_sub_le v
  have herror' := abs_hundredths_sub_le w
  rw [abs_sub_comm] at herror'
  obtain ⟨k, hk⟩ := exists_hundredths_sub v w
  rw [hk, abs_div, abs_of_pos (by norm_num : (0 : ℚ) < 100)] at hfar hfirst ⊢
  have hlow : 1 ≤ |(k : ℚ)| := by linarith
  have hhigh : |(k : ℚ)| < 2 := by linarith
  have hone : |k| = 1 := by
    have hlow' : 1 ≤ |k| := by exact_mod_cast hlow
    have hhigh' : |k| < 2 := by exact_mod_cast hhigh
    omega
  rw [← Int.cast_abs, hone, Int.cast_one]

theorem hundredths_eq_zero (h : |v| < 1 / 200) : hundredths v = 0 := by
  have hzero : hundredths 0 = 0 := by exact_mod_cast hundredths_intCast 0
  rw [← hzero]
  by_contra hne
  have hfar := le_abs_hundredths_sub hne
  have hnear := abs_sub_abs_le_abs_sub (hundredths v) v
  rw [hzero, sub_zero] at hfar
  linarith [abs_hundredths_sub_le v]

/-- Where the hundredths of two numbers differ there is a midpoint between the numbers. -/
theorem exists_midpoint (h : hundredths v ≠ hundredths w) :
    ∃ k : ℤ, |w - (2 * k + 1) / 200| ≤ |v - w| := by
  obtain ⟨hlow, hhigh⟩ := abs_le.mp (abs_hundredths_sub_le v)
  obtain ⟨hlow', hhigh'⟩ := abs_le.mp (abs_hundredths_sub_le w)
  obtain ⟨k, hk⟩ := exists_hundredths v
  obtain ⟨j, hj⟩ := exists_hundredths w
  rw [hk] at hlow hhigh h
  rw [hj] at hlow' hhigh' h
  have hne : k ≠ j := by
    rintro rfl
    exact h rfl
  rcases hne.lt_or_gt with hlt | hgt
  · have hle : (k + 1 : ℚ) ≤ j := by exact_mod_cast hlt
    refine ⟨j - 1, ?_⟩
    push_cast
    rw [abs_of_nonneg (by linarith), abs_of_nonpos (by linarith)]
    linarith
  · have hle : (j + 1 : ℚ) ≤ k := by exact_mod_cast hgt
    refine ⟨j, ?_⟩
    rw [abs_of_nonpos (by linarith), abs_of_nonneg (by linarith)]
    linarith

/-! ### Rounding a double -/

/-- A natural number of at most 53 bits is a double. -/
theorem Rounds.value?_eq {negative : Bool} {n : ℕ} (h : Rounds (signed negative n) x)
    (hn : n ≤ 2 ^ 52) : value? x = some (signed negative n) := by
  obtain ⟨d, v, hd, hv, hsigned⟩ := h
  have hmagnitude : v = n := by
    have habs := congrArg (fun v : ℚ => |v|) hsigned
    rw [abs_signed, abs_signed, Nat.abs_cast, abs_of_nonneg (hv.nonneg hd)] at habs
    exact habs.symm
  rw [value?_of_ofFloat? hd, Option.some.injEq, hsigned, Dyadic.value]
  congr 1
  subst hmagnitude
  by_cases hzero : d.mantissa = 0
  · rw [Dyadic.Attracts, if_pos hzero] at hv
    have hleast : (2 : ℚ) ^ (-1075 : ℤ) < 2 ^ (0 : ℤ) :=
      zpow_lt_zpow_right₀ (by norm_num) (by norm_num)
    have hless : (n : ℚ) < 1 := hv.2.trans_lt (by rwa [zpow_zero] at hleast)
    have hn0 : n = 0 := by
      have hlt : n < 1 := by exact_mod_cast hless
      omega
    rw [hzero, hn0, Nat.cast_zero, zero_mul]
  · rw [Dyadic.Attracts, if_neg hzero] at hv
    have hc := Dyadic.canonical_of_ofFloat? hd hzero
    have hunit : (0 : ℚ) < 2 ^ d.exponent := by positivity
    have hrounds := roundsTo_of_contains hc.pos hv
    have hexponent : d.exponent ≤ 0 := by
      by_contra hgreat
      have hnormal : (2 ^ 52 : ℚ) ≤ d.mantissa := by
        exact_mod_cast hc.normal.resolve_left (by omega)
      have htwo : (2 : ℚ) ^ (1 : ℤ) ≤ 2 ^ d.exponent :=
        zpow_le_zpow_right₀ (by norm_num) (by omega)
      have hn' : (n : ℚ) ≤ 2 ^ 52 := by exact_mod_cast hn
      have hlow := (le_div_iff₀ hunit).mp hrounds.low
      have hle : (2 ^ 52 - 1 / 2 : ℚ) * 2 ^ (1 : ℤ) ≤ (d.mantissa - 1 / 2) * 2 ^ d.exponent := by
        gcongr
        linarith
      norm_num at hle
      linarith
    -- In units of the mantissa the number is whole, so it is the mantissa.
    obtain ⟨k, hk⟩ := Int.eq_ofNat_of_zero_le (neg_nonneg.mpr hexponent)
    have hwhole : (n : ℚ) / 2 ^ d.exponent = (n * 2 ^ k : ℕ) := by
      rw [neg_eq_iff_eq_neg.mp hk, zpow_neg, div_inv_eq_mul, zpow_natCast]
      push_cast
      rfl
    have hmantissa : n * 2 ^ k = d.mantissa := by
      have hlow := hrounds.low
      have hhigh := hrounds.high
      rw [hwhole] at hlow hhigh
      have hlt : ((n * 2 ^ k : ℕ) : ℚ) < d.mantissa + 1 := by linarith
      have hgt : (d.mantissa : ℚ) < (n * 2 ^ k : ℕ) + 1 := by linarith
      have hlt' : n * 2 ^ k < d.mantissa + 1 := by exact_mod_cast hlt
      have hgt' : d.mantissa < n * 2 ^ k + 1 := by exact_mod_cast hgt
      omega
    rw [← hmantissa, ← hwhole, div_mul_cancel₀ _ hunit.ne']

theorem Dyadic.mantissa_lt {d : Dyadic} (h : ofFloat? x = some d) : d.mantissa < 2 ^ 53 := by
  by_cases hzero : d.mantissa = 0
  · rw [hzero]
    positivity
  · exact (canonical_of_ofFloat? h hzero).lt

/-- Rounding to an integer is exact. -/
theorem value?_roundToInteger (hx : value? x = some a) :
    value? (roundToInteger x) = some (100 * hundredths (a / 100)) := by
  obtain ⟨d, hd, rfl⟩ := exists_dyadic hx
  have hnonneg : (0 : ℚ) ≤ d.mantissa * 2 ^ d.exponent := by positivity
  have hround : 100 * hundredths (d.value / 100) =
      signed d.negative (round (d.mantissa * 2 ^ d.exponent : ℚ)) := by
    rw [Dyadic.value, signed_div, hundredths_signed _ (by positivity),
      mul_div_cancel₀ _ (by norm_num), ← signed_div, mul_div_cancel₀ _ (by norm_num)]
  rw [hround]
  unfold roundToInteger
  rw [hd]
  dsimp only
  split
  · next hexponent =>
    obtain ⟨k, hk⟩ := Int.eq_ofNat_of_zero_le hexponent
    have hwhole : (d.mantissa * 2 ^ d.exponent : ℚ) = (d.mantissa * 2 ^ k : ℕ) := by
      rw [hk, zpow_natCast]
      push_cast
      rfl
    rw [hx, Dyadic.value, hwhole, round_natCast, Int.cast_natCast]
  · next hexponent =>
    have hunit : 0 < Nat.pow 2 (-d.exponent).toNat := Nat.pow_pos (by decide)
    have hquotient : (d.mantissa / (Nat.pow 2 (-d.exponent).toNat : ℕ) : ℚ) =
        d.mantissa * 2 ^ d.exponent := by
      rw [mantissa_eq_div, Int.toNat_of_nonpos (not_le.mp hexponent).le, pow_zero, mul_one]
      rfl
    rw [roundDiv_eq_nearest .away _ hunit, hquotient, ← Tie.nearest_away hnonneg, Int.cast_natCast]
    -- Half of the mantissa at most is left, so the integer is a double.
    have hle : Tie.away.nearest (d.mantissa * 2 ^ d.exponent) ≤ 2 ^ 52 := by
      refine Tie.away.nearest_le hnonneg ?_
      have hmantissa : (d.mantissa : ℚ) ≤ 2 ^ 53 := by exact_mod_cast (Dyadic.mantissa_lt hd).le
      have hhalf : (2 : ℚ) ^ d.exponent ≤ 2 ^ (-1 : ℤ) :=
        zpow_le_zpow_right₀ (by norm_num) (by omega)
      calc (d.mantissa * 2 ^ d.exponent : ℚ) ≤ 2 ^ 53 * 2 ^ (-1 : ℤ) := by gcongr
        _ = (2 ^ 52 : ℕ) := by norm_num
    exact (rounds_withSign d.negative (hle.trans_lt (by norm_num))).value?_eq hle

theorem value?_hundred : value? 100 = some 100 := by
  exact_mod_cast integer?_eq_some_iff.mp (by decide +kernel : integer? 100 = some 100)

/-- Only small numbers have a fraction. -/
theorem abs_le_of_fraction (hx : value? x = some a) (h : integer? x = none) : |a| ≤ 2 ^ 52 := by
  obtain ⟨d, hd, rfl⟩ := exists_dyadic hx
  have hexponent : d.exponent < 0 := by
    by_contra hwhole
    rw [integer?, hd, Option.bind_some, Dyadic.toInt?] at h
    simp [not_lt.mp hwhole] at h
  have hmantissa : (d.mantissa : ℚ) ≤ 2 ^ 53 := by exact_mod_cast (Dyadic.mantissa_lt hd).le
  have hhalf : (2 : ℚ) ^ d.exponent ≤ 2 ^ (-1 : ℤ) := zpow_le_zpow_right₀ (by norm_num) (by omega)
  rw [Dyadic.abs_value]
  calc (d.mantissa * 2 ^ d.exponent : ℚ) ≤ 2 ^ 53 * 2 ^ (-1 : ℤ) := by gcongr
    _ = 2 ^ 52 := by norm_num

/-- The hundredfold of a number with a fraction is finite. -/
theorem exists_product (hx : value? x = some a) (h : integer? x = none) :
    ∃ product, value? (x * 100) = some product ∧ Rounds (a * 100) (x * 100) := by
  have hless : |a * 100| < overflow := by
    refine lt_overflow ?_
    rw [abs_mul, abs_of_pos (by norm_num : (0 : ℚ) < 100)]
    calc |a| * 100 ≤ 2 ^ 52 * 2 ^ 7 := by
          gcongr
          · exact abs_le_of_fraction hx h
          · norm_num
      _ ≤ 2 ^ 970 := by
          rw [← pow_add]
          exact pow_le_pow_right₀ (by norm_num) (by norm_num)
  have hrounds := (isResult_mul hx value?_hundred).rounds_of_lt hless
  obtain ⟨product, hproduct⟩ := exists_value hrounds.isFinite
  exact ⟨product, hproduct, hrounds⟩

/-- A double that is no integer is rounded to the hundredths of its product. -/
theorem rounds_roundToHundredths (h : integer? x = none)
    (hproduct : value? (x * 100) = some product) :
    Rounds (hundredths (product / 100)) (roundToHundredths x) := by
  have hfinite : (x * 100).isFinite = true :=
    isSome_value?_iff.mp (by rw [hproduct, Option.isSome_some])
  have hwhole := value?_roundToInteger hproduct
  have hless : |100 * hundredths (product / 100) / 100| < overflow := by
    rw [abs_div, abs_of_pos (by norm_num : (0 : ℚ) < 100)]
    exact (div_le_self (abs_nonneg _) (by norm_num)).trans_lt (abs_lt_overflow hwhole)
  have hrounds := (isResult_div hwhole value?_hundred (by norm_num)).rounds_of_lt hless
  rw [mul_div_cancel_left₀ _ (by norm_num)] at hrounds
  simpa [roundToHundredths, h, hfinite] using hrounds

theorem roundToHundredths_of_integer {n : ℤ} (h : integer? x = some n) :
    roundToHundredths x = x := by
  simp [roundToHundredths, h]

/-! ### Rounding the decimal of a double -/

/-- Digits beyond the places that are kept do not matter for the hundredths of a double. -/
theorem hundredths_toFinest {s : Scientific} (hdigits : s.digits ≤ 2 * 10 ^ 17) :
    hundredths (toFinest s.value) = hundredths s.value := by
  rcases le_or_gt (-28) s.exponent with hfew | hmany
  · obtain ⟨k, hk⟩ := Int.eq_ofNat_of_zero_le (show 0 ≤ s.exponent + 28 by omega)
    have hwhole : |s.value| * 10 ^ 28 = (s.digits * 10 ^ k : ℕ) := by
      have hpower : (10 : ℚ) ^ k = 10 ^ s.exponent * 10 ^ 28 := by
        rw [← zpow_natCast, ← zpow_natCast, ← zpow_add₀ (by norm_num), Nat.cast_ofNat, hk]
      rw [s.abs_value, mul_assoc, ← hpower]
      push_cast
      rfl
    rw [toFinest_of_natCast hwhole]
  · -- Such a number is so small that it is rounded to zero.
    have hsmall : |s.value| ≤ 1 / 1000 := by
      have hdigits' : (s.digits : ℚ) ≤ 2 * 10 ^ 17 := by exact_mod_cast hdigits
      have hpower : (10 : ℚ) ^ s.exponent ≤ 10 ^ (-29 : ℤ) :=
        zpow_le_zpow_right₀ (by norm_num) (by omega)
      rw [s.abs_value]
      calc (s.digits * 10 ^ s.exponent : ℚ) ≤ 2 * 10 ^ 17 * 10 ^ (-29 : ℤ) := by gcongr
        _ ≤ 1 / 1000 := by norm_num
    have hthousandth : toFinest (1 / 1000) = 1 / 1000 :=
      toFinest_of_natCast (n := 10 ^ 25) (by norm_num [abs_of_pos])
    obtain ⟨hlow, hhigh⟩ := abs_le.mp hsmall
    have hlow' := toFinest_le hlow
    have hhigh' := toFinest_le hhigh
    rw [toFinest_neg, hthousandth] at hlow'
    rw [hthousandth] at hhigh'
    rw [hundredths_eq_zero ((abs_le.mpr ⟨hlow', hhigh'⟩).trans_lt (by norm_num)),
      hundredths_eq_zero (hsmall.trans_lt (by norm_num))]

/-- The decimal of a double is rounded to the hundredths of what the double is written as. -/
theorem Fixed.rounds_decimal (h : ofFloat? x = some c) :
    Rounds (hundredths (written x)) c.toHundredths.toFloat := by
  obtain ⟨s, hs, hkeeps⟩ := keeps_of_ofFloat? h
  have hwritten : written x = s.value := by
    rw [written, hs]
    rfl
  rw [hwritten, ← hundredths_toFinest (Scientific.digits_le_of_ofFloat? hs), ← hkeeps.value_eq,
    ← value_toHundredths]
  exact rounds_toFloat (valid_toHundredths hkeeps.valid)

/-! ### The product and the decimal -/

/-- From a full mantissa a number is away by half of the last place at most. -/
theorem Rounds.abs_sub_le_abs (h : Rounds v x) (hx : value? x = some a) (hgreat : 1 / 1000 ≤ |a|) :
    |v - a| ≤ |a| * 2 ^ (-53 : ℤ) := by
  obtain ⟨d, u, hd, hu, rfl⟩ := h
  obtain rfl : d.value = a := Option.some.inj ((value?_of_ofFloat? hd).symm.trans hx)
  rw [Dyadic.abs_value] at hgreat ⊢
  rw [abs_signed_sub, Dyadic.value, signed_signed]
  by_cases hzero : d.mantissa = 0
  · rw [hzero, Nat.cast_zero, zero_mul] at hgreat
    norm_num at hgreat
  · have hc := Dyadic.canonical_of_ofFloat? hd hzero
    have hnormal : (2 ^ 52 : ℚ) ≤ d.mantissa := by
      have hbottom : d.exponent ≠ -1074 := by
        intro hbottom
        have hmantissa : (d.mantissa : ℚ) ≤ 2 ^ 53 := by exact_mod_cast hc.lt.le
        have hleast : (2 : ℚ) ^ d.exponent ≤ 2 ^ (-100 : ℤ) :=
          zpow_le_zpow_right₀ (by norm_num) (by omega)
        have hsmall : (d.mantissa * 2 ^ d.exponent : ℚ) ≤ 2 ^ 53 * 2 ^ (-100 : ℤ) := by gcongr
        norm_num at hsmall
        linarith
      exact_mod_cast hc.normal.resolve_left hbottom
    have hfull : (2 ^ 52 * 2 ^ d.exponent : ℚ) ≤ d.mantissa * 2 ^ d.exponent := by gcongr
    have hhalf := hu.abs_sub_le_half hd hzero
    norm_num only
    linarith

/-- The product and the decimal of a number are near to each other. -/
theorem abs_product_sub_written_le (hx : value? x = some a)
    (hproduct : value? (x * 100) = some product) (hrounds : Rounds (a * 100) (x * 100))
    (hgreat : 1 / 1000 ≤ |a|) : |product / 100 - written x| ≤ |a| / 2 ^ 52 := by
  obtain ⟨k, hk⟩ := exists_multiple hx
  have hmultiple : a * 100 = (k * 100 : ℤ) * 2 ^ (-1074 : ℤ) := by
    rw [hk, Int.cast_mul, Int.cast_ofNat, mul_right_comm]
  have herror := hrounds.abs_sub_le_of_multiple hproduct hmultiple
  have hwritten := (rounds_written hx).abs_sub_le_abs hx hgreat
  have hsplit : product / 100 - written x = -(a * 100 - product) / 100 - (written x - a) := by ring
  have htriangle := abs_sub (-(a * 100 - product) / 100) (written x - a)
  rw [abs_mul, abs_of_pos (by norm_num : (0 : ℚ) < 100)] at herror
  rw [abs_div, abs_neg, abs_of_pos (by norm_num : (0 : ℚ) < 100)] at htriangle
  norm_num only at herror hwritten
  rw [hsplit]
  linarith

/-- What is rounded to a small number is small. -/
theorem Rounds.abs_lt (h : Rounds v x) (hx : value? x = some a) (hsmall : |a| ≤ 1 / 5) :
    |v| < |a| + 1 / 1000 := by
  have hleast : (2 : ℚ) ^ (-1075 : ℤ) ≤ 2 ^ (-20 : ℤ) :=
    zpow_le_zpow_right₀ (by norm_num) (by norm_num)
  have herror := (h.abs_sub_le hx).trans (add_le_add_right hleast _)
  have htriangle := abs_sub_abs_le_abs_sub v a
  norm_num only at herror
  linarith [abs_nonneg v]

theorem hundredths_product_of_small (hx : value? x = some a)
    (hproduct : value? (x * 100) = some product) (hrounds : Rounds (a * 100) (x * 100))
    (hsmall : |a| < 1 / 1000) : hundredths (product / 100) = hundredths (written x) := by
  have hwritten := (rounds_written hx).abs_lt hx (by linarith)
  have hleast : (2 : ℚ) ^ (-1075 : ℤ) ≤ 2 ^ (-20 : ℤ) :=
    zpow_le_zpow_right₀ (by norm_num) (by norm_num)
  have herror := (hrounds.abs_sub_le hproduct).trans (add_le_add_right hleast _)
  have htriangle := abs_sub_abs_le_abs_sub product (a * 100)
  rw [abs_sub_comm product, abs_mul, abs_of_pos (by norm_num : (0 : ℚ) < 100)] at htriangle
  rw [abs_mul, abs_of_pos (by norm_num : (0 : ℚ) < 100)] at herror
  norm_num only at herror
  have hproduct' : |product / 100| < 1 / 200 := by
    rw [abs_div, abs_of_pos (by norm_num : (0 : ℚ) < 100)]
    linarith
  rw [hundredths_eq_zero hproduct', hundredths_eq_zero (by linarith)]

/-- Away from midpoints the hundredths of the product are those of the decimal. -/
theorem hundredths_product (hx : value? x = some a) (hproduct : value? (x * 100) = some product)
    (hrounds : Rounds (a * 100) (x * 100))
    (hfar : ∀ k : ℤ, |a| / 2 ^ 52 < |written x - (2 * k + 1) / 200|) :
    hundredths (product / 100) = hundredths (written x) := by
  rcases lt_or_ge |a| (1 / 1000) with hsmall | hgreat
  · exact hundredths_product_of_small hx hproduct hrounds hsmall
  · by_contra hne
    obtain ⟨k, hk⟩ := exists_midpoint hne
    exact absurd (hk.trans (abs_product_sub_written_le hx hproduct hrounds hgreat))
      (not_le.mpr (hfar k))

/-! ### The range of decimals -/

/-- Below `2 ^ 96` there is a last double. -/
theorem abs_le_of_lt (hx : value? x = some a) (h : |a| < 2 ^ 96) : |a| ≤ 2 ^ 96 - 2 ^ 43 := by
  obtain ⟨d, hd, rfl⟩ := exists_dyadic hx
  by_cases hzero : d.mantissa = 0
  · rw [Dyadic.value_of_mantissa_eq_zero hzero, abs_zero]
    norm_num
  · have hc := Dyadic.canonical_of_ofFloat? hd hzero
    have hpower : Rounded (2 ^ 52) 44 := ⟨by norm_num, by norm_num, by norm_num, .inr le_rfl⟩
    have hbound : ((2 ^ 52 : ℕ) * 2 ^ (44 : ℤ) : ℚ) = 2 ^ 96 := by norm_num
    rw [Dyadic.abs_value] at h ⊢
    have hle := hpower.le_pred hc.toRounded (hbound ▸ h)
    rw [reachBelow, if_pos ⟨rfl, by norm_num⟩] at hle
    refine hle.trans_eq ?_
    norm_num

/-- The last double below `2 ^ 96`. -/
def greatestKept : Float := 79228162514264328797450928128

/-- Every double in the range of decimals has a decimal. -/
theorem exists_decimal (hx : value? x = some a) (h : |a| ≤ 2 ^ 96 - 1) :
    ∃ c, Fixed.ofFloat? x = some c := by
  obtain ⟨hlow, hhigh⟩ := abs_le.mp (abs_le_of_lt hx (h.trans_lt (by norm_num)))
  have hvalue : value? greatestKept = some ((79228162514264328797450928128 : ℤ) : ℚ) :=
    integer?_eq_some_iff.mp (by decide +kernel)
  have hvalue' : value? (-greatestKept) = some ((-79228162514264328797450928128 : ℤ) : ℚ) :=
    integer?_eq_some_iff.mp (by decide +kernel)
  have hkept : written greatestKept = 79228162514264330000000000000 := by
    have hs : Scientific.ofFloat? .away greatestKept = some ⟨false, 7922816251426433, 13⟩ := by
      decide +kernel
    rw [written, hs]
    norm_num [Scientific.value, signed]
  have hkept' : written (-greatestKept) = -79228162514264330000000000000 := by
    have hs : Scientific.ofFloat? .away (-greatestKept) = some ⟨true, 7922816251426433, 13⟩ := by
      decide +kernel
    rw [written, hs]
    norm_num [Scientific.value, signed]
  have hwritten := written_le hx hvalue (by push_cast; linarith)
  have hwritten' := written_le hvalue' hx (by push_cast; linarith)
  rw [hkept] at hwritten
  rw [hkept'] at hwritten'
  rcases Fixed.ofFloat?_cases hx with ⟨-, hgreat⟩ | ⟨s, c, -, hc, -⟩
  · have hless : |written x| < 2 ^ 96 - 1 / 2 := by
      rw [abs_lt]
      constructor <;> linarith
    exact absurd hless (not_lt.mpr hgreat)
  · exact ⟨c, hc⟩

/-! ### Integers -/

/-- The grid of a shortest decimal of an integer is one of integers. -/
theorem shortest_exponent_nonneg (tie : Tie) (hc : Canonical mantissa exponent) {n : ℕ}
    (h : (mantissa * 2 ^ exponent : ℚ) = n) : 0 ≤ (shortest tie mantissa exponent).2 := by
  have hceiling : 0 < decimalCeiling mantissa exponent := by
    have hone : (1 : ℚ) ≤ n := by
      have hpos : (0 : ℚ) < n := h ▸ hc.value_pos
      exact_mod_cast hpos
    have hlt := lt_of_decimalCeiling hc.pos exponent
    rw [h] at hlt
    exact (one_lt_zpow_iff_right₀ (by norm_num : (1 : ℚ) < 10)).mp (hone.trans_lt hlt)
  rw [shortest, if_neg hc.pos.ne']
  rcases le_or_gt (decimalCeiling mantissa exponent) enoughDigits with hfew | hmany
  · -- The number itself lies on the grid of integers.
    obtain ⟨k, hk⟩ := Int.eq_ofNat_of_zero_le hceiling.le
    have hgrid : decimalCeiling mantissa exponent - k = 0 := by omega
    have hhit : (Neighbourhood.of mantissa exponent).onGrid? tie
        (decimalCeiling mantissa exponent - k) ≠ none := by
      rw [hgrid]
      intro hnone
      obtain ⟨below, hle, hlt, hbelow, -⟩ := Neighbourhood.exists_of_onGrid?_eq_none hnone
      rw [Neighbourhood.center_mul, h, zpow_zero, mul_one] at hle hlt
      have hle' : below ≤ n := by exact_mod_cast hle
      have hlt' : n < below + 1 := by exact_mod_cast hlt
      obtain rfl : below = n := by omega
      rw [zpow_zero, mul_one, ← h] at hbelow
      exact hbelow (contains_self hc.pos)
    exact hgrid ▸ le_searchGrids (by omega) hhit
  · have hgrid := le_searchGrids (Nat.lt_succ_self enoughDigits) (onGrid?_enoughDigits tie hc)
    simp only [Nat.succ_eq_add_one] at hgrid
    omega

/-- Integers are written as integers. -/
theorem exists_written_intCast {n : ℤ} (hx : value? x = some (n : ℚ)) :
    ∃ k : ℤ, written x = k := by
  obtain ⟨d, hd, hvalue⟩ := exists_dyadic hx
  obtain ⟨s, hs, hwritten⟩ := exists_ofFloat? hx
  by_cases hzero : d.mantissa = 0
  · rw [← hvalue, Dyadic.value_of_mantissa_eq_zero hzero] at hx
    exact ⟨0, by rw [written_eq_zero hx, Int.cast_zero]⟩
  · have hc := Dyadic.canonical_of_ofFloat? hd hzero
    have hnatAbs : (d.mantissa * 2 ^ d.exponent : ℚ) = n.natAbs := by
      rw [Nat.cast_natAbs, Int.cast_abs, ← hvalue, Dyadic.abs_value]
    have hexponent : 0 ≤ s.exponent := by
      rw [Scientific.ofFloat?, hd, Option.map_some, Option.some.injEq] at hs
      rw [← hs]
      exact shortest_exponent_nonneg .away hc hnatAbs
    obtain ⟨k, hk⟩ := Int.eq_ofNat_of_zero_le hexponent
    have hwhole : (s.digits * 10 ^ s.exponent : ℚ) = (s.digits * 10 ^ k : ℕ) := by
      rw [hk, zpow_natCast]
      push_cast
      rfl
    exact ⟨_, by rw [hwritten, Scientific.value, hwhole, signed_natCast]⟩

/-- The decimal of an integer is rounded to the integer. -/
theorem Fixed.rounds_decimal_of_integer {n : ℤ} (hx : value? x = some (n : ℚ))
    (h : ofFloat? x = some c) : Rounds (written x) c.toHundredths.toFloat := by
  obtain ⟨k, hk⟩ := exists_written_intCast hx
  have hrounds := rounds_decimal h
  rwa [hk, hundredths_intCast, ← hk] at hrounds

end Campus.Number
