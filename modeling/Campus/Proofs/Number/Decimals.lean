import Campus.Proofs.Number.Arithmetic
import Campus.Proofs.Number.Fixed

/-!
# Doubles and decimals

A decimal is read as the double that its number is rounded to (`Scientific.rounds_toFloat`,
`Fixed.rounds_toFloat`). The other way, the shortest decimal of a double is a number that is rounded
to it, with few digits (`Scientific.rounds_of_ofFloat?`), and 28 places of it are kept
(`Fixed.ofFloat?_cases`). Greater doubles have greater decimals (`written_le`).
-/

namespace Campus.Number

open Float.Model (Format UnpackedFloat)
open Float.Model.UnpackedFloat

variable {tie : Tie} {v w a b : ℚ} {x y : Float} {s : Scientific} {c : Fixed}

/-! ### Reading a decimal -/

/-- The number that a decimal denotes. -/
def Scientific.value (s : Scientific) : ℚ := signed s.negative (s.digits * 10 ^ s.exponent)

theorem Scientific.abs_value (s : Scientific) : |s.value| = s.digits * 10 ^ s.exponent := by
  rw [value, abs_signed, abs_of_nonneg (by positivity)]

theorem Scientific.signed_abs_value (s : Scientific) : signed s.negative |s.value| = s.value := by
  rw [abs_value, value]

theorem neg_signOf (negative : Bool) (m : ℕ) (e : ℤ) (hm : 0 < m) :
    (if negative then (UnpackedFloat.finite .positive m e hm).neg else .finite .positive m e hm) =
      .finite (signOf negative) m e hm := by
  cases negative <;> rfl

/-- A decimal that is not out of range is read as the double that it is rounded to. -/
theorem Scientific.rounds_toFloat (hlow : s.value = 0 ∨ 2 ^ (-1075 : ℤ) < |s.value|)
    (hhigh : |s.value| < overflow) : Rounds s.value s.toFloat := by
  rw [abs_value] at hlow hhigh
  rcases hlow with hzero | hlow
  · have hdigits : s.digits = 0 := by
      rw [← abs_eq_zero, abs_value, mul_eq_zero] at hzero
      exact_mod_cast hzero.resolve_right (by positivity)
    have hread : s.toFloat.toModel = .pack (.zero (signOf s.negative)) := by
      rw [toFloat, hdigits, toModel_withSign _ (toModel_ofScientific_zero _ _) rfl]
      cases s.negative <;> rfl
    rw [value]
    refine rounds_of_zero hread (by positivity) ?_
    rw [hdigits, Nat.cast_zero, zero_mul]
    positivity
  · obtain ⟨mantissa, exponent, hr, hv⟩ := exists_rounded hlow
    have hc : Canonical mantissa exponent := by
      refine ⟨hr, ?_⟩
      by_contra hgreat
      exact absurd hhigh (not_lt.mpr (hr.overflow_le (not_le.mp hgreat) hv))
    have hread : s.toFloat.toModel =
        .pack (.finite (signOf s.negative) mantissa exponent hc.pos) := by
      have hmagnitude : (Float.ofScientific s.digits (decide (s.exponent < 0))
          s.exponent.natAbs).toModel = .pack (.finite .positive mantissa exponent hc.pos) := by
        refine toModel_ofScientific hc ?_
        rwa [ite_natAbs]
      rw [toFloat, toModel_withSign _ hmagnitude (hc.unpack_pack _), neg_signOf]
    exact rounds_of_contains hc hv hread

theorem lt_overflow (h : v ≤ 2 ^ 970) : v < overflow := by
  refine h.trans_lt ?_
  have hpos : (0 : ℚ) < 2 ^ 970 := by positivity
  rw [overflow, pow_succ _ 970]
  generalize (2 : ℚ) ^ 970 = unit at hpos
  linarith

/-- Finite doubles are within the range of rounding. -/
theorem abs_lt_overflow (hx : value? x = some a) : |a| < overflow := by
  obtain ⟨d, hd, rfl⟩ := exists_dyadic hx
  by_cases hzero : d.mantissa = 0
  · rw [Dyadic.value_of_mantissa_eq_zero hzero, abs_zero]
    exact lt_overflow (by positivity)
  · have hc := Dyadic.canonical_of_ofFloat? hd hzero
    rw [Dyadic.abs_value]
    have hmantissa : (d.mantissa + 1 : ℚ) ≤ 2 ^ 53 := by exact_mod_cast hc.lt
    have hpower : (2 : ℚ) ^ d.exponent ≤ 2 ^ 971 := by
      rw [← zpow_natCast]
      exact zpow_le_zpow_right₀ (by norm_num) hc.top
    have hunit : (0 : ℚ) < 2 ^ 971 := by positivity
    rw [overflow]
    generalize (2 : ℚ) ^ 971 = unit at hpower hunit ⊢
    calc (d.mantissa * 2 ^ d.exponent : ℚ) ≤ (2 ^ 53 - 1) * unit := by
          gcongr
          linarith
      _ < (2 ^ 53 - 1 / 2) * unit := by
          gcongr
          norm_num

/-- A natural number with a sign is read as the double that it is rounded to. -/
theorem rounds_withSign {n : ℕ} (negative : Bool) (hn : n < 2 ^ 64) :
    Rounds (signed negative n) (withSign negative (Float.ofNat n)) := by
  have hvalue : Scientific.value ⟨negative, n, 0⟩ = signed negative n := by
    rw [Scientific.value, zpow_zero, mul_one]
  have hrounds : Rounds (Scientific.value ⟨negative, n, 0⟩)
      (Scientific.toFloat ⟨negative, n, 0⟩) := by
    refine Scientific.rounds_toFloat ?_ ?_
    · rw [hvalue, or_iff_not_imp_left, abs_signed, Nat.abs_cast]
      intro hne
      have hpos : n ≠ 0 := by
        rintro rfl
        exact hne (by cases negative <;> simp [signed])
      calc (2 : ℚ) ^ (-1075 : ℤ) < 2 ^ (0 : ℤ) := zpow_lt_zpow_right₀ (by norm_num) (by norm_num)
        _ ≤ n := by exact_mod_cast Nat.one_le_iff_ne_zero.mpr hpos
    · rw [hvalue, abs_signed, Nat.abs_cast]
      refine lt_overflow ?_
      calc (n : ℚ) ≤ 2 ^ 64 := by exact_mod_cast hn.le
        _ ≤ 2 ^ 970 := pow_le_pow_right₀ (by norm_num) (by norm_num)
  rwa [hvalue] at hrounds

/-- A decimal of bounded precision is never out of range. -/
theorem Fixed.rounds_toFloat (hc : c.Valid) : Rounds c.value c.toFloat := by
  have hvalue : c.value = Scientific.value ⟨c.negative, c.coefficient, -c.scale⟩ := by
    rw [value, Scientific.value, zpow_neg, zpow_natCast, div_eq_mul_inv]
  rw [hvalue]
  refine Scientific.rounds_toFloat ?_ ?_
  · rw [← hvalue, abs_value, value_eq_zero_iff, or_iff_not_imp_left]
    intro hne
    have hone : (1 : ℚ) ≤ c.coefficient := by exact_mod_cast Nat.one_le_iff_ne_zero.mpr hne
    have hunit : (10 : ℚ) ^ c.scale ≤ 10 ^ 28 := pow_le_pow_right₀ (by norm_num) hc.scale_le
    have hleast : (2 : ℚ) ^ (-1075 : ℤ) ≤ 2 ^ (-100 : ℤ) :=
      zpow_le_zpow_right₀ (by norm_num) (by norm_num)
    calc (2 : ℚ) ^ (-1075 : ℤ) ≤ 2 ^ (-100 : ℤ) := hleast
      _ < 1 / 10 ^ 28 := by norm_num
      _ ≤ c.coefficient / 10 ^ c.scale := by gcongr
  · rw [← hvalue, abs_value]
    refine lt_overflow ?_
    have hcoefficient : (c.coefficient : ℚ) ≤ 2 ^ 96 := by exact_mod_cast hc.coefficient_lt.le
    have hone : (1 : ℚ) ≤ 10 ^ c.scale := one_le_pow₀ (by norm_num)
    exact (div_le_self (Nat.cast_nonneg _) hone).trans
      (hcoefficient.trans (pow_le_pow_right₀ (by norm_num) (by norm_num)))

/-! ### The shortest decimal -/

/-- The shortest decimal of a double is rounded to it. -/
theorem Scientific.rounds_of_ofFloat? (h : ofFloat? tie x = some s) : Rounds s.value x := by
  obtain ⟨d, hd, rfl⟩ := Option.map_eq_some_iff.mp h
  refine ⟨d, _, hd, ?_, rfl⟩
  unfold Dyadic.Attracts
  split
  · next hzero =>
    rw [hzero, shortest, if_pos rfl, Nat.cast_zero, zero_mul]
    exact ⟨le_rfl, by positivity⟩
  · next hne => exact contains_shortest tie (Dyadic.canonical_of_ofFloat? hd hne)

/-- The shortest decimal has at most 18 digits. -/
theorem Scientific.digits_le_of_ofFloat? (h : ofFloat? tie x = some s) :
    s.digits ≤ 2 * 10 ^ 17 := by
  obtain ⟨d, hd, rfl⟩ := Option.map_eq_some_iff.mp h
  by_cases hzero : d.mantissa = 0
  · rw [hzero, shortest, if_pos rfl]
    positivity
  · have hc := Dyadic.canonical_of_ofFloat? hd hzero
    have hunit : (0 : ℚ) < 2 ^ d.exponent := by positivity
    have hgrid : (0 : ℚ) < 10 ^ (shortest tie d.mantissa d.exponent).2 := by positivity
    have hone : (1 : ℚ) ≤ d.mantissa := by exact_mod_cast hc.pos
    have hhigh := (roundsTo_of_contains hc.pos (contains_shortest tie hc)).high
    rw [div_le_iff₀ hunit] at hhigh
    have htwice : (d.mantissa + 1 / 2 : ℚ) * 2 ^ d.exponent ≤
        2 * (d.mantissa * 2 ^ d.exponent) := by
      rw [← mul_assoc]
      gcongr
      linarith
    have hless := shortest_lt tie hc
    rw [zpow_add₀ (by norm_num)] at hless
    have hdigits : ((shortest tie d.mantissa d.exponent).1 : ℚ) ≤ 2 * 10 ^ (17 : ℤ) := by
      refine le_of_mul_le_mul_right (hhigh.trans (htwice.trans ?_)) hgrid
      rw [mul_assoc, mul_comm ((10 : ℚ) ^ (17 : ℤ))]
      gcongr
    exact_mod_cast hdigits

/-! ### Twenty-eight places -/

/-- A number rounded to 28 places, halves away from zero. -/
def toFinest (v : ℚ) : ℚ :=
  signed (decide (v < 0)) (Tie.away.nearest (|v| * 10 ^ 28) / 10 ^ 28)

theorem toFinest_of_natCast {n : ℕ} (h : |v| * 10 ^ 28 = n) : toFinest v = v := by
  rw [toFinest, h, Tie.nearest_natCast, ← h, mul_div_cancel_right₀ _ (by norm_num),
    signed_decide_abs]

theorem Tie.away_nearest_le (hv : 0 ≤ v) (hle : v ≤ w) :
    Tie.away.nearest v ≤ Tie.away.nearest w := by
  have hfloor : round v ≤ round w := by
    rw [round_eq, round_eq]
    exact Int.floor_mono (by linarith)
  rw [← Tie.nearest_away hv, ← Tie.nearest_away (hv.trans hle)] at hfloor
  exact_mod_cast hfloor

theorem toFinest_neg (v : ℚ) : toFinest (-v) = -toFinest v := by
  rcases lt_trichotomy v 0 with h | rfl | h
  · simp [toFinest, signed, h, h.le]
  · simp [toFinest, signed, Tie.nearest]
  · simp [toFinest, signed, h, h.le]

theorem toFinest_signed (negative : Bool) (h : 0 ≤ v) : toFinest (signed negative v) =
    signed negative (Tie.away.nearest (v * 10 ^ 28) / 10 ^ 28) := by
  have hpositive : toFinest v = Tie.away.nearest (v * 10 ^ 28) / 10 ^ 28 := by
    rw [toFinest, decide_eq_false (not_lt.mpr h), abs_of_nonneg h]
    rfl
  cases negative with
  | false => exact hpositive
  | true => exact (toFinest_neg v).trans (congrArg Neg.neg hpositive)

theorem toFinest_nonneg (h : 0 ≤ v) : 0 ≤ toFinest v := by
  rw [toFinest, decide_eq_false (not_lt.mpr h), signed, if_neg Bool.false_ne_true]
  positivity

theorem abs_toFinest_le (v : ℚ) : |toFinest v| ≤ |v| + 1 := by
  have hnonneg : 0 ≤ |v| * 10 ^ 28 := by positivity
  have hnear := (abs_le.mp (Tie.away.abs_nearest_sub_le hnonneg)).2
  rw [toFinest, abs_signed, abs_of_nonneg (by positivity), div_le_iff₀ (by norm_num), add_mul]
  generalize |v| * 10 ^ 28 = scaled at hnear ⊢
  linarith

theorem toFinest_le (h : v ≤ w) : toFinest v ≤ toFinest w := by
  have hpositive : ∀ {v w : ℚ}, 0 ≤ v → v ≤ w → toFinest v ≤ toFinest w := by
    intro v w hv hle
    rw [toFinest, toFinest, decide_eq_false (not_lt.mpr hv),
      decide_eq_false (not_lt.mpr (hv.trans hle)), abs_of_nonneg hv, abs_of_nonneg (hv.trans hle)]
    simp only [signed, Bool.false_eq_true, if_false]
    have hscaled : v * 10 ^ 28 ≤ w * 10 ^ 28 := by gcongr
    have hnearest := Tie.away_nearest_le (by positivity) hscaled
    gcongr
  rcases le_total 0 v with hv | hv
  · exact hpositive hv h
  · rcases le_total 0 w with hw | hw
    · have hnegative := toFinest_nonneg (neg_nonneg.mpr hv)
      rw [toFinest_neg] at hnegative
      linarith [toFinest_nonneg hw]
    · have hnegative := hpositive (neg_nonneg.mpr hw) (neg_le_neg h)
      rw [toFinest_neg, toFinest_neg] at hnegative
      linarith

namespace Fixed

/-- `c` is what is kept of the decimal `s`. -/
structure Keeps (s : Scientific) (c : Fixed) : Prop where
  valid : c.Valid
  value_eq : c.value = toFinest s.value
  scale_le : c.scale ≤ (-s.exponent).toNat
  digits_le : c.scale = 0 ∨ c.coefficient ≤ s.digits

theorem abs_value_mul (s : Scientific) : |s.value| * (Nat.pow 10 (-s.exponent).toNat : ℕ) =
    (s.digits * Nat.pow 10 s.exponent.toNat : ℕ) := by
  rw [Scientific.abs_value]
  rcases le_total 0 s.exponent with he | he
  · obtain ⟨k, hk⟩ := Int.eq_ofNat_of_zero_le he
    simp [hk]
  · obtain ⟨k, hk⟩ := Int.eq_ofNat_of_zero_le (neg_nonneg.mpr he)
    rw [neg_eq_iff_eq_neg] at hk
    simp [hk]

/-- Rounding to 28 places changes nothing where there are not more. -/
theorem nearest_div_min {n p : ℕ} (hv : v * 10 ^ p = n) :
    (Tie.away.nearest (v * 10 ^ min finestScale p) / 10 ^ min finestScale p : ℚ) =
      Tie.away.nearest (v * 10 ^ 28) / 10 ^ 28 := by
  rcases le_total finestScale p with hmany | hfew
  · rw [min_eq_left hmany]
    rfl
  · have hfinest : v * 10 ^ 28 = (n * 10 ^ (28 - p) : ℕ) := by
      have hsplit : (10 : ℚ) ^ 28 = 10 ^ p * 10 ^ (28 - p) := by
        rw [← pow_add, Nat.add_sub_cancel' (show p ≤ 28 from hfew)]
      rw [hsplit, ← mul_assoc, hv]
      push_cast
      rfl
    have hvalue : ∀ {k m : ℕ}, v * 10 ^ k = m →
        (Tie.away.nearest (v * 10 ^ k) / 10 ^ k : ℚ) = v := by
      intro k m hm
      rw [hm, Tie.nearest_natCast, ← hm, mul_div_cancel_right₀ _ (by positivity)]
    rw [min_eq_right hfew, hvalue hv, hvalue hfinest]

/-- A decimal whose digits fit is kept, unless it has too many zeros at its end. -/
theorem ofScientific?_cases (hdigits : s.digits < coefficientBound) :
    ofScientific? s = none ∧ 2 ^ 96 - 1 / 2 ≤ |s.value| ∨
      ∃ c, ofScientific? s = some c ∧ Keeps s c := by
  have hden := ten_pow_pos (-s.exponent).toNat
  have hunit : ((Nat.pow 10 (-s.exponent).toNat : ℕ) : ℚ) ≠ 0 := by exact_mod_cast hden.ne'
  have hwhole := abs_value_mul s
  unfold ofScientific?
  dsimp only
  generalize hnum : s.digits * Nat.pow 10 s.exponent.toNat = num at hwhole
  generalize hplaces : min finestScale (-s.exponent).toNat = places
  have hcoefficient : roundDiv .away (num * Nat.pow 10 places)
      (Nat.pow 10 (-s.exponent).toNat) = Tie.away.nearest (|s.value| * 10 ^ places) := by
    rw [roundDiv_eq_nearest .away _ hden, Nat.cast_mul, ← hwhole, mul_right_comm,
      mul_div_cancel_right₀ _ hunit, Nat.pow_eq, Nat.cast_pow, Nat.cast_ofNat]
  have hkept : (Tie.away.nearest (|s.value| * 10 ^ places) / 10 ^ places : ℚ) =
      Tie.away.nearest (|s.value| * 10 ^ 28) / 10 ^ 28 := by
    rw [← hplaces]
    exact nearest_div_min (by rw [← hwhole, Nat.pow_eq, Nat.cast_pow, Nat.cast_ofNat])
  -- Only a number without places has more digits than it is given with.
  have hfew : places = 0 ∨ Tie.away.nearest (|s.value| * 10 ^ places) ≤ s.digits := by
    rcases le_or_gt 0 s.exponent with he | he
    · exact .inl (by omega)
    · right
      refine Tie.away.nearest_le (by positivity) ?_
      rw [Int.toNat_of_nonpos he.le, Nat.pow_eq, pow_zero, mul_one] at hnum
      rw [hnum, ← hwhole, Nat.pow_eq, Nat.cast_pow, Nat.cast_ofNat]
      gcongr
      · norm_num
      · omega
  by_cases hfits : Tie.away.nearest (|s.value| * 10 ^ places) < coefficientBound
  · right
    have hsome : nearest? .away s.negative num (Nat.pow 10 (-s.exponent).toNat) places =
        some ⟨s.negative && Tie.away.nearest (|s.value| * 10 ^ places) ≠ 0,
          Tie.away.nearest (|s.value| * 10 ^ places), places⟩ := by
      unfold nearest?
      rw [hcoefficient, if_pos hfits]
    have hvalue : toFinest s.value =
        signed s.negative (Tie.away.nearest (|s.value| * 10 ^ 28) / 10 ^ 28) := by
      rw [← toFinest_signed _ (abs_nonneg _), s.signed_abs_value]
    refine ⟨_, hsome, ⟨hfits, ?_⟩, ?_, ?_, hfew⟩
    · exact hplaces ▸ min_le_left _ _
    · exact (value_eq rfl).trans ((congrArg (signed s.negative) hkept).trans hvalue.symm)
    · exact hplaces ▸ min_le_right _ _
  · left
    obtain rfl := hfew.resolve_right fun h => hfits (h.trans_lt hdigits)
    rw [nearest?, hcoefficient, if_neg hfits]
    rw [pow_zero, mul_one, not_lt] at hfits
    have hfull : (2 ^ 96 : ℚ) ≤ Tie.away.nearest |s.value| := by exact_mod_cast hfits
    refine ⟨rfl, ?_⟩
    linarith [(abs_le.mp (Tie.away.abs_nearest_sub_le (abs_nonneg s.value))).2]

end Fixed

/-! ### The decimal of a double -/

/-- The number that a finite double is written as: that of its shortest decimal. -/
def written (x : Float) : ℚ := ((Scientific.ofFloat? .away x).map Scientific.value).getD 0

theorem exists_ofFloat? (hx : value? x = some a) :
    ∃ s, Scientific.ofFloat? .away x = some s ∧ written x = s.value := by
  obtain ⟨d, hd, -⟩ := exists_dyadic hx
  have hs : Scientific.ofFloat? .away x = some _ := congrArg (Option.map _) hd
  refine ⟨_, hs, ?_⟩
  rw [written, hs]
  rfl

theorem rounds_written (hx : value? x = some a) : Rounds (written x) x := by
  obtain ⟨s, hs, hvalue⟩ := exists_ofFloat? hx
  rw [hvalue]
  exact Scientific.rounds_of_ofFloat? hs

/-- What is rounded to a lesser double is less. -/
theorem Rounds.le_of_lt (hv : Rounds v x) (hw : Rounds w y) (hx : value? x = some a)
    (hy : value? y = some b) (hlt : a < b) : v ≤ w := by
  -- The halfway point between the two doubles lies between the two numbers.
  have hleft := sq_le_sq.mpr (hv.abs_sub_le_abs_sub hx hy)
  have hright := sq_le_sq.mpr (hw.abs_sub_le_abs_sub hy hx)
  refine le_of_mul_le_mul_right ?_ (sub_pos.mpr hlt)
  linarith

theorem written_eq_zero (hx : value? x = some 0) : written x = 0 := by
  obtain ⟨d, hd, hvalue⟩ := exists_dyadic hx
  obtain ⟨s, hs, hwritten⟩ := exists_ofFloat? hx
  have hzero : d.mantissa = 0 := by
    by_contra hne
    exact Dyadic.value_ne_zero (Dyadic.canonical_of_ofFloat? hd hne).toRounded hvalue
  rw [Scientific.ofFloat?, hd, Option.map_some, Option.some.injEq, hzero] at hs
  rw [hwritten, ← abs_eq_zero, Scientific.abs_value, ← hs]
  simp [shortest]

/-- Greater doubles are written as greater decimals. -/
theorem written_le (hx : value? x = some a) (hy : value? y = some b) (hle : a ≤ b) :
    written x ≤ written y := by
  rcases hle.lt_or_eq with hlt | rfl
  · exact (rounds_written hx).le_of_lt (rounds_written hy) hx hy hlt
  · by_cases hzero : a = 0
    · rw [hzero] at hx hy
      rw [written_eq_zero hx, written_eq_zero hy]
    · rw [eq_of_value hzero hx hy]

/-- The decimal of a double is kept, unless the double is too great. -/
theorem Fixed.ofFloat?_cases (hx : value? x = some a) :
    ofFloat? x = none ∧ 2 ^ 96 - 1 / 2 ≤ |written x| ∨
      ∃ s c, Scientific.ofFloat? .away x = some s ∧ ofFloat? x = some c ∧ Keeps s c := by
  obtain ⟨s, hs, hvalue⟩ := exists_ofFloat? hx
  have hdigits : s.digits < coefficientBound :=
    (Scientific.digits_le_of_ofFloat? hs).trans_lt (by decide)
  rw [ofFloat?, hs, Option.bind_some, hvalue]
  rcases ofScientific?_cases hdigits with hnone | ⟨c, hc, hkeeps⟩
  · exact .inl hnone
  · exact .inr ⟨s, c, rfl, hc, hkeeps⟩

theorem Fixed.keeps_of_ofFloat? (h : ofFloat? x = some c) :
    ∃ s, Scientific.ofFloat? .away x = some s ∧ Keeps s c := by
  obtain ⟨s, hs, hc⟩ := Option.bind_eq_some_iff.mp h
  have hdigits : s.digits < coefficientBound :=
    (Scientific.digits_le_of_ofFloat? hs).trans_lt (by decide)
  rcases ofScientific?_cases hdigits with ⟨hnone, -⟩ | ⟨c', hc', hkeeps⟩
  · rw [hnone] at hc
    cases hc
  · obtain rfl := Option.some.inj (hc.symm.trans hc')
    exact ⟨s, hs, hkeeps⟩

end Campus.Number
