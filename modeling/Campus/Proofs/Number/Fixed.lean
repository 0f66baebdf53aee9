import Campus.Number.Fixed
import Campus.Proofs.Number.Integers

/-!
# Calculating with decimals

A decimal denotes a number (`Fixed.value`). A sum is the exact one as long as that fits the
coefficient at the finer of the two scales (`Fixed.exists_add?`); else it is wrong by at most one
part in `10 ^ 28` (`Fixed.valid_of_add?`). A quotient is rounded to the finest scale that fits
(`Fixed.div?_cases`).
-/

namespace Campus.Number

/-! ### Rounding to integers -/

/-- The integer nearest to a number that is not negative. -/
def Tie.nearest (tie : Tie) (v : ℚ) : ℕ :=
  if v - ⌊v⌋₊ < 1 / 2 then ⌊v⌋₊
  else if 1 / 2 < v - ⌊v⌋₊ then ⌊v⌋₊ + 1
  else match tie with
    | .even => ⌊v⌋₊ + ⌊v⌋₊ % 2
    | .away => ⌊v⌋₊ + 1

variable {tie : Tie} {num den : ℕ} {v w : ℚ}

theorem roundDiv_eq_nearest (tie : Tie) (num : ℕ) (hden : 0 < den) :
    roundDiv tie num den = tie.nearest (num / den) := by
  have hden' : (0 : ℚ) < den := by exact_mod_cast hden
  have hfloor : ⌊(num / den : ℚ)⌋₊ = num / den := Nat.floor_div_eq_div num den
  have hrest : (num / den : ℚ) - (num / den : ℕ) = (num % den : ℕ) / den := by
    rw [eq_div_iff hden'.ne', sub_mul, div_mul_cancel₀ _ hden'.ne', sub_eq_iff_eq_add]
    exact_mod_cast (Nat.mod_add_div' num den).symm
  have hless : ((num % den : ℕ) / den : ℚ) < 1 / 2 ↔ 2 * (num % den) < den := by
    rw [div_lt_iff₀ hden', one_div, ← div_eq_inv_mul, lt_div_iff₀' (by norm_num)]
    exact_mod_cast Iff.rfl
  have hmore : 1 / 2 < ((num % den : ℕ) / den : ℚ) ↔ den < 2 * (num % den) := by
    rw [lt_div_iff₀ hden', one_div, ← div_eq_inv_mul, div_lt_iff₀' (by norm_num)]
    exact_mod_cast Iff.rfl
  cases tie <;> simp only [roundDiv, Tie.nearest, hfloor, hrest, hless, hmore]

theorem Tie.nearest_natCast (tie : Tie) (n : ℕ) : tie.nearest n = n := by
  simp [Tie.nearest]

theorem Tie.abs_nearest_sub_le (tie : Tie) (hv : 0 ≤ v) : |tie.nearest v - v| ≤ 1 / 2 := by
  have hlow := Nat.floor_le hv
  have hhigh := Nat.lt_floor_add_one v
  rw [abs_le]
  unfold Tie.nearest
  split
  · constructor <;> linarith
  · split
    · push_cast
      constructor <;> linarith
    · cases tie with
      | away =>
          push_cast
          constructor <;> linarith
      | even =>
          have hmod : ((⌊v⌋₊ % 2 : ℕ) : ℚ) ≤ 1 := by
            exact_mod_cast (show ⌊v⌋₊ % 2 ≤ 1 by omega)
          have hmod' : (0 : ℚ) ≤ (⌊v⌋₊ % 2 : ℕ) := Nat.cast_nonneg _
          push_cast at hmod hmod' ⊢
          constructor <;> linarith

/-- Rounding stays between integers. -/
theorem Tie.nearest_le (tie : Tie) (hv : 0 ≤ v) {n : ℕ} (hle : v ≤ n) : tie.nearest v ≤ n := by
  have hnear := (abs_le.mp (tie.abs_nearest_sub_le hv)).2
  have hlt : (tie.nearest v : ℚ) < n + 1 := by linarith
  exact Nat.lt_succ_iff.mp (by exact_mod_cast hlt)

theorem Tie.le_nearest (tie : Tie) (hv : 0 ≤ v) {n : ℕ} (hle : n ≤ v) : n ≤ tie.nearest v := by
  have hnear := (abs_le.mp (tie.abs_nearest_sub_le hv)).1
  have hlt : (n : ℚ) < tie.nearest v + 1 := by linarith
  exact Nat.lt_succ_iff.mp (by exact_mod_cast hlt)

/-- More than a half goes up. -/
theorem Tie.nearest_natCast_add (tie : Tie) {n : ℕ} (hlow : 1 / 2 < v) (hhigh : v ≤ 1) :
    tie.nearest (n + v) = n + 1 := by
  have hnonneg : 0 ≤ n + v := add_nonneg (Nat.cast_nonneg n) (by linarith)
  obtain ⟨hbelow, habove⟩ := abs_le.mp (tie.abs_nearest_sub_le hnonneg)
  have hlt : (n : ℚ) < tie.nearest (n + v) := by linarith
  have hlt' : (tie.nearest (n + v) : ℚ) < (n + 2 : ℕ) := by
    push_cast
    linarith
  rw [Nat.cast_lt] at hlt hlt'
  omega

/-- Halves go up. -/
theorem Tie.nearest_away (hv : 0 ≤ v) : (Tie.away.nearest v : ℤ) = round v := by
  have hlow := Nat.floor_le hv
  have hhigh := Nat.lt_floor_add_one v
  rw [round_eq, eq_comm, Int.floor_eq_iff]
  unfold Tie.nearest
  split
  · constructor <;> push_cast <;> linarith
  · split <;> constructor <;> push_cast <;> linarith

theorem signed_div (negative : Bool) (v w : ℚ) :
    signed negative v / w = signed negative (v / w) := by
  cases negative with
  | false => rfl
  | true => exact neg_div _ _

theorem signed_decide_abs (v : ℚ) : signed (decide (v < 0)) |v| = v := by
  rcases lt_or_ge v 0 with h | h
  · rw [decide_eq_true h, signed, if_pos rfl, abs_of_neg h, neg_neg]
  · rw [decide_eq_false (not_lt.mpr h), signed, if_neg Bool.false_ne_true, abs_of_nonneg h]

/-- A number rounded to two places, halves away from zero. -/
def hundredths (v : ℚ) : ℚ := signed (decide (v < 0)) (round (100 * |v|) / 100)

theorem hundredths_signed (negative : Bool) (hv : 0 ≤ v) :
    hundredths (signed negative v) = signed negative (round (100 * v) / 100) := by
  rcases hv.lt_or_eq with hpos | rfl
  · cases negative with
    | false => simp [hundredths, signed, abs_of_pos hpos, hpos.le]
    | true => simp [hundredths, signed, abs_of_pos hpos, hpos]
  · cases negative <;> simp [hundredths, signed]

theorem ten_pow_pos (scale : ℕ) : 0 < Nat.pow 10 scale := Nat.pow_pos (by decide)

/-! ### The finest scale that fits -/

namespace Fixed

variable {negative : Bool} {scale count : ℕ} {a b c : Fixed}

/-- The number that a decimal denotes. -/
def value (a : Fixed) : ℚ := signed a.negative (a.coefficient / 10 ^ a.scale)

/-- What is represented: 96 bits and 28 places. -/
structure Valid (a : Fixed) : Prop where
  coefficient_lt : a.coefficient < coefficientBound
  scale_le : a.scale ≤ finestScale

/-- The decimal without sign at the finest scale, from `scale` downwards, at which `v` fits. -/
structure IsFinest (tie : Tie) (v : ℚ) (scale : ℕ) (c : Fixed) : Prop where
  scale_le : c.scale ≤ scale
  coefficient_eq : c.coefficient = tie.nearest (v * 10 ^ c.scale)
  coefficient_lt : c.coefficient < coefficientBound
  finest : ∀ j, c.scale < j → j ≤ scale → coefficientBound ≤ tie.nearest (v * 10 ^ j)

theorem isFinest_of_nearest? (hden : 0 < den)
    (h : nearest? tie negative num den scale = some c) :
    IsFinest tie (num / den) scale c ∧ c.negative = (negative && c.coefficient ≠ 0) := by
  have hnearest : ∀ k, roundDiv tie (num * Nat.pow 10 k) den =
      tie.nearest (num / den * 10 ^ k) := by
    intro k
    rw [roundDiv_eq_nearest tie _ hden, Nat.pow_eq, Nat.cast_mul, Nat.cast_pow, Nat.cast_ofNat,
      mul_div_right_comm]
  induction scale with
  | zero =>
      simp only [nearest?, hnearest] at h
      split at h
      · next hfits =>
        obtain rfl := Option.some.inj h
        exact ⟨⟨le_rfl, rfl, hfits, fun j hj hle => absurd hj (not_lt.mpr hle)⟩, rfl⟩
      · cases h
  | succ scale ih =>
      simp only [nearest?, hnearest] at h
      split at h
      · next hfits =>
        obtain rfl := Option.some.inj h
        exact ⟨⟨le_rfl, rfl, hfits, fun j hj hle => absurd hj (not_lt.mpr hle)⟩, rfl⟩
      · next htoo =>
        obtain ⟨⟨hle, hcoefficient, hlt, hfinest⟩, hsign⟩ := ih h
        refine ⟨⟨by omega, hcoefficient, hlt, fun j hj hjle => ?_⟩, hsign⟩
        rcases hjle.lt_or_eq with hjlt | rfl
        · exact hfinest j hj (by omega)
        · exact not_lt.mp htoo

/-- What fits without places has a decimal. -/
theorem isSome_nearest? (negative : Bool) (scale : ℕ) (hden : 0 < den)
    (hfits : tie.nearest (num / den) < coefficientBound) :
    (nearest? tie negative num den scale).isSome = true := by
  induction scale with
  | zero =>
      rw [nearest?, Nat.pow_eq, pow_zero, mul_one, roundDiv_eq_nearest tie _ hden, if_pos hfits]
      rfl
  | succ scale ih =>
      rw [nearest?]
      split
      · rfl
      · exact ih

theorem nearest?_congr {num' den' : ℕ} (hden : 0 < den) (hden' : 0 < den')
    (h : (num / den : ℚ) = num' / den') :
    nearest? tie negative num den scale = nearest? tie negative num' den' scale := by
  have hnearest : ∀ k, roundDiv tie (num * Nat.pow 10 k) den =
      roundDiv tie (num' * Nat.pow 10 k) den' := by
    intro k
    rw [roundDiv_eq_nearest tie _ hden, roundDiv_eq_nearest tie _ hden', Nat.cast_mul,
      Nat.cast_mul, mul_div_right_comm, h, mul_div_right_comm]
  induction scale with
  | zero => rw [nearest?, nearest?, hnearest]
  | succ scale ih => rw [nearest?, nearest?, hnearest, ih]

theorem value_eq (hsign : c.negative = (negative && c.coefficient ≠ 0)) :
    c.value = signed negative (c.coefficient / 10 ^ c.scale) := by
  rw [value, hsign]
  by_cases hzero : c.coefficient = 0
  · rw [hzero, Nat.cast_zero, zero_div]
    cases negative <;> simp [signed]
  · simp [hzero]

theorem IsFinest.abs_sub_le (h : IsFinest tie v scale c) (hv : 0 ≤ v) :
    |c.coefficient / 10 ^ c.scale - v| ≤ 1 / 2 / 10 ^ c.scale := by
  have hunit : (0 : ℚ) < 10 ^ c.scale := by positivity
  have hle := tie.abs_nearest_sub_le (mul_nonneg hv hunit.le)
  rw [← h.coefficient_eq] at hle
  rw [le_div_iff₀ hunit, ← abs_of_pos hunit, ← abs_mul, abs_of_pos hunit, sub_mul,
    div_mul_cancel₀ _ hunit.ne']
  exact hle

/-- One part in `10 ^ 28`: what is lost when a number does not fit at the scale that it should
have. -/
def precision : ℚ := 1 / 10 ^ 28

theorem precision_nonneg : 0 ≤ precision := by norm_num [precision]

theorem precision_le_one : precision ≤ 1 := by norm_num [precision]

/-- A number that does not fit at the next finer scale has enough digits at this one. -/
theorem IsFinest.le_precision (h : IsFinest tie v scale c) (hv : 0 ≤ v) (hlt : c.scale < scale) :
    1 / 2 / 10 ^ c.scale ≤ v * precision := by
  have hunit : (0 : ℚ) < 10 ^ c.scale := by positivity
  have hfull := h.finest (c.scale + 1) (by omega) hlt
  have hnonneg : 0 ≤ v * 10 ^ (c.scale + 1) := by positivity
  have hnear := (abs_le.mp (tie.abs_nearest_sub_le hnonneg)).2
  have hfull' : (2 ^ 96 : ℚ) ≤ tie.nearest (v * 10 ^ (c.scale + 1)) := by exact_mod_cast hfull
  generalize tie.nearest (v * 10 ^ (c.scale + 1)) = n at hnear hfull'
  rw [pow_succ] at hnear
  rw [precision, div_le_iff₀ hunit]
  linarith

/-- A whole coefficient is not rounded. -/
theorem IsFinest.eq_of_natCast (h : IsFinest tie v scale c) {n : ℕ} (hn : v * 10 ^ c.scale = n) :
    (c.coefficient / 10 ^ c.scale : ℚ) = v := by
  have hunit : (0 : ℚ) < 10 ^ c.scale := by positivity
  rw [h.coefficient_eq, hn, Tie.nearest_natCast, ← hn, mul_div_cancel_right₀ _ hunit.ne']

/-! ### Sums -/

theorem abs_value (a : Fixed) : |a.value| = a.coefficient / 10 ^ a.scale := by
  rw [value, abs_signed, abs_of_nonneg (by positivity)]

theorem abs_value_mul_pow (a : Fixed) : |a.value| * 10 ^ a.scale = a.coefficient := by
  rw [abs_value, div_mul_cancel₀ _ (by positivity)]

theorem exists_intCast (a : Fixed) : ∃ m : ℤ, a.value * 10 ^ a.scale = m := by
  refine ⟨if a.negative then -a.coefficient else a.coefficient, ?_⟩
  rw [← signed_natCast, ← abs_value_mul_pow, abs_value, value]
  cases a.negative with
  | false => rfl
  | true => exact neg_mul _ _

theorem value_eq_zero_iff : a.value = 0 ↔ a.coefficient = 0 := by
  have hunit : (10 : ℚ) ^ a.scale ≠ 0 := by positivity
  rw [← abs_eq_zero, abs_value, div_eq_zero_iff, or_iff_left hunit, Nat.cast_eq_zero]

theorem value_zero : zero.value = 0 := value_eq_zero_iff.mpr rfl

theorem valid_zero : zero.Valid := ⟨by decide, by decide⟩

/-- Only of zero the number does not tell the sign. -/
theorem negative_eq (hne : a.coefficient ≠ 0) : a.negative = decide (a.value < 0) := by
  have hpos : (0 : ℚ) < a.coefficient := by exact_mod_cast Nat.pos_of_ne_zero hne
  have hsign : a.value < 0 ↔ a.negative = true :=
    signed_lt_zero_iff (div_pos hpos (by positivity))
  rw [Bool.eq_iff_iff, decide_eq_true_iff, hsign]

theorem aligned_div (h : a.scale ≤ scale) : (a.aligned scale / 10 ^ scale : ℚ) = a.value := by
  have hsplit : (10 : ℚ) ^ scale = 10 ^ (scale - a.scale) * 10 ^ a.scale := by
    rw [← pow_add, Nat.sub_add_cancel h]
  have hpos : (0 : ℚ) < 10 ^ (scale - a.scale) := by positivity
  have hmagnitude : ((a.coefficient * Nat.pow 10 (scale - a.scale) : ℕ) / 10 ^ scale : ℚ) =
      a.coefficient / 10 ^ a.scale := by
    rw [hsplit, Nat.pow_eq]
    push_cast
    rw [mul_comm (a.coefficient : ℚ), mul_div_mul_left _ _ hpos.ne']
  have haligned : (a.aligned scale : ℚ) =
      signed a.negative (a.coefficient * Nat.pow 10 (scale - a.scale) : ℕ) :=
    (signed_natCast _ _).symm
  rw [haligned, signed_div, hmagnitude, value]

/-- What adding can do: one of the two is zero, or the sum takes the finest scale that fits. -/
theorem add?_cases (a b : Fixed) :
    a.coefficient = 0 ∧ a.add? b = some b ∨ b.coefficient = 0 ∧ a.add? b = some a ∨
      a.coefficient ≠ 0 ∧ b.coefficient ≠ 0 ∧
        ∃ n : ℕ, (n / (Nat.pow 10 (max a.scale b.scale) : ℕ) : ℚ) = |a.value + b.value| ∧
          a.add? b = nearest? .even (decide (a.value + b.value < 0)) n
            (Nat.pow 10 (max a.scale b.scale)) (max a.scale b.scale) := by
  unfold add?
  by_cases ha : a.coefficient = 0
  · exact .inl ⟨ha, if_pos ha⟩
  · by_cases hb : b.coefficient = 0
    · exact .inr (.inl ⟨hb, by rw [if_neg ha, if_pos hb]⟩)
    · right
      right
      have hunit : (0 : ℚ) < 10 ^ max a.scale b.scale := by positivity
      have hsum : a.value + b.value =
          (a.aligned (max a.scale b.scale) + b.aligned (max a.scale b.scale) : ℤ) /
            10 ^ max a.scale b.scale := by
        rw [Int.cast_add, add_div, aligned_div (le_max_left _ _), aligned_div (le_max_right _ _)]
      refine ⟨ha, hb, (a.aligned (max a.scale b.scale) + b.aligned (max a.scale b.scale)).natAbs,
        ?_, ?_⟩
      · rw [hsum, abs_div, abs_of_pos hunit, Nat.cast_natAbs, Int.cast_abs, Nat.pow_eq,
          Nat.cast_pow, Nat.cast_ofNat]
      · have hsign : a.value + b.value < 0 ↔
            a.aligned (max a.scale b.scale) + b.aligned (max a.scale b.scale) < 0 := by
          rw [hsum, div_lt_iff₀ hunit, zero_mul, Int.cast_lt_zero]
        rw [if_neg ha, if_neg hb, decide_eq_decide.mpr hsign]

theorem IsFinest.valid (h : IsFinest tie v scale c) (hscale : scale ≤ finestScale) : c.Valid :=
  ⟨h.coefficient_lt, h.scale_le.trans hscale⟩

theorem abs_value_sub (hsign : c.negative = (decide (v < 0) && c.coefficient ≠ 0)) :
    |c.value - v| = |(c.coefficient / 10 ^ c.scale - |v| : ℚ)| := by
  have hsigned : c.value - v = signed (decide (v < 0)) (c.coefficient / 10 ^ c.scale - |v|) := by
    nth_rewrite 1 [← signed_decide_abs v]
    rw [value_eq hsign]
    cases decide (v < 0) with
    | false => rfl
    | true => exact (neg_sub_neg _ _).trans (neg_sub _ _).symm
  rw [hsigned, abs_signed]

/-- What a sum can be: exact, or of a coarser scale and wrong by at most the precision. -/
theorem valid_of_add? (h : a.add? b = some c) (ha : a.Valid) (hb : b.Valid) :
    c.Valid ∧ c.scale ≤ max a.scale b.scale ∧ (c.value = a.value + b.value ∨
      c.scale < max a.scale b.scale ∧
        |c.value - (a.value + b.value)| ≤ |a.value + b.value| * precision) := by
  rcases add?_cases a b with ⟨hzero, hadd⟩ | ⟨hzero, hadd⟩ | ⟨-, -, n, hn, hadd⟩
  · obtain rfl := Option.some.inj (hadd.symm.trans h)
    rw [value_eq_zero_iff.mpr hzero, zero_add]
    exact ⟨hb, le_max_right _ _, .inl rfl⟩
  · obtain rfl := Option.some.inj (hadd.symm.trans h)
    rw [value_eq_zero_iff.mpr hzero, add_zero]
    exact ⟨ha, le_max_left _ _, .inl rfl⟩
  · rw [hadd] at h
    obtain ⟨hfinest, hsign⟩ := isFinest_of_nearest? (ten_pow_pos _) h
    rw [hn] at hfinest
    refine ⟨hfinest.valid (max_le ha.scale_le hb.scale_le), hfinest.scale_le, ?_⟩
    rcases hfinest.scale_le.lt_or_eq with hlt | heq
    · refine .inr ⟨hlt, ?_⟩
      rw [abs_value_sub hsign]
      exact (hfinest.abs_sub_le (abs_nonneg _)).trans (hfinest.le_precision (abs_nonneg _) hlt)
    · left
      have hwhole : |a.value + b.value| * 10 ^ c.scale = n := by
        rw [← hn, heq, Nat.pow_eq, Nat.cast_pow, Nat.cast_ofNat,
          div_mul_cancel₀ _ (by positivity)]
      rw [← sub_eq_zero, ← abs_eq_zero, abs_value_sub hsign, hfinest.eq_of_natCast hwhole,
        sub_self, abs_zero]

/-- A sum that fits at a scale that is fine enough for both terms is exact. -/
theorem exists_add? (ha : a.Valid) (hb : b.Valid) (hascale : a.scale ≤ scale)
    (hbscale : b.scale ≤ scale) (hfits : |a.value + b.value| * 10 ^ scale < 2 ^ 96) :
    ∃ c, a.add? b = some c ∧ c.Valid ∧ c.scale ≤ scale ∧ c.value = a.value + b.value := by
  have hmax := max_le hascale hbscale
  rcases add?_cases a b with ⟨hzero, hadd⟩ | ⟨hzero, hadd⟩ | ⟨-, -, n, hn, hadd⟩
  · refine ⟨b, hadd, hb, hbscale, ?_⟩
    rw [value_eq_zero_iff.mpr hzero, zero_add]
  · refine ⟨a, hadd, ha, hascale, ?_⟩
    rw [value_eq_zero_iff.mpr hzero, add_zero]
  · have hunit := ten_pow_pos (max a.scale b.scale)
    have hwhole : (n : ℚ) = |a.value + b.value| * 10 ^ max a.scale b.scale := by
      rw [← hn, Nat.pow_eq, Nat.cast_pow, Nat.cast_ofNat, div_mul_cancel₀ _ (by positivity)]
    have hlt : n < coefficientBound := by
      have hle : |a.value + b.value| * 10 ^ max a.scale b.scale ≤
          |a.value + b.value| * 10 ^ scale := by
        gcongr
        norm_num
      rw [← hwhole] at hle
      exact_mod_cast hle.trans_lt hfits
    have hexact : roundDiv .even (n * Nat.pow 10 (max a.scale b.scale))
        (Nat.pow 10 (max a.scale b.scale)) = n := by
      rw [roundDiv_eq_nearest .even _ hunit, Nat.cast_mul,
        mul_div_cancel_right₀ _ (by exact_mod_cast hunit.ne'), Tie.nearest_natCast]
    have hsome : nearest? .even (decide (a.value + b.value < 0)) n
        (Nat.pow 10 (max a.scale b.scale)) (max a.scale b.scale) =
          some ⟨decide (a.value + b.value < 0) && n ≠ 0, n, max a.scale b.scale⟩ := by
      unfold nearest?
      rw [hexact, if_pos hlt]
    rw [hsome] at hadd
    refine ⟨_, hadd, ⟨hlt, max_le ha.scale_le hb.scale_le⟩, hmax, ?_⟩
    rw [value_eq rfl, hwhole, mul_div_cancel_right₀ _ (by positivity), signed_decide_abs]

/-- Only a sum that needs more than 96 bits without places has no decimal. -/
theorem le_of_add?_eq_none (h : a.add? b = none) : 2 ^ 96 - 1 / 2 ≤ |a.value + b.value| := by
  rcases add?_cases a b with ⟨-, hadd⟩ | ⟨-, hadd⟩ | ⟨-, -, n, hn, hadd⟩
  · rw [hadd] at h
    cases h
  · rw [hadd] at h
    cases h
  · have hfull : coefficientBound ≤ Tie.even.nearest |a.value + b.value| := by
      rw [← hn]
      by_contra hfits
      have hsome := isSome_nearest? (decide (a.value + b.value < 0)) (max a.scale b.scale)
        (ten_pow_pos _) (not_le.mp hfits)
      rw [← hadd, h] at hsome
      cases hsome
    have hfull' : (2 ^ 96 : ℚ) ≤ Tie.even.nearest |a.value + b.value| := by exact_mod_cast hfull
    linarith [(abs_le.mp (Tie.even.abs_nearest_sub_le (abs_nonneg (a.value + b.value)))).2]

/-! ### Quotients -/

/-- What dividing by a count can do: zero stays zero, and another number takes the finest scale that
fits. -/
theorem div?_cases (ha : a.Valid) (hcount : 0 < count) :
    a.value = 0 ∧ a.div? count = some zero ∨
      a.value ≠ 0 ∧ ∃ c, a.div? count = some c ∧
        IsFinest .even (|a.value| / count) finestScale c ∧
          c.negative = (decide (a.value < 0) && c.coefficient ≠ 0) := by
  unfold div?
  by_cases hzero : a.coefficient = 0
  · exact .inl ⟨value_eq_zero_iff.mpr hzero, if_pos hzero⟩
  · have hden := Nat.mul_pos (ten_pow_pos a.scale) hcount
    have hquotient : (a.coefficient / (Nat.pow 10 a.scale * count : ℕ) : ℚ) =
        |a.value| / count := by
      rw [abs_value, div_div, Nat.pow_eq]
      push_cast
      rfl
    have hfits : Tie.even.nearest (a.coefficient / (Nat.pow 10 a.scale * count : ℕ)) <
        coefficientBound := by
      refine lt_of_le_of_lt (Tie.even.nearest_le ?_ ?_) ha.coefficient_lt
      · positivity
      · exact div_le_self (Nat.cast_nonneg _) (by exact_mod_cast hden)
    obtain ⟨c, hc⟩ := Option.isSome_iff_exists.mp
      (isSome_nearest? a.negative finestScale hden hfits)
    obtain ⟨hfinest, hsign⟩ := isFinest_of_nearest? hden hc
    rw [hquotient] at hfinest
    rw [negative_eq hzero] at hsign
    exact .inr ⟨value_eq_zero_iff.not.mpr hzero, c, by rw [if_neg hzero, hc], hfinest, hsign⟩

theorem exists_div? (ha : a.Valid) (hcount : 0 < count) : ∃ c, a.div? count = some c := by
  rcases div?_cases ha hcount with ⟨-, hdiv⟩ | ⟨-, c, hdiv, -⟩
  · exact ⟨_, hdiv⟩
  · exact ⟨c, hdiv⟩

/-- A quotient depends on the number only, not on the scale at which it is given. -/
theorem div?_congr (h : a.value = b.value) (hcount : 0 < count) :
    a.div? count = b.div? count := by
  unfold div?
  by_cases ha : a.coefficient = 0
  · rw [if_pos ha, if_pos (value_eq_zero_iff.mp (h ▸ value_eq_zero_iff.mpr ha))]
  · have hb : b.coefficient ≠ 0 :=
      fun hb => ha (value_eq_zero_iff.mp (h ▸ value_eq_zero_iff.mpr hb))
    have hmagnitude : (a.coefficient / 10 ^ a.scale : ℚ) = b.coefficient / 10 ^ b.scale := by
      rw [← abs_value, ← abs_value, h]
    rw [if_neg ha, if_neg hb, negative_eq ha, negative_eq hb, h]
    refine nearest?_congr (Nat.mul_pos (ten_pow_pos _) hcount)
      (Nat.mul_pos (ten_pow_pos _) hcount) ?_
    rw [Nat.cast_mul, Nat.cast_mul, ← div_div, ← div_div, Nat.pow_eq, Nat.pow_eq, Nat.cast_pow,
      Nat.cast_pow, Nat.cast_ofNat, hmagnitude]

/-! ### Two places -/

theorem value_toHundredths (a : Fixed) : a.toHundredths.value = hundredths a.value := by
  unfold toHundredths
  split
  · next h =>
    rcases h with hzero | hscale
    · rw [value_eq_zero_iff.mpr hzero]
      simp [hundredths, signed]
    · have hwhole : 100 * |a.value| = (a.coefficient * 10 ^ (2 - a.scale) : ℕ) := by
        have hsplit : (100 : ℚ) = 10 ^ (2 - a.scale) * 10 ^ a.scale := by
          rw [← pow_add, Nat.sub_add_cancel hscale]
          norm_num
        rw [abs_value, hsplit]
        push_cast
        field_simp
      have hround : (round (100 * |a.value|) : ℚ) = 100 * |a.value| := by
        rw [hwhole, round_natCast, Int.cast_natCast]
      rw [hundredths, hround, mul_div_cancel_left₀ _ (by norm_num), signed_decide_abs]
  · next h =>
    rw [not_or, not_le] at h
    have hunit := ten_pow_pos (a.scale - 2)
    have hquotient : (a.coefficient / (Nat.pow 10 (a.scale - 2) : ℕ) : ℚ) = 100 * |a.value| := by
      have hsplit : (10 : ℚ) ^ a.scale = 10 ^ (a.scale - 2) * 100 := by
        rw [show (100 : ℚ) = 10 ^ 2 by norm_num, ← pow_add, Nat.sub_add_cancel h.2.le]
      rw [abs_value, hsplit, Nat.pow_eq]
      push_cast
      field_simp
    have hround : ((Tie.away.nearest (100 * |a.value|) : ℕ) : ℚ) = round (100 * |a.value|) := by
      rw [← Tie.nearest_away (by positivity), Int.cast_natCast]
    dsimp only
    rw [value_eq rfl]
    dsimp only
    rw [roundDiv_eq_nearest .away _ hunit, hquotient, hround, hundredths, negative_eq h.1]
    norm_num

theorem valid_toHundredths (ha : a.Valid) : a.toHundredths.Valid := by
  unfold toHundredths
  split
  · exact ha
  · refine ⟨lt_of_le_of_lt ?_ ha.coefficient_lt, show 2 ≤ 28 by decide⟩
    dsimp only
    rw [roundDiv_eq_nearest .away _ (ten_pow_pos _)]
    refine Tie.away.nearest_le (by positivity) (div_le_self (Nat.cast_nonneg _) ?_)
    exact_mod_cast ten_pow_pos _

end Fixed

end Campus.Number
