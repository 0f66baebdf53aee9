import Campus.Proofs.Grouping.Accumulation

/-!
# The mean in decimals

The mean is a rounded quotient of a rounded total (`IsMean`, `exists_mean`). Before it is rounded to
hundredths it exceeds the greatest term by little, in proportion to that (`IsMean.le_add`). The
terms have few digits, so with up to ten million of them the mean does not reach the next thousandth
(`IsMean.lt_thousandth`), and to hundredths it is as near to the terms as rounding allows
(`IsMean.hundredths_le`). What holds of the greatest term holds of the least one by negation
(`IsMean.neg`, `IsMean.le_hundredths`).
-/

namespace Campus

open Number

variable {terms : List ℚ} {part v q total greatest least : ℚ}

/-! ### Terms and quotients -/

/-- What the decimal of a double can be: it has at most 28 places, and unless it is whole at most 18
digits. -/
def IsShort (v : ℚ) : Prop :=
  ∃ scale ≤ 28, (∃ m : ℤ, v * 10 ^ scale = m) ∧ (scale = 0 ∨ |v| * 10 ^ scale ≤ 2 * 10 ^ 17)

/-- `q` is `v` rounded to a multiple of a unit: of the finest one, or of one that is small against
`v`. -/
def IsQuotient (v q : ℚ) : Prop :=
  ∃ scale ≤ 28, (∃ m : ℤ, q * 10 ^ scale = m) ∧ |q - v| ≤ 1 / 2 / 10 ^ scale ∧
    (scale = 28 ∨ 1 / 2 / 10 ^ scale ≤ |v| * Fixed.precision)

/-- `q` is what is computed for the mean of the terms, before it is rounded to hundredths. Great
terms are whole, and whole numbers are added exactly. -/
structure IsMean (terms : List ℚ) (q : ℚ) : Prop where
  short : ∀ v ∈ terms, IsShort v
  quotient : ∃ total, Accumulates (WithinPart Fixed.precision) 0 terms total ∧
    ((∀ v ∈ terms, 2 * 10 ^ 16 < |v|) → total = terms.sum) ∧ IsQuotient (total / terms.length) q

theorem IsShort.neg (h : IsShort v) : IsShort (-v) := by
  obtain ⟨scale, hscale, ⟨m, hm⟩, hdigits⟩ := h
  refine ⟨scale, hscale, ⟨-m, ?_⟩, ?_⟩
  · rw [neg_mul, hm, Int.cast_neg]
  · rwa [abs_neg]

theorem IsShort.exists_finest (h : IsShort v) : ∃ m : ℤ, v * 10 ^ 28 = m := by
  obtain ⟨scale, hscale, ⟨m, hm⟩, -⟩ := h
  refine ⟨m * 10 ^ (28 - scale), ?_⟩
  rw [Int.cast_mul, ← hm, mul_assoc, Int.cast_pow, Int.cast_ofNat, ← pow_add,
    Nat.add_sub_cancel' hscale]

/-- How far below a thousandth a short number is: by one part of its digits, or by another
thousandth, if it has no more than two places. -/
theorem IsShort.gap (h : IsShort v) {z : ℤ} (hz : v < z / 1000) :
    |v| ≤ 2 * 10 ^ 17 * (z / 1000 - v) ∨
      1 / 1000 ≤ z / 1000 - v ∧ (|v| ≤ 2 * 10 ^ 16 ∨ ∃ m : ℤ, v = m) := by
  obtain ⟨scale, -, ⟨m, hm⟩, hdigits⟩ := h
  rcases le_or_gt 3 scale with hfine | hcoarse
  · left
    have hunit : (0 : ℚ) < 10 ^ scale := by positivity
    have hwhole : (z / 1000 : ℚ) * 10 ^ scale = (z * 10 ^ (scale - 3) : ℤ) := by
      have hsplit : (10 : ℚ) ^ scale = 1000 * 10 ^ (scale - 3) := by
        rw [show (1000 : ℚ) = 10 ^ 3 by norm_num, ← pow_add, Nat.add_sub_cancel' hfine]
      rw [hsplit]
      push_cast
      ring
    have hlt := mul_lt_mul_of_pos_right hz hunit
    rw [hm, hwhole, Int.cast_lt] at hlt
    have hone : (m + 1 : ℚ) ≤ (z * 10 ^ (scale - 3) : ℤ) := by exact_mod_cast hlt
    rw [← hm, ← hwhole] at hone
    refine le_of_mul_le_mul_right ((hdigits.resolve_left (by omega)).trans ?_) hunit
    linarith
  · right
    have hwhole : v * 1000 = (m * 10 ^ (3 - scale) : ℤ) := by
      have hsplit : (1000 : ℚ) = 10 ^ scale * 10 ^ (3 - scale) := by
        rw [← pow_add, Nat.add_sub_cancel' hcoarse.le]
        norm_num
      rw [hsplit, ← mul_assoc, hm]
      push_cast
      rfl
    have hone : v * 1000 + 1 ≤ z := by
      rw [lt_div_iff₀ (by norm_num), hwhole, Int.cast_lt] at hz
      rw [hwhole]
      exact_mod_cast hz
    refine ⟨by linarith, ?_⟩
    rcases hdigits with rfl | hdigits
    · exact .inr ⟨m, by rwa [pow_zero, mul_one] at hm⟩
    · by_cases hzero : scale = 0
      · rw [hzero, pow_zero, mul_one] at hm
        exact .inr ⟨m, hm⟩
      · have hten : (10 : ℚ) ^ 1 ≤ 10 ^ scale := pow_le_pow_right₀ (by norm_num) (by omega)
        have hle : |v| * 10 ^ 1 ≤ |v| * 10 ^ scale := by gcongr
        exact .inl (by linarith)

theorem IsQuotient.neg (h : IsQuotient v q) : IsQuotient (-v) (-q) := by
  obtain ⟨scale, hscale, ⟨m, hm⟩, herror, hunit⟩ := h
  refine ⟨scale, hscale, ⟨-m, ?_⟩, ?_, ?_⟩
  · rw [neg_mul, hm, Int.cast_neg]
  · rwa [neg_sub_neg, abs_sub_comm]
  · rwa [abs_neg]

/-- A quotient stays below an integer. -/
theorem IsQuotient.le_intCast (h : IsQuotient v q) {n : ℤ} (hle : v ≤ n) : q ≤ n := by
  obtain ⟨scale, -, ⟨m, hm⟩, herror, -⟩ := h
  have hunit : (0 : ℚ) < 10 ^ scale := by positivity
  have hhigh := (le_div_iff₀ hunit).mp (abs_le.mp herror).2
  have hlt : (m : ℚ) < (n * 10 ^ scale : ℤ) + 1 := by
    have hscaled : v * 10 ^ scale ≤ n * 10 ^ scale := by gcongr
    rw [sub_mul, hm] at hhigh
    push_cast
    linarith
  have hle' : (m : ℚ) ≤ (n * 10 ^ scale : ℤ) := by
    exact_mod_cast Int.lt_add_one_iff.mp (by exact_mod_cast hlt)
  rw [← hm] at hle'
  push_cast at hle'
  exact le_of_mul_le_mul_right hle' hunit

/-- A quotient exceeds a short number by little more than what is divided does. -/
theorem IsQuotient.le_add (h : IsQuotient v q) (hshort : IsShort greatest) (hpart : 0 ≤ part)
    (hv : v ≤ greatest + part * |greatest|) :
    q ≤ greatest + 2 * ((1 + Fixed.precision) * (1 + part) - 1) * |greatest| := by
  have hprecision := Fixed.precision_nonneg
  have hmore : 0 ≤ part * |greatest| := by positivity
  have hmore' : 0 ≤ Fixed.precision * |greatest| := by positivity
  have hmore'' : 0 ≤ Fixed.precision * part * |greatest| := by positivity
  have hsplit : 2 * ((1 + Fixed.precision) * (1 + part) - 1) * |greatest| =
      2 * (part * |greatest|) + 2 * (Fixed.precision * |greatest|) +
        2 * (Fixed.precision * part * |greatest|) := by ring
  obtain ⟨scale, -, ⟨m, hm⟩, herror, hunit⟩ := h
  have hhigh := (abs_le.mp herror).2
  rw [hsplit]
  rcases hunit with rfl | hunit
  · -- At the finest scale either the number is not exceeded, or by one unit at least, of which half
    -- has been there before rounding.
    obtain ⟨n, hn⟩ := hshort.exists_finest
    rcases le_or_gt m n with hle | hgt
    · have hle' : q * 10 ^ 28 ≤ greatest * 10 ^ 28 := by
        rw [hm, hn]
        exact_mod_cast hle
      linarith
    · have hgt' : greatest * 10 ^ 28 + 1 ≤ q * 10 ^ 28 := by
        rw [hm, hn]
        exact_mod_cast hgt
      linarith
  · rcases le_or_gt 0 v with hsign | hsign
    · rw [abs_of_nonneg hsign] at hunit
      have hle : v * Fixed.precision ≤ (greatest + part * |greatest|) * Fixed.precision := by gcongr
      have habs : greatest * Fixed.precision ≤ |greatest| * Fixed.precision := by
        gcongr
        exact le_abs_self _
      linarith
    · rw [abs_of_neg hsign] at hunit
      rcases le_or_gt 0 greatest with hpositive | hnegative
      · have hle : -v * Fixed.precision ≤ -v * 1 := by
          gcongr
          · linarith
          · exact Fixed.precision_le_one
        linarith
      · have hle : v * (1 - Fixed.precision) ≤
            (greatest + part * |greatest|) * (1 - Fixed.precision) := by
          gcongr
          exact sub_nonneg.mpr Fixed.precision_le_one
        rw [abs_of_neg hnegative] at *
        linarith

/-! ### The total against the greatest term -/

theorem sum_le (hmax : ∀ v ∈ terms, v ≤ greatest) : terms.sum ≤ terms.length * greatest := by
  rw [← nsmul_eq_mul]
  exact List.sum_le_card_nsmul _ _ hmax

theorem two_le_pow_add_pow (hpart : 0 ≤ part) (hone : part ≤ 1) (n : ℕ) :
    2 ≤ (1 + part) ^ n + (1 - part) ^ n := by
  have hgrow := one_add_mul_le_pow (show -2 ≤ part by linarith) n
  have hshrink := one_add_mul_le_pow (show -2 ≤ -part by linarith) n
  rw [← sub_eq_add_neg] at hshrink
  linarith

/-- The total exceeds that of as many greatest terms by little. -/
theorem Accumulates.le_greatest (h : Accumulates (WithinPart part) 0 terms total)
    (hpart : 0 ≤ part) (hone : part ≤ 1) (hmax : ∀ v ∈ terms, v ≤ greatest) :
    total ≤ terms.length * (greatest + ((1 + part) ^ terms.length - 1) * |greatest|) := by
  have hweighted := h.le_weighted hpart hone le_rfl le_rfl (sub_zero (0 : ℚ)).ge
  rw [zero_add, zero_add] at hweighted
  have hgrow : (0 : ℚ) ≤ (1 + part) ^ terms.length := by positivity
  have hshrink : 0 ≤ (1 - part) ^ terms.length := pow_nonneg (sub_nonneg.mpr hone) _
  refine hweighted.trans ?_
  rcases le_or_gt 0 greatest with hsign | hsign
  · have hpositives := positives_le hsign hmax
    have hnegatives : 0 ≤ negatives terms := positives_nonneg _
    rw [abs_of_nonneg hsign]
    calc (1 + part) ^ terms.length * positives terms - (1 - part) ^ terms.length * negatives terms
        ≤ (1 + part) ^ terms.length * (terms.length * greatest) - 0 :=
          sub_le_sub (mul_le_mul_of_nonneg_left hpositives hgrow) (mul_nonneg hshrink hnegatives)
      _ = terms.length * (greatest + ((1 + part) ^ terms.length - 1) * greatest) := by ring
  · have hpositives : positives terms = 0 := by
      refine le_antisymm ?_ (positives_nonneg _)
      simpa using positives_le le_rfl fun v hv => (hmax v hv).trans hsign.le
    have hnegatives : terms.length * -greatest ≤ negatives terms := by
      have hsum := positives_sub_negatives terms
      linarith [sum_le hmax]
    have htwo : terms.length * -greatest * 2 ≤ terms.length * -greatest *
        ((1 + part) ^ terms.length + (1 - part) ^ terms.length) :=
      mul_le_mul_of_nonneg_left (two_le_pow_add_pow hpart hone _)
        (mul_nonneg (Nat.cast_nonneg _) (neg_nonneg.mpr hsign.le))
    have hweight := mul_le_mul_of_nonneg_left hnegatives hshrink
    rw [hpositives, mul_zero, abs_of_neg hsign]
    linarith

theorem Accumulates.neg_of_zero (h : Accumulates (WithinPart part) 0 terms total) :
    Accumulates (WithinPart part) 0 (terms.map (-·)) (-total) := by
  have hneg := h.neg
  rwa [neg_zero] at hneg

theorem Accumulates.abs_le_mul {bound : ℚ} (h : Accumulates (WithinPart part) 0 terms total)
    (hpart : 0 ≤ part) (hone : part ≤ 1) (hnonneg : 0 ≤ bound) (hbound : ∀ v ∈ terms, |v| ≤ bound) :
    |total| ≤ terms.length * ((1 + part) ^ terms.length * bound) := by
  have hup := h.le_greatest hpart hone fun v hv => (le_abs_self v).trans (hbound v hv)
  have hdown := h.neg_of_zero.le_greatest hpart hone fun v hv => by
    obtain ⟨w, hw, rfl⟩ := List.mem_map.mp hv
    exact (neg_le_abs w).trans (hbound w hw)
  rw [List.length_map] at hdown
  rw [abs_of_nonneg hnonneg] at hup hdown
  exact abs_le'.mpr ⟨by linarith, by linarith⟩

/-- A power of a number near to one. -/
theorem one_add_pow_le (hpart : 0 ≤ part) {n : ℕ} (hfew : n * part ≤ 1 / 2) :
    (1 + part) ^ n ≤ 1 + 2 * (n * part) := by
  rcases Nat.eq_zero_or_pos n with rfl | hpos
  · simp
  have hone : part ≤ 1 := by
    have hle : 1 * part ≤ n * part := by
      gcongr
      exact_mod_cast hpos
    linarith
  have hshrink := one_add_mul_le_pow (show -2 ≤ -part by linarith) n
  have hproduct : (1 + part) ^ n * (1 + -part) ^ n ≤ 1 := by
    rw [← mul_pow]
    refine pow_le_one₀ (mul_nonneg (by linarith) (by linarith)) ?_
    linarith [mul_nonneg hpart hpart]
  have hgrow : 0 ≤ (1 + part) ^ n := by positivity
  have hbound := (mul_le_mul_of_nonneg_left hshrink hgrow).trans hproduct
  generalize (1 + part) ^ n = power at hgrow hbound ⊢
  have htwice : power * (n * part) ≤ power * (1 / 2) := by gcongr
  have hwhole : power * (n * part) ≤ 2 * (n * part) := by
    have hnonneg : 0 ≤ (n * part : ℚ) := by positivity
    have hle : power ≤ 2 := by linarith
    gcongr
  linarith

/-- Where the greatest term is great and great terms are added exactly, the total does not exceed
that of as many greatest terms. -/
theorem Accumulates.le_great
    (h : Accumulates (WithinPart Fixed.precision) 0 terms total)
    (hexact : (∀ v ∈ terms, 2 * 10 ^ 16 < |v|) → total = terms.sum)
    (hmax : ∀ v ∈ terms, v ≤ greatest) (hfew : terms.length ≤ 10 ^ 7)
    (hgreat : 2 * 10 ^ 17 ≤ |greatest|) :
    total ≤ terms.length * greatest := by
  by_cases hall : ∀ v ∈ terms, 2 * 10 ^ 16 < |v|
  · rw [hexact hall]
    exact sum_le hmax
  · push Not at hall
    obtain ⟨v, hv, hsmall⟩ := hall
    obtain ⟨hlow, hhigh⟩ := abs_le.mp hsmall
    have hpositive : 2 * 10 ^ 17 ≤ greatest := by
      rcases le_abs.mp hgreat with hle | hle
      · exact hle
      · linarith [hmax v hv]
    -- One term leaves out more than all the rounding can bring back.
    have hpositives : positives terms ≤ (terms.length - 9 / 10) * greatest := by
      have hfirst : max 0 v ≤ 2 * 10 ^ 16 := max_le (by norm_num) hhigh
      linarith [positives_le_of_mem (by linarith) hmax hv]
    have hcount : (1 : ℚ) ≤ terms.length := by exact_mod_cast List.length_pos_of_mem hv
    have hcount' : (terms.length : ℚ) ≤ 10 ^ 7 := by exact_mod_cast hfew
    have hprecision := Fixed.precision_nonneg
    have hsmallPart : terms.length * Fixed.precision ≤ 1 / 10 ^ 21 := by
      rw [Fixed.precision]
      linarith
    have hpower := one_add_pow_le hprecision (hsmallPart.trans (by norm_num))
    have hweighted := h.le_weighted hprecision Fixed.precision_le_one le_rfl
      le_rfl (sub_zero (0 : ℚ)).ge
    rw [zero_add, zero_add] at hweighted
    have hnegatives : 0 ≤ (1 - Fixed.precision) ^ terms.length * negatives terms :=
      mul_nonneg (pow_nonneg (sub_nonneg.mpr Fixed.precision_le_one) _) (positives_nonneg _)
    calc total ≤ (1 + Fixed.precision) ^ terms.length * positives terms := by linarith
      _ ≤ (1 + 2 * (1 / 10 ^ 21)) * ((terms.length - 9 / 10) * greatest) := by
          gcongr
          · exact positives_nonneg _
          · linarith
      _ ≤ terms.length * greatest := by
          rw [← mul_assoc]
          gcongr
          linarith

/-! ### The mean against the greatest term -/

theorem sum_map_neg (terms : List ℚ) : (terms.map (-·)).sum = -terms.sum := by
  induction terms with
  | nil => simp
  | cons v terms ih => rw [List.map_cons, List.sum_cons, List.sum_cons, ih, neg_add]

theorem IsMean.neg (h : IsMean terms q) : IsMean (terms.map (-·)) (-q) := by
  obtain ⟨total, haccumulates, hexact, hquotient⟩ := h.quotient
  refine ⟨fun v hv => ?_, -total, haccumulates.neg_of_zero, fun hgreat => ?_, ?_⟩
  · obtain ⟨w, hw, rfl⟩ := List.mem_map.mp hv
    exact (h.short w hw).neg
  · rw [sum_map_neg, hexact fun v hv => ?_]
    rw [← abs_neg]
    exact hgreat _ (List.mem_map_of_mem hv)
  · rw [List.length_map, neg_div]
    exact hquotient.neg

variable (h : IsMean terms q) (hmem : greatest ∈ terms) (hmax : ∀ v ∈ terms, v ≤ greatest)
include h hmem hmax

/-- The mean exceeds the greatest term by little. -/
theorem IsMean.le_add :
    q ≤ greatest + 2 * ((1 + Fixed.precision) ^ (terms.length + 1) - 1) * |greatest| := by
  obtain ⟨total, haccumulates, -, hquotient⟩ := h.quotient
  have hcount : (0 : ℚ) < terms.length := by exact_mod_cast List.length_pos_of_mem hmem
  have hprecision := Fixed.precision_nonneg
  have htotal := haccumulates.le_greatest hprecision Fixed.precision_le_one hmax
  rw [← div_le_iff₀' hcount] at htotal
  have hgrow : (1 : ℚ) ≤ (1 + Fixed.precision) ^ terms.length := one_le_pow₀ (by linarith)
  have hle := hquotient.le_add (h.short _ hmem) (by linarith) htotal
  rwa [add_sub_cancel, mul_comm (1 + Fixed.precision), ← pow_succ] at hle

/-- Of up to ten million terms the mean exceeds the greatest one only after the twentieth digit. -/
theorem IsMean.le_add_of_few (hfew : terms.length ≤ 10 ^ 7) :
    q ≤ greatest + |greatest| / (2 * 10 ^ 20) := by
  have hle := h.le_add hmem hmax
  have hcount : ((terms.length + 1 : ℕ) : ℚ) ≤ 10 ^ 7 + 1 := by
    exact_mod_cast Nat.succ_le_succ hfew
  have hsmallPart : (terms.length + 1 : ℕ) * Fixed.precision ≤ 1 / (8 * 10 ^ 20) := by
    rw [Fixed.precision]
    linarith
  have hpower := one_add_pow_le Fixed.precision_nonneg (hsmallPart.trans (by norm_num))
  have hdrift : 2 * ((1 + Fixed.precision) ^ (terms.length + 1) - 1) * |greatest| ≤
      1 / (2 * 10 ^ 20) * |greatest| := by
    gcongr
    linarith
  linarith

/-- Between the greatest term and the mean there is no thousandth. -/
theorem IsMean.lt_thousandth (hfew : terms.length ≤ 10 ^ 7) {z : ℤ} (hz : greatest < z / 1000) :
    q < z / 1000 := by
  by_contra hreached
  rw [not_lt] at hreached
  have hgap := h.le_add_of_few hmem hmax hfew
  rcases (h.short _ hmem).gap hz with hfar | ⟨hthousandth, hcases⟩
  · linarith [abs_nonneg greatest]
  · have hgreat : 2 * 10 ^ 17 ≤ |greatest| := by linarith
    obtain ⟨m, hm⟩ := hcases.resolve_left (by linarith)
    obtain ⟨total, haccumulates, hexact, hquotient⟩ := h.quotient
    have hcount : (0 : ℚ) < terms.length := by exact_mod_cast List.length_pos_of_mem hmem
    have hle : total / terms.length ≤ (m : ℚ) := by
      rw [div_le_iff₀' hcount, ← hm]
      exact haccumulates.le_great hexact hmax hfew hgreat
    have hq := hquotient.le_intCast hle
    rw [← hm] at hq
    linarith

omit h hmem hmax

/-! ### Rounded to hundredths -/

/-- What means of more than ten million numbers may lie beyond their bounds. -/
def drift (count : ℕ) (v : ℚ) : ℚ :=
  if count ≤ 10 ^ 7 then 0 else 2 * ((1 + Fixed.precision) ^ (count + 1) - 1) * |v|

theorem drift_neg (count : ℕ) (v : ℚ) : drift count (-v) = drift count v := by
  rw [drift, drift, abs_neg]

/-- To hundredths the mean exceeds the greatest term by half a hundredth at most. -/
theorem IsMean.hundredths_le (h : IsMean terms q) (hmem : greatest ∈ terms)
    (hmax : ∀ v ∈ terms, v ≤ greatest) :
    hundredths q ≤ greatest + 1 / 200 + drift terms.length greatest := by
  have hnear := (abs_le.mp (abs_hundredths_sub_le q)).2
  unfold drift
  split
  · next hfew =>
    obtain ⟨k, hk⟩ := exists_hundredths q
    by_contra hgreat
    have hz : greatest < (10 * k - 5 : ℤ) / 1000 := by
      push_cast
      linarith
    have hq := h.lt_thousandth hmem hmax hfew hz
    push_cast at hq
    linarith
  · have hle := h.le_add hmem hmax
    linarith

/-- To hundredths the mean is below the least term by half a hundredth at most. -/
theorem IsMean.le_hundredths (h : IsMean terms q) (hmem : least ∈ terms)
    (hmin : ∀ v ∈ terms, least ≤ v) :
    least - 1 / 200 - drift terms.length least ≤ hundredths q := by
  have hmin' : ∀ v ∈ terms.map (-·), v ≤ -least := by
    intro v hv
    obtain ⟨w, hw, rfl⟩ := List.mem_map.mp hv
    exact neg_le_neg (hmin w hw)
  have hle := h.neg.hundredths_le (List.mem_map_of_mem hmem) hmin'
  rw [List.length_map, drift_neg, hundredths_neg] at hle
  linarith

/-! ### What is computed -/

variable {numbers : List Float} {decimals : List Fixed} {sum mean a b c start : Fixed} {x : Float}
  {count : ℕ}

theorem isShort_of_ofFloat? (h : Fixed.ofFloat? x = some c) : IsShort c.value := by
  obtain ⟨s, hs, hkeeps⟩ := Fixed.keeps_of_ofFloat? h
  refine ⟨c.scale, hkeeps.valid.scale_le, c.exists_intCast,
    hkeeps.digits_le.imp_right fun hdigits => ?_⟩
  rw [Fixed.abs_value_mul_pow]
  exact_mod_cast hdigits.trans (Scientific.digits_le_of_ofFloat? hs)

/-- The decimal of a double that is great has no places. -/
theorem scale_eq_zero_of_great (h : Fixed.ofFloat? x = some c) (hgreat : 2 * 10 ^ 16 < |c.value|) :
    c.scale = 0 := by
  obtain ⟨s, hs, hkeeps⟩ := Fixed.keeps_of_ofFloat? h
  by_contra hne
  have hdigits : (c.coefficient : ℚ) ≤ 2 * 10 ^ 17 := by
    exact_mod_cast (hkeeps.digits_le.resolve_left hne).trans (Scientific.digits_le_of_ofFloat? hs)
  have hten : (10 : ℚ) ^ 1 ≤ 10 ^ c.scale := pow_le_pow_right₀ (by norm_num) (by omega)
  have hle : |c.value| * 10 ^ 1 ≤ |c.value| * 10 ^ c.scale := by gcongr
  rw [Fixed.abs_value_mul_pow] at hle
  linarith

theorem withinPart_of_add? (h : a.add? b = some c) (ha : a.Valid) (hb : b.Valid) :
    WithinPart Fixed.precision a.value b.value c.value := by
  obtain ⟨-, -, hexact | ⟨-, herror⟩⟩ := Fixed.valid_of_add? h ha hb
  · rw [WithinPart, hexact, sub_self, abs_zero]
    exact mul_nonneg (abs_nonneg _) Fixed.precision_nonneg
  · exact herror

theorem accumulates_of_foldlM (hstart : start.Valid) (hvalid : ∀ c ∈ decimals, c.Valid)
    (h : decimals.foldlM Fixed.add? start = some sum) :
    sum.Valid ∧ Accumulates (WithinPart Fixed.precision) start.value (decimals.map Fixed.value)
      sum.value := by
  induction decimals generalizing start with
  | nil =>
      obtain rfl := Option.some.inj h
      exact ⟨hstart, .nil _⟩
  | cons c decimals ih =>
      rw [List.forall_mem_cons] at hvalid
      rw [List.foldlM_cons, Option.bind_eq_bind, Option.bind_eq_some_iff] at h
      obtain ⟨next, hnext, hrest⟩ := h
      obtain ⟨hsum, haccumulates⟩ :=
        ih (Fixed.valid_of_add? hnext hstart hvalid.1).1 hvalid.2 hrest
      exact ⟨hsum, .cons (withinPart_of_add? hnext hstart hvalid.1) haccumulates⟩

/-- Decimals without places are added exactly. -/
theorem value_eq_of_foldlM (hstart : start.Valid) (hvalid : ∀ c ∈ decimals, c.Valid)
    (hscale : start.scale = 0) (hwhole : ∀ c ∈ decimals, c.scale = 0)
    (h : decimals.foldlM Fixed.add? start = some sum) :
    sum.value = start.value + (decimals.map Fixed.value).sum := by
  induction decimals generalizing start with
  | nil =>
      obtain rfl := Option.some.inj h
      simp
  | cons c decimals ih =>
      rw [List.forall_mem_cons] at hvalid hwhole
      rw [List.foldlM_cons, Option.bind_eq_bind, Option.bind_eq_some_iff] at h
      obtain ⟨next, hnext, hrest⟩ := h
      obtain ⟨hnextValid, hnextScale, hcases⟩ := Fixed.valid_of_add? hnext hstart hvalid.1
      rw [hscale, hwhole.1, max_self] at hnextScale hcases
      have hexact := hcases.resolve_right fun hless => absurd hless.1 (Nat.not_lt_zero _)
      rw [ih hnextValid hvalid.2 (Nat.le_zero.mp hnextScale) hwhole.2 hrest, hexact, List.map_cons,
        List.sum_cons, add_assoc]

theorem isQuotient_of_div? (hvalid : sum.Valid) (hcount : 0 < count)
    (h : sum.div? count = some mean) : mean.Valid ∧ IsQuotient (sum.value / count) mean.value := by
  rcases Fixed.div?_cases hvalid hcount with ⟨hzero, hdiv⟩ | ⟨-, c, hdiv, hfinest, hsign⟩
  · obtain rfl := Option.some.inj (hdiv.symm.trans h)
    refine ⟨Fixed.valid_zero, 28, le_rfl, ⟨0, ?_⟩, ?_, .inl rfl⟩
    · rw [Fixed.value_zero, zero_mul, Int.cast_zero]
    · rw [Fixed.value_zero, hzero, zero_div, sub_self, abs_zero]
      positivity
  · obtain rfl := Option.some.inj (hdiv.symm.trans h)
    have hcount' : (0 : ℚ) < count := by exact_mod_cast hcount
    have hnegative : decide (sum.value / count < 0) = decide (sum.value < 0) := by
      rw [decide_eq_decide, div_lt_iff₀ hcount', zero_mul]
    have hmagnitude : |sum.value / count| = |sum.value| / count := by
      rw [abs_div, abs_of_pos hcount']
    rw [← hnegative] at hsign
    rw [← hmagnitude] at hfinest
    refine ⟨hfinest.valid le_rfl, c.scale, hfinest.scale_le, c.exists_intCast, ?_, ?_⟩
    · rw [Fixed.abs_value_sub hsign]
      exact hfinest.abs_sub_le (abs_nonneg _)
    · exact hfinest.scale_le.eq_or_lt.imp_right (hfinest.le_precision (abs_nonneg _))

theorem isSome_of_mapM {α β : Type} {f : α → Option β} {xs : List α}
    (h : (xs.mapM f).isSome = true) : ∀ x ∈ xs, (f x).isSome = true := by
  induction xs with
  | nil => simp
  | cons x xs ih =>
      rw [List.mapM_cons, Option.bind_eq_bind, Option.isSome_bind, Option.any_eq_true] at h
      obtain ⟨y, hy, hrest⟩ := h
      rw [Option.bind_eq_bind, Option.isSome_bind, Option.any_eq_true] at hrest
      obtain ⟨ys, hys, -⟩ := hrest
      rw [List.forall_mem_cons]
      exact ⟨by rw [hy, Option.isSome_some], ih (by rw [hys, Option.isSome_some])⟩

/-- Where there is a total every number has a decimal, and the total is theirs. -/
theorem foldlM_of_decimalSum? (h : decimalSum? numbers = some sum) :
    (∀ x ∈ numbers, (Fixed.ofFloat? x).isSome = true) ∧
      (decimalsOf numbers).foldlM Fixed.add? Fixed.zero = some sum := by
  obtain ⟨decimals, hdecimals, hsum⟩ := Option.bind_eq_some_iff.mp h
  have hsome := isSome_of_mapM (by rw [hdecimals, Option.isSome_some])
  rw [mapM_eq_some hsome] at hdecimals
  obtain rfl := Option.some.inj hdecimals
  exact ⟨hsome, hsum⟩

theorem length_decimalsOf (h : ∀ x ∈ numbers, (Fixed.ofFloat? x).isSome = true) :
    (decimalsOf numbers).length = numbers.length := by
  rw [decimalsOf, List.length_filterMap_eq_countP, List.countP_eq_length]
  exact h

theorem isMean_of_div? (h : decimalSum? numbers = some sum)
    (hmean : sum.div? numbers.length = some mean) (hne : numbers ≠ []) :
    mean.Valid ∧ IsMean ((decimalsOf numbers).map Fixed.value) mean.value := by
  obtain ⟨hsome, hfold⟩ := foldlM_of_decimalSum? h
  have hvalid : ∀ c ∈ decimalsOf numbers, c.Valid := fun c => valid_of_mem_decimalsOf
  have hdouble : ∀ c ∈ decimalsOf numbers, ∃ x, Fixed.ofFloat? x = some c := by
    intro c hc
    obtain ⟨x, -, hx⟩ := List.mem_filterMap.mp hc
    exact ⟨x, hx⟩
  obtain ⟨hsum, haccumulates⟩ := accumulates_of_foldlM Fixed.valid_zero hvalid hfold
  obtain ⟨hmeanValid, hquotient⟩ := isQuotient_of_div? hsum (List.length_pos_iff.mpr hne) hmean
  refine ⟨hmeanValid, fun v hv => ?_, sum.value, ?_, fun hgreat => ?_, ?_⟩
  · obtain ⟨c, hc, rfl⟩ := List.mem_map.mp hv
    obtain ⟨x, hx⟩ := hdouble c hc
    exact isShort_of_ofFloat? hx
  · rwa [Fixed.value_zero] at haccumulates
  · have hwhole : ∀ c ∈ decimalsOf numbers, c.scale = 0 := by
      intro c hc
      obtain ⟨x, hx⟩ := hdouble c hc
      exact scale_eq_zero_of_great hx (hgreat _ (List.mem_map_of_mem hc))
    rw [value_eq_of_foldlM Fixed.valid_zero hvalid rfl hwhole hfold, Fixed.value_zero, zero_add]
  · rwa [List.length_map, length_decimalsOf hsome]

/-- A mean that is computed in decimals. -/
theorem exists_mean (h : decimalSum? numbers = some sum) (hne : numbers ≠ []) :
    ∃ mean : Fixed, roundedMean numbers = mean.toHundredths.toFloat ∧ mean.Valid ∧
      IsMean ((decimalsOf numbers).map Fixed.value) mean.value := by
  obtain ⟨-, hfold⟩ := foldlM_of_decimalSum? h
  obtain ⟨hvalid, -⟩ :=
    accumulates_of_foldlM Fixed.valid_zero (fun c => valid_of_mem_decimalsOf) hfold
  obtain ⟨mean, hmean⟩ := Fixed.exists_div? hvalid (List.length_pos_iff.mpr hne)
  exact ⟨mean, roundedMean_of_some hne h hmean, isMean_of_div? h hmean hne⟩

end Campus
