import Campus.Proofs.Grouping.DecimalMean

/-!
# The mean in floating point

A group without a decimal total has great numbers (`le_of_decimalSum?_eq_none`). Its mean is finite
if the sum of its numbers in floating point is (`isFinite_roundedMean_iff`), and then it is near to
the exact mean (`exists_floatMean`): adding is wrong by at most half a unit in the last place of the
magnitudes for each number, and dividing and rounding by a few such halves.
-/

namespace Campus

open Number

variable {numbers : List Float} {x y : Float} {a v size : ℚ} {n : ℕ}

/-! ### Adding -/

/-- Half a unit in the last place of one. -/
def roundoff : ℚ := 1 / 2 ^ 53

theorem roundoff_eq : roundoff = 2 ^ (-53 : ℤ) := by
  norm_num [roundoff]

/-- The values of the finite ones among numbers. -/
def valuesOf (numbers : List Float) : List ℚ := numbers.filterMap value?

theorem length_valuesOf (h : ∀ x ∈ numbers, x.isFinite = true) :
    (valuesOf numbers).length = numbers.length := by
  rw [valuesOf, List.length_filterMap_eq_countP, List.countP_eq_length]
  exact fun x hx => isSome_value?_iff.mpr (h x hx)

/-- Adding two doubles is wrong in proportion to the sum only, and by no more than adding
nothing. -/
theorem withinPartOrTerm_add (hx : value? x = some a) (hy : value? y = some v)
    (h : (x + y).isFinite = true) :
    ∃ next, value? (x + y) = some next ∧ WithinPartOrTerm roundoff a v next := by
  obtain ⟨next, hnext⟩ := exists_value h
  have hrounds := (isResult_add hx hy).rounds h
  obtain ⟨j, hj⟩ := exists_multiple hx
  obtain ⟨k, hk⟩ := exists_multiple hy
  have hmultiple : a + v = (j + k : ℤ) * 2 ^ (-1074 : ℤ) := by
    rw [hj, hk, ← add_mul, Int.cast_add]
  refine ⟨next, hnext, ?_, ?_⟩
  · rw [WithinPart, abs_sub_comm, roundoff_eq]
    exact hrounds.abs_sub_le_of_multiple hnext hmultiple
  · have hnearest := hrounds.abs_sub_le_abs_sub hnext hx
    rwa [add_sub_cancel_left, abs_sub_comm] at hnearest

theorem isFinite_of_foldl {start : Float}
    (h : (numbers.foldl (· + ·) start).isFinite = true) : start.isFinite = true := by
  induction numbers generalizing start with
  | nil => exact h
  | cons x numbers ih => exact isFinite_left_of_add (ih h)

theorem exists_floatTotal {start : Float} (hstart : value? start = some a)
    (hfinite : ∀ x ∈ numbers, x.isFinite = true)
    (h : (numbers.foldl (· + ·) start).isFinite = true) :
    ∃ total, value? (numbers.foldl (· + ·) start) = some total ∧
      Accumulates (WithinPartOrTerm roundoff) a (valuesOf numbers) total := by
  induction numbers generalizing start a with
  | nil => exact ⟨a, hstart, .nil a⟩
  | cons x numbers ih =>
      rw [List.forall_mem_cons] at hfinite
      obtain ⟨v, hv⟩ := exists_value hfinite.1
      obtain ⟨next, hnext, hwithin⟩ := withinPartOrTerm_add hstart hv (isFinite_of_foldl h)
      obtain ⟨total, htotal, haccumulates⟩ := ih hnext hfinite.2 h
      refine ⟨total, htotal, ?_⟩
      rw [valuesOf, List.filterMap_cons, hv]
      exact .cons hwithin haccumulates

/-! ### Dividing and rounding -/

theorem abs_sub_le_roundoff (h : Rounds v x) (hx : value? x = some a) :
    |a - v| ≤ |v| * roundoff + 1 / 100 := by
  have hleast : (2 : ℚ) ^ (-1075 : ℤ) ≤ 1 / 100 :=
    (zpow_le_zpow_right₀ (by norm_num) (show (-1075 : ℤ) ≤ -7 by norm_num)).trans (by norm_num)
  rw [abs_sub_comm, roundoff_eq]
  exact (h.abs_sub_le hx).trans (add_le_add_right hleast _)

/-- The count of the numbers as a double. -/
theorem exists_count (hpos : 0 < n) (hn : n < 2 ^ 64) :
    ∃ c, value? (Float.ofNat n) = some c ∧ 1 ≤ c ∧ |c - n| ≤ n * roundoff := by
  have hrounds : Rounds (n : ℚ) (Float.ofNat n) := rounds_withSign false hn
  obtain ⟨c, hc⟩ := exists_value hrounds.isFinite
  have hone : value? 1 = some ((1 : ℤ) : ℚ) := integer?_eq_some_iff.mp (by decide +kernel)
  obtain ⟨k, hk⟩ := exists_multiple hone
  have hmultiple : (n : ℚ) = (n * k : ℤ) * 2 ^ (-1074 : ℤ) := by
    rw [Int.cast_mul, mul_assoc, ← hk, Int.cast_one, mul_one, Int.cast_natCast]
  refine ⟨c, hc, ?_, ?_⟩
  · have hnearest := hrounds.abs_sub_le_abs_sub hc hone
    have hge : (1 : ℚ) ≤ n := by exact_mod_cast hpos
    rw [Int.cast_one, abs_of_nonneg (by linarith : 0 ≤ (n : ℚ) - 1)] at hnearest
    linarith [le_abs_self (n - c : ℚ)]
  · have herror := hrounds.abs_sub_le_of_multiple hc hmultiple
    rwa [Nat.abs_cast, abs_sub_comm, ← roundoff_eq] at herror

/-- A quotient by a number that is not less than one stays finite. -/
theorem exists_div (hx : value? x = some a) (hy : value? y = some v) (hv : 1 ≤ v) :
    ∃ w, value? (x / y) = some w ∧ |w - a / v| ≤ |a / v| * roundoff + 1 / 100 := by
  have hless : |a / v| < overflow := by
    rw [abs_div, abs_of_pos (by linarith : 0 < v)]
    exact (div_le_self (abs_nonneg a) hv).trans_lt (abs_lt_overflow hx)
  have hrounds := (isResult_div hx hy (by linarith : v ≠ 0)).rounds_of_lt hless
  obtain ⟨w, hw⟩ := exists_value hrounds.isFinite
  exact ⟨w, hw, abs_sub_le_roundoff hrounds hw⟩

/-- Rounding to hundredths stays finite, and is wrong by less than one, and by what calculating with
doubles costs. -/
theorem exists_roundToHundredths (hx : value? x = some a) :
    ∃ w, value? (roundToHundredths x) = some w ∧ |w - a| ≤ 4 * |a| * roundoff + 1 := by
  cases hinteger : integer? x with
  | some n =>
      refine ⟨a, by rwa [roundToHundredths_of_integer hinteger], ?_⟩
      rw [sub_self, abs_zero]
      norm_num [roundoff]
      positivity
  | none =>
      obtain ⟨product, hproduct, hscaled⟩ := exists_product hx hinteger
      have hrounds := rounds_roundToHundredths hinteger hproduct
      obtain ⟨w, hw⟩ := exists_value hrounds.isFinite
      refine ⟨w, hw, ?_⟩
      have hscaledError := abs_sub_le_roundoff hscaled hproduct
      have herror := abs_sub_le_roundoff hrounds hw
      have hhundredths := abs_hundredths_sub_le (product / 100)
      have hdistance : |product / 100 - a| = |product - a * 100| / 100 := by
        rw [div_sub' (by norm_num), mul_comm, abs_div, abs_of_pos (by norm_num : (0 : ℚ) < 100)]
      have hscaledSize := abs_sub_abs_le_abs_sub (product / 100) a
      have hsize := abs_sub_abs_le_abs_sub (hundredths (product / 100)) (product / 100)
      have hfirst := abs_sub_le w (hundredths (product / 100)) a
      have hsecond := abs_sub_le (hundredths (product / 100)) (product / 100) a
      have hnonneg := abs_nonneg a
      rw [abs_mul, abs_of_pos (by norm_num : (0 : ℚ) < 100)] at hscaledError
      rw [roundoff] at *
      linarith

/-- Rounding makes nothing finite. -/
theorem isFinite_of_roundToHundredths (h : (roundToHundredths x).isFinite = true) :
    x.isFinite = true := by
  unfold roundToHundredths at h
  dsimp only at h
  split at h
  · exact h
  · next hcondition =>
    rw [Bool.or_eq_true, not_or, Bool.not_eq_true', Bool.not_eq_false] at hcondition
    exact isFinite_left_of_mul hcondition.2

/-! ### The mean -/

theorem roundedMean_of_none (hne : numbers ≠ []) (h : decimalSum? numbers = none) :
    roundedMean numbers = roundToHundredths (floatSum numbers / Float.ofNat numbers.length) := by
  have hempty : numbers.isEmpty = false := by
    rw [List.isEmpty_eq_false_iff]
    exact hne
  rw [roundedMean, hempty, h]
  rfl

/-- Dividing by a count that is rounded. -/
theorem abs_div_sub_div_le {count t : ℚ} (hpos : 0 < n) (hcount : |count - n| ≤ n * roundoff) :
    |t / count - t / n| ≤ 11 / 10 * roundoff * |t / n| := by
  have hpos' : (0 : ℚ) < n := by exact_mod_cast hpos
  have hnear := (abs_le.mp hcount).1
  rw [roundoff] at hcount hnear ⊢
  have hcountPos : 0 < count := by linarith
  have hsplit : t / count - t / n = (n - count) / count * (t / n) := by
    field_simp
  have hpart : |(n - count) / count| ≤ 11 / 10 * (1 / 2 ^ 53) := by
    rw [abs_div, abs_of_pos hcountPos, div_le_iff₀ hcountPos, abs_sub_comm]
    linarith
  rw [hsplit, abs_mul]
  exact mul_le_mul_of_nonneg_right hpart (abs_nonneg _)

/-- Dividing the sum of great numbers and rounding the quotient. -/
theorem abs_mean_sub_le {count total sum quotient mean : ℚ} (hpos : 0 < n)
    (hcount : |count - n| ≤ n * roundoff)
    (htotal : |total - sum| ≤ n * roundoff * (n * size)) (hsum : |sum| ≤ n * size)
    (hquotient : |quotient - total / count| ≤ |total / count| * roundoff + 1 / 100)
    (hmean : |mean - quotient| ≤ 4 * |quotient| * roundoff + 1) (hgreat : 2 ^ 60 ≤ n * size) :
    |mean - sum / n| ≤ (n + 4) / 2 ^ 52 * size := by
  have hpos' : (0 : ℚ) < n := by exact_mod_cast hpos
  have hadding : |total / n - sum / n| ≤ roundoff * (n * size) := by
    rw [← sub_div, abs_div, abs_of_pos hpos', div_le_iff₀ hpos']
    linarith
  have hexact : |sum / n| ≤ size := by
    rw [abs_div, abs_of_pos hpos', div_le_iff₀ hpos']
    linarith
  have hsize := (abs_nonneg (sum / n)).trans hexact
  have hdividing := abs_div_sub_div_le (t := total) hpos hcount
  have htotalSize := abs_sub_abs_le_abs_sub (total / n) (sum / n)
  have hdividedSize := abs_sub_abs_le_abs_sub (total / count) (total / n)
  have hquotientSize := abs_sub_abs_le_abs_sub quotient (total / count)
  have hfirst := abs_sub_le mean quotient (sum / n)
  have hsecond := abs_sub_le quotient (total / count) (sum / n)
  have hthird := abs_sub_le (total / count) (total / n) (sum / n)
  rw [roundoff] at *
  linarith

/-! ### Great numbers -/

variable {decimals : List Fixed} {start c : Fixed}

/-- Where adding fails there is a total that the next term cannot be added to. -/
theorem exists_of_foldlM_eq_none (h : decimals.foldlM Fixed.add? start = none) :
    ∃ done c rest total, decimals = done ++ c :: rest ∧
      done.foldlM Fixed.add? start = some total ∧ total.add? c = none := by
  induction decimals generalizing start with
  | nil => cases h
  | cons c decimals ih =>
      cases hnext : start.add? c with
      | none => exact ⟨[], c, decimals, start, rfl, rfl, hnext⟩
      | some next =>
          rw [List.foldlM_cons, hnext] at h
          obtain ⟨done, d, rest, total, rfl, htotal, hnone⟩ := ih h
          refine ⟨c :: done, d, rest, total, rfl, ?_, hnone⟩
          rw [List.foldlM_cons, hnext]
          exact htotal

theorem abs_decimal_le (hx : value? x = some v) (hc : Fixed.ofFloat? x = some c) :
    |c.value| ≤ 3 / 2 * (|v| + 1) + 1 := by
  obtain ⟨s, hs, hkeeps⟩ := Fixed.keeps_of_ofFloat? hc
  rw [hkeeps.value_eq]
  exact (abs_toFinest_le _).trans
    (add_le_add_left ((Scientific.rounds_of_ofFloat? hs).abs_le hx) 1)

/-- Decimals whose total leaves the range. -/
theorem le_of_foldlM_eq_none {bound : ℚ} (hvalid : ∀ c ∈ decimals, c.Valid)
    (hbound : ∀ c ∈ decimals, |c.value| ≤ bound) (hfew : decimals.length < 2 ^ 64)
    (h : decimals.foldlM Fixed.add? Fixed.zero = none) :
    2 ^ 96 - 1 / 2 ≤ 2 * (decimals.length * bound) := by
  obtain ⟨done, c, rest, total, rfl, htotal, hnone⟩ := exists_of_foldlM_eq_none h
  rw [List.forall_mem_append, List.forall_mem_cons] at hvalid hbound
  obtain ⟨-, haccumulates⟩ := accumulates_of_foldlM Fixed.valid_zero hvalid.1 htotal
  rw [Fixed.value_zero] at haccumulates
  have hnonneg := (abs_nonneg c.value).trans hbound.2.1
  have hsize := haccumulates.abs_le_mul Fixed.precision_nonneg Fixed.precision_le_one hnonneg
    fun v hv => by
      obtain ⟨d, hd, rfl⟩ := List.mem_map.mp hv
      exact hbound.1 d hd
  rw [List.length_append, List.length_cons] at hfew
  have hcount : (done.length : ℚ) + 1 ≤ 2 ^ 64 := by
    exact_mod_cast (show done.length + 1 ≤ 2 ^ 64 by omega)
  have hlength : (done.length + 1 : ℚ) ≤ (done ++ c :: rest).length := by
    rw [List.length_append, List.length_cons]
    push_cast
    linarith [Nat.cast_nonneg (α := ℚ) rest.length]
  rw [List.length_map] at hsize
  have hpower : (1 + Fixed.precision) ^ done.length ≤ 2 := by
    have hsmall : done.length * Fixed.precision ≤ 1 / 2 := by
      rw [Fixed.precision]
      linarith
    have hle := one_add_pow_le Fixed.precision_nonneg hsmall
    linarith
  have htwice : |total.value| ≤ done.length * (2 * bound) := by
    refine hsize.trans ?_
    gcongr
  have hgreat := Fixed.le_of_add?_eq_none hnone
  have hsum := abs_add_le total.value c.value
  have hmore : (done.length + 1 : ℚ) * bound ≤ (done ++ c :: rest).length * bound := by gcongr
  linarith [hbound.2.1]

/-- Only of great numbers there is no decimal total. -/
theorem le_of_decimalSum?_eq_none (hvalues : ∀ x ∈ numbers, ∃ v, value? x = some v ∧ |v| ≤ size)
    (hfew : numbers.length < 2 ^ 64) (h : decimalSum? numbers = none) :
    2 ^ 60 ≤ numbers.length * size := by
  have hfew' : (numbers.length : ℚ) < 2 ^ 64 := by exact_mod_cast hfew
  by_cases hsome : ∀ x ∈ numbers, (Fixed.ofFloat? x).isSome = true
  · rw [decimalSum?, mapM_eq_some hsome] at h
    have hbound : ∀ c ∈ decimalsOf numbers, |c.value| ≤ 3 / 2 * (size + 1) + 1 := by
      intro c hc
      obtain ⟨x, hx, hxc⟩ := List.mem_filterMap.mp hc
      obtain ⟨v, hv, hle⟩ := hvalues x hx
      linarith [abs_decimal_le hv hxc]
    have hlength := length_decimalsOf hsome
    have hgreat := le_of_foldlM_eq_none (fun c => valid_of_mem_decimalsOf) hbound
      (hlength ▸ hfew) h
    rw [hlength] at hgreat
    linarith
  · push Not at hsome
    obtain ⟨x, hx, hnone⟩ := hsome
    obtain ⟨v, hv, hle⟩ := hvalues x hx
    rcases Fixed.ofFloat?_cases hv with ⟨-, hgreat⟩ | ⟨s, c, -, hc, -⟩
    · have habs := (rounds_written hv).abs_le hv
      have hcount : (1 : ℚ) ≤ numbers.length := by exact_mod_cast List.length_pos_of_mem hx
      have hsize : 2 ^ 60 ≤ size := by linarith
      calc (2 : ℚ) ^ 60 ≤ 1 * size := by linarith
        _ ≤ numbers.length * size := by gcongr
    · rw [hc] at hnone
      exact absurd rfl hnone

/-! ### Groups without a decimal total -/

variable (hne : numbers ≠ []) (hfinite : ∀ x ∈ numbers, x.isFinite = true)
  (hfew : numbers.length < 2 ^ 64) (hnone : decimalSum? numbers = none)
include hne hfinite hfew hnone

theorem exists_floatMean (hsum : (floatSum numbers).isFinite = true)
    (hsize : ∀ v ∈ valuesOf numbers, |v| ≤ size) :
    ∃ mean, value? (roundedMean numbers) = some mean ∧
      |mean - (valuesOf numbers).sum / numbers.length| ≤ (numbers.length + 4) / 2 ^ 52 * size := by
  have hpos := List.length_pos_iff.mpr hne
  have hzero : value? 0 = some ((0 : ℤ) : ℚ) := integer?_eq_some_iff.mp (by decide +kernel)
  rw [Int.cast_zero] at hzero
  obtain ⟨total, htotal, haccumulates⟩ := exists_floatTotal hzero hfinite hsum
  obtain ⟨count, hcount, hone, hcountError⟩ := exists_count hpos hfew
  obtain ⟨quotient, hquotient, hquotientError⟩ := exists_div htotal hcount hone
  obtain ⟨mean, hmean, hmeanError⟩ := exists_roundToHundredths hquotient
  have hlength := length_valuesOf hfinite
  have hmagnitude := magnitude_le hsize
  have hadding := haccumulates.abs_sub_sum_le (by norm_num [roundoff])
  rw [hlength] at hmagnitude hadding
  have hgreat : 2 ^ 60 ≤ numbers.length * size := by
    refine le_of_decimalSum?_eq_none (fun x hx => ?_) hfew hnone
    obtain ⟨v, hv⟩ := exists_value (hfinite x hx)
    exact ⟨v, hv, hsize v (List.mem_filterMap.mpr ⟨x, hx, hv⟩)⟩
  refine ⟨mean, by rwa [roundedMean_of_none hne hnone], ?_⟩
  refine abs_mean_sub_le hpos hcountError (hadding.trans ?_)
    ((abs_sum_le_magnitude _).trans hmagnitude) hquotientError hmeanError hgreat
  gcongr
  norm_num [roundoff]

/-- Such a mean is finite if the sum in floating point is. -/
theorem isFinite_roundedMean_iff :
    (roundedMean numbers).isFinite = true ↔ (floatSum numbers).isFinite = true := by
  constructor
  · intro h
    rw [roundedMean_of_none hne hnone] at h
    exact isFinite_left_of_div (isFinite_of_roundToHundredths h)
  · intro hsum
    obtain ⟨size, hsize⟩ : ∃ size, ∀ v ∈ valuesOf numbers, |v| ≤ size :=
      ⟨magnitude (valuesOf numbers), fun v hv => List.single_le_sum (by
        intro w hw
        obtain ⟨u, -, rfl⟩ := List.mem_map.mp hw
        exact abs_nonneg u) _ (List.mem_map_of_mem hv)⟩
    obtain ⟨mean, hmean, -⟩ := exists_floatMean hne hfinite hfew hnone hsum hsize
    exact isSome_value?_iff.mp (by rw [hmean, Option.isSome_some])

end Campus
