import Campus.Proofs.Grouping.Drift
import Campus.Proofs.Grouping.FloatMean

/-!
# The mean between the extremes

The mean of a group lies between its least and its greatest number, as far as rounding to two places
allows, if the group has a decimal total (`avg_between`). Without one it is computed in floating
point: it may leave the extremes by what that costs, and where the sum overflows it is no number and
is written as null. None of this can be left out (`avg_not_between`).
-/

namespace Campus

open Number

variable {numbers : List Float} {x y : Float} {a b : ℚ} {c c' : Fixed}

/-! ### What is written -/

theorem toJson_eq_null_iff (x : Float) :
    (Scalar.number x).toJson = .null ↔ x.isFinite = false := by
  change Scalar.numberToJson x = .null ↔ _
  unfold Scalar.numberToJson
  cases hinteger : integer? x with
  | some n =>
      have hfinite : x.isFinite = true :=
        isSome_value?_iff.mp (by rw [integer?_eq_some_iff.mp hinteger, Option.isSome_some])
      simp [hfinite]
  | none =>
      cases x.isFinite <;> simp

/-! ### The extremes -/

theorem Aggregate.max_of (hne : numbers ≠ []) :
    Extreme (· < ·) numbers (max.of (numbers.map .number)) := by
  rw [of, filterMap_number?]
  exact extreme_combine isRanking_less takesBetter_greater hne

theorem Aggregate.min_of (hne : numbers ≠ []) :
    Extreme (fun x y => y < x) numbers (min.of (numbers.map .number)) := by
  rw [of, filterMap_number?]
  exact extreme_combine isRanking_greater takesBetter_lesser hne

theorem le_of_not_lt (hx : value? x = some a) (hy : value? y = some b) (h : ¬ x < y) : b ≤ a :=
  not_lt.mp ((lt_iff_value hx hy).not.mp h)

/-- Greater doubles have greater decimals. -/
theorem decimal_le (hx : value? x = some a) (hy : value? y = some b)
    (hc : Fixed.ofFloat? x = some c) (hc' : Fixed.ofFloat? y = some c') (hle : a ≤ b) :
    c.value ≤ c'.value := by
  have hkept : ∀ {x : Float} {a : ℚ} {c : Fixed}, value? x = some a → Fixed.ofFloat? x = some c →
      c.value = toFinest (written x) := by
    intro x a c hx hc
    obtain ⟨s, hs, hkeeps⟩ := Fixed.keeps_of_ofFloat? hc
    rw [hkeeps.value_eq, written, hs]
    rfl
  rw [hkept hx hc, hkept hy hc']
  exact toFinest_le (written_le hx hy hle)

theorem exists_decimal_of_mem {v : ℚ} (hfinite : ∀ x ∈ numbers, x.isFinite = true)
    (hv : v ∈ (decimalsOf numbers).map Fixed.value) :
    ∃ x ∈ numbers, ∃ a c, value? x = some a ∧ Fixed.ofFloat? x = some c ∧ c.value = v := by
  obtain ⟨c, hc, rfl⟩ := List.mem_map.mp hv
  obtain ⟨x, hx, hxc⟩ := List.mem_filterMap.mp hc
  obtain ⟨a, ha⟩ := exists_value (hfinite x hx)
  exact ⟨x, hx, a, c, ha, hxc, rfl⟩

section

variable (hne : numbers ≠ []) (hfinite : ∀ x ∈ numbers, x.isFinite = true)
include hne hfinite

/-! ### Groups with a decimal total -/

theorem avg_between_decimals (hsome : (decimalSum? numbers).isSome = true) :
    ∃ least greatest : Fixed, ∃ mean : ℚ,
      Fixed.ofFloat? (Aggregate.min.of (numbers.map .number)) = some least ∧
      Fixed.ofFloat? (Aggregate.max.of (numbers.map .number)) = some greatest ∧
      IsNearest mean (Aggregate.avg.of (numbers.map .number)) ∧ (∃ k : ℤ, mean = k / 100) ∧
      least.value - 1 / 200 - drift numbers.length least.value ≤ mean ∧
      mean ≤ greatest.value + 1 / 200 + drift numbers.length greatest.value := by
  obtain ⟨sum, hsum⟩ := Option.isSome_iff_exists.mp hsome
  obtain ⟨hdecimal, -⟩ := foldlM_of_decimalSum? hsum
  obtain ⟨mean, hrounded, hvalid, hmean⟩ := exists_mean hsum hne
  have hlength : ((decimalsOf numbers).map Fixed.value).length = numbers.length := by
    rw [List.length_map, length_decimalsOf hdecimal]
  have hleast := Aggregate.min_of hne
  have hgreatest := Aggregate.max_of hne
  generalize Aggregate.min.of (numbers.map .number) = low at hleast ⊢
  generalize Aggregate.max.of (numbers.map .number) = high at hgreatest ⊢
  obtain ⟨a, ha⟩ := exists_value (hfinite _ hleast.mem)
  obtain ⟨b, hb⟩ := exists_value (hfinite _ hgreatest.mem)
  obtain ⟨least, hleastDecimal⟩ := Option.isSome_iff_exists.mp (hdecimal _ hleast.mem)
  obtain ⟨greatest, hgreatestDecimal⟩ := Option.isSome_iff_exists.mp (hdecimal _ hgreatest.mem)
  have hmem : ∀ {x : Float} {c : Fixed}, x ∈ numbers → Fixed.ofFloat? x = some c →
      c.value ∈ (decimalsOf numbers).map Fixed.value :=
    fun hx hc => List.mem_map_of_mem (List.mem_filterMap.mpr ⟨_, hx, hc⟩)
  have hrounds := Fixed.rounds_toFloat (Fixed.valid_toHundredths hvalid)
  rw [Fixed.value_toHundredths, ← hrounded, ← Aggregate.avg_of] at hrounds
  have hlow := hmean.le_hundredths (hmem hleast.mem hleastDecimal) fun v hv => by
    obtain ⟨x, hx, w, c, hw, hc, rfl⟩ := exists_decimal_of_mem hfinite hv
    exact decimal_le ha hw hleastDecimal hc (le_of_not_lt hw ha (hleast.best x hx))
  have hhigh := hmean.hundredths_le (hmem hgreatest.mem hgreatestDecimal) fun v hv => by
    obtain ⟨x, hx, w, c, hw, hc, rfl⟩ := exists_decimal_of_mem hfinite hv
    exact decimal_le hw hb hc hgreatestDecimal (le_of_not_lt hb hw (hgreatest.best x hx))
  rw [hlength] at hlow hhigh
  exact ⟨least, greatest, _, hleastDecimal, hgreatestDecimal, hrounds.isNearest,
    exists_hundredths _, hlow, hhigh⟩

/-! ### Groups without a decimal total -/

theorem avg_between_values (hfew : numbers.length < 2 ^ 64) (hnone : decimalSum? numbers = none)
    (hsum : (floatSum numbers).isFinite = true) :
    ∃ least greatest mean : ℚ,
      value? (Aggregate.min.of (numbers.map .number)) = some least ∧
      value? (Aggregate.max.of (numbers.map .number)) = some greatest ∧
      value? (Aggregate.avg.of (numbers.map .number)) = some mean ∧
      least - (numbers.length + 4) / 2 ^ 52 * max |least| |greatest| ≤ mean ∧
      mean ≤ greatest + (numbers.length + 4) / 2 ^ 52 * max |least| |greatest| := by
  have hleast := Aggregate.min_of hne
  have hgreatest := Aggregate.max_of hne
  generalize Aggregate.min.of (numbers.map .number) = low at hleast ⊢
  generalize Aggregate.max.of (numbers.map .number) = high at hgreatest ⊢
  obtain ⟨least, hlow⟩ := exists_value (hfinite _ hleast.mem)
  obtain ⟨greatest, hhigh⟩ := exists_value (hfinite _ hgreatest.mem)
  have hbounds : ∀ v ∈ valuesOf numbers, least ≤ v ∧ v ≤ greatest := by
    intro v hv
    obtain ⟨x, hx, hxv⟩ := List.mem_filterMap.mp hv
    exact ⟨le_of_not_lt hxv hlow (hleast.best x hx), le_of_not_lt hhigh hxv (hgreatest.best x hx)⟩
  have hsize : ∀ v ∈ valuesOf numbers, |v| ≤ max |least| |greatest| := fun v hv =>
    abs_le_max_abs_abs (hbounds v hv).1 (hbounds v hv).2
  obtain ⟨mean, hmean, herror⟩ := exists_floatMean hne hfinite hfew hnone hsum hsize
  rw [← Aggregate.avg_of] at hmean
  refine ⟨least, greatest, mean, hlow, hhigh, hmean, ?_⟩
  have hcount : (0 : ℚ) < numbers.length := by exact_mod_cast List.length_pos_iff.mpr hne
  have hlength := length_valuesOf hfinite
  -- The exact mean lies between the extremes.
  have hupper : (valuesOf numbers).sum / numbers.length ≤ greatest := by
    rw [div_le_iff₀' hcount, ← hlength]
    exact sum_le fun v hv => (hbounds v hv).2
  have hlower : least ≤ (valuesOf numbers).sum / numbers.length := by
    rw [le_div_iff₀' hcount, ← hlength, ← nsmul_eq_mul]
    exact List.card_nsmul_le_sum _ _ fun v hv => (hbounds v hv).1
  obtain ⟨hdown, hup⟩ := abs_le.mp herror
  constructor <;> linarith

theorem toJson_avg_eq_null_iff (hfew : numbers.length < 2 ^ 64) :
    (Scalar.number (Aggregate.avg.of (numbers.map .number))).toJson = .null ↔
      decimalSum? numbers = none ∧ (floatSum numbers).isFinite = false := by
  rw [toJson_eq_null_iff, Aggregate.avg_of]
  cases hsum : decimalSum? numbers with
  | none =>
      rw [← Bool.not_eq_true, ← Bool.not_eq_true, isFinite_roundedMean_iff hne hfinite hfew hsum,
        and_iff_right rfl]
  | some sum =>
      obtain ⟨mean, hrounded, hvalid, -⟩ := exists_mean hsum hne
      have hfiniteMean := (Fixed.rounds_toFloat (Fixed.valid_toHundredths hvalid)).isFinite
      rw [hrounded, hfiniteMean]
      simp

end

/-! ### All groups -/

/-- Where the mean of finite numbers lies. With a decimal total it is the double nearest to a number
of two places that is at most half a hundredth below the decimal of the least number and above the
decimal of the greatest, and a bit more only for more than ten million numbers. Without a decimal
total the mean is computed in floating point. It is null if the sum overflows, and else it may leave
the extremes by the rounding errors. -/
theorem avg_between (hne : numbers ≠ []) (hfinite : ∀ x ∈ numbers, x.isFinite = true)
    (hfew : numbers.length < 2 ^ 64) :
    ((Scalar.number (Aggregate.avg.of (numbers.map .number))).toJson = .null ↔
      decimalSum? numbers = none ∧ (floatSum numbers).isFinite = false) ∧
    ((decimalSum? numbers).isSome = true → ∃ least greatest : Fixed, ∃ mean : ℚ,
      Fixed.ofFloat? (Aggregate.min.of (numbers.map .number)) = some least ∧
      Fixed.ofFloat? (Aggregate.max.of (numbers.map .number)) = some greatest ∧
      IsNearest mean (Aggregate.avg.of (numbers.map .number)) ∧ (∃ k : ℤ, mean = k / 100) ∧
      least.value - 1 / 200 - drift numbers.length least.value ≤ mean ∧
      mean ≤ greatest.value + 1 / 200 + drift numbers.length greatest.value) ∧
    (decimalSum? numbers = none → (floatSum numbers).isFinite = true →
      ∃ least greatest mean : ℚ,
        value? (Aggregate.min.of (numbers.map .number)) = some least ∧
        value? (Aggregate.max.of (numbers.map .number)) = some greatest ∧
        value? (Aggregate.avg.of (numbers.map .number)) = some mean ∧
        least - (numbers.length + 4) / 2 ^ 52 * max |least| |greatest| ≤ mean ∧
        mean ≤ greatest + (numbers.length + 4) / 2 ^ 52 * max |least| |greatest|) :=
  ⟨toJson_avg_eq_null_iff hne hfinite hfew, avg_between_decimals hne hfinite,
    avg_between_values hne hfinite hfew⟩

/-- Marks halfway between two hundredths. -/
def sampleMarks : List Float := [88.125, 88.125, 88.125, 88.115]

/-- Numbers beyond the range of decimals. -/
def greatNumbers : List Float := [1e30, 1e30, 1e30]

theorem avg_between_samples :
    (sampleMarks ≠ [] ∧ (∀ x ∈ sampleMarks, x.isFinite = true) ∧ sampleMarks.length < 2 ^ 64 ∧
      (decimalSum? sampleMarks).isSome = true ∧ ∃ least greatest : Fixed, ∃ mean : ℚ,
        Fixed.ofFloat? (Aggregate.min.of (sampleMarks.map .number)) = some least ∧
        Fixed.ofFloat? (Aggregate.max.of (sampleMarks.map .number)) = some greatest ∧
        IsNearest mean (Aggregate.avg.of (sampleMarks.map .number)) ∧ (∃ k : ℤ, mean = k / 100) ∧
        least.value - 1 / 200 - drift 4 least.value ≤ mean ∧
        mean ≤ greatest.value + 1 / 200 + drift 4 greatest.value) ∧
    (greatNumbers ≠ [] ∧ (∀ x ∈ greatNumbers, x.isFinite = true) ∧ greatNumbers.length < 2 ^ 64 ∧
      decimalSum? greatNumbers = none ∧ (floatSum greatNumbers).isFinite = true ∧
      (Scalar.number (Aggregate.avg.of (greatNumbers.map .number))).toJson ≠ .null) := by
  have hfinite : ∀ x ∈ sampleMarks, x.isFinite = true := by decide +kernel
  have hfinite' : ∀ x ∈ greatNumbers, x.isFinite = true := by decide +kernel
  have hsome : (decimalSum? sampleMarks).isSome = true := by decide +kernel
  have hnone : decimalSum? greatNumbers = none := by decide +kernel
  have hsum : (floatSum greatNumbers).isFinite = true := by decide +kernel
  obtain ⟨-, hdecimal, -⟩ := avg_between (by decide) hfinite (by decide)
  obtain ⟨hnull, -⟩ := avg_between (by decide) hfinite' (by decide)
  refine ⟨⟨by decide, hfinite, by decide, hsome, hdecimal hsome⟩, by decide, hfinite', by decide,
    hnone, hsum, fun h => ?_⟩
  rw [(hnull.mp h).2] at hsum
  cases hsum

theorem exists_avg_of_crowd : ∃ numbers : List Float,
    numbers ≠ [] ∧ numbers.length < 2 ^ 64 ∧ (∀ x ∈ numbers, x.isFinite = true) ∧
      (decimalSum? numbers).isSome = true ∧
      ∃ greatest mean : ℚ, value? (Aggregate.max.of (numbers.map .number)) = some greatest ∧
        value? (Aggregate.avg.of (numbers.map .number)) = some mean ∧
        greatest + 1 / 200 < mean := by
  obtain ⟨total, htotal, -⟩ := exists_total_of_crowd
  obtain ⟨mean, hmean, hle⟩ := exists_mean_of_crowd
  have hall : ∀ x ∈ List.replicate crowdSize crowdNumber, x = crowdNumber :=
    fun x hx => (List.mem_replicate.mp hx).2
  have hlength : (List.replicate crowdSize crowdNumber).length = crowdSize := List.length_replicate
  generalize List.replicate crowdSize crowdNumber = numbers at htotal hmean hall hlength
  have hne : numbers ≠ [] := by
    rw [← List.length_pos_iff, hlength]
    norm_num [crowdSize]
  refine ⟨numbers, hne, ?_, fun x hx => ?_, by rw [htotal, Option.isSome_some],
    2251799813683456 + 3 / 4, mean, ?_, ?_, ?_⟩
  · rw [hlength]
    norm_num [crowdSize]
  · rw [hall x hx]
    exact isSome_value?_iff.mp (by rw [value?_crowdNumber, Option.isSome_some])
  · rw [hall _ (Aggregate.max_of hne).mem]
    exact value?_crowdNumber
  · rwa [Aggregate.avg_of]
  · linarith

/-- The mean of two finite numbers whose sum overflows is null. That of three numbers beyond the
range of decimals, all the same, exceeds them, and so does that of very many numbers that have a
decimal total. -/
theorem avg_not_between :
    ((∀ x ∈ [1.7e308, 1.7e308], x.isFinite = true) ∧
      (Aggregate.avg.of ([1.7e308, 1.7e308].map .number)).isFinite = false ∧
      (Scalar.number (Aggregate.avg.of ([1.7e308, 1.7e308].map .number))).toJson = .null) ∧
    ((∀ x ∈ greatNumbers, x.isFinite = true) ∧
      ∃ greatest mean : ℚ, value? (Aggregate.max.of (greatNumbers.map .number)) = some greatest ∧
        value? (Aggregate.avg.of (greatNumbers.map .number)) = some mean ∧
        greatest + 1 / 200 < mean) ∧
    ∃ numbers : List Float, numbers ≠ [] ∧ numbers.length < 2 ^ 64 ∧
      (∀ x ∈ numbers, x.isFinite = true) ∧ (decimalSum? numbers).isSome = true ∧
      ∃ greatest mean : ℚ, value? (Aggregate.max.of (numbers.map .number)) = some greatest ∧
        value? (Aggregate.avg.of (numbers.map .number)) = some mean ∧
        greatest + 1 / 200 < mean := by
  have hinfinite : (Aggregate.avg.of ([1.7e308, 1.7e308].map .number)).isFinite = false := by
    decide +kernel
  have hgreatest : integer? (Aggregate.max.of (greatNumbers.map .number)) =
      some 1000000000000000019884624838656 := by
    decide +kernel
  have hmean : integer? (Aggregate.avg.of (greatNumbers.map .number)) =
      some 1000000000000000160622113193984 := by
    decide +kernel
  refine ⟨⟨by decide +kernel, hinfinite, (toJson_eq_null_iff _).mpr hinfinite⟩,
    ⟨by decide +kernel, _, _, integer?_eq_some_iff.mp hgreatest, integer?_eq_some_iff.mp hmean, ?_⟩,
    exists_avg_of_crowd⟩
  norm_num

end Campus
