import Campus.Proofs.Grouping.Aggregates
import Campus.Proofs.Number.Hundredths

/-!
# Exact totals

Decimals are added from left to right. The running total stays between the sum of the negative and
the sum of the positive terms, so where both fit at the finest scale of the terms, no digit is ever
lost (`HaveRoom.exists_sum`). Everyday numbers leave room enough: their sum and their mean are the
doubles nearest to the exact ones, rounded to two places (`sum_and_mean_of_everyday`).
-/

namespace Campus

open Number

variable {numbers : List Float} {decimals : List Fixed} {values : List ℚ} {scale : ℕ}

/-! ### The running total -/

/-- The sum of the positive ones among numbers. -/
def positives (values : List ℚ) : ℚ := (values.map (max 0)).sum

/-- The sum of the negative ones among numbers, without sign. -/
def negatives (values : List ℚ) : ℚ := positives (values.map (-·))

theorem positives_cons (v : ℚ) (values : List ℚ) :
    positives (v :: values) = max 0 v + positives values := rfl

theorem positives_nonneg (values : List ℚ) : 0 ≤ positives values :=
  List.sum_nonneg fun _ hmem => by
    obtain ⟨v, -, rfl⟩ := List.mem_map.mp hmem
    exact le_max_left _ _

theorem negatives_cons (v : ℚ) (values : List ℚ) :
    negatives (v :: values) = max 0 (-v) + negatives values := rfl

theorem positives_sub_negatives (values : List ℚ) :
    positives values - negatives values = values.sum := by
  induction values with
  | nil => exact sub_self _
  | cons v values ih =>
      rw [positives_cons, negatives_cons, List.sum_cons, ← ih]
      rcases le_total 0 v with hv | hv
      · rw [max_eq_right hv, max_eq_left (neg_nonpos.mpr hv)]
        ring
      · rw [max_eq_left hv, max_eq_right (neg_nonneg.mpr hv)]
        ring

theorem positives_le {bound : ℚ} (hnonneg : 0 ≤ bound) (hbound : ∀ v ∈ values, v ≤ bound) :
    positives values ≤ values.length * bound := by
  rw [← nsmul_eq_mul, ← List.length_map (f := max (0 : ℚ)), positives]
  refine List.sum_le_card_nsmul _ _ fun v hv => ?_
  obtain ⟨w, hw, rfl⟩ := List.mem_map.mp hv
  exact max_le hnonneg (hbound w hw)

theorem negatives_le {bound : ℚ} (hnonneg : 0 ≤ bound) (hbound : ∀ v ∈ values, -v ≤ bound) :
    negatives values ≤ values.length * bound := by
  rw [← List.length_map (f := (-·)), negatives]
  refine positives_le hnonneg fun v hv => ?_
  obtain ⟨w, hw, rfl⟩ := List.mem_map.mp hv
  exact hbound w hw

theorem positives_of_perm {others : List ℚ} (h : values.Perm others) :
    positives values = positives others :=
  (h.map _).sum_eq

theorem negatives_of_perm {others : List ℚ} (h : values.Perm others) :
    negatives values = negatives others :=
  positives_of_perm (h.map _)

/-- One term is counted as itself. -/
theorem positives_le_of_mem {v bound : ℚ} (hnonneg : 0 ≤ bound) (hbound : ∀ w ∈ values, w ≤ bound)
    (hv : v ∈ values) : positives values ≤ max 0 v + (values.length - 1) * bound := by
  have hrest : positives (values.erase v) ≤ (values.erase v).length * bound :=
    positives_le hnonneg fun w hw => hbound w (List.mem_of_mem_erase hw)
  have hlength : ((values.erase v).length : ℚ) = values.length - 1 := by
    rw [List.length_erase_of_mem hv, Nat.cast_pred (List.length_pos_of_mem hv)]
  rw [hlength] at hrest
  rw [positives_of_perm (List.perm_cons_erase hv), positives_cons]
  exact add_le_add_right hrest _

/-- The sum of the magnitudes. -/
def magnitude (values : List ℚ) : ℚ := (values.map fun v => |v|).sum

theorem magnitude_cons (v : ℚ) (values : List ℚ) :
    magnitude (v :: values) = |v| + magnitude values := rfl

theorem magnitude_le {bound : ℚ} (hbound : ∀ v ∈ values, |v| ≤ bound) :
    magnitude values ≤ values.length * bound := by
  rw [← nsmul_eq_mul, ← List.length_map (f := fun v : ℚ => |v|), magnitude]
  refine List.sum_le_card_nsmul _ _ fun v hv => ?_
  obtain ⟨w, hw, rfl⟩ := List.mem_map.mp hv
  exact hbound w hw

theorem abs_sum_le_magnitude (values : List ℚ) : |values.sum| ≤ magnitude values := by
  simpa [magnitude] using Multiset.abs_sum_le_sum_abs (s := (values : Multiset ℚ))

/-- Adding on to a total that has room for all that comes. -/
theorem exists_foldlM_add? {total : Fixed} (htotal : total.Valid) (hscale : total.scale ≤ scale)
    (hterms : ∀ c ∈ decimals, c.Valid ∧ c.scale ≤ scale)
    (hup : (total.value + positives (decimals.map Fixed.value)) * 10 ^ scale < 2 ^ 96)
    (hdown : (negatives (decimals.map Fixed.value) - total.value) * 10 ^ scale < 2 ^ 96) :
    ∃ sum, decimals.foldlM Fixed.add? total = some sum ∧ sum.Valid ∧ sum.scale ≤ scale ∧
      sum.value = total.value + (decimals.map Fixed.value).sum := by
  induction decimals generalizing total with
  | nil => exact ⟨total, rfl, htotal, hscale, by simp⟩
  | cons c decimals ih =>
      rw [List.forall_mem_cons] at hterms
      obtain ⟨⟨hvalid, hcscale⟩, hterms⟩ := hterms
      rw [List.map_cons, positives_cons] at hup
      rw [List.map_cons, negatives_cons] at hdown
      have hunit : (0 : ℚ) < 10 ^ scale := by positivity
      have hup' : (total.value + c.value + positives (decimals.map Fixed.value)) * 10 ^ scale <
          2 ^ 96 := by
        refine lt_of_le_of_lt (mul_le_mul_of_nonneg_right ?_ hunit.le) hup
        linarith [le_max_right 0 c.value]
      have hdown' : (negatives (decimals.map Fixed.value) - (total.value + c.value)) * 10 ^ scale <
          2 ^ 96 := by
        refine lt_of_le_of_lt (mul_le_mul_of_nonneg_right ?_ hunit.le) hdown
        linarith [le_max_right 0 (-c.value)]
      have hfits : |total.value + c.value| * 10 ^ scale < 2 ^ 96 := by
        have hpositive : 0 ≤ positives (decimals.map Fixed.value) * 10 ^ scale :=
          mul_nonneg (positives_nonneg _) hunit.le
        have hnegative : 0 ≤ negatives (decimals.map Fixed.value) * 10 ^ scale :=
          mul_nonneg (positives_nonneg _) hunit.le
        rcases abs_choice (total.value + c.value) with habs | habs <;> rw [habs] <;> linarith
      obtain ⟨next, hnext, hnextValid, hnextScale, hvalue⟩ :=
        Fixed.exists_add? htotal hvalid hscale hcscale hfits
      rw [← hvalue] at hup' hdown'
      obtain ⟨sum, hsum, hsumValid, hsumScale, hsumValue⟩ :=
        ih hnextValid hnextScale hterms hup' hdown'
      refine ⟨sum, ?_, hsumValid, hsumScale, ?_⟩
      · rw [List.foldlM_cons, hnext]
        exact hsum
      · rw [hsumValue, hvalue, List.map_cons, List.sum_cons, add_assoc]

theorem mapM_eq_some {α β : Type} {f : α → Option β} {xs : List α}
    (h : ∀ x ∈ xs, (f x).isSome = true) : xs.mapM f = some (xs.filterMap f) := by
  induction xs with
  | nil => rfl
  | cons x xs ih =>
      rw [List.forall_mem_cons] at h
      obtain ⟨y, hy⟩ := Option.isSome_iff_exists.mp h.1
      rw [List.mapM_cons, hy, ih h.2, List.filterMap_cons, hy]
      rfl

/-- The decimals of numbers. -/
def decimalsOf (numbers : List Float) : List Fixed := numbers.filterMap Fixed.ofFloat?

/-- The numbers have decimals of no finer scale than this, and at this scale both the positive and
the negative ones add up to less than 96 bits. So there is room for every running total. -/
structure HaveRoom (numbers : List Float) (scale : ℕ) : Prop where
  decimal : ∀ x ∈ numbers, (Fixed.ofFloat? x).isSome = true
  scale_le : ∀ c ∈ decimalsOf numbers, c.scale ≤ scale
  positives_lt : positives ((decimalsOf numbers).map Fixed.value) * 10 ^ scale < 2 ^ 96
  negatives_lt : negatives ((decimalsOf numbers).map Fixed.value) * 10 ^ scale < 2 ^ 96

theorem valid_of_mem_decimalsOf {c : Fixed} (hc : c ∈ decimalsOf numbers) : c.Valid := by
  obtain ⟨x, -, hx⟩ := List.mem_filterMap.mp hc
  obtain ⟨s, -, hkeeps⟩ := Fixed.keeps_of_ofFloat? hx
  exact hkeeps.valid

/-- Numbers that have room have an exact total. -/
theorem HaveRoom.exists_sum (h : HaveRoom numbers scale) :
    ∃ sum, decimalSum? numbers = some sum ∧ sum.Valid ∧ sum.scale ≤ scale ∧
      sum.value = ((decimalsOf numbers).map Fixed.value).sum := by
  obtain ⟨sum, hsum, hvalid, hscale, hvalue⟩ := exists_foldlM_add? Fixed.valid_zero
    (Nat.zero_le scale) (fun c hc => ⟨valid_of_mem_decimalsOf hc, h.scale_le c hc⟩)
    (by rw [Fixed.value_zero, zero_add]; exact h.positives_lt)
    (by rw [Fixed.value_zero, sub_zero]; exact h.negatives_lt)
  refine ⟨sum, ?_, hvalid, hscale, by rw [hvalue, Fixed.value_zero, zero_add]⟩
  rw [decimalSum?, mapM_eq_some h.decimal]
  exact hsum

/-! ### Everyday numbers -/

/-- A finite number of at most `10 ^ 12`, written with at most six places. -/
structure IsEveryday (x : Float) : Prop where
  bounded : ∃ v, value? x = some v ∧ |v| ≤ 10 ^ 12
  places : ∃ s, Scientific.ofFloat? .away x = some s ∧ -6 ≤ s.exponent

theorem abs_value_le_iff {d : Number.Dyadic} {bound : ℕ} : |d.value| ≤ bound ↔
    d.mantissa * 2 ^ d.exponent.toNat ≤ bound * 2 ^ (-d.exponent).toNat := by
  rw [Dyadic.abs_value, mantissa_eq_div,
    div_le_iff₀ (by positivity)]
  exact_mod_cast Iff.rfl

theorem isEveryday_iff {x : Float} : IsEveryday x ↔
    ((Number.Dyadic.ofFloat? x).any fun d =>
        decide (d.mantissa * 2 ^ d.exponent.toNat ≤ 10 ^ 12 * 2 ^ (-d.exponent).toNat)) = true ∧
      ((Scientific.ofFloat? .away x).any fun s => decide (-6 ≤ s.exponent)) = true := by
  rw [Option.any_eq_true, Option.any_eq_true]
  simp only [decide_eq_true_iff]
  constructor
  · intro h
    obtain ⟨v, hv, hbound⟩ := h.bounded
    obtain ⟨d, hd, rfl⟩ := exists_dyadic hv
    exact ⟨⟨d, hd, abs_value_le_iff.mp (by exact_mod_cast hbound)⟩, h.places⟩
  · intro h
    obtain ⟨⟨d, hd, hbound⟩, hplaces⟩ := h
    exact ⟨⟨_, value?_of_ofFloat? hd, by exact_mod_cast abs_value_le_iff.mpr hbound⟩, hplaces⟩

instance : DecidablePred IsEveryday := fun _ => decidable_of_iff _ isEveryday_iff.symm

/-- A quotient of everyday size has at least 12 places. -/
theorem le_scale_of_isFinest {v : ℚ} {c : Fixed} (h : Fixed.IsFinest .even v Fixed.finestScale c)
    (hv : 0 ≤ v) (hle : v ≤ 2 * 10 ^ 12) : 12 ≤ c.scale := by
  by_contra hfew
  have hlt : c.scale < Fixed.finestScale := lt_of_lt_of_le (not_le.mp hfew) (by decide)
  have herror := h.le_precision hv hlt
  have hunit : (10 : ℚ) ^ c.scale ≤ 10 ^ 11 := pow_le_pow_right₀ (by norm_num) (by omega)
  have hlarge : (1 / 2 / 10 ^ 11 : ℚ) ≤ 1 / 2 / 10 ^ c.scale := by gcongr
  rw [Fixed.precision] at herror
  linarith

/-- Halfway between two hundredths nothing is lost. -/
theorem eq_of_isFinest_of_half {v : ℚ} {c : Fixed} {z : ℤ}
    (h : Fixed.IsFinest .even v Fixed.finestScale c) (hv : 0 ≤ v) (hscale : 3 ≤ c.scale)
    (hz : 100 * v + 1 / 2 = z) : (c.coefficient / 10 ^ c.scale : ℚ) = v := by
  have hwhole : v * 10 ^ c.scale = ((10 * z - 5) * 10 ^ (c.scale - 3) : ℤ) := by
    have hsplit : (10 : ℚ) ^ c.scale = 10 ^ 3 * 10 ^ (c.scale - 3) := by
      rw [← pow_add, Nat.add_sub_cancel' hscale]
    rw [hsplit]
    push_cast
    rw [← mul_assoc, ← hz]
    ring
  have hnonneg : 0 ≤ ((10 * z - 5) * 10 ^ (c.scale - 3) : ℤ) := by
    have hnonneg' : (0 : ℚ) ≤ ((10 * z - 5) * 10 ^ (c.scale - 3) : ℤ) := by
      rw [← hwhole]
      positivity
    exact_mod_cast hnonneg'
  have hnat : v * 10 ^ c.scale = ((10 * z - 5) * 10 ^ (c.scale - 3) : ℤ).toNat := by
    rw [hwhole]
    exact_mod_cast (Int.toNat_of_nonneg hnonneg).symm
  exact h.eq_of_natCast hnat

/-- A mean of few numbers that is not halfway between two hundredths is at least one part in
`10 ^ 4 * count` away from there. -/
theorem one_le_abs_half_sub {v : ℚ} {n count : ℕ} (hv : v * (10 ^ 6 * count) = n) (hpos : 0 < count)
    (hcount : count ≤ 5000) (hhalf : ¬ ∃ z : ℤ, 100 * v + 1 / 2 = z) (z : ℤ) :
    1 ≤ |100 * v + 1 / 2 - z| * (10 ^ 4 * 5000) := by
  have hcount' : (0 : ℚ) < count := by exact_mod_cast hpos
  have hcount'' : (count : ℚ) ≤ 5000 := by exact_mod_cast hcount
  have hwhole : (100 * v + 1 / 2 - z) * (10 ^ 4 * count) =
      (n + 5000 * count - 10 ^ 4 * count * z : ℤ) := by
    push_cast
    rw [← hv]
    ring
  have hne : (n + 5000 * count - 10 ^ 4 * count * z : ℤ) ≠ 0 := by
    intro hzero
    rw [hzero, Int.cast_zero, mul_eq_zero, sub_eq_zero] at hwhole
    exact hhalf ⟨z, hwhole.resolve_right (by positivity)⟩
  have hfactor : (0 : ℚ) < 10 ^ 4 * count := by positivity
  have hone : (1 : ℚ) ≤ |100 * v + 1 / 2 - z| * (10 ^ 4 * count) := by
    rw [← abs_of_pos hfactor, ← abs_mul, hwhole]
    exact_mod_cast Int.one_le_abs hne
  refine hone.trans ?_
  gcongr

/-- Rounding such a quotient of few numbers to two places does not depend on the places that are
lost: it is halfway between two hundredths, and then exact, or far enough from halfway. -/
theorem round_eq_of_isFinest {v : ℚ} {c : Fixed} {n count : ℕ}
    (h : Fixed.IsFinest .even v Fixed.finestScale c) (hv : v * (10 ^ 6 * count) = n)
    (hpos : 0 < count) (hcount : count ≤ 5000) (hle : v ≤ 2 * 10 ^ 12) :
    round (100 * (c.coefficient / 10 ^ c.scale : ℚ)) = round (100 * v) := by
  have hfactor : (0 : ℚ) < 10 ^ 6 * count := by positivity
  have hnonneg : 0 ≤ v := by
    refine nonneg_of_mul_nonneg_left ?_ hfactor
    rw [hv]
    exact Nat.cast_nonneg n
  have hscale := le_scale_of_isFinest h hnonneg hle
  by_cases hhalf : ∃ z : ℤ, 100 * v + 1 / 2 = z
  · obtain ⟨z, hz⟩ := hhalf
    rw [eq_of_isFinest_of_half h hnonneg (by omega) hz]
  · have hunit : (10 : ℚ) ^ 12 ≤ 10 ^ c.scale := pow_le_pow_right₀ (by norm_num) hscale
    have hsmall : (1 / 2 / 10 ^ c.scale : ℚ) ≤ 1 / 2 / 10 ^ 12 := by gcongr
    have hnear := abs_le.mp ((h.abs_sub_le hnonneg).trans hsmall)
    rw [round_eq, round_eq, Int.floor_eq_iff]
    have hlow := Int.floor_le (100 * v + 1 / 2)
    have hhigh := Int.lt_floor_add_one (100 * v + 1 / 2)
    have hgapLow := one_le_abs_half_sub hv hpos hcount hhalf ⌊100 * v + 1 / 2⌋
    have hgapHigh := one_le_abs_half_sub hv hpos hcount hhalf (⌊100 * v + 1 / 2⌋ + 1)
    rw [abs_of_nonneg (by linarith)] at hgapLow
    rw [abs_of_neg (by push_cast; linarith)] at hgapHigh
    push_cast at hgapHigh
    constructor <;> linarith

/-- An everyday number has its written decimal, of at most six places. -/
theorem IsEveryday.exists_decimal {x : Float} (h : IsEveryday x) : ∃ c, Fixed.ofFloat? x = some c ∧
    (c.Valid ∧ c.scale ≤ 6) ∧ c.value = written x ∧ |written x| ≤ 2 * 10 ^ 12 := by
  obtain ⟨v, hv, hbound⟩ := h.bounded
  obtain ⟨s, hs, hplaces⟩ := h.places
  have hwritten : written x = s.value := by
    rw [written, hs]
    rfl
  have hsmall : |written x| ≤ 2 * 10 ^ 12 := by
    have habs := (rounds_written hv).abs_le hv
    linarith
  rcases Fixed.ofFloat?_cases hv with ⟨-, hgreat⟩ | ⟨s', c, hs', hc, hkeeps⟩
  · linarith
  · obtain rfl := Option.some.inj (hs.symm.trans hs')
    have hscale : c.scale ≤ 6 := by
      have := hkeeps.scale_le
      omega
    refine ⟨c, hc, ⟨hkeeps.valid, hscale⟩, ?_, hsmall⟩
    rw [hkeeps.value_eq, hwritten]
    -- Six places are less than 28.
    have hwhole : |s.value| * 10 ^ 28 = (s.digits * 10 ^ (s.exponent + 28).toNat : ℕ) := by
      have hpower : ((10 : ℚ) ^ (s.exponent + 28).toNat) = 10 ^ s.exponent * 10 ^ 28 := by
        rw [← zpow_natCast, Int.toNat_of_nonneg (by omega), zpow_add₀ (by norm_num)]
        norm_num
      rw [Scientific.abs_value]
      push_cast
      rw [hpower, mul_assoc]
    exact toFinest_of_natCast hwhole

theorem abs_written_le (h : ∀ x ∈ numbers, IsEveryday x) :
    ∀ v ∈ numbers.map written, |v| ≤ 2 * 10 ^ 12 := by
  intro v hv
  obtain ⟨x, hx, rfl⟩ := List.mem_map.mp hv
  obtain ⟨-, -, -, -, hbound⟩ := (h x hx).exists_decimal
  exact hbound

theorem map_value_decimalsOf (h : ∀ x ∈ numbers, IsEveryday x) :
    (decimalsOf numbers).map Fixed.value = numbers.map written := by
  rw [decimalsOf, List.map_filterMap, ← List.filterMap_eq_map]
  refine List.filterMap_congr fun x hx => ?_
  obtain ⟨c, hc, -, hvalue, -⟩ := (h x hx).exists_decimal
  rw [hc, Option.map_some, hvalue]
  rfl

/-- Everyday numbers have room. -/
theorem haveRoom_of_everyday (hlength : numbers.length ≤ 5000) (h : ∀ x ∈ numbers, IsEveryday x) :
    HaveRoom numbers 6 := by
  have hlength' : (numbers.length : ℚ) ≤ 5000 := by exact_mod_cast hlength
  have hpositives := positives_le (by norm_num) fun v hv =>
    (le_abs_self v).trans (abs_written_le h v hv)
  have hnegatives := negatives_le (by norm_num) fun v hv =>
    (neg_le_abs v).trans (abs_written_le h v hv)
  rw [List.length_map] at hpositives hnegatives
  refine ⟨fun x hx => ?_, fun c hc => ?_, ?_, ?_⟩
  · obtain ⟨c, hc, -⟩ := (h x hx).exists_decimal
    rw [hc, Option.isSome_some]
  · obtain ⟨x, hx, hxc⟩ := List.mem_filterMap.mp hc
    obtain ⟨c', hc', hvalid, -⟩ := (h x hx).exists_decimal
    obtain rfl := Option.some.inj (hxc.symm.trans hc')
    exact hvalid.2
  · rw [map_value_decimalsOf h]
    norm_num
    linarith
  · rw [map_value_decimalsOf h]
    norm_num
    linarith

theorem exists_sum_of_everyday (hlength : numbers.length ≤ 5000) (h : ∀ x ∈ numbers, IsEveryday x) :
    ∃ sum, decimalSum? numbers = some sum ∧ sum.Valid ∧ sum.scale ≤ 6 ∧
      sum.value = (numbers.map written).sum := by
  rw [← map_value_decimalsOf h]
  exact (haveRoom_of_everyday hlength h).exists_sum

theorem rounds_roundedSum (hlength : numbers.length ≤ 5000) (h : ∀ x ∈ numbers, IsEveryday x) :
    Rounds (hundredths (numbers.map written).sum) (roundedSum numbers) := by
  obtain ⟨sum, hsum, hvalid, -, hvalue⟩ := exists_sum_of_everyday hlength h
  have hrounds := Fixed.rounds_toFloat (Fixed.valid_toHundredths hvalid)
  rw [Fixed.value_toHundredths, hvalue] at hrounds
  rwa [roundedSum, hsum]

theorem roundedMean_of_some {sum mean : Fixed} (hne : numbers ≠ [])
    (hsum : decimalSum? numbers = some sum) (hmean : sum.div? numbers.length = some mean) :
    roundedMean numbers = mean.toHundredths.toFloat := by
  have hempty : numbers.isEmpty = false := by
    rw [List.isEmpty_eq_false_iff]
    exact hne
  rw [roundedMean, hempty, hsum, Option.bind_some, hmean]
  rfl

theorem rounds_roundedMean (hne : numbers ≠ []) (hlength : numbers.length ≤ 5000)
    (h : ∀ x ∈ numbers, IsEveryday x) :
    Rounds (hundredths ((numbers.map written).sum / numbers.length)) (roundedMean numbers) := by
  obtain ⟨sum, hsum, hvalid, hscale, hvalue⟩ := exists_sum_of_everyday hlength h
  have hpos : 0 < numbers.length := List.length_pos_iff.mpr hne
  rw [← hvalue]
  rcases Fixed.div?_cases hvalid hpos with ⟨hzero, hdiv⟩ | ⟨-, c, hdiv, hfinest, hsign⟩
  · have hrounds := Fixed.rounds_toFloat (Fixed.valid_toHundredths Fixed.valid_zero)
    rw [Fixed.value_toHundredths, Fixed.value_zero] at hrounds
    rw [hzero, zero_div, roundedMean_of_some hne hsum hdiv]
    exact hrounds
  · have hrounds := Fixed.rounds_toFloat (Fixed.valid_toHundredths (hfinest.valid le_rfl))
    have hcount : (0 : ℚ) < numbers.length := by exact_mod_cast hpos
    have hmean : |sum.value| / numbers.length ≤ 2 * 10 ^ 12 := by
      have hbound := (abs_sum_le_magnitude _).trans (magnitude_le (abs_written_le h))
      rw [List.length_map, ← hvalue] at hbound
      rw [div_le_iff₀ hcount]
      linarith
    have hwhole : |sum.value| / numbers.length * (10 ^ 6 * numbers.length) =
        (sum.coefficient * 10 ^ (6 - sum.scale) : ℕ) := by
      have hsplit : (10 : ℚ) ^ 6 = 10 ^ sum.scale * 10 ^ (6 - sum.scale) := by
        rw [← pow_add, Nat.add_sub_cancel' hscale]
      rw [Fixed.abs_value, hsplit]
      push_cast
      field_simp
    have hround := round_eq_of_isFinest hfinest hwhole hpos hlength hmean
    have hquotient : signed (decide (sum.value < 0)) (|sum.value| / numbers.length) =
        sum.value / numbers.length := by
      rw [← signed_div, signed_decide_abs]
    rw [Fixed.value_toHundredths, Fixed.value_eq hsign, hundredths_signed _ (by positivity), hround,
      ← hundredths_signed _ (by positivity), hquotient] at hrounds
    rw [roundedMean_of_some hne hsum hdiv]
    exact hrounds

/-! ### Sums and means -/

theorem Aggregate.sum_of (numbers : List Float) :
    sum.of (numbers.map .number) = roundedSum numbers := by
  rw [of, filterMap_number?]

theorem Aggregate.avg_of (numbers : List Float) :
    avg.of (numbers.map .number) = roundedMean numbers := by
  rw [of, filterMap_number?]

theorem beq_of_rounds {v : ℚ} {x y : Float} (hx : Rounds v x) (hy : Rounds v y) :
    (Scalar.number x == Scalar.number y) = true := by
  change (identity x == identity y) = true
  exact beq_iff_eq.mpr (identity_eq_of_rounds hx hy)

/-- Sum and mean of up to five thousand everyday numbers are the doubles nearest to the exact sum
and mean of the numbers as written, rounded to two places. So the order does not matter. -/
theorem sum_and_mean_of_everyday (hne : numbers ≠ []) (hlength : numbers.length ≤ 5000)
    (h : ∀ x ∈ numbers, IsEveryday x) :
    IsNearest (hundredths (numbers.map written).sum) (Aggregate.sum.of (numbers.map .number)) ∧
      IsNearest (hundredths ((numbers.map written).sum / numbers.length))
        (Aggregate.avg.of (numbers.map .number)) ∧
      ∀ others, numbers.Perm others → ∀ a ∈ [Aggregate.sum, Aggregate.avg],
        (Scalar.number (a.of (others.map .number)) ==
          Scalar.number (a.of (numbers.map .number))) = true := by
  have hsum := rounds_roundedSum hlength h
  have hmean := rounds_roundedMean hne hlength h
  rw [Aggregate.sum_of, Aggregate.avg_of]
  refine ⟨hsum.isNearest, hmean.isNearest, fun others hperm a ha => ?_⟩
  have hothers : ∀ x ∈ others, IsEveryday x := fun x hx => h x (hperm.mem_iff.mpr hx)
  have hlengths := hperm.length_eq
  have htotal : (others.map written).sum = (numbers.map written).sum :=
    (hperm.map written).sum_eq.symm
  have hnonempty : others ≠ [] := by
    rintro rfl
    exact hne (List.perm_nil.mp hperm)
  have hsum' := rounds_roundedSum (hlengths ▸ hlength) hothers
  have hmean' := rounds_roundedMean hnonempty (hlengths ▸ hlength) hothers
  rw [htotal] at hsum'
  rw [htotal, ← hlengths] at hmean'
  rcases List.mem_pair.mp ha with rfl | rfl
  · rw [Aggregate.sum_of, Aggregate.sum_of]
    exact beq_of_rounds hsum' hsum
  · rw [Aggregate.avg_of, Aggregate.avg_of]
    exact beq_of_rounds hmean' hmean

/-- Their sum lies halfway between two hundredths, and their mean has no last digit. -/
def samplePrices : List Float := [1.005, 2.005, 0.015]

theorem sum_and_mean_of_samplePrices :
    samplePrices ≠ [] ∧ samplePrices.length ≤ 5000 ∧ (∀ x ∈ samplePrices, IsEveryday x) ∧
      (IsNearest (hundredths (samplePrices.map written).sum)
          (Aggregate.sum.of (samplePrices.map .number)) ∧
        IsNearest (hundredths ((samplePrices.map written).sum / samplePrices.length))
          (Aggregate.avg.of (samplePrices.map .number)) ∧
        ∀ others, samplePrices.Perm others → ∀ a ∈ [Aggregate.sum, Aggregate.avg],
          (Scalar.number (a.of (others.map .number)) ==
            Scalar.number (a.of (samplePrices.map .number))) = true) ∧
      (Aggregate.sum.of (samplePrices.map .number) == 3.03) = true ∧
      (Aggregate.avg.of (samplePrices.map .number) == 1.01) = true := by
  have hne : samplePrices ≠ [] := by decide
  have hlength : samplePrices.length ≤ 5000 := by decide
  have heveryday : ∀ x ∈ samplePrices, IsEveryday x := by decide +kernel
  exact ⟨hne, hlength, heveryday, sum_and_mean_of_everyday hne hlength heveryday,
    by decide +kernel, by decide +kernel⟩

end Campus
