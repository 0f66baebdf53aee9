import Campus.Proofs.Grouping.DecimalMean

/-!
# Means that drift

A total that leaves no room for places is rounded to an integer with every term that is added to it
(`exists_add?_of_full`). If the terms are all the same, so are the errors, and they add up
(`exists_foldlM_replicate`). So the mean of very many equal numbers exceeds them by more than
rounding to hundredths does (`exists_mean_of_crowd`).
-/

namespace Campus

open Number

variable {start c : Fixed} {whole k : ℕ} {rest : ℚ}

/-- A sum without room for a place is rounded to an integer. -/
theorem exists_add?_of_full (hstart : start.Valid) (hc : c.Valid) (hvalue : start.value = k)
    (hk : 0 < k) (hpos : 0 < c.value) (hfull : 2 ^ 96 ≤ (k + c.value) * 10)
    (hfits : k + c.value ≤ 2 ^ 96 - 1) :
    ∃ next, start.add? c = some next ∧ next.Valid ∧
      next.value = Tie.even.nearest (k + c.value) := by
  have hnonneg : 0 ≤ k + c.value := add_nonneg (Nat.cast_nonneg k) hpos.le
  cases hadd : start.add? c with
  | none =>
      have hgreat := Fixed.le_of_add?_eq_none hadd
      rw [hvalue, abs_of_nonneg hnonneg] at hgreat
      linarith
  | some next =>
      rcases Fixed.add?_cases start c with ⟨hzero, -⟩ | ⟨hzero, -⟩ | ⟨-, -, n, hn, hcase⟩
      · rw [Fixed.value_eq_zero_iff.mpr hzero, eq_comm, Nat.cast_eq_zero] at hvalue
        omega
      · exact absurd (Fixed.value_eq_zero_iff.mpr hzero) hpos.ne'
      · rw [hadd] at hcase
        obtain ⟨hfinest, hsign⟩ := Fixed.isFinest_of_nearest? (ten_pow_pos _) hcase.symm
        rw [hn, hvalue, abs_of_nonneg hnonneg] at hfinest
        rw [hvalue, decide_eq_false (not_lt.mpr hnonneg)] at hsign
        have hscale : next.scale = 0 := by
          by_contra hne
          have hten : (10 : ℚ) ^ 1 ≤ 10 ^ next.scale :=
            pow_le_pow_right₀ (by norm_num) (Nat.one_le_iff_ne_zero.mpr hne)
          have hscaled : (k + c.value) * 10 ^ 1 ≤ (k + c.value) * 10 ^ next.scale := by gcongr
          have hmany : Fixed.coefficientBound ≤
              Tie.even.nearest ((k + c.value) * 10 ^ next.scale) := by
            refine Tie.even.le_nearest (by positivity) (le_trans ?_ hscaled)
            rw [pow_one]
            exact_mod_cast hfull
          rw [← hfinest.coefficient_eq] at hmany
          exact absurd hfinest.coefficient_lt (not_lt.mpr hmany)
        refine ⟨next, rfl, hfinest.valid (max_le hstart.scale_le hc.scale_le), ?_⟩
        rw [Fixed.value_eq hsign, hfinest.coefficient_eq, hscale, pow_zero, mul_one, div_one]
        rfl

/-- Each term that is added counts as the next integer. -/
theorem exists_foldlM_replicate (hc : c.Valid) (hvalue : c.value = whole + rest)
    (hlow : 1 / 2 < rest) (hhigh : rest ≤ 1) (j : ℕ) (hstart : start.Valid)
    (hk : start.value = k) (hpos : 0 < k) (hfull : 2 ^ 96 ≤ (k + c.value) * 10)
    (hfits : k + j * (whole + 1) < 2 ^ 96) :
    ∃ total, (List.replicate j c).foldlM Fixed.add? start = some total ∧ total.Valid ∧
      total.value = (k + j * (whole + 1) : ℕ) := by
  induction j generalizing start k with
  | zero => exact ⟨start, rfl, hstart, by rw [hk, Nat.zero_mul, Nat.add_zero]⟩
  | succ j ih =>
      have hmore : k + (whole + 1) + j * (whole + 1) < 2 ^ 96 := by
        rw [Nat.succ_mul] at hfits
        omega
      have hsum : k + c.value = (k + whole : ℕ) + rest := by
        rw [hvalue]
        push_cast
        ring
      have hterm : 0 < c.value := by
        rw [hvalue]
        linarith [Nat.cast_nonneg (α := ℚ) whole]
      have hnextFits : k + c.value ≤ 2 ^ 96 - 1 := by
        have hlt : ((k + whole + 1 : ℕ) : ℚ) ≤ (2 ^ 96 - 1 : ℕ) := by
          exact_mod_cast (show k + whole + 1 ≤ 2 ^ 96 - 1 by
            have := Nat.zero_le (j * (whole + 1))
            omega)
        rw [hsum]
        push_cast at hlt ⊢
        norm_num at hlt ⊢
        linarith
      obtain ⟨next, hnext, hnextValid, hnextValue⟩ :=
        exists_add?_of_full hstart hc hk hpos hterm hfull hnextFits
      rw [hsum, Tie.nearest_natCast_add .even hlow hhigh, Nat.add_assoc] at hnextValue
      have hnextFull : 2 ^ 96 ≤ ((k + (whole + 1) : ℕ) + c.value) * 10 := by
        push_cast
        linarith [Nat.cast_nonneg (α := ℚ) whole]
      obtain ⟨total, htotal, hvalid, htotalValue⟩ :=
        ih hnextValid hnextValue (by omega) hnextFull hmore
      refine ⟨total, ?_, hvalid, ?_⟩
      · rw [List.replicate_succ, List.foldlM_cons, hnext]
        exact htotal
      · rw [htotalValue, Nat.succ_mul]
        congr 1
        omega

/-- As many equal numbers as there is room for, and then more of them. -/
theorem exists_total_of_replicate {x : Float} {first : ℕ} (hx : Fixed.ofFloat? x = some c)
    (hvalue : c.value = whole + rest) (hlow : 1 / 2 < rest) (hhigh : rest ≤ 1)
    (hfirst : first * c.value = k) (hpos : 0 < k) (hroom : (k * 10 ^ c.scale : ℚ) < 2 ^ 96)
    (hfull : 2 ^ 96 ≤ (k + c.value) * 10) (j : ℕ) (hfits : k + j * (whole + 1) < 2 ^ 96) :
    ∃ total, decimalSum? (List.replicate (first + j) x) = some total ∧ total.Valid ∧
      total.value = (k + j * (whole + 1) : ℕ) := by
  obtain ⟨s, -, hkeeps⟩ := Fixed.keeps_of_ofFloat? hx
  have hnonneg : 0 ≤ c.value := by
    rw [hvalue]
    linarith [Nat.cast_nonneg (α := ℚ) whole]
  have hpositives : positives ((List.replicate first c).map Fixed.value) = k := by
    rw [positives, List.map_map, List.map_replicate, List.sum_replicate, nsmul_eq_mul, ← hfirst,
      Function.comp_apply, max_eq_right hnonneg]
  have hnegatives : negatives ((List.replicate first c).map Fixed.value) = 0 := by
    rw [negatives, positives, List.map_map, List.map_map, List.map_replicate, List.sum_replicate,
      Function.comp_apply, Function.comp_apply, max_eq_left (neg_nonpos.mpr hnonneg), smul_zero]
  have hsum : ((List.replicate first c).map Fixed.value).sum = k := by
    rw [List.map_replicate, List.sum_replicate, nsmul_eq_mul, hfirst]
  have hterms : ∀ d ∈ List.replicate first c, d.Valid ∧ d.scale ≤ c.scale := by
    intro d hd
    rw [(List.mem_replicate.mp hd).2]
    exact ⟨hkeeps.valid, le_rfl⟩
  obtain ⟨exact, hexact, hexactValid, -, hexactValue⟩ := exists_foldlM_add? Fixed.valid_zero
    (Nat.zero_le c.scale) hterms
    (by rwa [Fixed.value_zero, zero_add, hpositives])
    (by rw [hnegatives, Fixed.value_zero, sub_zero, zero_mul]; positivity)
  rw [Fixed.value_zero, zero_add, hsum] at hexactValue
  obtain ⟨total, htotal, hvalid, htotalValue⟩ := exists_foldlM_replicate hkeeps.valid hvalue hlow
    hhigh j hexactValid hexactValue hpos hfull hfits
  refine ⟨total, ?_, hvalid, htotalValue⟩
  have hsome : ∀ y ∈ List.replicate (first + j) x, (Fixed.ofFloat? y).isSome = true := by
    intro y hy
    rw [(List.mem_replicate.mp hy).2, hx, Option.isSome_some]
  rw [decimalSum?, mapM_eq_some hsome, Option.bind_some, Fixed.sum?,
    List.filterMap_replicate_of_some hx, List.replicate_add, List.foldlM_append, hexact]
  exact htotal

/-- A number that is written with the place 8. -/
def crowdNumber : Float := 2251799813683456.75

theorem value?_crowdNumber : value? crowdNumber = some (2251799813683456 + 3 / 4) := by
  have hparts : Dyadic.ofFloat? crowdNumber = some ⟨false, 9007199254733827, -2⟩ := by
    decide +kernel
  rw [value?_of_ofFloat? hparts]
  norm_num [Number.Dyadic.value, signed]

/-- Up to the first fifth of so many of them there is room for the place. -/
def crowdSize : ℕ := 17592186044425

theorem exists_total_of_crowd : ∃ total,
    decimalSum? (List.replicate crowdSize crowdNumber) = some total ∧ total.Valid ∧
      total.value / crowdSize = 2251799813683456 + 96 / 100 := by
  have hdecimal : Fixed.ofFloat? crowdNumber = some ⟨false, 22517998136834568, 1⟩ := by
    decide +kernel
  have hvalue : Fixed.value ⟨false, 22517998136834568, 1⟩ =
      (2251799813683456 : ℕ) + (8 / 10 : ℚ) := by
    norm_num [Fixed.value, signed]
  have hfirst : (3518437208885 : ℕ) * Fixed.value ⟨false, 22517998136834568, 1⟩ =
      (7922816251424184774290473668 : ℕ) := by
    rw [hvalue]
    norm_num
  obtain ⟨total, htotal, hvalid, htotalValue⟩ := exists_total_of_replicate hdecimal hvalue
    (by norm_num) (by norm_num) hfirst (by norm_num) (by norm_num) (by rw [hvalue]; norm_num)
    14073748835540 (by norm_num)
  refine ⟨total, htotal, hvalid, ?_⟩
  rw [htotalValue, crowdSize]
  norm_num

/-- Their mean is near to the next integer. -/
theorem exists_mean_of_crowd :
    ∃ mean, value? (roundedMean (List.replicate crowdSize crowdNumber)) = some mean ∧
      2251799813683456 + 9 / 10 ≤ mean := by
  obtain ⟨total, htotal, hvalid, hquotient⟩ := exists_total_of_crowd
  have hlength : (List.replicate crowdSize crowdNumber).length = crowdSize := List.length_replicate
  have hcount : 0 < crowdSize := by norm_num [crowdSize]
  have hne : List.replicate crowdSize crowdNumber ≠ [] := by
    rwa [← List.length_pos_iff, hlength]
  obtain ⟨mean, hmean⟩ := Fixed.exists_div? hvalid hcount
  obtain ⟨hmeanValid, scale, -, -, herror, hunit⟩ := isQuotient_of_div? hvalid hcount hmean
  rw [hquotient] at herror hunit
  have hsmall : 1 / 2 / 10 ^ scale ≤ (1 / 1000 : ℚ) := by
    rcases hunit with rfl | hunit
    · norm_num
    · refine hunit.trans ?_
      rw [Fixed.precision]
      norm_num
  have hnear := (abs_le.mp (herror.trans hsmall)).1
  have hhundredths := (abs_le.mp (abs_hundredths_sub_le mean.value)).1
  have hrounds := Fixed.rounds_toFloat (Fixed.valid_toHundredths hmeanValid)
  rw [← hlength] at hmean
  rw [Fixed.value_toHundredths, ← roundedMean_of_some hne htotal hmean] at hrounds
  obtain ⟨w, hw⟩ := exists_value hrounds.isFinite
  -- The next integer is a double, and not farther away than the mean is.
  have hnext : value? 2251799813683457 = some ((2251799813683457 : ℤ) : ℚ) :=
    integer?_eq_some_iff.mp (by decide +kernel)
  have hnearest := hrounds.abs_sub_le_abs_sub hw hnext
  refine ⟨w, hw, ?_⟩
  rw [Int.cast_ofNat] at hnearest
  rcases abs_cases (hundredths mean.value - 2251799813683457) with ⟨heq, -⟩ | ⟨heq, -⟩ <;>
      rw [heq] at hnearest <;> linarith [le_abs_self (hundredths mean.value - w)]

end Campus
