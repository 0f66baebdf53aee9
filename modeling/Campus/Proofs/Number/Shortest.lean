import Campus.Proofs.Number.Reading

/-!
# The shortest decimal of a finite double

Seventeen digits are enough: on a grid that is so fine, one of the two grid points next to a double
lies in its neighbourhood, so the search for the shortest decimal has a hit, and a hit lies in the
neighbourhood (`contains_shortest`). What lies there is read as the double, so a double is written
as a decimal that is read as the same double.

* `Scientific.toFloat_eq_of_ofFloat?` — every decimal with the sign and the value of the shortest
  one is read as the double.
-/

namespace Campus.Number

open Float.Model (Format UnpackedFloat)
open Float.Model.UnpackedFloat

variable {tie : Tie} {mantissa digits : ℕ} {exponent power grid : ℤ} {n : Neighbourhood}

/-! ### Hits -/

theorem roundDiv_eq (tie : Tie) (num den : ℕ) :
    roundDiv tie num den = num / den ∨ roundDiv tie num den = num / den + 1 := by
  unfold roundDiv
  dsimp only
  split
  · exact .inl rfl
  · split
    · exact .inr rfl
    · cases tie with
      | even =>
          rcases Nat.mod_two_eq_zero_or_one (num / den) with h | h
          · exact .inl (by simp [h])
          · exact .inr (by simp [h])
      | away => exact .inr rfl

theorem gridRatio_pos (power grid : ℤ) : 0 < (gridRatio power grid).2 := by
  simp only [gridRatio, Nat.pow_eq]
  positivity

/-- The two sides of a grid ratio have one unit. -/
theorem exists_unit (power grid : ℤ) : ∃ c : ℚ, 0 < c ∧
    (2 : ℚ) ^ power = (gridRatio power grid).1 * c ∧
    (10 : ℚ) ^ grid = (gridRatio power grid).2 * c := by
  have hsplit : ∀ (b : ℚ) (k : ℤ), 0 < b → b ^ k.toNat = b ^ (-k).toNat * b ^ k := by
    intro b k hb
    rw [← zpow_natCast, ← zpow_natCast, ← zpow_add₀ hb.ne']
    congr 1
    omega
  have hstep : (0 : ℚ) < (gridRatio power grid).2 := by exact_mod_cast gridRatio_pos power grid
  refine ⟨10 ^ grid / (gridRatio power grid).2, by positivity, ?_, ?_⟩
  · rw [← mul_div_assoc, eq_div_iff hstep.ne']
    simp only [gridRatio, Nat.pow_eq]
    push_cast
    rw [hsplit 2 power (by norm_num), hsplit 10 grid (by norm_num)]
    ring
  · rw [← mul_div_assoc, mul_div_cancel_left₀ _ hstep.ne']

/-- Whether a grid point lies in a neighbourhood is decided without fractions. -/
theorem contains_grid_iff :
    n.Contains (digits * 10 ^ grid) ↔
      (if n.closed = true then
        decide (n.low * (gridRatio n.power grid).1 ≤ digits * (gridRatio n.power grid).2) &&
          decide (digits * (gridRatio n.power grid).2 ≤ n.high * (gridRatio n.power grid).1)
      else
        decide (n.low * (gridRatio n.power grid).1 < digits * (gridRatio n.power grid).2) &&
          decide (digits * (gridRatio n.power grid).2 < n.high * (gridRatio n.power grid).1)) =
        true := by
  obtain ⟨c, hc, htwo, hten⟩ := exists_unit n.power grid
  unfold Neighbourhood.Contains
  rw [htwo, hten]
  simp only [← mul_assoc, mul_le_mul_iff_left₀ hc, mul_lt_mul_iff_left₀ hc]
  split
  · simp only [Bool.and_eq_true, decide_eq_true_eq]
    norm_cast
  · simp only [Bool.and_eq_true, decide_eq_true_eq]
    norm_cast

/-- A hit lies in the neighbourhood. -/
theorem Neighbourhood.contains_of_onGrid? (h : n.onGrid? tie grid = some digits) :
    n.Contains (digits * 10 ^ grid) := by
  unfold onGrid? at h
  dsimp only at h
  split at h
  · next hbelow habove =>
    cases h
    rcases roundDiv_eq tie (n.center * (gridRatio n.power grid).1) (gridRatio n.power grid).2
      with heq | heq
    · rw [heq]
      exact contains_grid_iff.mpr hbelow
    · rw [heq]
      exact contains_grid_iff.mpr habove
  · next hbelow habove =>
    cases h
    exact contains_grid_iff.mpr hbelow
  · next hbelow habove =>
    cases h
    exact contains_grid_iff.mpr habove
  · cases h

/-- Without a hit, neither of the two grid points next to the center lies in the neighbourhood. -/
theorem Neighbourhood.exists_of_onGrid?_eq_none (h : n.onGrid? tie grid = none) :
    ∃ below : ℕ, below * 10 ^ grid ≤ (n.center * 2 ^ n.power : ℚ) ∧
      (n.center * 2 ^ n.power : ℚ) < (below + 1 : ℕ) * 10 ^ grid ∧
      ¬ n.Contains (below * 10 ^ grid) ∧ ¬ n.Contains ((below + 1 : ℕ) * 10 ^ grid) := by
  have hstep := gridRatio_pos n.power grid
  obtain ⟨c, hc, htwo, hten⟩ := exists_unit n.power grid
  refine ⟨n.center * (gridRatio n.power grid).1 / (gridRatio n.power grid).2, ?_, ?_, ?_⟩
  · rw [htwo, hten, ← mul_assoc, ← mul_assoc, mul_le_mul_iff_left₀ hc]
    exact_mod_cast Nat.div_mul_le_self _ _
  · have hlt := Nat.lt_mul_div_succ (n.center * (gridRatio n.power grid).1) hstep
    rw [Nat.mul_comm (gridRatio n.power grid).2] at hlt
    rw [htwo, hten, ← mul_assoc, ← mul_assoc, mul_lt_mul_iff_left₀ hc]
    exact_mod_cast hlt
  · rw [contains_grid_iff, contains_grid_iff, Bool.not_eq_true, Bool.not_eq_true]
    unfold onGrid? at h
    dsimp only at h
    split at h
    · cases h
    · cases h
    · cases h
    · next hbelow habove => exact ⟨hbelow, habove⟩

/-- A search that comes to a grid with a hit ends with a hit. -/
theorem onGrid?_searchGrids {steps k : ℕ} (hk : k < steps)
    (h : n.onGrid? tie (grid - k) ≠ none) :
    n.onGrid? tie (searchGrids tie n steps grid).2 = some (searchGrids tie n steps grid).1 := by
  induction steps generalizing grid k with
  | zero => omega
  | succ steps ih =>
      unfold searchGrids
      split
      · next hhit => exact hhit
      · next hnone =>
        cases k with
        | zero => exact absurd (by simpa using hnone) h
        | succ k =>
            refine ih (k := k) (by omega) ?_
            rwa [sub_sub, add_comm 1, ← Nat.cast_succ]

/-- A search does not go beyond a grid with a hit. -/
theorem le_searchGrids {steps k : ℕ} (hk : k < steps) (h : n.onGrid? tie (grid - k) ≠ none) :
    grid - k ≤ (searchGrids tie n steps grid).2 := by
  induction steps generalizing grid k with
  | zero => omega
  | succ steps ih =>
      unfold searchGrids
      split
      · exact sub_le_self _ (Nat.cast_nonneg _)
      · next hnone =>
        cases k with
        | zero => exact absurd (by simpa using hnone) h
        | succ k =>
            have hstep : grid - (k + 1 : ℕ) = grid - 1 - k := by omega
            rw [hstep] at h ⊢
            exact ih (by omega) h

/-! ### Enough digits -/

theorem pow_digitCount_le {m : ℕ} (h : 0 < m) : 10 ^ (digitCount m - 1) ≤ m := by
  rw [digitCount, if_neg h.ne']
  by_cases hone : (Nat.toDigits 10 m).length = 1
  · rw [hone]
    exact h
  · have hpos := Nat.length_toDigits_pos (b := 10) (n := m)
    have hlong : ¬ (Nat.toDigits 10 m).length ≤ (Nat.toDigits 10 m).length - 1 := by omega
    rw [Nat.length_toDigits_le_iff (by decide) (by omega)] at hlong
    exact Nat.le_of_not_lt hlong

theorem lt_pow_digitCount (m : ℕ) : m < 10 ^ digitCount m := by
  unfold digitCount
  split
  · next hzero => simp [hzero]
  · exact (Nat.length_toDigits_le_iff (by decide) Nat.length_toDigits_pos).mp le_rfl

/-- A double as a fraction of integers. -/
theorem mantissa_eq_div (mantissa : ℕ) (exponent : ℤ) : (mantissa * 2 ^ exponent : ℚ) =
    (mantissa * 2 ^ exponent.toNat : ℕ) / (2 ^ (-exponent).toNat : ℕ) := by
  have hpower : (2 : ℚ) ^ exponent * 2 ^ (-exponent).toNat = 2 ^ exponent.toNat := by
    rw [← zpow_natCast, ← zpow_natCast, ← zpow_add₀ (by norm_num)]
    congr 1
    omega
  rw [eq_div_iff (by positivity)]
  push_cast
  rw [mul_assoc, hpower]

/-- The power of ten below the ceiling is not above the double. -/
theorem le_of_decimalCeiling (hpos : 0 < mantissa) (exponent : ℤ) :
    (10 : ℚ) ^ (decimalCeiling mantissa exponent - 1) ≤ mantissa * 2 ^ exponent := by
  have hnum : 0 < mantissa * 2 ^ exponent.toNat := by positivity
  have hden : 0 < 2 ^ (-exponent).toNat := by positivity
  rw [mantissa_eq_div]
  simp only [decimalCeiling, Nat.pow_eq]
  generalize mantissa * 2 ^ exponent.toNat = num at hnum ⊢
  generalize 2 ^ (-exponent).toNat = den at hden ⊢
  have hden' : (0 : ℚ) < den := by exact_mod_cast hden
  split
  · next hle =>
    have hquotient : 0 < num / den := Nat.div_pos hle hden
    have hcount : 0 < digitCount (num / den) := by
      rw [digitCount, if_neg hquotient.ne']
      exact Nat.length_toDigits_pos
    have hpower : ((digitCount (num / den) : ℤ) - 1) = (digitCount (num / den) - 1 : ℕ) := by
      omega
    rw [hpower, zpow_natCast, le_div_iff₀ hden']
    have hbound := Nat.mul_le_mul_right den (pow_digitCount_le hquotient)
    exact_mod_cast hbound.trans (Nat.div_mul_le_self _ _)
  · next hlt =>
    have hpower : (1 : ℤ) - (digitCount ((den - 1) / num) : ℤ) - 1 =
        -(digitCount ((den - 1) / num) : ℤ) := by
      omega
    rw [hpower, zpow_neg, zpow_natCast, inv_le_comm₀ (by positivity) (by positivity), inv_div,
      div_le_iff₀ (by exact_mod_cast hnum)]
    have hbound : den ≤ 10 ^ digitCount ((den - 1) / num) * num := by
      have hstep := Nat.lt_mul_div_succ (den - 1) hnum
      have hdigits := Nat.mul_le_mul_right num (lt_pow_digitCount ((den - 1) / num))
      rw [Nat.mul_comm num] at hstep
      have hsame : (den - 1) / num + 1 = ((den - 1) / num).succ := rfl
      rw [hsame] at hstep
      omega
    exact_mod_cast hbound

/-- The ceiling is above the double. -/
theorem lt_of_decimalCeiling (hpos : 0 < mantissa) (exponent : ℤ) :
    (mantissa * 2 ^ exponent : ℚ) < 10 ^ decimalCeiling mantissa exponent := by
  have hnum : 0 < mantissa * 2 ^ exponent.toNat := by positivity
  have hden : 0 < 2 ^ (-exponent).toNat := by positivity
  rw [mantissa_eq_div]
  simp only [decimalCeiling, Nat.pow_eq]
  generalize mantissa * 2 ^ exponent.toNat = num at hnum ⊢
  generalize 2 ^ (-exponent).toNat = den at hden ⊢
  have hden' : (0 : ℚ) < den := by exact_mod_cast hden
  split
  · next hle =>
    have hstep := Nat.lt_mul_div_succ num hden
    have hdigits := Nat.mul_le_mul_left den (lt_pow_digitCount (num / den))
    rw [zpow_natCast, div_lt_iff₀ hden']
    rw [Nat.succ_eq_add_one] at hdigits
    have hbound := hstep.trans_le hdigits
    rw [Nat.mul_comm den] at hbound
    exact_mod_cast hbound
  · next hlt =>
    have hquotient : 0 < (den - 1) / num := Nat.div_pos (by omega) hnum
    have hcount : 0 < digitCount ((den - 1) / num) := by
      rw [digitCount, if_neg hquotient.ne']
      exact Nat.length_toDigits_pos
    have hpower : (1 : ℤ) - (digitCount ((den - 1) / num) : ℤ) =
        -((digitCount ((den - 1) / num) - 1 : ℕ) : ℤ) := by
      omega
    have hbound := Nat.mul_le_mul_right num (pow_digitCount_le hquotient)
    have hwhole := hbound.trans (Nat.div_mul_le_self _ _)
    have hless : 10 ^ (digitCount ((den - 1) / num) - 1) * num < den := by omega
    rw [hpower, zpow_neg, zpow_natCast, div_lt_iff₀ hden', ← div_eq_inv_mul,
      lt_div_iff₀ (by positivity), mul_comm]
    exact_mod_cast hless

theorem Neighbourhood.center_mul (mantissa : ℕ) (exponent : ℤ) :
    ((of mantissa exponent).center * 2 ^ (of mantissa exponent).power : ℚ) =
      mantissa * 2 ^ exponent := by
  simp only [of]
  rw [zpow_sub₀ (by norm_num)]
  push_cast
  ring

/-- A grid that is fine enough has a point in every neighbourhood. -/
theorem onGrid?_ne_none (hc : Canonical mantissa exponent)
    (hfine : (10 : ℚ) ^ grid * 10 ^ 16 ≤ mantissa * 2 ^ exponent) :
    (Neighbourhood.of mantissa exponent).onGrid? tie grid ≠ none := by
  intro hnone
  obtain ⟨below, hle, hlt, hbelow, habove⟩ := Neighbourhood.exists_of_onGrid?_eq_none hnone
  have hunit : (0 : ℚ) < 2 ^ exponent := by positivity
  have hreach := reachBelow_le mantissa exponent
  rw [Neighbourhood.center_mul] at hle hlt
  rw [← div_le_iff₀ hunit] at hle
  rw [← lt_div_iff₀ hunit] at hlt
  -- In units of the mantissa, the two points are on both sides of it and not near.
  have hlow : (below * 10 ^ grid : ℚ) / 2 ^ exponent ≤
      mantissa - reachBelow mantissa exponent := by
    by_contra hnear
    refine hbelow ((contains_of_iff hc.pos).mpr ?_)
    split
    · exact ⟨by linarith, by linarith⟩
    · exact ⟨by linarith, by linarith⟩
  have hhigh : (mantissa + 1 / 2 : ℚ) ≤ ((below + 1 : ℕ) * 10 ^ grid : ℚ) / 2 ^ exponent := by
    by_contra hnear
    refine habove ((contains_of_iff hc.pos).mpr ?_)
    have hpositive : 0 < reachBelow mantissa exponent := by
      unfold reachBelow
      split <;> norm_num
    split
    · exact ⟨by linarith, by linarith⟩
    · exact ⟨by linarith, by linarith⟩
  have hstep : ((below + 1 : ℕ) * 10 ^ grid : ℚ) / 2 ^ exponent =
      below * 10 ^ grid / 2 ^ exponent + 10 ^ grid / 2 ^ exponent := by
    push_cast
    ring
  rw [hstep] at hhigh
  have hwide : 1 / 2 + reachBelow mantissa exponent ≤ (10 : ℚ) ^ grid / 2 ^ exponent := by
    linarith
  have hnarrow : (10 : ℚ) ^ grid / 2 ^ exponent * 10 ^ 16 ≤ mantissa := by
    rwa [div_mul_eq_mul_div, div_le_iff₀ hunit]
  have hmantissa : (mantissa : ℚ) + 1 ≤ 2 ^ 53 := by exact_mod_cast hc.lt
  unfold reachBelow at hwide
  split at hwide
  · next hdenser =>
    rw [hdenser.1] at hnarrow
    push_cast at hnarrow
    linarith
  · linarith

/-- The finest grid that is searched has a hit. -/
theorem onGrid?_enoughDigits (tie : Tie) (hc : Canonical mantissa exponent) :
    (Neighbourhood.of mantissa exponent).onGrid? tie
      (decimalCeiling mantissa exponent - enoughDigits) ≠ none := by
  refine onGrid?_ne_none hc ?_
  have hceiling := le_of_decimalCeiling hc.pos exponent
  have hpower : (10 : ℚ) ^ (decimalCeiling mantissa exponent - enoughDigits) * 10 ^ 16 =
      10 ^ (decimalCeiling mantissa exponent - 1) := by
    rw [← zpow_natCast, ← zpow_add₀ (by norm_num)]
    congr 1
    simp only [enoughDigits]
    omega
  rwa [hpower]

/-- The shortest decimal lies in the neighbourhood of its double. -/
theorem contains_shortest (tie : Tie) (hc : Canonical mantissa exponent) :
    (Neighbourhood.of mantissa exponent).Contains
      ((shortest tie mantissa exponent).1 * 10 ^ (shortest tie mantissa exponent).2) := by
  rw [shortest, if_neg hc.pos.ne']
  exact Neighbourhood.contains_of_onGrid?
    (onGrid?_searchGrids (by omega) (onGrid?_enoughDigits tie hc))

/-- The shortest decimal has few digits. -/
theorem shortest_lt (tie : Tie) (hc : Canonical mantissa exponent) :
    (mantissa * 2 ^ exponent : ℚ) < 10 ^ ((shortest tie mantissa exponent).2 + 17) := by
  rw [shortest, if_neg hc.pos.ne']
  have hgrid : decimalCeiling mantissa exponent - enoughDigits ≤
      (searchGrids tie (.of mantissa exponent) (enoughDigits + 1)
        (decimalCeiling mantissa exponent)).2 :=
    le_searchGrids (by omega) (onGrid?_enoughDigits tie hc)
  refine (lt_of_decimalCeiling hc.pos exponent).trans_le ?_
  refine zpow_le_zpow_right₀ (by norm_num) ?_
  simp only [enoughDigits] at hgrid ⊢
  omega

/-! ### The parts of a double -/

variable {x : Float} {d : Dyadic} {s : Scientific}

/-- The sign that a sign bit stands for. -/
def signOf (negative : Bool) : Sign := if negative then .negative else .positive

theorem toNat_unpackExponent (x : Float) :
    (@unpackExponent Format.binary64 x.toModel.toBits.toBitVec).toNat =
      x.toBits.toNat / Nat.pow 2 fractionBits % (specialField + 1) := by
  unfold unpackExponent
  rw [BitVec.toNat_cast, BitVec.extractLsb_toNat, Nat.shiftRight_eq_div_pow]
  rfl

theorem toNat_unpackMantissa (x : Float) :
    (@unpackMantissa Format.binary64 x.toModel.toBits.toBitVec).toNat =
      x.toBits.toNat % Nat.pow 2 fractionBits := by
  unfold unpackMantissa
  rw [BitVec.toNat_cast, BitVec.extractLsb_toNat, Nat.shiftRight_eq_div_pow]
  exact congrArg (· % _) (Nat.div_one _)

theorem ofBitVec_unpackSign (x : Float) :
    Sign.ofBitVec (@unpackSign Format.binary64 x.toModel.toBits.toBitVec) =
      signOf (decide (Nat.pow 2 63 ≤ x.toBits.toNat)) := by
  have hsign : (@unpackSign Format.binary64 x.toModel.toBits.toBitVec).toNat =
      x.toBits.toNat / 2 ^ 63 % 2 := by
    unfold unpackSign
    rw [BitVec.toNat_cast, BitVec.extractLsb_toNat, Nat.shiftRight_eq_div_pow]
    rfl
  have hlt : x.toBits.toNat < 2 ^ 64 := x.toBits.toNat_lt
  unfold Sign.ofBitVec signOf
  by_cases hnegative : 2 ^ 63 ≤ x.toBits.toNat
  · have hone : @unpackSign Format.binary64 x.toModel.toBits.toBitVec ≠ 0#1 := by
      intro hzero
      rw [hzero, BitVec.toNat_ofNat] at hsign
      omega
    simp only [hone, if_false, Nat.pow_eq, hnegative, decide_true, if_true]
  · have hzero : @unpackSign Format.binary64 x.toModel.toBits.toBitVec = 0#1 := by
      refine BitVec.eq_of_toNat_eq ?_
      rw [hsign, BitVec.toNat_ofNat]
      omega
    simp only [hzero, if_true, Nat.pow_eq, hnegative, decide_false, Bool.false_eq_true, if_false]

theorem Dyadic.special_iff (x : Float) :
    x.toBits.toNat / Nat.pow 2 fractionBits % (specialField + 1) = specialField ↔
      @unpackExponent Format.binary64 x.toModel.toBits.toBitVec = -1#_ := by
  rw [← toNat_unpackExponent, ← BitVec.toNat_inj]
  rfl

/-- Exactly the finite doubles have a dyadic value. -/
theorem Dyadic.isSome_ofFloat?_iff : (Dyadic.ofFloat? x).isSome = true ↔ x.isFinite = true := by
  have hsome : (Dyadic.ofFloat? x).isSome = true ↔
      x.toBits.toNat / Nat.pow 2 fractionBits % (specialField + 1) ≠ specialField := by
    unfold ofFloat?
    dsimp only
    split
    · next hspecial => exact ⟨fun hnone => absurd hnone Bool.false_ne_true, (absurd hspecial ·)⟩
    · next hspecial => split <;> exact ⟨fun _ => hspecial, fun _ => rfl⟩
  rw [hsome, Ne, special_iff]
  unfold Float.isFinite Float.Model.isFinite Float.Model.unpack unpack
  by_cases hspecial : @unpackExponent Format.binary64 x.toModel.toBits.toBitVec = -1#_
  · simp only [hspecial, if_true, not_true_eq_false, false_iff]
    split <;> exact Bool.false_ne_true
  · simp only [hspecial, if_false, not_false_eq_true, true_iff]
    split
    · split <;> rfl
    · rfl

/-- The parts of a finite double are those that it is unpacked into. -/
theorem Dyadic.unpack_of_ofFloat? (h : Dyadic.ofFloat? x = some d) :
    (d.mantissa = 0 ∧ x.toModel.unpack = .zero (signOf d.negative)) ∨
      ∃ hc : Canonical d.mantissa d.exponent,
        x.toModel.unpack = .finite (signOf d.negative) d.mantissa d.exponent hc.pos := by
  have hspecial := special_iff x
  have hfield := toNat_unpackExponent x
  have hfraction := toNat_unpackMantissa x
  have hfieldLt := (@unpackExponent Format.binary64 x.toModel.toBits.toBitVec).isLt
  have hfractionLt := (@unpackMantissa Format.binary64 x.toModel.toBits.toBitVec).isLt
  have hstored := toNat_implicit (@unpackMantissa Format.binary64 x.toModel.toBits.toBitVec)
  have hspecialField : specialField = 2047 := rfl
  have hhidden : Nat.pow 2 fractionBits = 2 ^ 52 := rfl
  unfold ofFloat? at h
  dsimp only at h hfieldLt hfractionLt
  unfold Float.Model.unpack unpack
  simp only [exponentBias_eq, ofBitVec_unpackSign]
  rw [← hfield] at h hspecial
  rw [← hfraction] at h
  split at h
  · cases h
  · next hfinite =>
    rw [if_neg (mt hspecial.mpr hfinite)]
    by_cases hzero : @unpackExponent Format.binary64 x.toModel.toBits.toBitVec = 0#11
    · have hzero' : (@unpackExponent Format.binary64 x.toModel.toBits.toBitVec).toNat = 0 := by
        rw [hzero]
        rfl
      rw [if_pos hzero'] at h
      cases h
      rw [if_pos hzero]
      dsimp only
      by_cases hnothing : @unpackMantissa Format.binary64 x.toModel.toBits.toBitVec = 0#52
      · left
        rw [dif_pos hnothing, hnothing]
        exact ⟨rfl, rfl⟩
      · right
        have hpos : 0 < (@unpackMantissa Format.binary64 x.toModel.toBits.toBitVec).toNat := by
          refine Nat.pos_of_ne_zero fun hempty => hnothing (BitVec.eq_of_toNat_eq ?_)
          rw [hempty]
          rfl
        refine ⟨⟨⟨hpos, by omega, by omega, .inl rfl⟩, by omega⟩, ?_⟩
        rw [dif_neg hnothing]
        congr 1
        rw [hzero']
        rfl
    · have hzero' : (@unpackExponent Format.binary64 x.toModel.toBits.toBitVec).toNat ≠ 0 :=
        fun heq => hzero (BitVec.eq_of_toNat_eq heq)
      rw [if_neg hzero'] at h
      cases h
      rw [if_neg hzero]
      dsimp only
      right
      refine ⟨⟨⟨by omega, by omega, by omega, .inr (by omega)⟩, by omega⟩, ?_⟩
      congr 1
      rw [hstored, hhidden, Nat.add_comm]

/-! ### Reading a double that was written -/

/-- Of two finite doubles that are packed alike, one is the other. -/
theorem eq_of_unpack_eq {y : Float} {u : UnpackedFloat} (hx : x.toModel.unpack = u)
    (hy : y.toModel = .pack u) : y = x := by
  rw [← Float.toBits_inj]
  have hsame : UnpackedFloat.pack Format.binary64 u = x.toModel.toBits.toBitVec := by
    rw [← hx]
    exact pack_unpack_of_valid x.toModel.valid
  change y.toModel.toBits = x.toModel.toBits
  rw [hy]
  exact congrArg UInt64.ofBitVec hsame

/-- The sign goes onto a packed double. -/
theorem toModel_withSign {y : Float} {u : UnpackedFloat} (negative : Bool)
    (hy : y.toModel = .pack u) (hu : (Float.Model.pack u).unpack = u) :
    (withSign negative y).toModel = .pack (if negative then u.neg else u) := by
  unfold withSign
  split
  · change Float.Model.pack y.toModel.unpack.neg = _
    rw [hy, hu]
  · exact hy

theorem toModel_ofScientific_zero (negative : Bool) (e : ℕ) :
    (Float.ofScientific 0 negative e).toModel = .pack (.zero .positive) := by
  unfold Float.ofScientific
  split
  · next hfast =>
    have hsize : e < Float.exactlyRepresentablePowersOfTen.size := by
      simp [Float.exactlyRepresentablePowersOfTen]
      omega
    have hzero : (Nat.toUInt64 0).toFloat.toModel.unpack = .zero .positive := rfl
    obtain ⟨m, e', hm, hu, -⟩ := isExactly_powerOfTen hsize
    split
    · change Float.Model.pack (UnpackedFloat.div .binary64 _ _) = _
      rw [hzero, hu]
      rfl
    · change Float.Model.pack (UnpackedFloat.mul .binary64 _ _) = _
      rw [hzero, hu]
      rfl
  · change Float.Model.pack _ = _
    rw [UnpackedFloat.ofScientific, dif_pos rfl]

theorem ite_natAbs (e : ℤ) : (if decide (e < 0) = true then -(e.natAbs : ℤ) else e.natAbs) = e := by
  simp only [decide_eq_true_eq]
  split <;> omega

/-- A double is written as a decimal that is read as the double, also with zeros at its end. -/
theorem Scientific.toFloat_eq_of_ofFloat? {s' : Scientific} (h : ofFloat? tie x = some s)
    (hsign : s'.negative = s.negative)
    (hvalue : (s'.digits * 10 ^ s'.exponent : ℚ) = s.digits * 10 ^ s.exponent) :
    s'.toFloat = x := by
  obtain ⟨d, hd, rfl⟩ := Option.map_eq_some_iff.mp h
  dsimp only at hsign hvalue
  rcases Dyadic.unpack_of_ofFloat? hd with ⟨hzero, hunpacked⟩ | ⟨hc, hunpacked⟩
  · have hdigits : s'.digits = 0 := by
      rw [hzero, shortest, if_pos rfl, Nat.cast_zero, zero_mul, mul_eq_zero] at hvalue
      exact_mod_cast hvalue.resolve_right (by positivity)
    have hread := toModel_ofScientific_zero (decide (s'.exponent < 0)) s'.exponent.natAbs
    refine eq_of_unpack_eq hunpacked ?_
    rw [toFloat, hdigits, toModel_withSign _ hread rfl, hsign]
    cases d.negative <;> rfl
  · have hread : (Float.ofScientific s'.digits (decide (s'.exponent < 0))
        s'.exponent.natAbs).toModel =
          .pack (.finite .positive d.mantissa d.exponent hc.pos) := by
      refine toModel_ofScientific hc ?_
      rw [ite_natAbs, hvalue]
      exact contains_shortest tie hc
    refine eq_of_unpack_eq hunpacked ?_
    rw [toFloat, toModel_withSign _ hread (hc.unpack_pack _), hsign]
    cases d.negative <;> rfl

end Campus.Number
