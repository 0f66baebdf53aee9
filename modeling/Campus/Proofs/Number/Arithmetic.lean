import Campus.Proofs.Number.Nearest

/-!
# Calculating with doubles

Sums, products and quotients of finite doubles are those of their values, rounded once
(`isResult_add`, `isResult_mul`, `isResult_div`). Only a result beyond the greatest double is
infinite (`IsResult`).
-/

namespace Campus.Number

open Float.Model (Format UnpackedFloat totalExponent)
open Float.Model.UnpackedFloat

variable {mantissa m : ℕ} {exponent e : ℤ} {v a b w : ℚ} {x y z : Float}

/-! ### Rounded results -/

/-- From here on numbers are rounded to infinity: half a unit beyond the greatest double. -/
def overflow : ℚ := (2 ^ 53 - 1 / 2) * 2 ^ 971

/-- `x` is what a calculation gives whose exact result is `v`. -/
def IsResult (v : ℚ) (x : Float) : Prop := Rounds v x ∨ x.isFinite = false ∧ overflow ≤ |v|

theorem IsResult.rounds (h : IsResult v x) (hfinite : x.isFinite = true) : Rounds v x := by
  refine h.resolve_right fun hinfinite => ?_
  rw [hinfinite.1] at hfinite
  cases hfinite

theorem IsResult.rounds_of_lt (h : IsResult v x) (hlt : |v| < overflow) : Rounds v x :=
  h.resolve_right fun hinfinite => absurd hlt (not_lt.mpr hinfinite.2)

theorem Rounded.overflow_le (hr : Rounded mantissa exponent) (hgreat : 971 < exponent)
    (hv : (Neighbourhood.of mantissa exponent).Contains v) : overflow ≤ v := by
  have hunit : (0 : ℚ) < 2 ^ exponent := by positivity
  have hnormal := hr.normal.resolve_left (by omega)
  have hcenter : (2 ^ 52 - 1 / 4 : ℚ) ≤ mantissa - reachBelow mantissa exponent := by
    unfold reachBelow
    split
    · next hdenser =>
      rw [hdenser.1]
      norm_num
    · next hdenser =>
      have hmore : (2 ^ 52 + 1 : ℚ) ≤ mantissa := by
        exact_mod_cast (show 2 ^ 52 + 1 ≤ mantissa by omega)
      linarith
  have hlow : mantissa - reachBelow mantissa exponent ≤ v / 2 ^ exponent := by
    rw [contains_of_iff hr.pos] at hv
    split at hv
    · exact hv.1
    · exact hv.1.le
  rw [le_div_iff₀ hunit] at hlow
  refine le_trans ?_ hlow
  calc overflow = (2 ^ 52 - 1 / 4) * 2 ^ (972 : ℤ) := by
        rw [overflow, show (972 : ℤ) = (971 : ℕ) + 1 by norm_num, zpow_add_one₀ (by norm_num),
          zpow_natCast]
        generalize (2 : ℚ) ^ 971 = unit
        ring
    _ ≤ (mantissa - reachBelow mantissa exponent) * 2 ^ exponent := by
        gcongr
        · norm_num
        · omega

/-- With too great an exponent the double is infinite. -/
theorem Rounded.isFinite_eq_false {s : Sign} (hr : Rounded mantissa exponent)
    (hgreat : 971 < exponent) (hx : x.toModel = .pack (.finite s mantissa exponent hr.pos)) :
    x.isFinite = false := by
  have hfield : (exponent + (Format.binary64.exponentBias : ℤ) +
      (Format.binary64.mantissaBitsWithoutImplicit : ℤ)).toNat = (exponent + 1075).toNat := by
    rw [exponentBias_eq]
    simp only [Nat.cast_ofNat]
    congr 1
    omega
  have hpacked : UnpackedFloat.pack Format.binary64 (.finite s mantissa exponent hr.pos) =
      UnpackedFloat.pack Format.binary64 (.infinity s) := by
    have hgreat' : 2 ^ Format.binary64.exponentBits ≤ (exponent + 1075).toNat + 1 := by
      change 2048 ≤ _
      omega
    simp only [UnpackedFloat.pack, hfield, if_pos hgreat']
  have hunpacked : x.toModel.unpack = .infinity s := by
    rw [hx]
    change unpack Format.binary64 (UnpackedFloat.pack Format.binary64 _) = _
    rw [hpacked]
    cases s <;> rfl
  unfold Float.isFinite Float.Model.isFinite
  rw [hunpacked]
  rfl

theorem signOf_beq_negative (negative : Bool) : (signOf negative == .negative) = negative := by
  cases negative <;> rfl

/-- A double that is packed from the parts of a double has these parts. -/
theorem ofFloat?_of_toModel {negative : Bool} (hc : Canonical mantissa exponent)
    (hx : x.toModel = .pack (.finite (signOf negative) mantissa exponent hc.pos)) :
    Dyadic.ofFloat? x = some ⟨negative, mantissa, exponent⟩ := by
  have hunpacked : x.toModel.unpack = .finite (signOf negative) mantissa exponent hc.pos := by
    rw [hx]
    exact hc.unpack_pack _
  have hfinite : x.isFinite = true := by
    unfold Float.isFinite Float.Model.isFinite
    rw [hunpacked]
    rfl
  obtain ⟨d, hd⟩ := Option.isSome_iff_exists.mp (Dyadic.isSome_ofFloat?_iff.mpr hfinite)
  rcases Dyadic.unpack_of_ofFloat? hd with ⟨-, hzero⟩ | ⟨hc', hparts⟩
  · rw [hunpacked] at hzero
    cases hzero
  · rw [hunpacked] at hparts
    injection hparts with hsign hmantissa hexponent
    have hnegative : negative = d.negative := by
      rw [← signOf_beq_negative negative, hsign, signOf_beq_negative]
    rw [hd, hmantissa, hexponent, hnegative]

theorem rounds_of_zero {negative : Bool} (hx : x.toModel = .pack (.zero (signOf negative)))
    (hnonneg : 0 ≤ a) (ha : a ≤ 2 ^ (-1075 : ℤ)) : Rounds (signed negative a) x := by
  have hunpacked : x.toModel.unpack = .zero (signOf negative) := by
    rw [hx]
    cases negative <;> rfl
  have hfinite : x.isFinite = true := by
    unfold Float.isFinite Float.Model.isFinite
    rw [hunpacked]
    rfl
  obtain ⟨d, hd⟩ := Option.isSome_iff_exists.mp (Dyadic.isSome_ofFloat?_iff.mpr hfinite)
  rcases Dyadic.unpack_of_ofFloat? hd with ⟨hzero, hparts⟩ | ⟨hc', hparts⟩
  · rw [hunpacked] at hparts
    injection hparts with hsign
    refine ⟨d, a, hd, ?_, ?_⟩
    · rw [Dyadic.Attracts, if_pos hzero]
      exact ⟨hnonneg, ha⟩
    · rw [← signOf_beq_negative negative, hsign, signOf_beq_negative]
  · rw [hunpacked] at hparts
    cases hparts

/-- What is kept of too small a number is rounded to zero. -/
theorem roundWithAccuracy_eq_zero {accuracy : Accuracy} (hnonneg : 0 ≤ v)
    (hsmall : v ≤ 2 ^ (-1075 : ℤ))
    (h : Stands (.ofMantissaAndAccuracy m accuracy) (v / 2 ^ e))
    (hfine : 2 ^ 52 ≤ m ∨ e ≤ -1074) (sign : Sign) :
    roundWithAccuracy .binary64 sign m e accuracy = .zero sign := by
  have hlog : m ≠ 0 → (m.log2 : ℤ) + e ≤ -1075 := fun hm =>
    (zpow_le_zpow_iff_right₀ (by norm_num)).mp ((h.zpow_le hm).trans hsmall)
  have hzero : m = 0 → m.log2 = 0 := by
    rintro rfl
    exact Nat.log2_zero
  have htarget : Format.binary64.targetExponent (totalExponent m e) = -1074 := by
    rw [targetExponent_eq, totalExponent]
    omega
  obtain ⟨em, hshift, hstands⟩ := exists_shiftToTargetExponent h (by rw [htarget]; omega)
  rw [htarget] at hshift hstands
  have hrounds : RoundsTo (v / 2 ^ (-1074 : ℤ)) 0 := by
    have hunit : (0 : ℚ) < 2 ^ (-1074 : ℤ) := by positivity
    have hhalf : (2 : ℚ) ^ (-1075 : ℤ) = 1 / 2 * 2 ^ (-1074 : ℤ) := by
      rw [show (-1074 : ℤ) = -1075 + 1 by norm_num, zpow_add_one₀ (by norm_num)]
      ring
    have hquotient : 0 ≤ v / 2 ^ (-1074 : ℤ) := div_nonneg hnonneg hunit.le
    refine ⟨?_, ?_, fun hodd => absurd hodd (by decide)⟩
    · rw [Nat.cast_zero]
      linarith
    · rw [Nat.cast_zero, zero_add, div_le_iff₀ hunit, ← hhalf]
      exact hsmall
  have hrounded := hstands.roundedMantissa_eq hrounds
  simp only [roundWithAccuracy, hshift, hrounded,
    shiftToTargetExponent_exact (show 0 < 2 ^ 53 by norm_num) (le_refl (-1074 : ℤ))]
  exact dif_pos trivial

/-- What is kept of a number is rounded to the double that attracts the number. -/
theorem roundWithAccuracy_cases {accuracy : Accuracy} (hnonneg : 0 ≤ v)
    (h : Stands (.ofMantissaAndAccuracy m accuracy) (v / 2 ^ e))
    (hfine : 2 ^ 52 ≤ m ∨ e ≤ -1074) (sign : Sign) :
    v ≤ 2 ^ (-1075 : ℤ) ∧ roundWithAccuracy .binary64 sign m e accuracy = .zero sign ∨
      ∃ mantissa exponent, ∃ hr : Rounded mantissa exponent,
        (Neighbourhood.of mantissa exponent).Contains v ∧
          roundWithAccuracy .binary64 sign m e accuracy =
            .finite sign mantissa exponent hr.pos := by
  rcases le_or_gt v (2 ^ (-1075 : ℤ)) with hsmall | hlarge
  · exact .inl ⟨hsmall, roundWithAccuracy_eq_zero hnonneg hsmall h hfine sign⟩
  · obtain ⟨mantissa, exponent, hr, hv⟩ := exists_rounded hlarge
    exact .inr ⟨mantissa, exponent, hr, hv, roundWithAccuracy_eq hr hv h hfine sign⟩

theorem rounds_of_contains {negative : Bool} (hc : Canonical mantissa exponent)
    (hv : (Neighbourhood.of mantissa exponent).Contains a)
    (hx : x.toModel = .pack (.finite (signOf negative) mantissa exponent hc.pos)) :
    Rounds (signed negative a) x := by
  refine ⟨_, a, ofFloat?_of_toModel hc hx, ?_, rfl⟩
  rw [Dyadic.Attracts, if_neg hc.pos.ne']
  exact hv

/-- What is kept of a number is rounded. -/
theorem isResult_of_toModel {negative : Bool} {accuracy : Accuracy} (hnonneg : 0 ≤ a)
    (h : Stands (.ofMantissaAndAccuracy m accuracy) (a / 2 ^ e))
    (hfine : 2 ^ 52 ≤ m ∨ e ≤ -1074)
    (hx : x.toModel = .pack (roundWithAccuracy .binary64 (signOf negative) m e accuracy)) :
    IsResult (signed negative a) x := by
  rcases roundWithAccuracy_cases hnonneg h hfine (signOf negative) with
    ⟨hsmall, hzero⟩ | ⟨mantissa, exponent, hr, hv, hparts⟩
  · rw [hzero] at hx
    exact .inl (rounds_of_zero hx hnonneg hsmall)
  · rw [hparts] at hx
    rcases le_or_gt exponent 971 with htop | hgreat
    · exact .inl (rounds_of_contains ⟨hr, htop⟩ hv hx)
    · rw [IsResult, abs_signed, abs_of_nonneg hnonneg]
      exact .inr ⟨hr.isFinite_eq_false hgreat hx, hr.overflow_le hgreat hv⟩

/-- A double is what its value is rounded to. -/
theorem rounds_self (hx : value? x = some w) : Rounds w x := by
  obtain ⟨d, hd, rfl⟩ := exists_dyadic hx
  refine ⟨d, d.mantissa * 2 ^ d.exponent, hd, ?_, rfl⟩
  unfold Dyadic.Attracts
  split
  · next hzero =>
    rw [hzero, Nat.cast_zero, zero_mul]
    exact ⟨le_rfl, by positivity⟩
  · next hne => exact contains_self (Nat.pos_of_ne_zero hne)

/-! ### One double for each number -/

/-- What is kept of a number at the bottom of the range. -/
theorem exists_stands (hnonneg : 0 ≤ v) :
    ∃ m accuracy, Stands (.ofMantissaAndAccuracy m accuracy) (v / 2 ^ (-1074 : ℤ)) := by
  have hquotient : 0 ≤ v / 2 ^ (-1074 : ℤ) := div_nonneg hnonneg (by positivity)
  generalize v / 2 ^ (-1074 : ℤ) = u at hquotient
  have hstands := stands_div u.num.toNat u.den_pos
  have hnum : (u.num.toNat : ℚ) = u.num := by
    exact_mod_cast Int.toNat_of_nonneg (Rat.num_nonneg.mpr hquotient)
  rw [hnum, Rat.num_div_den] at hstands
  exact ⟨_, _, hstands⟩

/-- What attracts a number is what the number is rounded to. -/
theorem Dyadic.Attracts.roundWithAccuracy_eq {d : Dyadic} {accuracy : Accuracy}
    (hd : ofFloat? x = some d) (ha : d.Attracts a)
    (h : Stands (.ofMantissaAndAccuracy m accuracy) (a / 2 ^ (-1074 : ℤ))) :
    ∃ u, roundWithAccuracy .binary64 .positive m (-1074) accuracy = u ∧
      (d.mantissa = 0 ∧ u = .zero .positive ∨
        ∃ hm, u = .finite .positive d.mantissa d.exponent hm) := by
  by_cases hzero : d.mantissa = 0
  · rw [Attracts, if_pos hzero] at ha
    exact ⟨_, roundWithAccuracy_eq_zero ha.1 ha.2 h (.inr le_rfl) _, .inl ⟨hzero, rfl⟩⟩
  · rw [Attracts, if_neg hzero] at ha
    have hc := canonical_of_ofFloat? hd hzero
    exact ⟨_, Number.roundWithAccuracy_eq hc.toRounded ha h (.inr le_rfl) _, .inr ⟨hc.pos, rfl⟩⟩

theorem signed_left_inj {negative negative' : Bool} (hne : a ≠ 0)
    (h : signed negative a = signed negative' a) : negative = negative' := by
  cases negative <;> cases negative' <;> simp_all [signed, self_eq_neg, neg_eq_self]

/-- A number is rounded to one double only, but perhaps for the sign of a zero. -/
theorem identity_eq_of_rounds (hx : Rounds v x) (hy : Rounds v y) : identity x = identity y := by
  obtain ⟨d, a, hd, ha, rfl⟩ := hx
  obtain ⟨d', a', hd', ha', hsigned⟩ := hy
  have hmagnitude := congrArg (fun v : ℚ => |v|) hsigned
  simp only [abs_signed, abs_of_nonneg (ha.nonneg hd), abs_of_nonneg (ha'.nonneg hd')] at hmagnitude
  subst hmagnitude
  obtain ⟨m, accuracy, hstands⟩ := exists_stands (ha.nonneg hd)
  obtain ⟨u, hu, hparts⟩ := ha.roundWithAccuracy_eq hd hstands
  obtain ⟨u', hu', hparts'⟩ := ha'.roundWithAccuracy_eq hd' hstands
  obtain rfl := hu.symm.trans hu'
  refine identity_eq_of_value (value?_of_ofFloat? hd) ?_
  rw [value?_of_ofFloat? hd', Option.some.injEq]
  rcases hparts with ⟨hzero, rfl⟩ | ⟨hm, rfl⟩
  · rcases hparts' with ⟨hzero', -⟩ | ⟨hm', heq⟩
    · rw [Dyadic.value_of_mantissa_eq_zero hzero, Dyadic.value_of_mantissa_eq_zero hzero']
    · cases heq
  · rcases hparts' with ⟨hzero', heq⟩ | ⟨hm', heq⟩
    · cases heq
    · injection heq with _ hmantissa hexponent
      have hpos : a ≠ 0 := by
        rw [Dyadic.Attracts, if_neg hm.ne'] at ha
        have hleast : (0 : ℚ) < 2 ^ (-1075 : ℤ) := by positivity
        exact (hleast.trans_le ((Dyadic.canonical_of_ofFloat? hd hm.ne').bounds ha).1).ne'
      rw [Dyadic.value, Dyadic.value, hmantissa, hexponent, signed_left_inj hpos hsigned]

/-! ### Sums, products and quotients -/

/-- A product of finite doubles is the rounded product of their values. -/
theorem isResult_mul (hx : value? x = some a) (hy : value? y = some b) :
    IsResult (a * b) (x * y) := by
  obtain ⟨d, hd, rfl⟩ := exists_dyadic hx
  obtain ⟨d', hd', rfl⟩ := exists_dyadic hy
  have hproduct : (x * y).toModel =
      .pack (UnpackedFloat.mul .binary64 x.toModel.unpack y.toModel.unpack) := rfl
  have hsigned : d.value * d'.value = signed (d.negative ^^ d'.negative)
      (d.mantissa * 2 ^ d.exponent * (d'.mantissa * 2 ^ d'.exponent)) := by
    unfold Dyadic.value
    cases d.negative <;> cases d'.negative <;> simp [signed]
  have hsigns : signOf d.negative * signOf d'.negative = signOf (d.negative ^^ d'.negative) := by
    cases d.negative <;> cases d'.negative <;> rfl
  rw [hsigned]
  rcases Dyadic.unpack_of_ofFloat? hd with ⟨hzero, hparts⟩ | ⟨hc, hparts⟩
  · rw [hzero, Nat.cast_zero, zero_mul, zero_mul]
    rcases Dyadic.unpack_of_ofFloat? hd' with ⟨hzero', hparts'⟩ | ⟨hc', hparts'⟩
    · rw [hparts, hparts', UnpackedFloat.mul, hsigns] at hproduct
      exact .inl (rounds_of_zero hproduct le_rfl (by positivity))
    · rw [hparts, hparts', UnpackedFloat.mul, hsigns] at hproduct
      exact .inl (rounds_of_zero hproduct le_rfl (by positivity))
  · rcases Dyadic.unpack_of_ofFloat? hd' with ⟨hzero', hparts'⟩ | ⟨hc', hparts'⟩
    · rw [hparts, hparts', UnpackedFloat.mul, hsigns] at hproduct
      rw [hzero', Nat.cast_zero, zero_mul, mul_zero]
      exact .inl (rounds_of_zero hproduct le_rfl (by positivity))
    · rw [hparts, hparts', UnpackedFloat.mul, hsigns] at hproduct
      refine isResult_of_toModel (by positivity) ?_ ?_ hproduct
      · have hexact : (d.mantissa * 2 ^ d.exponent * (d'.mantissa * 2 ^ d'.exponent) : ℚ) /
            2 ^ (d.exponent + d'.exponent) = (d.mantissa * d'.mantissa : ℕ) := by
          rw [zpow_add₀ (by norm_num)]
          push_cast
          field_simp
        rw [hexact]
        exact stands_exact _
      · -- Two mantissas that lack bits stand at the bottom of the range.
        have hbottom := hc'.normal
        rcases hc.normal with hexponent | hnormal
        · rcases hc'.normal with hexponent' | hnormal'
          · right
            omega
          · exact .inl (hnormal'.trans (Nat.le_mul_of_pos_left _ hc.pos))
        · exact .inl (hnormal.trans (Nat.le_mul_of_pos_right _ hc'.pos))

/-- A quotient of finite doubles is the rounded quotient of their values. -/
theorem isResult_div (hx : value? x = some a) (hy : value? y = some b) (hb : b ≠ 0) :
    IsResult (a / b) (x / y) := by
  obtain ⟨d, hd, rfl⟩ := exists_dyadic hx
  obtain ⟨d', hd', rfl⟩ := exists_dyadic hy
  have hquotient : (x / y).toModel =
      .pack (UnpackedFloat.div .binary64 x.toModel.unpack y.toModel.unpack) := rfl
  have hsigned : d.value / d'.value = signed (d.negative ^^ d'.negative)
      (d.mantissa * 2 ^ d.exponent / (d'.mantissa * 2 ^ d'.exponent)) := by
    unfold Dyadic.value
    cases d.negative <;> cases d'.negative <;> simp [signed, neg_div, div_neg]
  have hsigns : signOf d.negative / signOf d'.negative = signOf (d.negative ^^ d'.negative) := by
    cases d.negative <;> cases d'.negative <;> rfl
  rcases Dyadic.unpack_of_ofFloat? hd' with ⟨hzero', -⟩ | ⟨hc', hparts'⟩
  · refine absurd ?_ hb
    rw [Dyadic.value, hzero', Nat.cast_zero, zero_mul]
    cases d'.negative <;> simp [signed]
  rw [hsigned]
  rcases Dyadic.unpack_of_ofFloat? hd with ⟨hzero, hparts⟩ | ⟨hc, hparts⟩
  · rw [hparts, hparts', UnpackedFloat.div, hsigns] at hquotient
    rw [hzero, Nat.cast_zero, zero_mul, zero_div]
    exact .inl (rounds_of_zero hquotient le_rfl (by positivity))
  · obtain ⟨m, e, accuracy, hdiv, hstands, hfine⟩ := exists_div_eq (signOf d.negative)
      (signOf d'.negative) hc.pos hc'.pos d.exponent d'.exponent
    rw [hparts, hparts', hdiv, hsigns] at hquotient
    exact isResult_of_toModel (by positivity) hstands hfine hquotient

/-- A mantissa that is rounded gets the bits that it lacks. -/
theorem exists_round_eq (s : Sign) (hm : 0 < m) (e : ℤ) :
    ∃ m' e', UnpackedFloat.round .binary64 s m e = roundWithAccuracy .binary64 s m' e' .exact ∧
      Stands (.ofMantissaAndAccuracy m' .exact) (m * 2 ^ e / 2 ^ e') ∧
      (2 ^ 52 ≤ m' ∨ e' ≤ -1074) := by
  simp only [UnpackedFloat.round, decreaseExponent]
  have htarget := targetExponent_eq (totalExponent m e)
  rw [totalExponent] at htarget
  generalize hshift : (e - Format.binary64.targetExponent (totalExponent m e)).toNat = shift
  rw [totalExponent] at hshift
  refine ⟨_, _, rfl, ?_, ?_⟩
  · have hexact : (m * 2 ^ e : ℚ) / 2 ^ (e - shift) = (m <<< shift : ℕ) := by
      rw [Nat.shiftLeft_eq, zpow_sub₀ (by norm_num), zpow_natCast]
      push_cast
      field_simp
    rw [hexact]
    exact stands_exact _
  · have hlog := Nat.log2_self_le hm.ne'
    rw [Nat.shiftLeft_eq]
    by_cases hbottom : e - shift ≤ -1074
    · exact .inr hbottom
    · left
      calc 2 ^ 52 ≤ 2 ^ (m.log2 + shift) := Nat.pow_le_pow_right (by decide) (by omega)
        _ = 2 ^ m.log2 * 2 ^ shift := Nat.pow_add _ _ _
        _ ≤ m * 2 ^ shift := Nat.mul_le_mul_right _ hlog

theorem isResult_of_round {negative : Bool} (hm : 0 < m)
    (hx : x.toModel = .pack (UnpackedFloat.round .binary64 (signOf negative) m e)) :
    IsResult (signed negative (m * 2 ^ e)) x := by
  obtain ⟨m', e', hround, hstands, hfine⟩ := exists_round_eq (signOf negative) hm e
  rw [hround] at hx
  exact isResult_of_toModel (by positivity) hstands hfine hx

theorem isResult_of_normalize {k : ℤ}
    (hx : x.toModel = .pack (UnpackedFloat.normalize .binary64 k e .positive)) :
    IsResult (k * 2 ^ e) x := by
  unfold UnpackedFloat.normalize at hx
  rcases lt_trichotomy k 0 with hneg | rfl | hpos
  · rw [compare_lt_iff_lt.mpr hneg] at hx
    have hmagnitude : ((-k).toNat : ℚ) = -k := by
      exact_mod_cast Int.toNat_of_nonneg (by omega)
    have hresult : IsResult (signed true ((-k).toNat * 2 ^ e)) x :=
      isResult_of_round (by omega) hx
    rwa [hmagnitude, signed, if_pos rfl, neg_mul, neg_neg] at hresult
  · rw [Int.cast_zero, zero_mul]
    have hrounds : Rounds (signed false 0) x := rounds_of_zero hx le_rfl (by positivity)
    exact .inl hrounds
  · rw [compare_gt_iff_gt.mpr hpos] at hx
    have hmagnitude : (k.toNat : ℚ) = k := by
      exact_mod_cast Int.toNat_of_nonneg hpos.le
    have hresult : IsResult (signed false (k.toNat * 2 ^ e)) x :=
      isResult_of_round (by omega) hx
    rwa [hmagnitude] at hresult

/-- A mantissa at a finer exponent. -/
theorem apply_shiftLeft {e' : ℤ} (negative : Bool) (m : ℕ) (he : e' ≤ e) :
    ((signOf negative).apply (m <<< (e - e').toNat : ℕ) : ℚ) * 2 ^ e' =
      signed negative (m * 2 ^ e) := by
  have hpower : (2 : ℚ) ^ e = 2 ^ (e - e').toNat * 2 ^ e' := by
    rw [← zpow_natCast, ← zpow_add₀ (by norm_num)]
    congr 1
    omega
  have hsigned : ((signOf negative).apply (m <<< (e - e').toNat : ℕ) : ℚ) =
      signed negative (m <<< (e - e').toNat : ℕ) := by
    rw [signed_natCast]
    cases negative <;> rfl
  rw [hsigned, Nat.shiftLeft_eq, hpower]
  cases negative <;> simp only [signed] <;> push_cast <;> simp [mul_assoc]

/-- A sum of finite doubles is the rounded sum of their values. -/
theorem isResult_add (hx : value? x = some a) (hy : value? y = some b) :
    IsResult (a + b) (x + y) := by
  obtain ⟨d, hd, rfl⟩ := exists_dyadic hx
  obtain ⟨d', hd', rfl⟩ := exists_dyadic hy
  have hsum : (x + y).toModel =
      .pack (UnpackedFloat.add .binary64 x.toModel.unpack y.toModel.unpack) := rfl
  rcases Dyadic.unpack_of_ofFloat? hd with ⟨hzero, hparts⟩ | ⟨hc, hparts⟩
  · rw [Dyadic.value_of_mantissa_eq_zero hzero, zero_add]
    rcases Dyadic.unpack_of_ofFloat? hd' with ⟨hzero', hparts'⟩ | ⟨hc', hparts'⟩
    · rw [hparts, hparts'] at hsum
      rw [Dyadic.value_of_mantissa_eq_zero hzero']
      have hboth : (x + y).toModel = .pack (.zero (signOf (d.negative && d'.negative))) := by
        rw [hsum]
        cases d.negative <;> cases d'.negative <;> rfl
      have hrounds := rounds_of_zero hboth le_rfl (by positivity)
      left
      cases hnegative : d.negative && d'.negative <;>
        rw [hnegative] at hrounds <;> simpa [signed] using hrounds
    · rw [hparts, hparts'] at hsum
      have hsame : x + y = y := eq_of_unpack_eq hparts' hsum
      rw [hsame]
      exact .inl (rounds_self hy)
  · rcases Dyadic.unpack_of_ofFloat? hd' with ⟨hzero', hparts'⟩ | ⟨hc', hparts'⟩
    · rw [hparts, hparts'] at hsum
      have hsame : x + y = x := eq_of_unpack_eq hparts hsum
      rw [hsame, Dyadic.value_of_mantissa_eq_zero hzero', add_zero]
      exact .inl (rounds_self hx)
    · rw [hparts, hparts'] at hsum
      have hresult := isResult_of_normalize hsum
      rw [Int.cast_add, add_mul, apply_shiftLeft _ _ (min_le_left _ _),
        apply_shiftLeft _ _ (min_le_right _ _)] at hresult
      exact hresult

/-! ### What is not finite -/

/-- An operation that gives no number where its left side is none keeps infinities and NaN. -/
theorem isFinite_left (op : UnpackedFloat → UnpackedFloat → UnpackedFloat) (y : Float)
    (hop : ∀ u u', u.isFinite = false → (op u u').isFinite = false)
    (hz : z.toModel = .pack (op x.toModel.unpack y.toModel.unpack))
    (hfinite : z.isFinite = true) : x.isFinite = true := by
  by_contra hx
  have hresult := hop _ y.toModel.unpack (Bool.eq_false_of_not_eq_true hx)
  generalize op x.toModel.unpack y.toModel.unpack = u at hz hresult
  refine absurd hfinite (Bool.not_eq_true _ ▸ ?_)
  unfold Float.isFinite Float.Model.isFinite
  rw [hz]
  cases u with
  | notANumber => rfl
  | infinity s => cases s <;> rfl
  | zero s => cases hresult
  | finite s m e hm => cases hresult

theorem isFinite_left_of_add (h : (x + y).isFinite = true) : x.isFinite = true := by
  refine isFinite_left (UnpackedFloat.add .binary64) y ?_ rfl h
  intro u u' hu
  cases u with
  | notANumber => cases u' <;> rfl
  | infinity s =>
      cases u' with
      | infinity s' => cases s <;> cases s' <;> rfl
      | _ => rfl
  | _ => cases hu

theorem isFinite_left_of_mul (h : (x * y).isFinite = true) : x.isFinite = true := by
  refine isFinite_left (UnpackedFloat.mul .binary64) y ?_ rfl h
  intro u u' hu
  cases u with
  | notANumber => cases u' <;> rfl
  | infinity s => cases u' <;> rfl
  | _ => cases hu

theorem isFinite_left_of_div (h : (x / y).isFinite = true) : x.isFinite = true := by
  refine isFinite_left (UnpackedFloat.div .binary64) y ?_ rfl h
  intro u u' hu
  cases u with
  | notANumber => cases u' <;> rfl
  | infinity s => cases u' <;> rfl
  | _ => cases hu

end Campus.Number
