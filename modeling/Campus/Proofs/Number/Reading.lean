import Campus.Number.Scientific
import Campus.Proofs.Number.Rounding

/-!
# Decimals that are read

A decimal is read in one of three ways: with few digits and a small power of ten as the product or
the quotient of two exact doubles, and otherwise as an exact product or quotient that is rounded.
All three round once, so a decimal that lies in the neighbourhood of a double is read as this double
(`toModel_ofScientific`).
-/

namespace Campus.Number

open Float.Model (Format UnpackedFloat totalExponent)
open Float.Model.UnpackedFloat

variable {mantissa digits : ℕ} {exponent power : ℤ} {v : ℚ}

/-! ### Packed doubles -/

/-- The implicit bit stands in front of the stored ones. -/
theorem toNat_implicit (stored : BitVec 52) : (1#1 ++ stored).toNat = 2 ^ 52 + stored.toNat := by
  rw [BitVec.toNat_append, ← Nat.shiftLeft_add_eq_or_of_lt stored.isLt, Nat.shiftLeft_eq]
  rfl

theorem ofBitVec_toBitVec (s : Sign) : Sign.ofBitVec s.toBitVec = s := by
  cases s <;> rfl

theorem exponentBias_eq : Format.binary64.exponentBias = 1023 := by decide

/-- A mantissa with all 53 bits loses the first when it is packed, and gets it back. -/
theorem unpack_packed_normal (s : Sign) (hpos : 0 < mantissa) (hlow : 2 ^ 52 ≤ mantissa)
    (hlt : mantissa < 2 ^ 53) (hbottom : -1074 ≤ exponent) (htop : exponent ≤ 971) :
    unpack Format.binary64 (packComponents Format.binary64 s
      (BitVec.ofNat 11 (exponent + 1075).toNat) (BitVec.ofNat 52 mantissa)) =
      .finite s mantissa exponent hpos := by
  have hvalue : (BitVec.ofNat 11 (exponent + 1075).toNat).toNat = (exponent + 1075).toNat := by
    rw [BitVec.toNat_ofNat]
    exact Nat.mod_eq_of_lt (by omega)
  -- The field is neither of the two that mean something else.
  have hspecial : BitVec.ofNat 11 (exponent + 1075).toNat ≠ -1#11 := by
    rw [BitVec.toNat_ne, hvalue]
    change _ ≠ 2047
    omega
  have hzero : BitVec.ofNat 11 (exponent + 1075).toNat ≠ 0#11 := by
    rw [BitVec.toNat_ne, hvalue]
    change _ ≠ 0
    omega
  have hstored : (1#1 ++ BitVec.ofNat 52 mantissa).toNat = mantissa := by
    rw [toNat_implicit, BitVec.toNat_ofNat]
    omega
  simp only [unpack, unpackExponent_packComponents, unpackMantissa_packComponents,
    unpackSign_packComponents, ofBitVec_toBitVec, if_neg hspecial, if_neg hzero, hvalue,
    exponentBias_eq, hstored]
  congr 1
  simp only [Nat.cast_ofNat]
  omega

/-- A mantissa with fewer bits is packed as it is. -/
theorem unpack_packed_subnormal (s : Sign) (hpos : 0 < mantissa) (hlt : mantissa < 2 ^ 52) :
    unpack Format.binary64 (packComponents Format.binary64 s (0#11) (BitVec.ofNat 52 mantissa)) =
      .finite s mantissa (-1074) hpos := by
  have hvalue : (BitVec.ofNat 52 mantissa).toNat = mantissa := by
    rw [BitVec.toNat_ofNat]
    exact Nat.mod_eq_of_lt hlt
  have hzero : BitVec.ofNat 52 mantissa ≠ 0#52 := by
    rw [BitVec.toNat_ne, hvalue]
    exact hpos.ne'
  have hspecial : (0#11) ≠ -1#11 := by decide
  simp only [unpack, unpackExponent_packComponents, unpackMantissa_packComponents,
    unpackSign_packComponents, ofBitVec_toBitVec, if_neg hspecial, if_true, dif_neg hzero, hvalue,
    exponentBias_eq]
  rfl

/-- Packing keeps a double. -/
theorem Canonical.unpack_pack (hc : Canonical mantissa exponent) (s : Sign) :
    (Float.Model.pack (.finite s mantissa exponent hc.pos)).unpack =
      .finite s mantissa exponent hc.pos := by
  obtain ⟨⟨hpos, hlt, hbottom, hnormal⟩, htop⟩ := hc
  have hfield : (exponent + (Format.binary64.exponentBias : ℤ) +
      (Format.binary64.mantissaBitsWithoutImplicit : ℤ)).toNat = (exponent + 1075).toNat := by
    rw [exponentBias_eq]
    simp only [Nat.cast_ofNat]
    congr 1
    omega
  have hsmall : ¬ 2 ^ Format.binary64.exponentBits ≤ (exponent + 1075).toNat + 1 := by
    simp only
    omega
  have hbits : Format.binary64.mantissaBits = 53 := rfl
  change unpack Format.binary64 (UnpackedFloat.pack Format.binary64 _) = _
  simp only [UnpackedFloat.pack, hfield, hbits, if_neg hsmall]
  by_cases hlarge : 2 ^ 52 ≤ mantissa
  · have hlog : mantissa.log2 + 1 = 53 := by
      have hge := (Nat.le_log2 hpos.ne').mpr hlarge
      have hle := (Nat.log2_lt hpos.ne').mpr hlt
      omega
    rw [if_pos hlog]
    exact unpack_packed_normal s hpos hlarge hlt hbottom htop
  · have hlog : mantissa.log2 + 1 ≠ 53 := by
      have hle := (Nat.log2_lt hpos.ne').mpr (Nat.lt_of_not_le hlarge)
      omega
    obtain rfl : exponent = -1074 := hnormal.resolve_right hlarge
    rw [if_neg hlog]
    exact unpack_packed_subnormal s hpos (Nat.lt_of_not_le hlarge)

/-! ### Exact doubles -/

/-- A positive double with all 53 bits that has the value `v`. -/
def IsExactly (u : UnpackedFloat) (v : ℚ) : Prop :=
  ∃ m e, ∃ hm : 0 < m, u = .finite .positive m e hm ∧ 2 ^ 52 ≤ m ∧ (m : ℚ) * 2 ^ e = v

/-- A double lies in its own neighbourhood. -/
theorem contains_self (hpos : 0 < mantissa) :
    (Neighbourhood.of mantissa exponent).Contains (mantissa * 2 ^ exponent) := by
  have hcenter : (mantissa * 2 ^ exponent : ℚ) / 2 ^ exponent = mantissa :=
    mul_div_cancel_right₀ _ (by positivity)
  have hreach : 0 < reachBelow mantissa exponent := by
    unfold reachBelow
    split <;> norm_num
  rw [contains_of_iff hpos, hcenter]
  split
  · exact ⟨by linarith, by linarith⟩
  · exact ⟨by linarith, by linarith⟩

/-- A natural number that a mantissa can hold is exact. -/
theorem isExactly_toFloat {n : ℕ} (hpos : 0 < n) (hlt : n < 2 ^ 53) :
    IsExactly n.toUInt64.toFloat.toModel.unpack n := by
  have hlow := Nat.log2_self_le hpos.ne'
  have hhigh := Nat.lt_log2_self (n := n)
  have hlog := (Nat.log2_lt hpos.ne').mpr hlt
  have htarget : (0 - Format.binary64.targetExponent (totalExponent n 0)).toNat = 52 - n.log2 := by
    rw [targetExponent_eq, totalExponent]
    omega
  have hfull : 2 ^ 52 ≤ n * 2 ^ (52 - n.log2) := by
    calc 2 ^ 52 = 2 ^ n.log2 * 2 ^ (52 - n.log2) := by
          rw [← Nat.pow_add]
          congr 1
          omega
      _ ≤ n * 2 ^ (52 - n.log2) := Nat.mul_le_mul_right _ hlow
  have hbound : n * 2 ^ (52 - n.log2) < 2 ^ 53 := by
    calc n * 2 ^ (52 - n.log2) < 2 ^ (n.log2 + 1) * 2 ^ (52 - n.log2) :=
          Nat.mul_lt_mul_of_pos_right hhigh (Nat.two_pow_pos _)
      _ = 2 ^ 53 := by
        rw [← Nat.pow_add]
        congr 1
        omega
  have hc : Canonical (n * 2 ^ (52 - n.log2)) (-(52 - n.log2 : ℕ)) :=
    ⟨⟨by positivity, hbound, by omega, .inr hfull⟩, by omega⟩
  have hvalue : ((n * 2 ^ (52 - n.log2) : ℕ) : ℚ) * 2 ^ (-(52 - n.log2 : ℕ) : ℤ) = n := by
    rw [zpow_neg, zpow_natCast]
    push_cast
    exact mul_inv_cancel_right₀ (by positivity) _
  refine ⟨_, _, hc.pos, ?_, hfull, hvalue⟩
  have hpacked : n.toUInt64.toFloat.toModel.unpack =
      (Float.Model.pack (UnpackedFloat.ofNat .binary64 n)).unpack := by
    have hsame : n.toUInt64.toNat = n := by
      simp
      omega
    change (Float.Model.pack (UnpackedFloat.ofNat .binary64 n.toUInt64.toNat)).unpack = _
    rw [hsame]
  have hround : UnpackedFloat.ofNat .binary64 n =
      .finite .positive (n * 2 ^ (52 - n.log2)) (-(52 - n.log2 : ℕ)) hc.pos := by
    have hcompare : compare (n : ℤ) 0 = .gt := Int.compare_eq_gt.mpr (by omega)
    simp only [UnpackedFloat.ofNat, UnpackedFloat.ofInt, UnpackedFloat.normalize, hcompare,
      UnpackedFloat.round, UnpackedFloat.decreaseExponent, Int.toNat_natCast, htarget]
    rw [Nat.shiftLeft_eq, zero_sub]
    refine roundWithAccuracy_eq hc.toRounded (contains_self hc.pos) ?_ (.inl hfull) _
    rw [mul_div_cancel_right₀ _ (by positivity)]
    exact stands_exact _
  rw [hpacked, hround, hc.unpack_pack]

/-- Whether a double has all 53 bits and is the power `10 ^ i`. -/
def isPowerOfTen (i : ℕ) : UnpackedFloat → Bool
  | .finite .positive m e _ =>
    2 ^ 52 ≤ m && m * 2 ^ e.toNat = 10 ^ i * 2 ^ (-e).toNat
  | _ => false

theorem isExactly_powerOfTen {i : ℕ} (h : i < Float.exactlyRepresentablePowersOfTen.size) :
    IsExactly Float.exactlyRepresentablePowersOfTen[i].toModel.unpack (10 ^ i : ℕ) := by
  have hall : Float.exactlyRepresentablePowersOfTen.zipIdx.all
      (fun p => isPowerOfTen p.2 p.1.toModel.unpack) = true := by
    decide +kernel
  have hi := Array.all_eq_true.mp hall i (by simpa using h)
  rw [Array.getElem_zipIdx] at hi
  simp only [Nat.zero_add] at hi
  generalize Float.exactlyRepresentablePowersOfTen[i].toModel.unpack = u at hi
  unfold isPowerOfTen at hi
  split at hi
  · next m e hm =>
    simp only [Bool.and_eq_true, decide_eq_true_eq] at hi
    refine ⟨m, e, hm, rfl, hi.1, ?_⟩
    have hsplit : (2 : ℚ) ^ e * 2 ^ (-e).toNat = 2 ^ e.toNat := by
      rw [← zpow_natCast, ← zpow_natCast, ← zpow_add₀ (by norm_num)]
      congr 1
      omega
    have hvalue : (m : ℚ) * 2 ^ e.toNat = (10 ^ i : ℕ) * 2 ^ (-e).toNat := by exact_mod_cast hi.2
    rw [← hsplit, ← mul_assoc] at hvalue
    exact mul_right_cancel₀ (by positivity) hvalue
  · cases hi

/-! ### Decimals -/

/-- The finite doubles lie between fixed powers of two, and so do their neighbourhoods. -/
theorem Canonical.bounds (hc : Canonical mantissa exponent)
    (hv : (Neighbourhood.of mantissa exponent).Contains v) :
    2 ^ (-1075 : ℤ) ≤ v ∧ v ≤ 2 ^ (1024 : ℤ) := by
  have hunit : (0 : ℚ) < 2 ^ exponent := by positivity
  have hrounds := roundsTo_of_contains hc.pos hv
  have hone : (1 : ℚ) ≤ mantissa := by exact_mod_cast hc.pos
  have hlt : (mantissa : ℚ) + 1 ≤ 2 ^ 53 := by exact_mod_cast hc.lt
  constructor
  · calc (2 : ℚ) ^ (-1075 : ℤ) = 2 ^ (-1 : ℤ) * 2 ^ (-1074 : ℤ) := by
          rw [← zpow_add₀ (by norm_num)]
          norm_num
      _ ≤ (mantissa - 1 / 2) * 2 ^ exponent := by
        refine mul_le_mul ?_ (zpow_le_zpow_right₀ (by norm_num) hc.bottom) (by positivity) ?_
        · norm_num
          linarith
        · linarith
      _ ≤ v := (le_div_iff₀ hunit).mp hrounds.low
  · calc v ≤ (mantissa + 1 / 2) * 2 ^ exponent := (div_le_iff₀ hunit).mp hrounds.high
      _ ≤ 2 ^ (53 : ℤ) * 2 ^ (971 : ℤ) := by
        refine mul_le_mul ?_ (zpow_le_zpow_right₀ (by norm_num) hc.top) (by positivity)
          (by positivity)
        linarith
      _ = 2 ^ (1024 : ℤ) := by
        rw [← zpow_add₀ (by norm_num)]
        norm_num

/-- A decimal in the neighbourhood of a double is neither zero nor so great or so small that it is
not looked at. -/
theorem Canonical.power_bounds (hc : Canonical mantissa exponent)
    (hv : (Neighbourhood.of mantissa exponent).Contains (digits * 10 ^ power)) :
    0 < digits ∧ power ≤ 2048 ∧ -(2048 + (digits.log2 : ℤ)) ≤ power := by
  obtain ⟨hlow, hhigh⟩ := hc.bounds hv
  have hdigits : 0 < digits := by
    by_contra hzero
    obtain rfl : digits = 0 := by omega
    rw [Nat.cast_zero, zero_mul] at hlow
    exact absurd hlow (not_le.mpr (by positivity))
  have hone : (1 : ℚ) ≤ digits := by exact_mod_cast hdigits
  have hten : (10 : ℚ) ^ power = 2 ^ power * 5 ^ power := by
    rw [← mul_zpow]
    norm_num
  rw [hten] at hlow hhigh
  refine ⟨hdigits, ?_, ?_⟩
  · by_contra hlarge
    refine absurd hhigh (not_le.mpr ?_)
    calc (2 : ℚ) ^ (1024 : ℤ) < 2 ^ power := zpow_lt_zpow_right₀ (by norm_num) (by omega)
      _ ≤ 2 ^ power * 5 ^ power :=
        le_mul_of_one_le_right (by positivity) (one_le_zpow₀ (by norm_num) (by omega))
      _ ≤ digits * (2 ^ power * 5 ^ power) := le_mul_of_one_le_left (by positivity) hone
  · by_contra hsmall
    have hlog : (digits : ℚ) < 2 ^ (digits.log2 + 1) := by exact_mod_cast Nat.lt_log2_self
    refine absurd hlow (not_le.mpr ?_)
    calc (digits : ℚ) * (2 ^ power * 5 ^ power) ≤ digits * 2 ^ power := by
          gcongr
          exact mul_le_of_le_one_right (by positivity)
            (zpow_le_one_of_nonpos₀ (by norm_num) (by omega))
      _ < 2 ^ (digits.log2 + 1) * 2 ^ power := by gcongr
      _ = 2 ^ ((digits.log2 : ℤ) + 1 + power) := by
        rw [zpow_add₀ (by norm_num), ← Nat.cast_succ, zpow_natCast]
      _ ≤ 2 ^ (-1075 : ℤ) := zpow_le_zpow_right₀ (by norm_num) (by omega)

/-- A decimal that is not rounded on the way is read as the double in whose neighbourhood it
lies. -/
theorem ofScientific_eq (hc : Canonical mantissa exponent)
    (hv : (Neighbourhood.of mantissa exponent).Contains (digits * 10 ^ power)) :
    UnpackedFloat.ofScientific .binary64 digits power =
      .finite .positive mantissa exponent hc.pos := by
  obtain ⟨hdigits, hlarge, hsmall⟩ := hc.power_bounds hv
  have hinfinite : ¬ power > 2 ^ Format.binary64.exponentBits := not_lt.mpr hlarge
  have hzero : ¬ power < -(2 ^ Format.binary64.exponentBits + (digits.log2 : ℤ)) :=
    not_lt.mpr hsmall
  unfold UnpackedFloat.ofScientific
  rw [dif_neg hdigits.ne', if_neg hinfinite, if_neg hzero]
  split
  · next hsign =>
    refine mul_eq hc.toRounded ?_ ?_
    · have hvalue : ((digits <<< Format.binary64.mantissaBits : ℕ) : ℚ) *
          2 ^ (-(Format.binary64.mantissaBits : ℤ)) * ((10 ^ power.toNat : ℕ) * 2 ^ (0 : ℤ)) =
          digits * 10 ^ power := by
        have hpower : (10 : ℚ) ^ power = 10 ^ power.toNat := by
          rw [← zpow_natCast]
          congr 1
          omega
        rw [Nat.shiftLeft_eq, zpow_neg, zpow_natCast, hpower]
        push_cast
        field_simp
      rwa [hvalue]
    · rw [Nat.shiftLeft_eq]
      calc 2 ^ 52 ≤ 1 * 2 ^ Format.binary64.mantissaBits * 1 := by decide
        _ ≤ digits * 2 ^ Format.binary64.mantissaBits * 10 ^ power.toNat := by
          gcongr
          · omega
          · exact Nat.one_le_pow _ _ (by decide)
  · next hsign =>
    refine div_eq hc.toRounded ?_
    have hvalue : ((digits : ℚ) * 2 ^ (0 : ℤ)) / ((10 ^ (-power).toNat : ℕ) * 2 ^ (0 : ℤ)) =
        digits * 10 ^ power := by
      have hpower : (10 : ℚ) ^ power = (10 ^ (-power).toNat)⁻¹ := by
        rw [← zpow_natCast, ← zpow_neg]
        congr 1
        omega
      rw [hpower, zpow_zero, mul_one, mul_one, div_eq_mul_inv]
      push_cast
      rfl
    rwa [hvalue]

/-- A decimal without sign is read as the double in whose neighbourhood it lies. -/
theorem toModel_ofScientific (hc : Canonical mantissa exponent) {negative : Bool} {e : ℕ}
    (hv : (Neighbourhood.of mantissa exponent).Contains
      (digits * 10 ^ (if negative then -(e : ℤ) else e))) :
    (Float.ofScientific digits negative e).toModel =
      .pack (.finite .positive mantissa exponent hc.pos) := by
  unfold Float.ofScientific
  split
  · next hfast =>
    have hpos := (hc.power_bounds hv).1
    have hsize : e < Float.exactlyRepresentablePowersOfTen.size := by
      simp [Float.exactlyRepresentablePowersOfTen]
      omega
    obtain ⟨m₁, e₁, h₁, hu₁, hbits₁, hvalue₁⟩ := isExactly_toFloat hpos hfast.1
    obtain ⟨m₂, e₂, h₂, hu₂, hbits₂, hvalue₂⟩ := isExactly_powerOfTen hsize
    split
    · next hnegative =>
      change Float.Model.pack (UnpackedFloat.div .binary64 _ _) = _
      rw [hu₁, hu₂, div_eq hc.toRounded]
      · rfl
      · rw [hvalue₁, hvalue₂]
        rw [if_pos hnegative, zpow_neg, zpow_natCast] at hv
        rw [div_eq_mul_inv]
        push_cast
        exact hv
    · next hnegative =>
      change Float.Model.pack (UnpackedFloat.mul .binary64 _ _) = _
      rw [hu₁, hu₂, mul_eq hc.toRounded]
      · rfl
      · rw [hvalue₁, hvalue₂]
        rw [if_neg hnegative, zpow_natCast] at hv
        push_cast
        exact hv
      · calc 2 ^ 52 ≤ 2 ^ 52 * 1 := by decide
          _ ≤ m₁ * m₂ := Nat.mul_le_mul hbits₁ h₂
  · have hexponent : (if negative = true then Int.negOfNat e else Int.ofNat e) =
        if negative = true then -(e : ℤ) else e := by
      split
      · exact Int.negOfNat_eq
      · rfl
    dsimp only
    rw [hexponent]
    change Float.Model.pack _ = _
    rw [ofScientific_eq hc hv]

end Campus.Number
