import Campus.Json
import Campus.Proofs.Number.Shortest

/-!
# Doubles that are integers

`value?` is the exact value of a double, read off the double as it is unpacked. A double is taken
for an integer exactly if its value is one (`integer?_eq_some_iff`), and that integer is read as the
double again (`beq_floatOfInt`), where a negative zero counts as zero.
-/

namespace Campus.Number

open Float.Model (UnpackedFloat)
open Float.Model.UnpackedFloat

/-- The number with that sign. -/
def signed (negative : Bool) (v : ℚ) : ℚ := if negative then -v else v

/-- The exact value of a double, if it is finite. -/
def value? (x : Float) : Option ℚ :=
  match x.toModel.unpack with
  | .finite s mantissa exponent _ => some (signed (s == .negative) (mantissa * 2 ^ exponent))
  | .zero _ => some 0
  | .infinity _ | .notANumber => none

/-- The value of a double by its parts. -/
def Dyadic.value (d : Dyadic) : ℚ := signed d.negative (d.mantissa * 2 ^ d.exponent)

variable {x : Float} {d : Dyadic} {n : ℤ}

theorem value?_of_ofFloat? (h : Dyadic.ofFloat? x = some d) : value? x = some d.value := by
  unfold value?
  rcases Dyadic.unpack_of_ofFloat? h with ⟨hzero, hunpacked⟩ | ⟨hc, hunpacked⟩
  · rw [hunpacked]
    cases hnegative : d.negative <;> simp [Dyadic.value, hzero, hnegative, signed]
  · rw [hunpacked]
    cases hnegative : d.negative <;> simp [Dyadic.value, hnegative, signOf, signed]

theorem signed_natCast (negative : Bool) (k : ℕ) :
    signed negative k = ((if negative then -k else k : ℤ) : ℚ) := by
  cases negative <;> simp [signed]

theorem abs_signed (negative : Bool) (v : ℚ) : |signed negative v| = |v| := by
  cases negative <;> simp [signed]

theorem Dyadic.abs_value (d : Dyadic) : |d.value| = d.mantissa * 2 ^ d.exponent := by
  rw [value, abs_signed, abs_of_nonneg (by positivity)]

theorem signed_lt_zero_iff {negative : Bool} {v : ℚ} (hv : 0 < v) :
    signed negative v < 0 ↔ negative = true := by
  cases negative
  · simpa [signed] using hv.le
  · simpa [signed] using hv

/-- A double is taken for the integer that it is. -/
theorem Dyadic.toInt?_eq_some_iff : d.toInt? = some n ↔ d.value = n := by
  unfold toInt? value
  dsimp only
  split
  · next hexponent =>
    have hpower : (2 : ℚ) ^ d.exponent = (2 ^ d.exponent.toNat : ℕ) := by
      rw [Nat.cast_pow, ← zpow_natCast, Int.toNat_of_nonneg hexponent]
      rfl
    rw [hpower, ← Nat.cast_mul, signed_natCast, Option.some.injEq, Int.cast_inj]
    rfl
  · next hexponent =>
    have hpower : (2 : ℚ) ^ d.exponent = ((2 ^ (-d.exponent).toNat : ℕ) : ℚ)⁻¹ := by
      rw [Nat.cast_pow, ← zpow_natCast, Int.toNat_of_nonneg (by omega), ← zpow_neg, neg_neg]
      rfl
    have hunit : (2 ^ (-d.exponent).toNat : ℕ) ≠ 0 := by positivity
    rw [hpower, Nat.pow_eq, ← div_eq_mul_inv]
    generalize 2 ^ (-d.exponent).toNat = unit at hunit
    split
    · next hmod =>
      have hdiv : (d.mantissa : ℚ) / unit = (d.mantissa / unit : ℕ) :=
        (Nat.cast_div (Nat.dvd_of_mod_eq_zero hmod) (by exact_mod_cast hunit)).symm
      rw [hdiv, signed_natCast, Option.some.injEq, Int.cast_inj]
    · next hmod =>
      refine iff_of_false (by simp) fun hvalue => hmod ?_
      have habs : (d.mantissa : ℚ) / unit = n.natAbs := by
        rw [Nat.cast_natAbs, Int.cast_abs, ← hvalue, abs_signed, abs_of_nonneg (by positivity)]
      rw [div_eq_iff (by exact_mod_cast hunit)] at habs
      have hmul : d.mantissa = n.natAbs * unit := by exact_mod_cast habs
      rw [hmul, Nat.mul_mod_left]

theorem isSome_value?_iff : (value? x).isSome = true ↔ x.isFinite = true := by
  unfold value? Float.isFinite Float.Model.isFinite UnpackedFloat.isFinite
  cases x.toModel.unpack <;> simp

theorem exists_value (h : x.isFinite = true) : ∃ v, value? x = some v :=
  Option.isSome_iff_exists.mp (isSome_value?_iff.mpr h)

theorem exists_dyadic {v : ℚ} (h : value? x = some v) :
    ∃ d, Dyadic.ofFloat? x = some d ∧ d.value = v := by
  have hfinite : x.isFinite = true := isSome_value?_iff.mp (by rw [h, Option.isSome_some])
  obtain ⟨d, hd⟩ := Option.isSome_iff_exists.mp (Dyadic.isSome_ofFloat?_iff.mpr hfinite)
  rw [value?_of_ofFloat? hd, Option.some.injEq] at h
  exact ⟨d, hd, h⟩

theorem integer?_eq_some_iff : integer? x = some n ↔ value? x = some (n : ℚ) := by
  rw [integer?, Option.bind_eq_some_iff]
  constructor
  · intro h
    obtain ⟨d, hd, hn⟩ := h
    rw [value?_of_ofFloat? hd, Dyadic.toInt?_eq_some_iff.mp hn]
  · intro h
    obtain ⟨d, hd, hvalue⟩ := exists_dyadic h
    exact ⟨d, hd, Dyadic.toInt?_eq_some_iff.mpr hvalue⟩

/-! ### Reading an integer as a double -/

theorem floatOfInt_eq (n : ℤ) :
    Json.floatOfInt n = withSign (decide (n < 0)) (Float.ofNat n.natAbs) := by
  unfold Json.floatOfInt withSign
  by_cases h : n < 0 <;> simp [h]

/-- The integer that a double is comes back as the double. -/
theorem beq_floatOfInt (h : value? x = some (n : ℚ)) : (Json.floatOfInt n == x) = true := by
  obtain ⟨d, hd, hvalue⟩ := exists_dyadic h
  have hself : (x == x) = true := by
    rw [Float.beq_self_iff]
    rintro rfl
    cases h
  rcases Dyadic.unpack_of_ofFloat? hd with ⟨hzero, hunpacked⟩ | ⟨hc, hunpacked⟩
  · obtain rfl : n = 0 := by
      have hn : (n : ℚ) = 0 := by
        rw [← hvalue, Dyadic.value, hzero, Nat.cast_zero, zero_mul]
        cases d.negative <;> rfl
      exact_mod_cast hn
    -- Both zeros are equal to zero.
    cases hnegative : d.negative with
    | false =>
        rw [hnegative] at hunpacked
        obtain rfl : Json.floatOfInt 0 = x := eq_of_unpack_eq hunpacked rfl
        decide
    | true =>
        rw [hnegative] at hunpacked
        obtain rfl : (-0 : Float) = x := eq_of_unpack_eq hunpacked rfl
        decide
  · have hpos : (0 : ℚ) < d.mantissa * 2 ^ d.exponent := by
      have := hc.pos
      positivity
    have hnegative : decide (n < 0) = d.negative := by
      have hsign : signed d.negative _ < 0 ↔ d.negative = true := signed_lt_zero_iff hpos
      rw [← Dyadic.value, hvalue, Int.cast_lt_zero] at hsign
      rw [Bool.eq_iff_iff, decide_eq_true_iff, hsign]
    have habs : (n.natAbs : ℚ) = d.mantissa * 2 ^ d.exponent := by
      rw [Nat.cast_natAbs, Int.cast_abs, ← hvalue, Dyadic.abs_value]
    have hmagnitude : (Float.ofNat n.natAbs).toModel =
        .pack (.finite .positive d.mantissa d.exponent hc.pos) := by
      show (Float.ofScientific n.natAbs false 0).toModel = _
      refine toModel_ofScientific hc ?_
      rw [if_neg Bool.false_ne_true, Nat.cast_zero, zpow_zero, mul_one, habs]
      exact contains_self hc.pos
    obtain heq : Json.floatOfInt n = x := by
      refine eq_of_unpack_eq hunpacked ?_
      rw [floatOfInt_eq, toModel_withSign _ hmagnitude (hc.unpack_pack _), hnegative]
      cases d.negative <;> rfl
    rwa [heq]

end Campus.Number
