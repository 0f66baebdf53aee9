import Campus.Proofs.Number.Comparison
import Campus.Proofs.Number.Integers
import Campus.Proofs.Scalar

/-!
# Doubles by their values

Mantissa and exponent of a double order it as its value does (`Rounded.lt_iff`), so finite doubles
are compared by their values (`lt_iff_value`), and those of one value are the same
(`identity_eq_of_value`). The next double on either side is at least as far away as the mantissa
tells (`Rounded.succ_le`, `Rounded.le_pred`).
-/

namespace Campus.Number

open Float.Model (Format UnpackedFloat)
open Float.Model.UnpackedFloat

variable {mantissa mantissa' : ℕ} {exponent exponent' e : ℤ} {a w : ℚ} {x y : Float}
  {d d' : Dyadic}

/-! ### Mantissas and exponents -/

theorem Rounded.value_pos (hr : Rounded mantissa exponent) :
    (0 : ℚ) < mantissa * 2 ^ exponent := by
  have hpos := hr.pos
  positivity

theorem two_zpow_mul_two_le (h : e < exponent) : (2 : ℚ) ^ e * 2 ≤ 2 ^ exponent := by
  rw [← zpow_add_one₀ (by norm_num)]
  exact zpow_le_zpow_right₀ (by norm_num) (by omega)

/-- A double with a greater exponent has all bits, and is greater. -/
theorem Rounded.zpow_le (hr : Rounded mantissa exponent) (he : e < exponent) (hbottom : -1074 ≤ e) :
    (2 ^ 53 * 2 ^ e : ℚ) ≤ mantissa * 2 ^ exponent := by
  have hnormal : (2 ^ 52 : ℚ) ≤ mantissa := by
    exact_mod_cast hr.normal.resolve_left (by omega)
  calc (2 ^ 53 * 2 ^ e : ℚ) = 2 ^ 52 * (2 ^ e * 2) := by ring
    _ ≤ mantissa * 2 ^ exponent := by
      gcongr
      exact two_zpow_mul_two_le he

theorem Rounded.lt_zpow (hr : Rounded mantissa exponent) :
    (mantissa * 2 ^ exponent : ℚ) < 2 ^ 53 * 2 ^ exponent := by
  gcongr
  exact_mod_cast hr.lt

/-- Doubles are in the order of their exponents, and then of their mantissas. -/
theorem Rounded.lt_iff (hr : Rounded mantissa exponent) (hr' : Rounded mantissa' exponent') :
    (mantissa * 2 ^ exponent : ℚ) < mantissa' * 2 ^ exponent' ↔
      exponent < exponent' ∨ exponent = exponent' ∧ mantissa < mantissa' := by
  rcases lt_trichotomy exponent exponent' with he | rfl | he
  · exact iff_of_true (hr.lt_zpow.trans_le (hr'.zpow_le he hr.bottom)) (.inl he)
  · have hunit : (0 : ℚ) < 2 ^ exponent := by positivity
    rw [mul_lt_mul_iff_left₀ hunit, Nat.cast_lt]
    simp
  · refine iff_of_false (not_lt.mpr ?_) (by omega)
    exact (hr'.lt_zpow.trans_le (hr.zpow_le he hr'.bottom)).le

theorem Rounded.eq_of_value_eq (hr : Rounded mantissa exponent) (hr' : Rounded mantissa' exponent')
    (h : (mantissa * 2 ^ exponent : ℚ) = mantissa' * 2 ^ exponent') :
    mantissa = mantissa' ∧ exponent = exponent' := by
  have hbelow := (hr.lt_iff hr').not.mp h.not_lt
  have habove := (hr'.lt_iff hr).not.mp h.symm.not_lt
  omega

/-- The next double above is at least one unit of the mantissa away. -/
theorem Rounded.succ_le (hr : Rounded mantissa exponent) (hr' : Rounded mantissa' exponent')
    (hlt : (mantissa * 2 ^ exponent : ℚ) < mantissa' * 2 ^ exponent') :
    (mantissa + 1 : ℚ) * 2 ^ exponent ≤ mantissa' * 2 ^ exponent' := by
  have hunit : (0 : ℚ) < 2 ^ exponent := by positivity
  rcases (hr.lt_iff hr').mp hlt with he | ⟨rfl, hmantissa⟩
  · refine le_trans ?_ (hr'.zpow_le he hr.bottom)
    gcongr
    exact_mod_cast hr.lt
  · gcongr
    exact_mod_cast hmantissa

/-- The next double below is at least twice as far away as the neighbourhood reaches. -/
theorem Rounded.le_pred (hr : Rounded mantissa exponent) (hr' : Rounded mantissa' exponent')
    (hlt : (mantissa' * 2 ^ exponent' : ℚ) < mantissa * 2 ^ exponent) :
    (mantissa' * 2 ^ exponent' : ℚ) ≤
      (mantissa - 2 * reachBelow mantissa exponent) * 2 ^ exponent := by
  have hunit : (0 : ℚ) < 2 ^ exponent := by positivity
  have hreach := reachBelow_le mantissa exponent
  rcases (hr'.lt_iff hr).mp hlt with he | ⟨rfl, hmantissa⟩
  · have hbottom := hr'.bottom
    have hnormal := hr.normal.resolve_left (by omega)
    have hlt' : (mantissa' : ℚ) + 1 ≤ 2 ^ 53 := by exact_mod_cast hr'.lt
    have hbelow : (mantissa' * 2 ^ exponent' : ℚ) ≤ (2 ^ 52 - 1 / 2) * 2 ^ exponent := by
      have hmul : (mantissa' * 2 ^ exponent' : ℚ) ≤ (2 ^ 53 - 1) * 2 ^ exponent' := by
        gcongr
        linarith
      linarith [two_zpow_mul_two_le he]
    refine hbelow.trans (mul_le_mul_of_nonneg_right ?_ hunit.le)
    unfold reachBelow
    split
    · next hdenser =>
      rw [hdenser.1]
      norm_num
    · next hdenser =>
      have hmore : (2 ^ 52 + 1 : ℚ) ≤ mantissa := by
        exact_mod_cast (show 2 ^ 52 + 1 ≤ mantissa by omega)
      linarith
  · have hle : (mantissa' : ℚ) + 1 ≤ mantissa := by exact_mod_cast hmantissa
    gcongr
    linarith

/-! ### Finite doubles -/

theorem Dyadic.canonical_of_ofFloat? (h : ofFloat? x = some d) (hne : d.mantissa ≠ 0) :
    Canonical d.mantissa d.exponent := by
  rcases unpack_of_ofFloat? h with ⟨hzero, -⟩ | ⟨hc, -⟩
  · exact absurd hzero hne
  · exact hc

theorem Dyadic.value_of_mantissa_eq_zero (h : d.mantissa = 0) : d.value = 0 := by
  rw [value, h, Nat.cast_zero, zero_mul]
  cases d.negative <;> simp [signed]

/-- Finite doubles are in the order of their values. -/
theorem lt_iff_value (hx : value? x = some a) (hy : value? y = some b) : x < y ↔ a < b := by
  have hnumber : ∀ {z : Float} {c : ℚ}, value? z = some c → z.isNaN = false := by
    intro z c hz
    have hfinite : z.isFinite = true := isSome_value?_iff.mp (by rw [hz, Option.isSome_some])
    exact isNaN_eq_false hfinite
  obtain ⟨d, hd, rfl⟩ := exists_dyadic hx
  obtain ⟨d', hd', rfl⟩ := exists_dyadic hy
  rw [lt_iff, and_iff_right (hnumber hx), and_iff_right (hnumber hy)]
  rcases Dyadic.unpack_of_ofFloat? hd with ⟨hzero, hparts⟩ | ⟨hc, hparts⟩
  · rw [Dyadic.value_of_mantissa_eq_zero hzero, hparts]
    rcases Dyadic.unpack_of_ofFloat? hd' with ⟨hzero', hparts'⟩ | ⟨hc', hparts'⟩
    · rw [Dyadic.value_of_mantissa_eq_zero hzero', hparts']
      simp [place]
    · have hpos := hc'.value_pos
      rw [hparts', Dyadic.value]
      cases d'.negative <;> simp [place, toLex_lt_iff, signOf, signed, hpos, hpos.le]
  · have hpos := hc.value_pos
    rw [hparts]
    rcases Dyadic.unpack_of_ofFloat? hd' with ⟨hzero', hparts'⟩ | ⟨hc', hparts'⟩
    · rw [Dyadic.value_of_mantissa_eq_zero hzero', hparts', Dyadic.value]
      cases d.negative <;> simp [place, toLex_lt_iff, signOf, signed, hpos, hpos.le]
    · -- Numbers of different sign lie on different sides of zero.
      have hpos' := hc'.value_pos
      rw [hparts', Dyadic.value, Dyadic.value]
      cases d.negative with
      | false =>
          cases d'.negative with
          | false => simp [place, toLex_lt_iff, signOf, signed, hc.lt_iff hc'.toRounded]
          | true =>
              simp [place, toLex_lt_iff, signOf, signed]
              linarith
      | true =>
          cases d'.negative with
          | false =>
              simp [place, toLex_lt_iff, signOf, signed]
              linarith
          | true =>
              simp [place, toLex_lt_iff, signOf, signed, hc'.lt_iff hc.toRounded,
                @eq_comm ℤ d.exponent]

theorem Dyadic.value_ne_zero (hr : Rounded d.mantissa d.exponent) : d.value ≠ 0 := by
  rw [value, ← abs_ne_zero, abs_signed, abs_ne_zero]
  exact hr.value_pos.ne'

theorem beq_zero_of_value (hx : value? x = some 0) : (x == 0) = true := by
  obtain ⟨d, hd, hvalue⟩ := exists_dyadic hx
  rcases Dyadic.unpack_of_ofFloat? hd with ⟨-, hparts⟩ | ⟨hc, -⟩
  · cases hnegative : d.negative with
    | false =>
        rw [hnegative] at hparts
        obtain rfl : (0 : Float) = x := eq_of_unpack_eq hparts rfl
        decide
    | true =>
        rw [hnegative] at hparts
        obtain rfl : (-0 : Float) = x := eq_of_unpack_eq hparts rfl
        decide
  · exact absurd hvalue (Dyadic.value_ne_zero hc.toRounded)

/-- The doubles that are equal to zero are the two zeros. -/
theorem beq_zero_iff : (x == 0) = true ↔ x = 0 ∨ x = -0 := by
  constructor
  · intro h
    have hcompared : (x.toModel.unpack.compare (.zero .positive) == some .eq) = true := h
    cases hparts : x.toModel.unpack with
    | zero s =>
        cases s with
        | positive =>
            obtain rfl : (0 : Float) = x := eq_of_unpack_eq hparts rfl
            exact .inl rfl
        | negative =>
            obtain rfl : (-0 : Float) = x := eq_of_unpack_eq hparts rfl
            exact .inr rfl
    | notANumber =>
        rw [hparts] at hcompared
        cases hcompared
    | infinity s =>
        rw [hparts] at hcompared
        cases s <;> cases hcompared
    | finite s mantissa exponent hpos =>
        rw [hparts] at hcompared
        cases s <;> cases hcompared
  · rintro (rfl | rfl) <;> decide

/-- A double is determined by its parts. -/
theorem Dyadic.ofFloat?_inj (hx : ofFloat? x = some d) (hy : ofFloat? y = some d) : x = y := by
  have hread : ∀ {z : Float}, ofFloat? z = some d →
      ∃ s, Scientific.ofFloat? .away x = some s ∧ Scientific.ofFloat? .away z = some s := by
    intro z hz
    rw [Scientific.ofFloat?, Scientific.ofFloat?, hx, hz]
    exact ⟨_, rfl, rfl⟩
  obtain ⟨s, hsx, hsy⟩ := hread hy
  rw [← Scientific.toFloat_eq_of_ofFloat? hsx rfl rfl,
    Scientific.toFloat_eq_of_ofFloat? hsy rfl rfl]

/-- Doubles of one value are the same, if that is not zero. -/
theorem eq_of_value (hne : a ≠ 0) (hx : value? x = some a) (hy : value? y = some a) : x = y := by
  obtain ⟨d, hd, hvalue⟩ := exists_dyadic hx
  obtain ⟨d', hd', hvalue'⟩ := exists_dyadic hy
  have hmantissa : ∀ {d : Dyadic}, d.value = a → d.mantissa ≠ 0 :=
    fun h hd => hne (h ▸ Dyadic.value_of_mantissa_eq_zero hd)
  have hc := Dyadic.canonical_of_ofFloat? hd (hmantissa hvalue)
  have hc' := Dyadic.canonical_of_ofFloat? hd' (hmantissa hvalue')
  have hsign : ∀ {d : Dyadic}, d.value = a → Canonical d.mantissa d.exponent →
      d.negative = decide (a < 0) := by
    intro d hvalue hc
    have hiff : d.value < 0 ↔ d.negative = true := signed_lt_zero_iff hc.value_pos
    rw [Bool.eq_iff_iff, decide_eq_true_iff, ← hiff, hvalue]
  have hmagnitude : ∀ {d : Dyadic}, d.value = a → (d.mantissa * 2 ^ d.exponent : ℚ) = |a| := by
    intro d hvalue
    rw [← hvalue, Dyadic.abs_value]
  obtain ⟨hmantissas, hexponents⟩ := hc.eq_of_value_eq hc'.toRounded
    ((hmagnitude hvalue).trans (hmagnitude hvalue').symm)
  have hsigns := (hsign hvalue hc).trans (hsign hvalue' hc').symm
  obtain rfl : d = d' := by
    cases d
    cases d'
    rw [Dyadic.mk.injEq]
    exact ⟨hsigns, hmantissas, hexponents⟩
  exact Dyadic.ofFloat?_inj hd hd'

/-- Doubles of one value are the same, but perhaps for the sign of a zero. -/
theorem identity_eq_of_value (hx : value? x = some a) (hy : value? y = some a) :
    identity x = identity y := by
  rw [identity_inj]
  by_cases hzero : a = 0
  · rw [hzero] at hx hy
    exact .inr ⟨beq_zero_of_value hx, beq_zero_of_value hy⟩
  · exact .inl (eq_of_value hzero hx hy)

/-- Doubles are multiples of the least positive one. -/
theorem exists_multiple (hx : value? x = some w) : ∃ k : ℤ, w = k * 2 ^ (-1074 : ℤ) := by
  obtain ⟨d, hd, rfl⟩ := exists_dyadic hx
  by_cases hzero : d.mantissa = 0
  · refine ⟨0, ?_⟩
    rw [Dyadic.value_of_mantissa_eq_zero hzero, Int.cast_zero, zero_mul]
  · have hc := Dyadic.canonical_of_ofFloat? hd hzero
    obtain ⟨k, hk⟩ := Int.le.dest hc.bottom
    refine ⟨(if d.negative then -(d.mantissa * 2 ^ k : ℕ) else (d.mantissa * 2 ^ k : ℕ) : ℤ), ?_⟩
    have hshift : (d.mantissa * 2 ^ d.exponent : ℚ) =
        (d.mantissa * 2 ^ k : ℕ) * 2 ^ (-1074 : ℤ) := by
      rw [← hk, zpow_add₀ (by norm_num), zpow_natCast, mul_comm (2 ^ (-1074 : ℤ) : ℚ), ← mul_assoc,
        Nat.cast_mul, Nat.cast_pow, Nat.cast_ofNat]
    rw [← signed_natCast, Dyadic.value, hshift]
    cases d.negative with
    | false => rfl
    | true => exact (neg_mul _ _).symm

end Campus.Number
