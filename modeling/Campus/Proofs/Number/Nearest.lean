import Campus.Proofs.Number.Values

/-!
# The nearest double

A number is rounded to the double in whose neighbourhood it lies, or to zero if it is so small
(`Rounds`). There is such a double for every number that is not too great (`exists_rounded`), and no
finite double is nearer to the number (`Rounds.isNearest`). The neighbourhood also bounds how far
away it can be, in proportion to the number (`Rounds.abs_sub_le`).
-/

namespace Campus.Number

open Float.Model (Format UnpackedFloat totalExponent)
open Float.Model.UnpackedFloat

variable {mantissa : ℕ} {exponent : ℤ} {v u a w : ℚ} {x y : Float} {d : Dyadic}

/-! ### Every number has a double to be rounded to -/

theorem exists_roundsTo {x : ℚ} (hx : 0 ≤ x) : ∃ n : ℕ, RoundsTo x n := by
  have hlow := Nat.floor_le hx
  have hhigh := Nat.lt_floor_add_one x
  generalize ⌊x⌋₊ = n at hlow hhigh
  rcases lt_trichotomy x (n + 1 / 2) with h | h | h
  · exact ⟨n, by linarith, h.le, fun _ => ⟨by linarith, h.ne⟩⟩
  · rcases Nat.mod_two_eq_zero_or_one n with heven | hodd
    · exact ⟨n, by linarith, h.le, fun hodd => absurd hodd (by omega)⟩
    · refine ⟨n + 1, ?_, ?_, fun heven => absurd heven (by omega)⟩
      · push_cast
        linarith
      · push_cast
        linarith
  · refine ⟨n + 1, ?_, ?_, fun _ => ⟨?_, ?_⟩⟩ <;> push_cast
    · linarith
    · linarith
    · exact (by linarith : (n + 1 - 1 / 2 : ℚ) < x).ne
    · exact (by linarith : x < (n + 1 + 1 / 2 : ℚ)).ne

/-- The exponent at which the integer part has 53 bits, unless it is too small. -/
theorem exists_exponent (hpos : 0 < v) :
    ∃ e : ℤ, -1074 ≤ e ∧ v / 2 ^ e < 2 ^ 53 ∧ (e = -1074 ∨ 2 ^ 52 ≤ v / 2 ^ e) := by
  have hlow : (2 : ℚ) ^ Int.log 2 v ≤ v := Int.zpow_log_le_self (by norm_num) hpos
  have hhigh : v < (2 : ℚ) ^ (Int.log 2 v + 1) := Int.lt_zpow_succ_log_self (by norm_num) v
  have hadd : ∀ (k : ℕ) (e : ℤ), (2 : ℚ) ^ k * 2 ^ e = 2 ^ (e + k) := by
    intro k e
    rw [add_comm, zpow_add₀ (by norm_num), zpow_natCast]
  refine ⟨max (Int.log 2 v - 52) (-1074), le_max_right _ _, ?_, ?_⟩
  · rw [div_lt_iff₀ (by positivity), hadd]
    refine hhigh.trans_le (zpow_le_zpow_right₀ (by norm_num) ?_)
    push_cast
    omega
  · rcases le_total (Int.log 2 v - 52) (-1074) with h | h
    · exact .inl (max_eq_right h)
    · right
      rw [max_eq_left h, le_div_iff₀ (by positivity), hadd, Nat.cast_ofNat, sub_add_cancel]
      exact hlow

/-- What is rounded to a mantissa of 53 bits, or of fewer at the least exponent. -/
theorem contains_of_roundsTo {n : ℕ} {e : ℤ} (hpos : 0 < n)
    (hfull : e = -1074 ∨ 2 ^ 52 ≤ v / 2 ^ e) (hn : RoundsTo (v / 2 ^ e) n) :
    (Neighbourhood.of n e).Contains v := by
  refine (contains_of_iff hpos).mpr ?_
  have hreach : n - reachBelow n e ≤ v / 2 ^ e := by
    unfold reachBelow
    split
    · next hdenser =>
      have hfull' := hfull.resolve_left (by omega)
      rw [hdenser.1]
      push_cast
      linarith
    · exact hn.low
  split
  · exact ⟨hreach, hn.high⟩
  · next hodd =>
    have hodd' : n % 2 = 1 := by omega
    have hne : reachBelow n e = 1 / 2 := by
      rw [reachBelow, if_neg]
      rintro ⟨rfl, -⟩
      exact absurd hodd' (by norm_num)
    rw [hne]
    exact ⟨lt_of_le_of_ne hn.low (hn.halfway hodd').1, lt_of_le_of_ne hn.high (hn.halfway hodd').2⟩

/-- What is rounded to `2 ^ 53` is carried over to the next exponent. -/
theorem contains_of_carry {e : ℤ} (hbottom : -1074 ≤ e) (hlt : v / 2 ^ e < 2 ^ 53)
    (hn : RoundsTo (v / 2 ^ e) (2 ^ 53)) : (Neighbourhood.of (2 ^ 52) (e + 1)).Contains v := by
  have hhalf : v / 2 ^ (e + 1) = v / 2 ^ e / 2 := by
    rw [zpow_add_one₀ (by norm_num), div_div]
  have hlow := hn.low
  push_cast at hlow
  rw [contains_of_iff (by norm_num), if_pos (by norm_num), reachBelow, if_pos ⟨rfl, by omega⟩,
    hhalf]
  push_cast
  exact ⟨by linarith, by linarith⟩

/-- Every number that is not too small has a mantissa and an exponent to be rounded to. -/
theorem exists_rounded (hv : 2 ^ (-1075 : ℤ) < v) :
    ∃ mantissa exponent, Rounded mantissa exponent ∧
      (Neighbourhood.of mantissa exponent).Contains v := by
  have hpos : 0 < v := lt_of_le_of_lt (by positivity) hv
  obtain ⟨e, hbottom, hupper, hlower⟩ := exists_exponent hpos
  have hunit : (0 : ℚ) < 2 ^ e := by positivity
  obtain ⟨n, hn⟩ := exists_roundsTo (div_nonneg hpos.le hunit.le)
  have hle : n ≤ 2 ^ 53 := by
    have hlt : (n : ℚ) < 2 ^ 53 + 1 := by linarith [hn.low]
    exact Nat.lt_succ_iff.mp (by exact_mod_cast hlt)
  have hnormal : e = -1074 ∨ 2 ^ 52 ≤ n := by
    refine hlower.imp_right fun h => ?_
    have hlt : (2 ^ 52 : ℚ) < n + 1 := by linarith [hn.high]
    exact Nat.lt_succ_iff.mp (by exact_mod_cast hlt)
  rcases hle.lt_or_eq with hlt | rfl
  · have hn0 : 0 < n := by
      by_contra hzero
      obtain rfl : n = 0 := by omega
      obtain rfl : e = -1074 := hnormal.resolve_right (by norm_num)
      have hhalf := hn.high
      rw [div_le_iff₀ hunit] at hhalf
      refine absurd hv (not_lt.mpr (hhalf.trans_eq ?_))
      rw [show (-1075 : ℤ) = -1 + -1074 by norm_num, zpow_add₀ (by norm_num)]
      norm_num
    exact ⟨n, e, ⟨hn0, hlt, hbottom, hnormal⟩, contains_of_roundsTo hn0 hlower hn⟩
  · exact ⟨2 ^ 52, e + 1, ⟨by norm_num, by norm_num, by omega, .inr le_rfl⟩,
      contains_of_carry hbottom hupper hn⟩

/-! ### The nearest double -/

/-- The numbers without sign that are rounded to a double with these parts. -/
def Dyadic.Attracts (d : Dyadic) (a : ℚ) : Prop :=
  if d.mantissa = 0 then 0 ≤ a ∧ a ≤ 2 ^ (-1075 : ℤ)
  else (Neighbourhood.of d.mantissa d.exponent).Contains a

/-- The number `v` is rounded to the finite double `x`. -/
def Rounds (v : ℚ) (x : Float) : Prop :=
  ∃ d a, Dyadic.ofFloat? x = some d ∧ d.Attracts a ∧ v = signed d.negative a

/-- `x` is the double nearest to `v`: every other finite double is farther away, or as far away, and
then the mantissa of `x` is even. -/
def IsNearest (v : ℚ) (x : Float) : Prop :=
  ∃ d, Dyadic.ofFloat? x = some d ∧ ∀ y w, value? y = some w →
    |v - d.value| < |v - w| ∨ w = d.value ∨ |v - d.value| = |v - w| ∧ d.mantissa % 2 = 0

theorem abs_signed_sub (negative : Bool) (a w : ℚ) :
    |signed negative a - w| = |a - signed negative w| := by
  cases negative with
  | false => rfl
  | true =>
      simp only [signed, if_true]
      rw [abs_sub_comm, sub_neg_eq_add, sub_neg_eq_add, add_comm]

theorem signed_signed (negative : Bool) (a : ℚ) : signed negative (signed negative a) = a := by
  cases negative <;> simp [signed]

/-- What lies within a reach of a number is nearer to it than to what is twice as far below. -/
theorem nearer_of_le {a x u reach : ℚ} {closed : Prop} (hlow : x - reach ≤ a)
    (hopen : closed ∨ x - reach < a) (hlt : u < x) (hfar : u ≤ x - 2 * reach) :
    |a - x| < |a - u| ∨ |a - x| = |a - u| ∧ closed := by
  have hdistance : |a - u| = a - u := abs_of_nonneg (by linarith)
  rw [hdistance]
  rcases le_or_gt x a with hge | hless
  · rw [abs_of_nonneg (by linarith)]
    exact .inl (by linarith)
  · rw [abs_of_neg (by linarith)]
    rcases hopen with hclosed | hopen
    · rcases (show -(a - x) ≤ a - u by linarith).lt_or_eq with hlt | heq
      · exact .inl hlt
      · exact .inr ⟨heq, hclosed⟩
    · exact .inl (by linarith)

theorem nearer_of_ge {a x u reach : ℚ} {closed : Prop} (hhigh : a ≤ x + reach)
    (hopen : closed ∨ a < x + reach) (hgt : x < u) (hfar : x + 2 * reach ≤ u) :
    |a - x| < |a - u| ∨ |a - x| = |a - u| ∧ closed := by
  have hopen' : closed ∨ -x - reach < -a := hopen.imp_right fun h => by linarith
  have hmirrored := nearer_of_le (by linarith : -x - reach ≤ -a) hopen'
    (neg_lt_neg hgt) (by linarith)
  rwa [neg_sub_neg, neg_sub_neg, abs_sub_comm x, abs_sub_comm u] at hmirrored

/-- No finite double is nearer to what a double attracts than this one. -/
theorem Dyadic.Attracts.nearest (hd : ofFloat? x = some d) (ha : d.Attracts a)
    (hu : u = 0 ∨ ∃ mantissa exponent, Canonical mantissa exponent ∧
      |u| = mantissa * 2 ^ exponent) :
    |a - d.mantissa * 2 ^ d.exponent| < |a - u| ∨ u = d.mantissa * 2 ^ d.exponent ∨
      |a - d.mantissa * 2 ^ d.exponent| = |a - u| ∧ d.mantissa % 2 = 0 := by
  unfold Attracts at ha
  split at ha
  · next hzero =>
    rw [hzero, Nat.cast_zero, zero_mul, sub_zero, abs_of_nonneg ha.1]
    rcases hu with hu | ⟨mantissa, exponent, hc, hu⟩
    · exact .inr (.inl hu)
    · have hfar : a ≤ |a - u| := by
        have hone : (1 : ℚ) ≤ mantissa := by exact_mod_cast hc.pos
        have hleast : (2 : ℚ) ^ (-1075 : ℤ) * 2 ≤ |u| := by
          rw [hu, ← zpow_add_one₀ (by norm_num)]
          calc (2 : ℚ) ^ (-1075 + 1 : ℤ) ≤ 1 * 2 ^ exponent := by
                rw [one_mul]
                exact zpow_le_zpow_right₀ (by norm_num) hc.bottom
            _ ≤ mantissa * 2 ^ exponent := by gcongr
        have htriangle := abs_sub_abs_le_abs_sub u a
        rw [abs_of_nonneg ha.1, abs_sub_comm] at htriangle
        linarith [ha.2]
      rcases hfar.lt_or_eq with hlt | heq
      · exact .inl hlt
      · exact .inr (.inr ⟨heq, rfl⟩)
  · next hne =>
    have hc := canonical_of_ofFloat? hd hne
    have hunit : (0 : ℚ) < 2 ^ d.exponent := by positivity
    have hreach := reachBelow_le d.mantissa d.exponent
    have hone : (1 : ℚ) ≤ d.mantissa := by exact_mod_cast hc.pos
    rw [contains_of_iff hc.pos, le_div_iff₀ hunit, div_le_iff₀ hunit, lt_div_iff₀ hunit,
      div_lt_iff₀ hunit] at ha
    -- The ends belong to the neighbourhood only if the mantissa is even.
    have hclosed : (d.mantissa - reachBelow d.mantissa d.exponent) * 2 ^ d.exponent ≤ a ∧
        a ≤ (d.mantissa + 1 / 2) * 2 ^ d.exponent := by
      split at ha
      · exact ha
      · exact ⟨ha.1.le, ha.2.le⟩
    have hopen : d.mantissa % 2 = 0 ∨
        (d.mantissa - reachBelow d.mantissa d.exponent) * 2 ^ d.exponent < a ∧
          a < (d.mantissa + 1 / 2) * 2 ^ d.exponent := by
      split at ha
      · next heven => exact .inl heven
      · exact .inr ha
    rcases lt_trichotomy u (d.mantissa * 2 ^ d.exponent) with hlt | heq | hgt
    · have hbelow : u ≤ (d.mantissa - 2 * reachBelow d.mantissa d.exponent) * 2 ^ d.exponent := by
        by_cases hpos : 0 < u
        · rcases hu with rfl | ⟨mantissa, exponent, hc', hu⟩
          · exact absurd rfl hpos.ne
          · rw [abs_of_pos hpos] at hu
            rw [hu] at hlt ⊢
            exact hc.le_pred hc'.toRounded hlt
        · exact (not_lt.mp hpos).trans (mul_nonneg (by linarith) hunit.le)
      rw [sub_mul] at hclosed hopen hbelow
      rw [mul_assoc] at hbelow
      exact (nearer_of_le hclosed.1 (hopen.imp_right And.left) hlt hbelow).imp_right .inr
    · exact .inr (.inl heq)
    · have habove : (d.mantissa + 1 : ℚ) * 2 ^ d.exponent ≤ u := by
        have hpos : 0 < u := hgt.trans_le' (by positivity)
        rcases hu with rfl | ⟨mantissa, exponent, hc', hu⟩
        · exact absurd rfl hpos.ne
        · rw [abs_of_pos hpos] at hu
          rw [hu] at hgt ⊢
          exact hc.succ_le hc'.toRounded hgt
      rw [add_mul] at hclosed hopen habove
      exact (nearer_of_ge hclosed.2 (hopen.imp_right And.right) hgt (by linarith)).imp_right .inr

theorem Rounds.isNearest (h : Rounds v x) : IsNearest v x := by
  obtain ⟨d, a, hd, ha, rfl⟩ := h
  refine ⟨d, hd, fun y w hy => ?_⟩
  obtain ⟨d', hd', hw⟩ := exists_dyadic hy
  have hu : signed d.negative w = 0 ∨ ∃ mantissa exponent, Canonical mantissa exponent ∧
      |signed d.negative w| = mantissa * 2 ^ exponent := by
    rw [abs_signed, ← hw]
    by_cases hzero : d'.mantissa = 0
    · left
      rw [Dyadic.value, hzero, Nat.cast_zero, zero_mul]
      cases d.negative <;> cases d'.negative <;> simp [signed]
    · refine .inr ⟨_, _, Dyadic.canonical_of_ofFloat? hd' hzero, ?_⟩
      exact d'.abs_value
  have hvalue : signed d.negative w = d.mantissa * 2 ^ d.exponent ↔ w = d.value := by
    rw [Dyadic.value]
    cases d.negative with
    | false => exact Iff.rfl
    | true =>
        simp only [signed, if_true]
        exact neg_eq_iff_eq_neg
  have hself : |signed d.negative a - d.value| = |a - d.mantissa * 2 ^ d.exponent| := by
    rw [abs_signed_sub, Dyadic.value, signed_signed]
  rw [hself, abs_signed_sub, ← hvalue]
  exact ha.nearest hd hu

/-! ### How far away the nearest double is -/

/-- No double is nearer to what a double is rounded from. -/
theorem Rounds.abs_sub_le_abs_sub (h : Rounds v x) (hx : value? x = some w) {u : ℚ}
    (hy : value? y = some u) : |v - w| ≤ |v - u| := by
  obtain ⟨d, hd, hnearest⟩ := h.isNearest
  obtain rfl := Option.some.inj ((value?_of_ofFloat? hd).symm.trans hx)
  rcases hnearest y u hy with hlt | heq | ⟨heq, -⟩
  · exact hlt.le
  · rw [heq]
  · exact heq.le

theorem Rounds.isFinite (h : Rounds v x) : x.isFinite = true := by
  obtain ⟨d, -, hd, -⟩ := h
  exact Dyadic.isSome_ofFloat?_iff.mp (by rw [hd, Option.isSome_some])

/-- What a double attracts is away by half a unit of the mantissa at most. -/
theorem Dyadic.Attracts.abs_sub_le_half (ha : d.Attracts a) (hd : ofFloat? x = some d)
    (hne : d.mantissa ≠ 0) : |a - d.mantissa * 2 ^ d.exponent| ≤ 2 ^ d.exponent / 2 := by
  have hunit : (0 : ℚ) < 2 ^ d.exponent := by positivity
  rw [Attracts, if_neg hne] at ha
  have hrounds := roundsTo_of_contains (canonical_of_ofFloat? hd hne).pos ha
  have hlow := (le_div_iff₀ hunit).mp hrounds.low
  have hhigh := (div_le_iff₀ hunit).mp hrounds.high
  rw [abs_sub_le_iff]
  constructor <;> linarith

theorem Dyadic.Attracts.abs_sub_le (hd : ofFloat? x = some d) (ha : d.Attracts a) :
    |a - d.mantissa * 2 ^ d.exponent| ≤ a * 2 ^ (-53 : ℤ) ∨
      |a - d.mantissa * 2 ^ d.exponent| ≤ 2 ^ (-1075 : ℤ) ∧
        (d.mantissa = 0 ∨ d.exponent = -1074) := by
  by_cases hzero : d.mantissa = 0
  · rw [Attracts, if_pos hzero] at ha
    rw [hzero, Nat.cast_zero, zero_mul, sub_zero, abs_of_nonneg ha.1]
    exact .inr ⟨ha.2, .inl rfl⟩
  · have hhalf := ha.abs_sub_le_half hd hzero
    have hc := canonical_of_ofFloat? hd hzero
    have hunit : (0 : ℚ) < 2 ^ d.exponent := by positivity
    rw [Attracts, if_neg hzero] at ha
    by_cases hbottom : d.exponent = -1074
    · right
      refine ⟨hhalf.trans_eq ?_, .inr hbottom⟩
      have hsucc : (-1074 : ℤ) = -1075 + 1 := by norm_num
      rw [hbottom, hsucc, zpow_add_one₀ (by norm_num), mul_div_cancel_right₀ _ (by norm_num)]
    · left
      have hnormal : (2 ^ 52 : ℚ) ≤ d.mantissa := by
        exact_mod_cast hc.normal.resolve_left hbottom
      norm_num only
      rcases le_or_gt (2 ^ 52 * 2 ^ d.exponent : ℚ) a with hlarge | hsmall
      · linarith
      · -- Just below a power of two the neighbourhood reaches only half as far.
        have hpower : d.mantissa = 2 ^ 52 := by
          have hlow : (d.mantissa - 1 / 2) * 2 ^ d.exponent ≤ a := by
            linarith [(abs_sub_le_iff.mp hhalf).2]
          have hlt : (d.mantissa : ℚ) < 2 ^ 52 + 1 := by
            have hcancel : (d.mantissa - 1 / 2 : ℚ) < 2 ^ 52 :=
              lt_of_mul_lt_mul_right (hlow.trans_lt hsmall) hunit.le
            linarith
          have hle : d.mantissa < 2 ^ 52 + 1 := by exact_mod_cast hlt
          have hge : 2 ^ 52 ≤ d.mantissa := by exact_mod_cast hnormal
          omega
        have hdenser : (d.mantissa - 1 / 4) * 2 ^ d.exponent ≤ a := by
          have hbottom' := hc.bottom
          rw [contains_of_iff hc.pos, hpower, if_pos (by norm_num), reachBelow,
            if_pos ⟨rfl, by omega⟩, ← hpower, le_div_iff₀ hunit] at ha
          exact ha.1
        rw [hpower] at hdenser ⊢
        push_cast at hdenser ⊢
        rw [abs_of_neg (by linarith)]
        linarith

theorem Dyadic.Attracts.nonneg (hd : ofFloat? x = some d) (ha : d.Attracts a) : 0 ≤ a := by
  unfold Attracts at ha
  split at ha
  · exact ha.1
  · next hne =>
    have hpos : (0 : ℚ) ≤ 2 ^ (-1075 : ℤ) := by positivity
    exact hpos.trans ((canonical_of_ofFloat? hd hne).bounds ha).1

theorem Rounds.abs_sub_le (h : Rounds v x) (hx : value? x = some w) :
    |v - w| ≤ |v| * 2 ^ (-53 : ℤ) + 2 ^ (-1075 : ℤ) := by
  obtain ⟨d, a, hd, ha, rfl⟩ := h
  obtain rfl : d.value = w := Option.some.inj ((value?_of_ofFloat? hd).symm.trans hx)
  have hnonneg := ha.nonneg hd
  rw [abs_signed_sub, Dyadic.value, signed_signed, abs_signed, abs_of_nonneg hnonneg]
  have hsmall : (0 : ℚ) < 2 ^ (-1075 : ℤ) := by positivity
  have hrelative : 0 ≤ a * 2 ^ (-53 : ℤ) := by positivity
  rcases ha.abs_sub_le hd with hle | ⟨hle, -⟩ <;> linarith

theorem Rounds.abs_le (h : Rounds v x) (hx : value? x = some w) : |v| ≤ 3 / 2 * (|w| + 1) := by
  have hleast : (2 : ℚ) ^ (-1075 : ℤ) ≤ 2 ^ (0 : ℤ) :=
    zpow_le_zpow_right₀ (by norm_num) (by norm_num)
  have herror := (h.abs_sub_le hx).trans (add_le_add_right hleast _)
  have htriangle := abs_sub_abs_le_abs_sub v w
  norm_num at herror
  linarith [abs_nonneg v]

/-- What is a multiple of the least positive double loses only in proportion to itself. -/
theorem Rounds.abs_sub_le_of_multiple (h : Rounds v x) (hx : value? x = some w) {k : ℤ}
    (hv : v = k * 2 ^ (-1074 : ℤ)) : |v - w| ≤ |v| * 2 ^ (-53 : ℤ) := by
  obtain ⟨j, hj⟩ := exists_multiple hx
  obtain ⟨d, a, hd, ha, hsigned⟩ := h
  obtain rfl : d.value = w := Option.some.inj ((value?_of_ofFloat? hd).symm.trans hx)
  have hnonneg := ha.nonneg hd
  have habs : |v| = a := by rw [hsigned, abs_signed, abs_of_nonneg hnonneg]
  have hdistance : |v - d.value| = |a - d.mantissa * 2 ^ d.exponent| := by
    rw [hsigned, abs_signed_sub, Dyadic.value, signed_signed]
  rcases ha.abs_sub_le hd with hle | ⟨hle, -⟩
  · rwa [hdistance, habs]
  · -- Two such multiples that are so near are the same.
    have hunit : (0 : ℚ) < 2 ^ (-1074 : ℤ) := by positivity
    have hhalf : (2 : ℚ) ^ (-1075 : ℤ) = 2 ^ (-1 : ℤ) * 2 ^ (-1074 : ℤ) := by
      rw [← zpow_add₀ (by norm_num)]
      norm_num only
    rw [← hdistance, hv, hj, ← sub_mul, abs_mul, abs_of_pos hunit, hhalf,
      mul_le_mul_iff_left₀ hunit] at hle
    have hlt : |k - j| < 1 := by
      have hlt' : (|k - j| : ℚ) < 1 := hle.trans_lt (by norm_num)
      exact_mod_cast hlt'
    have hkj : k = j := by
      rw [Int.abs_lt_one_iff] at hlt
      omega
    rw [hv, hj, hkj, sub_self, abs_zero]
    positivity

end Campus.Number
