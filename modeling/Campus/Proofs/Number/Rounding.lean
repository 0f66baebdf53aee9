import Campus.Number.Shortest
import Mathlib

/-!
# Rounding to a double

A number is rounded to a mantissa of 53 bits by way of an extended mantissa: its integer part, a
bit for the first half and a bit for anything more. What such a mantissa says about the number
(`Stands`) survives shifting, so rounding depends on the number alone: whatever lies in the
neighbourhood of a double is rounded to that double (`roundWithAccuracy_eq`), also where it comes
out of a product or a quotient.
-/

namespace Campus.Number

open Float.Model (Format UnpackedFloat totalExponent)
open Float.Model.UnpackedFloat

/-! ### Extended mantissas -/

/-- The number without what lies beyond its first half. -/
def halves (em : ExtendedMantissa) : ℚ := em.mantissa + if em.roundBit then 1 / 2 else 0

/-- The extended mantissa is what is kept of the number `x`. -/
structure Stands (em : ExtendedMantissa) (x : ℚ) : Prop where
  low : halves em ≤ x
  high : x < halves em + 1 / 2
  sticky : em.stickyBit = true ↔ halves em ≠ x

theorem Stands.mantissa_le {em : ExtendedMantissa} {x : ℚ} (h : Stands em x) : em.mantissa ≤ x := by
  refine le_trans ?_ h.low
  unfold halves
  split <;> linarith

theorem Stands.lt_mantissa {em : ExtendedMantissa} {x : ℚ} (h : Stands em x) :
    x < em.mantissa + 1 := by
  refine h.high.trans_le ?_
  unfold halves
  split <;> linarith

theorem halves_shiftRightOne (em : ExtendedMantissa) :
    halves em.shiftRightOne = em.mantissa / 2 := by
  have hsplit : (em.mantissa : ℚ) = 2 * (em.mantissa / 2 : ℕ) + (em.mantissa % 2 : ℕ) := by
    exact_mod_cast (Nat.div_add_mod em.mantissa 2).symm
  rw [halves, hsplit, ExtendedMantissa.shiftRightOne]
  rcases Nat.mod_two_eq_zero_or_one em.mantissa with hbit | hbit
  · simp [hbit]
  · simp [hbit]
    ring

theorem Stands.shiftRightOne {em : ExtendedMantissa} {x : ℚ} (h : Stands em x) :
    Stands em.shiftRightOne (x / 2) := by
  have hlow := h.mantissa_le
  have hhigh := h.lt_mantissa
  refine ⟨?_, ?_, ?_⟩
  · rw [halves_shiftRightOne]
    linarith
  · rw [halves_shiftRightOne]
    linarith
  · have hexact : (em.mantissa : ℚ) / 2 ≠ x / 2 ↔ (em.mantissa : ℚ) ≠ x := by
      rw [Ne, div_left_inj' (by norm_num)]
    rw [halves_shiftRightOne, hexact]
    -- Beyond the integer part is the first half, or what lies beyond that.
    have hsticky := h.sticky
    have hfirst := h.low
    simp only [ExtendedMantissa.shiftRightOne, Bool.or_eq_true, hsticky]
    cases hround : em.roundBit with
    | false => simp [halves, hround]
    | true =>
        simp only [halves, hround, if_true] at hfirst
        simp only [true_or, true_iff]
        intro heq
        linarith

theorem Stands.shiftRight {em : ExtendedMantissa} {x : ℚ} (h : Stands em x) (n : ℕ) :
    Stands (em >>> n) (x / 2 ^ n) := by
  induction n with
  | zero => simpa [HShiftRight.hShiftRight, Nat.repeat] using h
  | succ n ih =>
      change Stands (em >>> n).shiftRightOne _
      rw [pow_succ, ← div_div]
      exact ih.shiftRightOne

/-- An integer that `x` can be rounded to: it is nearest, and even if `x` is halfway. -/
structure RoundsTo (x : ℚ) (n : ℕ) : Prop where
  low : n - 1 / 2 ≤ x
  high : x ≤ n + 1 / 2
  halfway : n % 2 = 1 → n - 1 / 2 ≠ x ∧ x ≠ n + 1 / 2

theorem Stands.roundedMantissa_eq {em : ExtendedMantissa} {x : ℚ} {n : ℕ} (h : Stands em x)
    (hn : RoundsTo x n) : em.roundedMantissa = n := by
  obtain ⟨hlow, hhigh, hsticky⟩ := h
  obtain ⟨m, round, sticky⟩ := em
  simp only [halves] at hlow hhigh hsticky
  cases round <;> cases sticky <;>
    simp only [if_true, if_false, Bool.false_eq_true, false_iff, not_not, true_iff,
      add_zero] at hlow hhigh hsticky
  · have hle : (n : ℚ) < m + 1 := by linarith [hn.low]
    have hge : (m : ℚ) < n + 1 := by linarith [hn.high]
    norm_cast at hle hge
    change m = n
    omega
  · have hlt : (m : ℚ) < x := lt_of_le_of_ne hlow hsticky
    have hle : (n : ℚ) < m + 1 := by linarith [hn.low]
    have hge : (m : ℚ) < n + 1 := by linarith [hn.high]
    norm_cast at hle hge
    change m = n
    omega
  · have hle : (n : ℚ) ≤ m + 1 := by linarith [hn.low]
    have hge : (m : ℚ) ≤ n := by linarith [hn.high]
    norm_cast at hle hge
    change m + m % 2 = n
    -- Halfway between `m` and `m + 1` only the even one is taken.
    obtain rfl | rfl : n = m ∨ n = m + 1 := by omega
    · have heven : ¬ n % 2 = 1 := fun hodd => (hn.halfway hodd).2 hsticky.symm
      omega
    · have heven : ¬ (m + 1) % 2 = 1 := by
        intro hodd
        refine (hn.halfway hodd).1 ?_
        rw [← hsticky]
        push_cast
        ring
      omega
  · have hlt : (m : ℚ) + 1 / 2 < x := lt_of_le_of_ne hlow hsticky
    have hle : (n : ℚ) < m + 2 := by linarith [hn.low]
    have hge : (m : ℚ) < n := by linarith [hn.high]
    norm_cast at hle hge
    change m + 1 = n
    omega

/-! ### Neighbourhoods -/

/-- The reals of a neighbourhood; its ends are among them if it is closed. -/
def Neighbourhood.Contains (n : Neighbourhood) (v : ℚ) : Prop :=
  if n.closed then n.low * 2 ^ n.power ≤ v ∧ v ≤ n.high * 2 ^ n.power
  else n.low * 2 ^ n.power < v ∧ v < n.high * 2 ^ n.power

/-- Mantissa and exponent that a number is rounded to. The exponent may be too great for a
double. -/
structure Rounded (mantissa : ℕ) (exponent : ℤ) : Prop where
  pos : 0 < mantissa
  lt : mantissa < 2 ^ 53
  bottom : -1074 ≤ exponent
  normal : exponent = -1074 ∨ 2 ^ 52 ≤ mantissa

/-- Mantissa and exponent of a finite double that is not zero. -/
structure Canonical (mantissa : ℕ) (exponent : ℤ) : Prop extends Rounded mantissa exponent where
  top : exponent ≤ 971

variable {mantissa m : ℕ} {exponent e : ℤ} {v : ℚ} {accuracy : Accuracy}

/-- How far a neighbourhood reaches down, in units of the mantissa. -/
def reachBelow (mantissa : ℕ) (exponent : ℤ) : ℚ :=
  if mantissa = 2 ^ 52 ∧ -1074 < exponent then 1 / 4 else 1 / 2

theorem reachBelow_le (mantissa : ℕ) (exponent : ℤ) : reachBelow mantissa exponent ≤ 1 / 2 := by
  unfold reachBelow
  split <;> norm_num

theorem low_of (mantissa : ℕ) (exponent : ℤ) : (Neighbourhood.of mantissa exponent).low =
    4 * mantissa - if mantissa = 2 ^ 52 ∧ -1074 < exponent then 1 else 2 := rfl

/-- A neighbourhood in units of the mantissa. -/
theorem contains_of_iff (hpos : 0 < mantissa) :
    (Neighbourhood.of mantissa exponent).Contains v ↔
      if mantissa % 2 = 0 then
        mantissa - reachBelow mantissa exponent ≤ v / 2 ^ exponent ∧
          v / 2 ^ exponent ≤ mantissa + 1 / 2
      else
        mantissa - reachBelow mantissa exponent < v / 2 ^ exponent ∧
          v / 2 ^ exponent < mantissa + 1 / 2 := by
  have hunit : (0 : ℚ) < 2 ^ exponent := by positivity
  have hpower : (2 : ℚ) ^ (exponent - 2) = 2 ^ exponent / 4 := by
    rw [zpow_sub₀ (by norm_num)]
    norm_num
  have hlow : ((Neighbourhood.of mantissa exponent).low : ℚ) * (2 ^ exponent / 4) =
      (mantissa - reachBelow mantissa exponent) * 2 ^ exponent := by
    rw [low_of, reachBelow]
    split
    · rw [Nat.cast_sub (by omega)]
      push_cast
      ring
    · rw [Nat.cast_sub (by omega)]
      push_cast
      ring
  have hhigh : ((Neighbourhood.of mantissa exponent).high : ℚ) * (2 ^ exponent / 4) =
      (mantissa + 1 / 2) * 2 ^ exponent := by
    simp only [Neighbourhood.of]
    push_cast
    ring
  have hclosed : (Neighbourhood.of mantissa exponent).closed = true ↔ mantissa % 2 = 0 := by
    simp [Neighbourhood.of]
  have hpow : (Neighbourhood.of mantissa exponent).power = exponent - 2 := rfl
  simp only [Neighbourhood.Contains, hpow, hpower, hlow, hhigh, hclosed, le_div_iff₀ hunit,
    div_le_iff₀ hunit, lt_div_iff₀ hunit, div_lt_iff₀ hunit]

/-- In units of the mantissa, what lies in a neighbourhood is rounded to the mantissa. -/
theorem roundsTo_of_contains (hpos : 0 < mantissa)
    (h : (Neighbourhood.of mantissa exponent).Contains v) :
    RoundsTo (v / 2 ^ exponent) mantissa := by
  have hreach := reachBelow_le mantissa exponent
  rw [contains_of_iff hpos] at h
  split at h
  · next heven =>
    exact ⟨by linarith, h.2, fun hodd => absurd hodd (by omega)⟩
  · exact ⟨by linarith, h.2.le, fun _ => ⟨by linarith, h.2.ne⟩⟩

/-! ### Rounding -/

theorem targetExponent_eq (total : ℤ) :
    Format.binary64.targetExponent total = max (total - 53) (-1074) := rfl

theorem mantissa_ofMantissaAndAccuracy (m : ℕ) (accuracy : Accuracy) :
    (ExtendedMantissa.ofMantissaAndAccuracy m accuracy).mantissa = m := by
  cases accuracy with
  | exact => rfl
  | inexact o => cases o <;> rfl

theorem stands_exact (m : ℕ) : Stands (.ofMantissaAndAccuracy m .exact) m := by
  refine ⟨?_, ?_, ?_⟩ <;> simp [halves, ExtendedMantissa.ofMantissaAndAccuracy]

/-- A mantissa that is brought to its exponent stands for the same number. -/
theorem exists_shiftToTargetExponent
    (h : Stands (.ofMantissaAndAccuracy m accuracy) (v / 2 ^ e))
    (hfine : e ≤ Format.binary64.targetExponent (totalExponent m e)) :
    ∃ em, shiftToTargetExponent .binary64 m e accuracy =
        (em, Format.binary64.targetExponent (totalExponent m e)) ∧
      Stands em (v / 2 ^ Format.binary64.targetExponent (totalExponent m e)) := by
  generalize htarget : Format.binary64.targetExponent (totalExponent m e) = target at hfine
  have hreached : e + ((target - e).toNat : ℤ) = target := by omega
  refine ⟨ExtendedMantissa.ofMantissaAndAccuracy m accuracy >>> (target - e).toNat, ?_, ?_⟩
  · simp only [shiftToTargetExponent, shiftToExponent, htarget, hreached]
  · have hshifted := h.shiftRight (target - e).toNat
    rwa [div_div, ← zpow_natCast, ← zpow_add₀ (by norm_num), hreached] at hshifted

/-- The integer part of a number bounds it by powers of two. -/
theorem Stands.lt_zpow (h : Stands (.ofMantissaAndAccuracy m accuracy) (v / 2 ^ e)) :
    v < 2 ^ ((m.log2 : ℤ) + 1 + e) := by
  have hunit : (0 : ℚ) < 2 ^ e := by positivity
  have hlt := h.lt_mantissa
  rw [mantissa_ofMantissaAndAccuracy, div_lt_iff₀ hunit] at hlt
  have hlog : ((m : ℚ) + 1) ≤ 2 ^ (m.log2 + 1) := by exact_mod_cast Nat.lt_log2_self
  calc v < (m + 1) * 2 ^ e := hlt
    _ ≤ 2 ^ (m.log2 + 1) * 2 ^ e := by gcongr
    _ = 2 ^ ((m.log2 : ℤ) + 1 + e) := by
      rw [zpow_add₀ (by norm_num), ← Nat.cast_succ, zpow_natCast]

theorem Stands.zpow_le (h : Stands (.ofMantissaAndAccuracy m accuracy) (v / 2 ^ e)) (hm : m ≠ 0) :
    2 ^ ((m.log2 : ℤ) + e) ≤ v := by
  have hunit : (0 : ℚ) < 2 ^ e := by positivity
  have hle := h.mantissa_le
  rw [mantissa_ofMantissaAndAccuracy, le_div_iff₀ hunit] at hle
  have hlog : (2 : ℚ) ^ m.log2 ≤ m := by exact_mod_cast Nat.log2_self_le hm
  calc (2 : ℚ) ^ ((m.log2 : ℤ) + e) = 2 ^ m.log2 * 2 ^ e := by
        rw [zpow_add₀ (by norm_num), zpow_natCast]
    _ ≤ m * 2 ^ e := by gcongr
    _ ≤ v := hle

/-- Mantissas below `2 ^ 53` stay as they are. -/
theorem shiftToTargetExponent_exact (hm : m < 2 ^ 53) (he : -1074 ≤ e) :
    shiftToTargetExponent .binary64 m e .exact = (⟨m, false, false⟩, e) := by
  have hlog : m.log2 < 53 := by
    by_cases hzero : m = 0
    · simp [hzero]
    · exact (Nat.log2_lt hzero).mpr hm
  have hshift : (Format.binary64.targetExponent (totalExponent m e) - e).toNat = 0 := by
    rw [targetExponent_eq, totalExponent]
    omega
  simp [shiftToTargetExponent, shiftToExponent, hshift, HShiftRight.hShiftRight, Nat.repeat,
    ExtendedMantissa.ofMantissaAndAccuracy]

/-- The mantissa `2 ^ 53` is carried over to the next exponent. -/
theorem shiftToTargetExponent_carry (he : -1074 ≤ e) :
    shiftToTargetExponent .binary64 (2 ^ 53) e .exact = (⟨2 ^ 52, false, false⟩, e + 1) := by
  have hshift : (Format.binary64.targetExponent (totalExponent (2 ^ 53) e) - e).toNat = 1 := by
    rw [targetExponent_eq, totalExponent, Nat.log2_two_pow]
    omega
  simp only [shiftToTargetExponent, shiftToExponent, hshift]
  rfl

/-- A double is as fine as the numbers of its neighbourhood, except that numbers just below a power
of two are finer. -/
theorem target_cases {target : ℤ} (hc : Rounded mantissa exponent)
    (hrounds : RoundsTo (v / 2 ^ exponent) mantissa) (hbottom : -1074 ≤ target)
    (hupper : v < 2 ^ (target + 53)) (hlower : -1074 < target → 2 ^ (target + 52) ≤ v) :
    target = exponent ∨ target = exponent - 1 ∧ mantissa = 2 ^ 52 ∧ -1074 < exponent := by
  have hunit : (0 : ℚ) < 2 ^ exponent := by positivity
  have hlt : (mantissa : ℚ) + 1 ≤ 2 ^ 53 := by exact_mod_cast hc.lt
  have hexponent := hc.bottom
  have hlow := (le_div_iff₀ hunit).mp hrounds.low
  have hhigh := (div_le_iff₀ hunit).mp hrounds.high
  have hadd : ∀ k : ℤ, (2 : ℚ) ^ (exponent + k) = 2 ^ k * 2 ^ exponent := by
    intro k
    rw [add_comm, zpow_add₀ (by norm_num)]
  have hle : target ≤ exponent := by
    by_contra hgt
    have hpow : (2 : ℚ) ^ (exponent + 53) ≤ 2 ^ (target + 52) :=
      zpow_le_zpow_right₀ (by norm_num) (by omega)
    have hbelow : v < 2 ^ (exponent + 53) := by
      rw [hadd]
      refine hhigh.trans_lt ?_
      gcongr
      linarith
    linarith [hlower (by omega)]
  by_cases hequal : target = exponent
  · exact .inl hequal
  have hnormal : 2 ^ 52 ≤ mantissa := hc.normal.resolve_left (by omega)
  have hfine : (2 ^ 52 : ℚ) ≤ mantissa := by exact_mod_cast hnormal
  have hgap : exponent - 1 ≤ target := by
    by_contra hgap
    have hpow : (2 : ℚ) ^ (target + 53) ≤ 2 ^ (exponent + 51) :=
      zpow_le_zpow_right₀ (by norm_num) (by omega)
    have habove : 2 ^ (exponent + 51) < v := by
      rw [hadd]
      refine lt_of_lt_of_le ?_ hlow
      gcongr
      linarith
    linarith
  have hmantissa : mantissa < 2 ^ 52 + 1 := by
    have hpow : (2 : ℚ) ^ (target + 53) ≤ 2 ^ (exponent + 52) :=
      zpow_le_zpow_right₀ (by norm_num) (by omega)
    rw [hadd] at hpow
    have hcancel : (mantissa - 1 / 2 : ℚ) < 2 ^ (52 : ℤ) :=
      lt_of_mul_lt_mul_right (by linarith) hunit.le
    have hbound : (mantissa : ℚ) < 2 ^ 52 + 1 := by linarith
    exact_mod_cast hbound
  exact .inr ⟨by omega, by omega, by omega⟩

/-- A number is rounded to the double in whose neighbourhood it lies. The mantissa that is kept of
it has all bits that the double needs. -/
theorem roundWithAccuracy_eq (hc : Rounded mantissa exponent)
    (hv : (Neighbourhood.of mantissa exponent).Contains v)
    (h : Stands (.ofMantissaAndAccuracy m accuracy) (v / 2 ^ e))
    (hfine : 2 ^ 52 ≤ m ∨ e ≤ -1074) (sign : Sign) :
    roundWithAccuracy .binary64 sign m e accuracy = .finite sign mantissa exponent hc.pos := by
  have hrounds := roundsTo_of_contains hc.pos hv
  have hlog : 2 ^ 52 ≤ m → 52 ≤ m.log2 := fun hm => (Nat.le_log2 (by omega)).mpr hm
  have htarget := targetExponent_eq (totalExponent m e)
  rw [totalExponent] at htarget
  have hsmall : m = 0 → m.log2 = 0 := by
    rintro rfl
    exact Nat.log2_zero
  obtain ⟨em, hshift, hstands⟩ := exists_shiftToTargetExponent h (by rw [totalExponent]; omega)
  rw [totalExponent] at hshift hstands
  generalize Format.binary64.targetExponent (m.log2 + 1 + e) = target at htarget hshift hstands
  have hupper : v < 2 ^ (target + 53) :=
    h.lt_zpow.trans_le (zpow_le_zpow_right₀ (by norm_num) (by omega))
  have hlower : -1074 < target → 2 ^ (target + 52) ≤ v := by
    intro hlarge
    have heq : target + 52 = m.log2 + e := by omega
    rw [heq]
    exact h.zpow_le (by omega)
  rcases target_cases hc hrounds (by omega) hupper hlower with rfl | ⟨rfl, rfl, hlarge⟩
  · have hrounded := hstands.roundedMantissa_eq hrounds
    simp only [roundWithAccuracy, hshift, hrounded,
      shiftToTargetExponent_exact hc.lt hc.bottom]
    exact dif_neg hc.pos.ne'
  · -- The number is rounded up to `2 ^ 53` at the finer exponent, and carried over.
    have hhalf : v / 2 ^ (exponent - 1) = 2 * (v / 2 ^ exponent) := by
      rw [zpow_sub_one₀ (by norm_num)]
      field_simp
    have hcarry : RoundsTo (v / 2 ^ (exponent - 1)) (2 ^ 53) := by
      have hlow := hv
      rw [contains_of_iff hc.pos, if_pos (by decide), reachBelow, if_pos ⟨rfl, hlarge⟩] at hlow
      have hhigh : v / 2 ^ exponent < 2 ^ 52 := by
        rw [div_lt_iff₀ (by positivity), ← zpow_natCast, ← zpow_add₀ (by norm_num)]
        refine hupper.trans_le (zpow_le_zpow_right₀ (by norm_num) ?_)
        push_cast
        omega
      have hreach := hlow.1
      norm_num at hreach hhigh
      refine ⟨?_, ?_, fun hodd => absurd hodd (by decide)⟩
      · rw [hhalf]
        norm_num
        linarith
      · rw [hhalf]
        norm_num
        linarith
    have hrounded := hstands.roundedMantissa_eq hcarry
    simp only [roundWithAccuracy, hshift, hrounded, shiftToTargetExponent_carry
      (show -1074 ≤ exponent - 1 by omega), sub_add_cancel]
    exact dif_neg hc.pos.ne'

/-! ### Products and quotients -/

variable {m₁ m₂ : ℕ} {e₁ e₂ : ℤ} {s₁ s₂ : Sign} {h₁ : 0 < m₁} {h₂ : 0 < m₂}

/-- A product with enough bits is rounded to the double in whose neighbourhood it lies. -/
theorem mul_eq (hc : Rounded mantissa exponent)
    (hv : (Neighbourhood.of mantissa exponent).Contains (m₁ * 2 ^ e₁ * (m₂ * 2 ^ e₂)))
    (hfine : 2 ^ 52 ≤ m₁ * m₂) :
    UnpackedFloat.mul .binary64 (.finite s₁ m₁ e₁ h₁) (.finite s₂ m₂ e₂ h₂) =
      .finite (s₁ * s₂) mantissa exponent hc.pos := by
  refine roundWithAccuracy_eq hc hv ?_ (.inl hfine) _
  have hexact : (m₁ * 2 ^ e₁ * (m₂ * 2 ^ e₂) : ℚ) / 2 ^ (e₁ + e₂) = (m₁ * m₂ : ℕ) := by
    rw [zpow_add₀ (by norm_num)]
    push_cast
    field_simp
  rw [hexact]
  exact stands_exact _

/-- What is kept of a quotient of natural numbers. -/
theorem stands_div (num : ℕ) {den : ℕ} (hden : 0 < den) :
    Stands (.ofMantissaAndAccuracy (num / den) (accuracyOfFraction (num % den) den))
      (num / den) := by
  have hden' : (0 : ℚ) < den := by exact_mod_cast hden
  have hsplit : (num : ℚ) / den = (num / den : ℕ) + (num % den : ℕ) / den := by
    rw [div_eq_iff hden'.ne', add_mul, div_mul_cancel₀ _ hden'.ne']
    exact_mod_cast (Nat.div_add_mod' num den).symm
  have hrest : num % den < den := Nat.mod_lt _ hden
  rw [hsplit]
  generalize num / den = quotient
  generalize num % den = rest at hrest
  have hlt : (rest : ℚ) / den < 1 := (div_lt_one hden').mpr (by exact_mod_cast hrest)
  unfold accuracyOfFraction
  split
  · next hzero => simpa [hzero] using stands_exact quotient
  · next hzero =>
    have hpos : (0 : ℚ) < rest / den := div_pos (by exact_mod_cast Nat.pos_of_ne_zero hzero) hden'
    rcases lt_trichotomy (2 * rest) den with hhalf | hhalf | hhalf
    · have hfraction : (rest : ℚ) / den < 1 / 2 := by
        rw [div_lt_div_iff₀ hden' (by norm_num)]
        exact_mod_cast (by omega : rest * 2 < 1 * den)
      rw [Nat.compare_eq_lt.mpr hhalf]
      refine ⟨?_, ?_, ?_⟩ <;> simp only [halves, ExtendedMantissa.ofMantissaAndAccuracy]
      · simpa using hpos.le
      · simpa using hfraction
      · simpa using ⟨hzero, hden.ne'⟩
    · have hfraction : (rest : ℚ) / den = 1 / 2 := by
        rw [div_eq_div_iff hden'.ne' (by norm_num)]
        exact_mod_cast (by omega : rest * 2 = 1 * den)
      rw [Nat.compare_eq_eq.mpr hhalf, hfraction]
      refine ⟨?_, ?_, ?_⟩ <;> simp [halves, ExtendedMantissa.ofMantissaAndAccuracy]
    · have hfraction : 1 / 2 < (rest : ℚ) / den := by
        rw [div_lt_div_iff₀ (by norm_num) hden']
        exact_mod_cast (by omega : 1 * den < rest * 2)
      rw [Nat.compare_eq_gt.mpr hhalf]
      refine ⟨?_, ?_, ?_⟩ <;> simp only [halves, ExtendedMantissa.ofMantissaAndAccuracy]
      · simpa using hfraction.le
      · rw [if_pos trivial]
        linarith
      · simpa using hfraction.ne

/-- A quotient is rounded from an extended mantissa that has all bits that a double needs. -/
theorem exists_div_eq (s₁ s₂ : Sign) (h₁ : 0 < m₁) (h₂ : 0 < m₂) (e₁ e₂ : ℤ) :
    ∃ m e accuracy,
      UnpackedFloat.div .binary64 (.finite s₁ m₁ e₁ h₁) (.finite s₂ m₂ e₂ h₂) =
        roundWithAccuracy .binary64 (s₁ / s₂) m e accuracy ∧
      Stands (.ofMantissaAndAccuracy m accuracy) (m₁ * 2 ^ e₁ / (m₂ * 2 ^ e₂) / 2 ^ e) ∧
      (2 ^ 52 ≤ m ∨ e ≤ -1074) := by
  simp only [UnpackedFloat.div, divCore]
  have hfine := min_le_right (e₁ - e₂) (Format.binary64.targetExponent
    (totalExponent m₁ e₁ - totalExponent m₂ e₂))
  have hle := min_le_left (e₁ - e₂) (Format.binary64.targetExponent
    (totalExponent m₁ e₁ - totalExponent m₂ e₂))
  generalize min (e₁ - e₂) (Format.binary64.targetExponent
    (totalExponent m₁ e₁ - totalExponent m₂ e₂)) = fine at hfine hle ⊢
  rw [targetExponent_eq, totalExponent, totalExponent] at hfine
  generalize hshift : (e₁ - e₂ - fine).toNat = shift
  refine ⟨_, _, _, rfl, ?_, ?_⟩
  · have hscaled : (m₁ * 2 ^ e₁ / (m₂ * 2 ^ e₂) : ℚ) / 2 ^ fine = (m₁ <<< shift : ℕ) / m₂ := by
      have hpow : (2 : ℚ) ^ e₁ = 2 ^ shift * 2 ^ e₂ * 2 ^ fine := by
        rw [← zpow_natCast, ← zpow_add₀ (by norm_num), ← zpow_add₀ (by norm_num)]
        congr 1
        omega
      rw [Nat.shiftLeft_eq, hpow]
      push_cast
      field_simp
    rw [hscaled]
    exact stands_div _ h₂
  · by_cases hbottom : fine ≤ -1074
    · exact .inr hbottom
    · left
      -- The numerator is shifted so far that the quotient has 53 bits.
      rw [Nat.le_div_iff_mul_le h₂, Nat.shiftLeft_eq]
      calc 2 ^ 52 * m₂ ≤ 2 ^ 52 * 2 ^ (m₂.log2 + 1) :=
            Nat.mul_le_mul_left _ Nat.lt_log2_self.le
        _ = 2 ^ (m₂.log2 + 53) := by
          rw [← Nat.pow_add]
          congr 1
          omega
        _ ≤ 2 ^ (m₁.log2 + shift) := Nat.pow_le_pow_right (by decide) (by omega)
        _ = 2 ^ m₁.log2 * 2 ^ shift := Nat.pow_add _ _ _
        _ ≤ m₁ * 2 ^ shift := Nat.mul_le_mul_right _ (Nat.log2_self_le h₁.ne')

/-- A quotient is rounded to the double in whose neighbourhood it lies. -/
theorem div_eq (hc : Rounded mantissa exponent)
    (hv : (Neighbourhood.of mantissa exponent).Contains (m₁ * 2 ^ e₁ / (m₂ * 2 ^ e₂))) :
    UnpackedFloat.div .binary64 (.finite s₁ m₁ e₁ h₁) (.finite s₂ m₂ e₂ h₂) =
      .finite (s₁ / s₂) mantissa exponent hc.pos := by
  obtain ⟨m, e, accuracy, hdiv, hstands, hfine⟩ := exists_div_eq s₁ s₂ h₁ h₂ e₁ e₂
  rw [hdiv]
  exact roundWithAccuracy_eq hc hv hstands hfine _

end Campus.Number
