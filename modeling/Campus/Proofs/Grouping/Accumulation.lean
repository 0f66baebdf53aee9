import Campus.Proofs.Grouping.Totals

/-!
# Adding with rounding

What adding numbers one by one gives when each sum may be rounded (`Accumulates`). Two bounds are
derived from what one rounding can do, for lists of any length. If it is wrong in proportion to the
sum, each number counts with a factor near to one (`Accumulates.le_weighted`); if the sum is also a
nearest one, the errors only add up (`Accumulates.abs_sub_sum_le`).
-/

namespace Campus

/-- `total` is a result of adding `terms` to `start` one by one, where `near` says which results are
taken for an exact sum of a running total and a term. -/
inductive Accumulates (near : ℚ → ℚ → ℚ → Prop) : ℚ → List ℚ → ℚ → Prop
  | nil (start : ℚ) : Accumulates near start [] start
  | cons {start term next total : ℚ} {terms : List ℚ} (step : near start term next)
      (rest : Accumulates near next terms total) : Accumulates near start (term :: terms) total

/-- The result is wrong by at most this part of the exact sum. -/
def WithinPart (part start term next : ℚ) : Prop :=
  |next - (start + term)| ≤ |start + term| * part

/-- The result is also as near to the exact sum as the running total is. -/
def WithinPartOrTerm (part start term next : ℚ) : Prop :=
  WithinPart part start term next ∧ |next - (start + term)| ≤ |term|

variable {part start term next total p q : ℚ} {terms : List ℚ}

theorem WithinPart.neg (h : WithinPart part start term next) :
    WithinPart part (-start) (-term) (-next) := by
  have hdistance : -next - (-start + -term) = -(next - (start + term)) := by ring
  rw [WithinPart, hdistance, ← neg_add, abs_neg, abs_neg]
  exact h

theorem Accumulates.neg (h : Accumulates (WithinPart part) start terms total) :
    Accumulates (WithinPart part) (-start) (terms.map (-·)) (-total) := by
  induction h with
  | nil => exact .nil _
  | cons step _ ih => exact .cons step.neg ih

/-- One step, with the positive and the negative part of a running total apart. -/
theorem WithinPart.le (h : WithinPart part start term next) (hpart : 0 ≤ part) (hone : part ≤ 1)
    (hp : 0 ≤ p) (hq : 0 ≤ q) (hstart : start ≤ p - q) :
    next ≤ (1 + part) * (p + max 0 term) - (1 - part) * (q + max 0 (-term)) := by
  have hterm : term = max 0 term - max 0 (-term) := by
    rcases le_total 0 term with h | h
    · rw [max_eq_right h, max_eq_left (neg_nonpos.mpr h), sub_zero]
    · rw [max_eq_left h, max_eq_right (neg_nonneg.mpr h), zero_sub, neg_neg]
  have hup : 0 ≤ p + max 0 term := add_nonneg hp (le_max_left _ _)
  have hdown : 0 ≤ q + max 0 (-term) := add_nonneg hq (le_max_left _ _)
  have hsum : start + term ≤ (p + max 0 term) - (q + max 0 (-term)) := by linarith
  have hnext := (abs_le.mp h).2
  generalize p + max 0 term = up at hup hsum ⊢
  generalize q + max 0 (-term) = down at hdown hsum ⊢
  rcases le_total 0 (start + term) with hsign | hsign
  · rw [abs_of_nonneg hsign] at hnext
    nlinarith [mul_nonneg hpart hdown]
  · rw [abs_of_nonpos hsign] at hnext
    nlinarith [mul_nonneg hpart hup]

/-- Positive terms count at most, and negative ones at least, with the factor of all the steps. -/
theorem Accumulates.le_weighted (h : Accumulates (WithinPart part) start terms total)
    (hpart : 0 ≤ part) (hone : part ≤ 1) (hp : 0 ≤ p) (hq : 0 ≤ q) (hstart : start ≤ p - q) :
    total ≤ (1 + part) ^ terms.length * (p + positives terms) -
      (1 - part) ^ terms.length * (q + negatives terms) := by
  induction h generalizing p q with
  | nil => simpa [positives, negatives] using hstart
  | @cons start term next total terms step _ ih =>
      have hup : 0 ≤ p + max 0 term := add_nonneg hp (le_max_left _ _)
      have hdown : 0 ≤ q + max 0 (-term) := add_nonneg hq (le_max_left _ _)
      have hpositives := positives_nonneg terms
      have hnegatives : 0 ≤ negatives terms := positives_nonneg _
      have hgrow : (0 : ℚ) ≤ (1 + part) ^ terms.length := by positivity
      have hshrink : 0 ≤ (1 - part) ^ terms.length := pow_nonneg (sub_nonneg.mpr hone) _
      refine (ih (mul_nonneg (by linarith) hup) (mul_nonneg (sub_nonneg.mpr hone) hdown)
        (step.le hpart hone hp hq hstart)).trans ?_
      rw [positives_cons, negatives_cons, List.length_cons, pow_succ, pow_succ]
      have hmore : (1 + part) * (p + max 0 term) + positives terms ≤
          (1 + part) * (p + (max 0 term + positives terms)) := by
        nlinarith [mul_nonneg hpart hpositives]
      have hless : (1 - part) * (q + (max 0 (-term) + negatives terms)) ≤
          (1 - part) * (q + max 0 (-term)) + negatives terms := by
        nlinarith [mul_nonneg hpart hnegatives]
      rw [mul_assoc, mul_assoc]
      exact sub_le_sub (mul_le_mul_of_nonneg_left hmore hgrow)
        (mul_le_mul_of_nonneg_left hless hshrink)

/-- One step: a term that is small against what has been added loses at most itself, and another
one what its own magnitude allows for. -/
theorem WithinPartOrTerm.abs_sub_le (h : WithinPartOrTerm part start term next) (hpart : 0 ≤ part)
    {sum size : ℚ} {steps : ℕ} (hsum : |sum| ≤ size)
    (hstart : |start - sum| ≤ steps * part * size) :
    |next - (sum + term)| ≤ (steps + 1 : ℕ) * part * (size + |term|) := by
  have hsize : 0 ≤ size := (abs_nonneg sum).trans hsum
  have hsteps : (0 : ℚ) ≤ steps := Nat.cast_nonneg _
  have hsplit : next - (sum + term) = next - (start + term) + (start - sum) := by ring
  have herror : |next - (sum + term)| ≤ |next - (start + term)| + steps * part * size := by
    rw [hsplit]
    exact (abs_add_le _ _).trans (add_le_add_right hstart _)
  have hgrow : 0 ≤ steps * part * |term| := by positivity
  push_cast
  rcases le_or_gt |term| (part * size) with hsmall | hlarge
  · have hlost := h.2.trans hsmall
    have hshare : 0 ≤ part * |term| := by positivity
    linarith
  · have hlost : |next - (start + term)| ≤ (steps * part * size + (size + |term|)) * part := by
      refine h.1.trans (mul_le_mul_of_nonneg_right ?_ hpart)
      have hexact : start + term = (start - sum) + (sum + term) := by ring
      rw [hexact]
      exact (abs_add_le _ _).trans (add_le_add hstart ((abs_add_le _ _).trans (by linarith)))
    have hcovered : steps * part * (part * size) ≤ steps * part * |term| := by gcongr
    linarith

theorem Accumulates.abs_sub_le_of_start (h : Accumulates (WithinPartOrTerm part) start terms total)
    (hpart : 0 ≤ part) {sum size : ℚ} {steps : ℕ} (hsum : |sum| ≤ size)
    (hstart : |start - sum| ≤ steps * part * size) :
    |total - (sum + terms.sum)| ≤
      (steps + terms.length : ℕ) * part * (size + magnitude terms) := by
  induction h generalizing sum size steps with
  | nil => simpa [magnitude] using hstart
  | @cons start term next total terms step _ ih =>
      have hnext := ih ((abs_add_le _ _).trans (add_le_add_left hsum |term|))
        (step.abs_sub_le hpart hsum hstart)
      rw [List.sum_cons, List.length_cons, magnitude_cons]
      rwa [add_assoc steps, add_comm 1, add_assoc sum, add_assoc size] at hnext

/-- The errors add up: each step adds at most the same part of the sum of the magnitudes. -/
theorem Accumulates.abs_sub_sum_le (h : Accumulates (WithinPartOrTerm part) 0 terms total)
    (hpart : 0 ≤ part) : |total - terms.sum| ≤ terms.length * part * magnitude terms := by
  have hzero : |(0 : ℚ) - 0| ≤ (0 : ℕ) * part * 0 := by simp
  simpa using h.abs_sub_le_of_start hpart (abs_zero.le) hzero

end Campus
