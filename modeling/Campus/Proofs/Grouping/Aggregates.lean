import Campus.Grouping.Aggregate
import Campus.Proofs.Number.Comparison
import Campus.Proofs.Repetitions
import Campus.Proofs.Scalar

/-!
# What aggregates are of their values

`Aggregate.Makes` says what each aggregate is, without a loop: a greatest and a least value are
values that none of the others exceeds or is below, and a count is the size of a list of values that
are all different and that every value is the same as one of. `Aggregate.makes_of_numbers` proves this
of what is computed, of values that there are. The greatest is found by one pass, with `Extreme` as
what holds of the values so far.
-/

namespace Campus

/-! ### The greatest and the least -/

/-- A relation of numbers to better ones. NaN is not better than anything. -/
structure IsRanking (worse : Float → Float → Prop) : Prop where
  trans : ∀ {x y z}, worse x y → worse y z → worse x z
  irrefl : ∀ x, ¬ worse x x
  nan : ∀ {x y}, y.isNaN = true → ¬ worse x y

theorem isRanking_less : IsRanking (· < ·) :=
  ⟨Number.lt_trans, Number.lt_irrefl, Number.not_lt_of_isNaN_right⟩

theorem isRanking_greater : IsRanking fun x y => y < x :=
  ⟨fun hyx hzy => Number.lt_trans hzy hyx, Number.lt_irrefl, Number.not_lt_of_isNaN⟩

/-- An operation takes the second number if it is better than the first one, or if that is NaN. -/
def TakesBetter (worse : Float → Float → Prop) [DecidableRel worse] (op : Float → Float → Float) :
    Prop :=
  ∀ x y, op x y = if x.isNaN || worse x y then y else x

theorem takesBetter_greater : TakesBetter (· < ·) greater := fun _ _ => rfl

theorem takesBetter_lesser : TakesBetter (fun x y => y < x) lesser := fun _ _ => rfl

/-- The number is one that none of the numbers is better than. It is NaN only if all are. -/
structure Extreme (worse : Float → Float → Prop) (numbers : List Float) (x : Float) : Prop where
  mem : x ∈ numbers
  best : ∀ y ∈ numbers, ¬ worse x y
  number : x.isNaN = true → ∀ y ∈ numbers, y.isNaN = true

theorem extreme_singleton {worse : Float → Float → Prop} (hworse : IsRanking worse) (x : Float) :
    Extreme worse [x] x := by
  refine ⟨List.mem_singleton_self _, ?_, ?_⟩
  · intro y hy
    obtain rfl := List.mem_singleton.mp hy
    exact hworse.irrefl y
  · intro hx y hy
    obtain rfl := List.mem_singleton.mp hy
    exact hx

section

variable {worse : Float → Float → Prop} [DecidableRel worse] {op : Float → Float → Float}
  {numbers : List Float} {x : Float}

theorem TakesBetter.cases (hop : TakesBetter worse op) (x y : Float) :
    (x.isNaN = true ∨ worse x y) ∧ op x y = y ∨
      x.isNaN = false ∧ ¬ worse x y ∧ op x y = x := by
  rw [hop x y]
  split
  · next h =>
    rw [Bool.or_eq_true, decide_eq_true_iff] at h
    exact .inl ⟨h, rfl⟩
  · next h =>
    rw [Bool.or_eq_true, decide_eq_true_iff, not_or, Bool.not_eq_true] at h
    exact .inr ⟨h.1, h.2, rfl⟩

/-- One more number is taken into account. -/
theorem Extreme.concat (h : Extreme worse numbers x) (hworse : IsRanking worse)
    (hop : TakesBetter worse op) (y : Float) : Extreme worse (numbers ++ [y]) (op x y) := by
  rcases hop.cases x y with ⟨hbetter, hy⟩ | ⟨hnumber, hnot, hx⟩
  · rw [hy]
    refine ⟨by simp, ?_, ?_⟩
    · intro z hz hyz
      rcases List.mem_append.mp hz with hz | hz
      · rcases hbetter with hxnan | hxy
        · exact hworse.nan (h.number hxnan z hz) hyz
        · exact h.best z hz (hworse.trans hxy hyz)
      · obtain rfl := List.mem_singleton.mp hz
        exact hworse.irrefl z hyz
    · intro hynan z hz
      rcases List.mem_append.mp hz with hz | hz
      · rcases hbetter with hxnan | hxy
        · exact h.number hxnan z hz
        · exact absurd hxy (hworse.nan hynan)
      · obtain rfl := List.mem_singleton.mp hz
        exact hynan
  · rw [hx]
    refine ⟨List.mem_append_left _ h.mem, ?_, ?_⟩
    · intro z hz
      rcases List.mem_append.mp hz with hz | hz
      · exact h.best z hz
      · obtain rfl := List.mem_singleton.mp hz
        exact hnot
    · intro hxnan
      rw [hxnan] at hnumber
      cases hnumber

theorem Extreme.foldl (h : Extreme worse numbers x) (hworse : IsRanking worse)
    (hop : TakesBetter worse op) (others : List Float) :
    Extreme worse (numbers ++ others) (others.foldl op x) := by
  induction others generalizing numbers x with
  | nil => simpa using h
  | cons y others ih => simpa using ih (h.concat hworse hop y)

theorem extreme_combine (hworse : IsRanking worse) (hop : TakesBetter worse op)
    (hne : numbers ≠ []) : Extreme worse numbers (combine op numbers) := by
  obtain ⟨first, others, rfl⟩ := List.exists_cons_of_ne_nil hne
  exact (extreme_singleton hworse first).foldl hworse hop others

end

/-! ### Aggregates -/

/-- What an aggregate makes of values: all but the count are of numbers, and of at least one. -/
inductive Aggregate.Makes : Aggregate → List Scalar → Scalar → Prop
  | max {numbers : List Float} {x : Float} (among : x ∈ numbers)
      (greatest : ∀ y ∈ numbers, ¬ x < y) : Makes .max (numbers.map .number) (.number x)
  | min {numbers : List Float} {x : Float} (among : x ∈ numbers)
      (least : ∀ y ∈ numbers, ¬ y < x) : Makes .min (numbers.map .number) (.number x)
  | avg {numbers : List Float} (nonempty : numbers ≠ []) :
      Makes .avg (numbers.map .number) (.number (roundedMean numbers))
  | sum {numbers : List Float} (nonempty : numbers ≠ []) :
      Makes .sum (numbers.map .number) (.number (roundedSum numbers))
  | count {values distinct : List Scalar} (among : ∀ v ∈ distinct, v ∈ values)
      (apart : distinct.Pairwise fun v w => ¬ v.Same w)
      (all : ∀ v ∈ values, ∃ w ∈ distinct, v.Same w) :
      Makes .count values (.number (Float.ofNat distinct.length))

namespace Aggregate

theorem makes_count (values : List Scalar) :
    Makes .count values (.number (Float.ofNat values.eraseDups.length)) := by
  refine .count (fun v => mem_of_mem_eraseDups) ?_ ?_
  · refine (pairwise_eraseDups values).imp fun hapart hsame => ?_
    rw [Scalar.beq_iff_same.mpr hsame] at hapart
    cases hapart
  · intro v hv
    obtain ⟨w, hw, hsame⟩ := exists_mem_eraseDups hv
    exact ⟨w, hw, Scalar.beq_iff_same.mp hsame⟩

theorem filterMap_number? (numbers : List Float) :
    (numbers.map Scalar.number).filterMap Scalar.number? = numbers := by
  rw [List.filterMap_map]
  exact List.filterMap_some

/-- What is computed of numbers is their aggregate. -/
theorem makes_of_numbers (a : Aggregate) {numbers : List Float} (hne : numbers ≠ []) :
    a.Makes (numbers.map .number) (.number (a.of (numbers.map .number))) := by
  cases a with
  | max =>
      have hextreme := extreme_combine isRanking_less takesBetter_greater hne
      rw [Aggregate.of, filterMap_number?]
      exact .max hextreme.mem hextreme.best
  | min =>
      have hextreme := extreme_combine isRanking_greater takesBetter_lesser hne
      rw [Aggregate.of, filterMap_number?]
      exact .min hextreme.mem hextreme.best
  | avg =>
      rw [Aggregate.of, filterMap_number?]
      exact .avg hne
  | sum =>
      rw [Aggregate.of, filterMap_number?]
      exact .sum hne
  | count => exact makes_count _

end Aggregate

end Campus
