import Campus.Proofs.Grouping.Totals
import Campus.Proofs.Scalar.Numbers

/-!
# Aggregates in any order

The greatest, the least and the number of distinct values are the same in whatever order the records
of a group come. A sum and a mean are, as long as the group has room for every running total at the
finest scale of its decimals (`HaveRoom`); so says `ApplyRule.value_eq_of_perm`. Beyond that numbers
are added in floating point, where the order matters (`value_ne_of_perm_great`).
-/

namespace Campus

open Number

variable {numbers others : List Float} {values values' : List Scalar} {scale : ℕ} {a b : ℚ}
  {x y : Float}

/-! ### The greatest and the least -/

theorem beq_self (x : Float) : (Scalar.number x == Scalar.number x) = true := by
  change (identity x == identity x) = true
  exact beq_self_eq_true _

theorem combine_eq_of_perm {worse : Float → Float → Prop} [DecidableRel worse]
    {op : Float → Float → Float} (hworse : IsRanking worse) (hop : TakesBetter worse op)
    (hless : ∀ {x y}, ¬ worse x y → ¬ worse y x → ¬ x < y ∧ ¬ y < x)
    (hperm : numbers.Perm others) (hfinite : ∀ x ∈ numbers, x.isFinite = true) :
    (Scalar.number (combine op numbers) == .number (combine op others)) = true := by
  by_cases hnil : numbers = []
  · subst hnil
    rw [List.nil_perm.mp hperm]
    exact beq_self _
  · have hnil' : others ≠ [] := by
      rintro rfl
      exact hnil (List.perm_nil.mp hperm)
    have hbest := extreme_combine hworse hop hnil
    have hbest' := extreme_combine hworse hop hnil'
    have hmem := hperm.mem_iff.mpr hbest'.mem
    obtain ⟨hxy, hyx⟩ := hless (hbest.best _ hmem) (hbest'.best _ (hperm.mem_iff.mp hbest.mem))
    exact beq_of_not_lt (hfinite _ hbest.mem) (hfinite _ hmem) hxy hyx

/-! ### Sums and means -/

theorem HaveRoom.of_perm (h : HaveRoom numbers scale) (hperm : numbers.Perm others) :
    HaveRoom others scale := by
  have hdecimals : (decimalsOf numbers).Perm (decimalsOf others) := hperm.filterMap _
  refine ⟨fun x hx => h.decimal x (hperm.mem_iff.mpr hx),
    fun c hc => h.scale_le c (hdecimals.mem_iff.mpr hc), ?_, ?_⟩
  · rw [← positives_of_perm (hdecimals.map _)]
    exact h.positives_lt
  · rw [← negatives_of_perm (hdecimals.map _)]
    exact h.negatives_lt

/-- Sums of one value in two orders. -/
theorem HaveRoom.exists_sums (h : HaveRoom numbers scale) (hperm : numbers.Perm others) :
    ∃ sum sum', decimalSum? numbers = some sum ∧ decimalSum? others = some sum' ∧
      sum.Valid ∧ sum'.Valid ∧ sum.value = sum'.value := by
  obtain ⟨sum, hsum, hvalid, -, hvalue⟩ := h.exists_sum
  obtain ⟨sum', hsum', hvalid', -, hvalue'⟩ := (h.of_perm hperm).exists_sum
  refine ⟨sum, sum', hsum, hsum', hvalid, hvalid', ?_⟩
  rw [hvalue, hvalue']
  exact ((hperm.filterMap _).map _).sum_eq

theorem roundedSum_of_perm (h : HaveRoom numbers scale) (hperm : numbers.Perm others) :
    (Scalar.number (roundedSum numbers) == .number (roundedSum others)) = true := by
  obtain ⟨sum, sum', hsum, hsum', hvalid, hvalid', hvalue⟩ := h.exists_sums hperm
  have hrounds := Fixed.rounds_toFloat (Fixed.valid_toHundredths hvalid)
  have hrounds' := Fixed.rounds_toFloat (Fixed.valid_toHundredths hvalid')
  rw [Fixed.value_toHundredths] at hrounds hrounds'
  rw [← hvalue] at hrounds'
  rw [roundedSum, roundedSum, hsum, hsum']
  exact beq_of_rounds hrounds hrounds'

theorem roundedMean_of_perm (h : HaveRoom numbers scale) (hperm : numbers.Perm others) :
    (Scalar.number (roundedMean numbers) == .number (roundedMean others)) = true := by
  obtain ⟨sum, sum', hsum, hsum', hvalid, -, hvalue⟩ := h.exists_sums hperm
  by_cases hnil : numbers = []
  · subst hnil
    rw [List.nil_perm.mp hperm]
    exact beq_self _
  · have hcount : 0 < numbers.length := List.length_pos_iff.mpr hnil
    have hnil' : others ≠ [] := fun hothers => hnil (List.perm_nil.mp (hothers ▸ hperm))
    obtain ⟨mean, hmean⟩ := Fixed.exists_div? hvalid hcount
    have hmean' : sum'.div? others.length = some mean := by
      rw [← hperm.length_eq, ← Fixed.div?_congr hvalue hcount, hmean]
    rw [roundedMean_of_some hnil hsum hmean, roundedMean_of_some hnil' hsum' hmean']
    exact beq_self _

/-! ### Aggregates of records -/

/-- The numbers that the records of a group have for a rule. -/
def ApplyRule.numbersOf (rule : ApplyRule) (kind : Kind) (members : List Record) : List Float :=
  (members.filterMap (·.field? kind rule.key.field)).filterMap Scalar.number?

/-- An aggregate of finite numbers does not depend on the order of the records, unless it is a sum
or a mean without room for its running total. -/
theorem ApplyRule.value_eq_of_perm (rule : ApplyRule) (kind : Kind)
    {members others : List Record} (hperm : members.Perm others)
    (hfinite : ∀ x ∈ rule.numbersOf kind members, x.isFinite = true)
    (hroom : rule.aggregate = .sum ∨ rule.aggregate = .avg →
      ∃ scale, HaveRoom (rule.numbersOf kind members) scale) :
    (rule.value kind members == rule.value kind others) = true := by
  have hvalues := hperm.filterMap (·.field? kind rule.key.field)
  have hnumbers : (rule.numbersOf kind members).Perm (rule.numbersOf kind others) :=
    hvalues.filterMap _
  unfold value
  cases haggregate : rule.aggregate with
  | max =>
      exact combine_eq_of_perm isRanking_less takesBetter_greater (fun h h' => ⟨h, h'⟩) hnumbers
        hfinite
  | min =>
      exact combine_eq_of_perm isRanking_greater takesBetter_lesser (fun h h' => ⟨h', h⟩) hnumbers
        hfinite
  | avg =>
      obtain ⟨scale, hscale⟩ := hroom (.inr haggregate)
      exact roundedMean_of_perm hscale hnumbers
  | sum =>
      obtain ⟨scale, hscale⟩ := hroom (.inl haggregate)
      exact roundedSum_of_perm hscale hnumbers
  | count =>
      rw [Aggregate.of, Aggregate.of, length_eraseDups_of_perm hvalues]
      exact beq_self _

/-- Rooms with these numbers of seats. -/
def roomsOf (seats : List Float) : List Record := seats.map fun x => ⟨[("seats", .number x)]⟩

/-- The seats of a group of rooms, all in all. -/
def seatsTotal : ApplyRule := ⟨"total", .sum, ⟨"r", "seats"⟩⟩

theorem value_eq_of_perm_seats :
    (roomsOf [0.1, 99.19, -0.7]).Perm (roomsOf [99.19, -0.7, 0.1]) ∧
      (∀ x ∈ seatsTotal.numbersOf .rooms (roomsOf [0.1, 99.19, -0.7]), x.isFinite = true) ∧
      (seatsTotal.aggregate = .sum ∨ seatsTotal.aggregate = .avg →
        ∃ scale, HaveRoom (seatsTotal.numbersOf .rooms (roomsOf [0.1, 99.19, -0.7])) scale) ∧
      (seatsTotal.value .rooms (roomsOf [0.1, 99.19, -0.7]) ==
        seatsTotal.value .rooms (roomsOf [99.19, -0.7, 0.1])) = true := by
  have hperm : (roomsOf [0.1, 99.19, -0.7]).Perm (roomsOf [99.19, -0.7, 0.1]) :=
    ((List.Perm.swap _ _ _).trans (.cons _ (.swap _ _ _))).map _
  have hfinite : ∀ x ∈ seatsTotal.numbersOf .rooms (roomsOf [0.1, 99.19, -0.7]),
      x.isFinite = true := by
    decide +kernel
  have hroom : ∃ scale, HaveRoom (seatsTotal.numbersOf .rooms (roomsOf [0.1, 99.19, -0.7])) scale :=
    ⟨6, haveRoom_of_everyday (by decide +kernel) (by decide +kernel)⟩
  exact ⟨hperm, hfinite, fun _ => hroom,
    ApplyRule.value_eq_of_perm seatsTotal .rooms hperm hfinite fun _ => hroom⟩

/-- Beyond the range of decimals the order matters: what is added to a great number is lost, unless
another great number has been taken away before. -/
theorem value_ne_of_perm_great :
    (roomsOf [1e30, 1, -1e30]).Perm (roomsOf [1e30, -1e30, 1]) ∧
      (∀ x ∈ seatsTotal.numbersOf .rooms (roomsOf [1e30, 1, -1e30]), x.isFinite = true) ∧
      (seatsTotal.value .rooms (roomsOf [1e30, 1, -1e30]) == .number 0) = true ∧
      (seatsTotal.value .rooms (roomsOf [1e30, -1e30, 1]) == .number 1) = true ∧
      (seatsTotal.value .rooms (roomsOf [1e30, 1, -1e30]) ==
        seatsTotal.value .rooms (roomsOf [1e30, -1e30, 1])) = false := by
  have hperm : (roomsOf [1e30, 1, -1e30]).Perm (roomsOf [1e30, -1e30, 1]) :=
    (List.Perm.cons _ (.swap _ _ _)).map _
  exact ⟨hperm, by decide +kernel, by decide +kernel, by decide +kernel, by decide +kernel⟩

end Campus
