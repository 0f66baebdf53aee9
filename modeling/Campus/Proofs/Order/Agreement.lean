import Campus.Proofs.Number.Values
import Campus.Proofs.Order

/-!
# Sorting rows that agree

Values are put in order by one relation and found to be the same by another. The two differ for
zeros only: `-0.0` and `0.0` are one value, and still one comes before the other
(`Scalar.compare_eq_iff`). So rows that agree in some columns are sorted by the next one, unless a
negative and a positive zero have decided before (`Order.sorted_by_next_column`).
-/

namespace Campus

/-! ### Values that compare as equal -/

/-- No two bit patterns have one place in the order of sorting. -/
theorem Number.Double.rank_inj {d e : Double} : d.rank = e.rank ↔ d = e := by
  have hbits : d = e ↔ d.bits.toNat = e.bits.toNat := by
    rw [UInt64.toNat_inj, Double.mk.injEq]
  have hd := d.bits.toNat_lt
  have he := e.bits.toNat_lt
  have hpow : Nat.pow 2 63 = 9223372036854775808 := by norm_num
  rw [hbits]
  unfold rank
  rw [hpow]
  dsimp only
  split <;> split <;> omega

/-- No two doubles have one place in the order of sorting. -/
theorem Number.rank_inj {x y : Float} : rank x = rank y ↔ x = y := by
  rw [rank, rank, Double.rank_inj, Double.ofFloat, Double.ofFloat, Double.mk.injEq, Float.toBits_inj]

namespace Scalar

/-- Two zeros of different sign. -/
inductive OppositeZeros : Scalar → Scalar → Prop
  | upwards : OppositeZeros (.number (-0)) (.number 0)
  | downwards : OppositeZeros (.number 0) (.number (-0))

theorem negativeZero_ne : (number (-0) : Scalar) ≠ number 0 := by
  intro h
  have hne : (-0 : Float) ≠ 0 := by decide +kernel
  exact hne (number.inj h)

theorem OppositeZeros.ne {v w : Scalar} (h : v.OppositeZeros w) : v ≠ w := by
  cases h with
  | upwards => exact negativeZero_ne
  | downwards => exact negativeZero_ne.symm

instance lawfulEqCmp_compare : Std.LawfulEqCmp (compare : Scalar → Scalar → Ordering) where
  eq_of_compare := by
    intro v w h
    cases v with
    | number x =>
        cases w with
        | number y =>
            have hrank : Number.rank x = Number.rank y := Std.LawfulEqOrd.eq_of_compare h
            rw [Number.rank_inj.mp hrank]
        | text t => cases h
    | text s =>
        cases w with
        | number y => cases h
        | text t =>
            have htext : s = t := Std.LawfulEqOrd.eq_of_compare h
            rw [htext]

theorem beq_iff_eq_or {v w : Scalar} : (v == w) = true ↔ v = w ∨ v.OppositeZeros w := by
  rw [beq_iff_same]
  constructor
  · intro h
    cases h with
    | number x => exact .inl rfl
    | text s => exact .inl rfl
    | zeros hx hy =>
        rcases Number.beq_zero_iff.mp hx with rfl | rfl
        · rcases Number.beq_zero_iff.mp hy with rfl | rfl
          · exact .inl rfl
          · exact .inr .downwards
        · rcases Number.beq_zero_iff.mp hy with rfl | rfl
          · exact .inr .upwards
          · exact .inl rfl
  · intro h
    rcases h with rfl | h
    · exact beq_iff_same.mp BEq.rfl
    · cases h with
      | upwards => exact .zeros (by decide) (by decide)
      | downwards => exact .zeros (by decide) (by decide)

/-- Values compare as equal if they are the same one and no zeros of different sign. -/
theorem compare_eq_iff {v w : Scalar} :
    v.compare w = .eq ↔ (v == w) = true ∧ ¬ v.OppositeZeros w := by
  rw [Std.LawfulEqCmp.compare_eq_iff_eq, beq_iff_eq_or]
  constructor
  · intro h
    exact ⟨.inl h, fun hopposite => hopposite.ne h⟩
  · intro h
    exact h.1.resolve_right h.2

end Scalar

/-! ### Rows that agree in some columns -/

namespace Row

variable {a b : Row} {columns earlier later : List String}

/-- The rows have the same values in the columns. -/
def AgreesOn (a b : Row) (columns : List String) : Prop :=
  ∀ column ∈ columns, (a.get? column == b.get? column) = true

/-- The first of the columns in which the rows are not alike has a negative zero in `a` and a
positive one in `b`. -/
inductive NegativeFirst (a b : Row) : List String → Prop
  | here {column : String} {columns : List String} (negative : a.get? column = some (.number (-0)))
      (positive : b.get? column = some (.number 0)) : NegativeFirst a b (column :: columns)
  | later {column : String} {columns : List String} (alike : a.get? column = b.get? column)
      (others : NegativeFirst a b columns) : NegativeFirst a b (column :: columns)

theorem compareCells_self (v : Option Scalar) : compareCells v v = .eq := by
  have hrefl : Std.ReflCmp (compareCells : Option Scalar → Option Scalar → Ordering) := inferInstance
  exact hrefl.compare_self

/-- A negative zero comes before a positive one, whatever stands in the columns after them. -/
theorem NegativeFirst.compareBy_eq (h : a.NegativeFirst b earlier) (later : List String) :
    a.compareBy b (earlier ++ later) = .lt := by
  induction h with
  | here negative positive =>
      rw [List.cons_append, compareBy, negative, positive]
      have hlt : compareCells (some (.number (-0) : Scalar)) (some (.number 0)) = .lt := by
        decide +kernel
      rw [hlt, Ordering.lt_then]
  | later alike _ ih =>
      rw [List.cons_append, compareBy, alike, compareCells_self, ih]
      rfl

/-- Rows that agree in some columns are alike in them, or a zero comes first in one of the two. -/
theorem AgreesOn.cases (h : a.AgreesOn b columns) :
    (∀ column ∈ columns, a.get? column = b.get? column) ∨ a.NegativeFirst b columns ∨
      b.NegativeFirst a columns := by
  induction columns with
  | nil => exact .inl (by simp)
  | cons column columns ih =>
      rw [AgreesOn, List.forall_mem_cons] at h
      obtain ⟨hfirst, hothers⟩ := h
      have hcases : a.get? column = b.get? column ∨
          a.get? column = some (.number (-0)) ∧ b.get? column = some (.number 0) ∨
          b.get? column = some (.number (-0)) ∧ a.get? column = some (.number 0) := by
        cases hv : a.get? column with
        | none =>
            cases hw : b.get? column with
            | none => exact .inl rfl
            | some w => simp [hv, hw] at hfirst
        | some v =>
            cases hw : b.get? column with
            | none => simp [hv, hw] at hfirst
            | some w =>
                rw [hv, hw, Option.some_beq_some, Scalar.beq_iff_eq_or] at hfirst
                rcases hfirst with rfl | hopposite
                · exact .inl rfl
                · cases hopposite with
                  | upwards => exact .inr (.inl ⟨rfl, rfl⟩)
                  | downwards => exact .inr (.inr ⟨rfl, rfl⟩)
      rcases hcases with halike | ⟨hnegative, hpositive⟩ | ⟨hnegative, hpositive⟩
      · rcases ih hothers with hall | hzero | hzero
        · exact .inl (List.forall_mem_cons.mpr ⟨halike, hall⟩)
        · exact .inr (.inl (.later halike hzero))
        · exact .inr (.inr (.later halike.symm hzero))
      · exact .inr (.inl (.here hnegative hpositive))
      · exact .inr (.inr (.here hnegative hpositive))

/-- Columns in which rows are alike do not decide. -/
theorem compareBy_of_alike (h : ∀ column ∈ earlier, a.get? column = b.get? column)
    (later : List String) : a.compareBy b (earlier ++ later) = a.compareBy b later := by
  induction earlier with
  | nil => rfl
  | cons column earlier ih =>
      rw [List.forall_mem_cons] at h
      rw [List.cons_append, compareBy, h.1, compareCells_self, ih h.2]
      rfl

/-- Rows that agree in the columns before are compared by the next one, unless zeros decide. -/
theorem AgreesOn.next_ne_gt (h : a.AgreesOn b earlier) {column : String}
    (hle : a.compareBy b (earlier ++ column :: later) ≠ .gt) :
    compareCells (a.get? column) (b.get? column) ≠ .gt ∨ a.NegativeFirst b earlier := by
  rcases h.cases with halike | hzero | hzero
  · rw [compareBy_of_alike halike, compareBy] at hle
    refine .inl fun hgt => hle ?_
    rw [hgt]
    rfl
  · exact .inr hzero
  · have hgt : a.compareBy b (earlier ++ column :: later) = .gt := by
      have hswap := (transCmp_compareBy (earlier ++ column :: later)).eq_swap (a := a) (b := b)
      rw [hswap, hzero.compareBy_eq]
      rfl
    exact absurd hgt hle

end Row

/-! ### Sorting upwards -/

namespace Order

/-- Two rows change places if the second comes before the first. -/
theorem sort_pair_of_lt {names : List String} {a b : Row} (h : a.compareBy b names = .lt) :
    (keys .up names).sort [b, a] = [a, b] := by
  have hswap := (Row.transCmp_compareBy names).eq_swap (a := b) (b := a)
  rw [h] at hswap
  have hlast : Row.mayPrecede (keys .up names) b a = false := by
    unfold Row.mayPrecede
    show (b.compareBy a names != .gt) = false
    rw [hswap]
    rfl
  rw [sort]
  simp [List.mergeSort, List.MergeSort.Internal.splitInTwo, hlast]

/-- Values compare as equal if they are the same one and no zeros of different sign. Of two rows
sorted upwards that agree in some columns, the first one has no greater cell in the next column,
unless it has a negative zero where the other one has a positive zero in the first column that tells
them apart; and then it comes first whatever the next columns hold. -/
theorem sorted_by_next_column (names : List String) (rows : List Row) :
    (∀ v w : Scalar, v.compare w = .eq ↔ (v == w) = true ∧ ¬ v.OppositeZeros w) ∧
      ((keys .up names).sort rows).Pairwise (fun a b => ∀ earlier column later,
        names = earlier ++ column :: later → a.AgreesOn b earlier →
          compareCells (a.get? column) (b.get? column) ≠ .gt ∨ a.NegativeFirst b earlier) ∧
      ∀ (a b : Row) (earlier later : List String), a.NegativeFirst b earlier →
        (keys .up (earlier ++ later)).sort [b, a] = [a, b] := by
  refine ⟨fun v w => Scalar.compare_eq_iff, ?_, ?_⟩
  · refine (pairwise_sort (keys .up names) rows).imp fun {a b} hab => ?_
    intro earlier column later hnames hagrees
    have hle : a.compareBy b names ≠ .gt := Ordering.isLE_iff_ne_gt.mp hab
    rw [hnames] at hle
    exact hagrees.next_ne_gt hle
  · intro a b earlier later hzero
    exact sort_pair_of_lt (hzero.compareBy_eq later)

/-- A row with a number of seats and a name. -/
def hallRow (seats : Float) (name : String) : Row :=
  ⟨[("r_seats", .number seats), ("r_name", .text name)]⟩

/-- Two halls that both have a negative zero of seats are sorted by their names. If only the second
one has, the names are not looked at. -/
theorem sorted_by_next_column_halls :
    (hallRow (-0) "H_2").AgreesOn (hallRow (-0) "H_1") ["r_seats"] ∧
      ((keys .up ["r_seats", "r_name"]).sort [hallRow (-0) "H_2", hallRow (-0) "H_1"]).Pairwise
        (fun a b => compareCells (a.get? "r_name") (b.get? "r_name") ≠ .gt) ∧
      (hallRow (-0) "H_2").NegativeFirst (hallRow 0 "H_1") ["r_seats"] ∧
      (keys .up (["r_seats"] ++ ["r_name"])).sort [hallRow 0 "H_1", hallRow (-0) "H_2"] =
        [hallRow (-0) "H_2", hallRow 0 "H_1"] := by
  have hzero : (hallRow (-0) "H_2").NegativeFirst (hallRow 0 "H_1") ["r_seats"] := .here rfl rfl
  have hseats : ∀ row ∈ [hallRow (-0) "H_2", hallRow (-0) "H_1"],
      row.get? "r_seats" = some (.number (-0)) := by
    simp [hallRow, Row.get?]
  have hagrees : ∀ a ∈ [hallRow (-0) "H_2", hallRow (-0) "H_1"],
      ∀ b ∈ [hallRow (-0) "H_2", hallRow (-0) "H_1"], a.AgreesOn b ["r_seats"] := by
    intro a ha b hb column hcolumn
    obtain rfl := List.mem_singleton.mp hcolumn
    rw [hseats a ha, hseats b hb]
    decide +kernel
  refine ⟨hagrees _ (by simp) _ (by simp), ?_, hzero,
    (sorted_by_next_column [] []).2.2 _ _ _ _ hzero⟩
  refine List.Pairwise.imp_of_mem (fun {a b} ha hb hab => ?_)
    (sorted_by_next_column ["r_seats", "r_name"] [hallRow (-0) "H_2", hallRow (-0) "H_1"]).2.1
  have ha' := List.mem_mergeSort.mp ha
  have hb' := List.mem_mergeSort.mp hb
  refine (hab ["r_seats"] "r_name" [] rfl (hagrees a ha' b hb')).resolve_right ?_
  intro hzero
  cases hzero with
  | here negative positive =>
      rw [hseats b hb', Option.some.injEq] at positive
      exact Scalar.negativeZero_ne positive
  | later alike others => cases others

/-- Halls of negative zero and of zero seats have the same number of seats, which is not compared as
equal, and are not sorted by their names. -/
theorem exists_next_column_not_sorted :
    (∃ v w : Scalar, (v == w) = true ∧ v.compare w ≠ .eq) ∧
      ∃ a b : Row, (keys .up ["r_seats", "r_name"]).sort [b, a] = [a, b] ∧
        a.AgreesOn b ["r_seats"] ∧ compareCells (a.get? "r_name") (b.get? "r_name") = .gt := by
  refine ⟨⟨.number (-0), .number 0, by decide +kernel, by decide +kernel⟩,
    hallRow (-0) "H_2", hallRow 0 "H_1", ?_, ?_, by decide +kernel⟩
  · exact sort_pair_of_lt (by decide +kernel)
  · intro column hcolumn
    obtain rfl := List.mem_singleton.mp hcolumn
    decide +kernel

end Order

end Campus
