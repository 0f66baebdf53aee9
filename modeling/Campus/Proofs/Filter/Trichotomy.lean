import Campus.Proofs.Filter.Reading
import Campus.Proofs.Normalization
import Campus.Proofs.Number.Comparison
import Campus.Proofs.Query.Rows

/-!
# Comparisons with one bound

A number is equal to a bound, greater or less, and only one of these, unless it or the bound is NaN
(`Comparison.existsUnique_holds`). The bound of a query never is, and nor is what a record has in a
numeric field. So the comparisons of a field with a bound part the records
(`Filter.existsUnique_compare`), and what is not greater is less or equal.
-/

namespace Campus

variable {kind : Kind} {r : Record} {key : Key}

/-! ### Numbers -/

namespace Comparison

/-- How two numbers compare of which the comparison holds. -/
def ordering : Comparison → Ordering
  | .equal => .eq
  | .greater => .gt
  | .less => .lt

theorem ordering_injective : Function.Injective ordering := by
  intro op op' h
  cases op <;> cases op' <;> first | rfl | cases h

theorem holds_iff {op : Comparison} {x y : Float} (hx : x.isNaN = false) (hy : y.isNaN = false) :
    op.holds x y = true ↔
      cmp (Number.place x.toModel.unpack) (Number.place y.toModel.unpack) = op.ordering := by
  cases op with
  | equal =>
      rw [holds, Number.beq_iff, ordering, cmp_eq_eq_iff]
      simp only [hx, hy, true_and]
  | greater =>
      rw [holds, decide_eq_true_iff, Number.lt_iff, ordering, cmp_eq_gt_iff]
      simp only [hx, hy, true_and]
  | less =>
      rw [holds, decide_eq_true_iff, Number.lt_iff, ordering, cmp_eq_lt_iff]
      simp only [hx, hy, true_and]

/-- Without NaN exactly one comparison holds. -/
theorem existsUnique_holds {x y : Float} (hx : x.isNaN = false) (hy : y.isNaN = false) :
    ∃! op : Comparison, op.holds x y = true := by
  simp only [holds_iff hx hy]
  cases h : cmp (Number.place x.toModel.unpack) (Number.place y.toModel.unpack) with
  | lt => exact ⟨less, rfl, fun op hop => ordering_injective hop.symm⟩
  | eq => exact ⟨equal, rfl, fun op hop => ordering_injective hop.symm⟩
  | gt => exact ⟨greater, rfl, fun op hop => ordering_injective hop.symm⟩

end Comparison

/-! ### Records -/

/-- A record has a finite number in the field that queries call by the name of a numeric one. -/
theorem Record.IsNormal.exists_number {name : String} (h : IsNormal kind r)
    (hclass : kind.fieldClass? name = some .numeric) :
    ∃ x, r.field? kind name = some (.number x) ∧ x.isFinite = true := by
  obtain ⟨f, hfield, hnumeric⟩ := Option.map_eq_some_iff.mp hclass
  obtain ⟨hf, rfl⟩ := Kind.field?_eq_some_iff.mp hfield
  obtain ⟨v, hv, hof⟩ := h.values f hf
  rw [hnumeric] at hof
  obtain ⟨x, rfl, hx⟩ := hof
  refine ⟨x, ?_, hx⟩
  rw [Row.field?, Kind.storedName_name hf, hv]

namespace Filter

variable {bound : Float}

/-- A record satisfies exactly one comparison of a numeric field with a bound. -/
theorem existsUnique_compare (h : Record.IsNormal kind r)
    (hclass : kind.fieldClass? key.field = some .numeric) (hbound : bound.isNaN = false) :
    ∃! op, accepts kind r (.compare op key bound) = true := by
  obtain ⟨x, hx, hfinite⟩ := h.exists_number hclass
  have haccepts : ∀ op, accepts kind r (.compare op key bound) = op.holds x bound := by
    intro op
    rw [accepts, hx]
    rfl
  simp only [haccepts]
  exact Comparison.existsUnique_holds (Number.isNaN_eq_false hfinite) hbound

theorem exists_accepts_compare (h : ∃! op, accepts kind r (.compare op key bound) = true) :
    ∃ op, ∀ op', accepts kind r (.compare op' key bound) = decide (op' = op) := by
  obtain ⟨op, hop, hunique⟩ := h
  refine ⟨op, fun op' => ?_⟩
  rw [Bool.eq_iff_iff, decide_eq_true_iff]
  refine ⟨hunique op', ?_⟩
  rintro rfl
  exact hop

/-- Not greater is less or equal. -/
theorem accepts_not_greater (h : ∃! op, accepts kind r (.compare op key bound) = true) :
    accepts kind r (.not (.compare .greater key bound)) =
      accepts kind r (.or [.compare .less key bound, .compare .equal key bound]) := by
  obtain ⟨op, hop⟩ := exists_accepts_compare h
  rw [accepts, accepts, acceptsAny_eq, List.any_cons, List.any_cons, List.any_nil, hop, hop, hop]
  cases op <;> rfl

/-- How many records satisfy a comparison. -/
def countCompare (kind : Kind) (records : List Record) (key : Key) (bound : Float)
    (op : Comparison) : ℕ :=
  records.countP fun r => accepts kind r (.compare op key bound)

theorem countCompare_add {records : List Record}
    (h : ∀ r ∈ records, ∃! op, accepts kind r (.compare op key bound) = true) :
    countCompare kind records key bound .equal + countCompare kind records key bound .greater +
      countCompare kind records key bound .less = records.length := by
  induction records with
  | nil => rfl
  | cons r records ih =>
      rw [List.forall_mem_cons] at h
      obtain ⟨op, hop⟩ := exists_accepts_compare h.1
      have hrest := ih h.2
      simp only [countCompare, List.countP_cons, hop, List.length_cons, decide_eq_true_eq]
        at hrest ⊢
      -- The record counts for `op` alone.
      cases op <;> simp <;> omega

/-! ### Nodes -/

/-- The node for the comparison of a field with a number. -/
def comparisonNode (word raw : String) (n : Json.Num) : Json :=
  .object [(word, .object [(raw, .number n)])]

/-- A text may be compared that spells a key of a registered dataset and names a numeric field. -/
theorem admits_numeric {c : Catalog} {raw : String} (hraw : Key.ofText? raw = some key)
    (hkind : c.kindOf? key.dataset = some kind)
    (hclass : kind.fieldClass? key.field = some .numeric) :
    raw = key.text ∧ c.Admits .numeric key := by
  refine Catalog.resolve?_eq_some_iff.mp ?_
  rw [Catalog.resolve?, hraw, Option.bind_some, Catalog.fieldClass?, hkind, Option.bind_some,
    hclass]
  rfl

theorem spelled_comparisonNode {c : Catalog} {word : String} {op : Comparison} {n : Json.Num}
    (known : (word, op) ∈ comparisonWords) (admitted : c.Admits .numeric key) :
    Spelled c (comparisonNode word key.text n) (.compare op key n.toFloat) :=
  .compare known admitted

end Filter

/-! ### Datasets -/

theorem Query.matched_run {source : Source} {q : Query} {records : List Record}
    (h : source.Holds q.dataset kind records) (limit : ℕ) :
    (q.run source limit).1.map (·.matched) =
      if limit < (q.found kind records).length then .error (.tooLarge limit)
      else .ok (q.found kind records).length := by
  calc (q.run source limit).1.map (·.matched)
      = (q.reference kind limit records).map (·.1) := by
        rw [← run_eq_reference h limit]
        cases (q.run source limit).1 <;> rfl
    _ = _ := by
        rw [reference]
        split <;> rfl

namespace Filter

/-- A numeric field of a dataset may be compared with any number in each of the three ways. A record
that was normalized satisfies exactly one of the comparisons, and those that do not satisfy `GT` are
those that satisfy `LT` or `EQ`. The matches of the three comparisons in a dataset come to the
number of its records. -/
theorem comparisons_partition {c : Catalog} {raw : String} {n : Json.Num}
    (hraw : Key.ofText? raw = some key) (hkind : c.kindOf? key.dataset = some kind)
    (hclass : kind.fieldClass? key.field = some .numeric) (hn : n.Fits) :
    (∀ m : Mentions,
      (∀ word op, (word, op) ∈ comparisonWords →
        (read c (comparisonNode word raw n)).Gives m (.compare op key n.toFloat)
          (m.addKeys [key])) ∧
      (read c (.object [("NOT", comparisonNode "GT" raw n)])).Gives m
        (.not (.compare .greater key n.toFloat)) (m.addKeys [key]) ∧
      (read c (.object [("OR", .array [comparisonNode "LT" raw n,
        comparisonNode "EQ" raw n])])).Gives m
        (.or [.compare .less key n.toFloat, .compare .equal key n.toFloat])
        (m.addKeys [key, key])) ∧
    (∀ stored r, stored.NumbersFit → Record.ofStored kind stored = .ok r →
      (∃! op, accepts kind r (.compare op key n.toFloat) = true) ∧
      accepts kind r (.not (.compare .greater key n.toFloat)) =
        accepts kind r (.or [.compare .less key n.toFloat, .compare .equal key n.toFloat])) ∧
    ∀ source records, Source.Holds source key.dataset kind records →
      (∀ memory : Memory, source = memory.source → ∀ r ∈ records,
        ∃ stored : Json, stored.NumbersFit ∧ Record.ofStored kind stored = .ok r) →
      countCompare kind records key n.toFloat .equal +
          countCompare kind records key n.toFloat .greater +
          countCompare kind records key n.toFloat .less = records.length ∧
        ∀ (q : Query) limit op, q.dataset = key.dataset →
          q.filter = .compare op key n.toFloat →
            (q.run source limit).1.map (·.matched) =
              if limit < countCompare kind records key n.toFloat op then .error (.tooLarge limit)
              else .ok (countCompare kind records key n.toFloat op) := by
  obtain ⟨rfl, hadmits⟩ := admits_numeric hraw hkind hclass
  have hunique : ∀ stored r, stored.NumbersFit → Record.ofStored kind stored = .ok r →
      ∃! op, accepts kind r (.compare op key n.toFloat) = true := fun stored r hfit hr =>
    existsUnique_compare (Record.isNormal_of_ofStored hfit hr) hclass
      (Number.isNaN_eq_false hn.isFinite)
  refine ⟨fun m => ⟨fun word op known => ?_, ?_, ?_⟩, fun stored r hfit hr => ?_, ?_⟩
  · exact gives_read_iff.mpr ⟨.node (spelled_comparisonNode known hadmits), rfl⟩
  · exact gives_read_iff.mpr
      ⟨.node (.not (spelled_comparisonNode (by decide) hadmits)), rfl⟩
  · refine gives_read_iff.mpr ⟨.node (.or (by simp) ?_), rfl⟩
    exact .cons (spelled_comparisonNode (by decide) hadmits)
      (.cons (spelled_comparisonNode (by decide) hadmits) .nil)
  · exact ⟨hunique stored r hfit hr, accepts_not_greater (hunique stored r hfit hr)⟩
  · intro source records hholds hmemory
    have hstored : ∀ r ∈ records, ∃ stored : Json, stored.NumbersFit ∧
        Record.ofStored kind stored = .ok r := by
      cases hholds with
      | memory entry => exact hmemory _ rfl
      | disk registered listed =>
          intro r hr
          obtain ⟨f, -, hf⟩ := List.mem_flatMap.mp hr
          exact exists_stored_of_mem_fileRecords hf
    refine ⟨countCompare_add fun r hr => ?_, ?_⟩
    · obtain ⟨stored, hfit, hr⟩ := hstored r hr
      exact hunique stored r hfit hr
    · intro q limit op hdataset hfilter
      have hfound : (q.found kind records).length =
          countCompare kind records key n.toFloat op := by
        rw [Query.found, hfilter, countCompare, List.countP_eq_length_filter]
      rw [Query.matched_run (hdataset ▸ hholds), hfound]

/-- The key of a mark. -/
def markKey : Key := ⟨"c", "avg"⟩

/-- A mark may be compared with 81.5. Just one of the comparisons is true of a section with a mark,
and where it is the only one in memory, just one of them has a match. -/
theorem comparisons_partition_mark :
    (∀ m word op, (word, op) ∈ comparisonWords →
      (read ⟨[("c", .courses)]⟩ (comparisonNode word "c_avg" (.real 81.5))).Gives m
        (.compare op markKey 81.5) (m.addKeys [markKey])) ∧
    ∃ r, Record.ofStored .courses Record.sampleOverall = .ok r ∧
      (∃! op, accepts .courses r (.compare op markKey 81.5) = true) ∧
      countCompare .courses [r] markKey 81.5 .equal +
        countCompare .courses [r] markKey 81.5 .greater +
        countCompare .courses [r] markKey 81.5 .less = 1 := by
  have hraw : Key.ofText? "c_avg" = some markKey := by decide
  have hkind : Catalog.kindOf? ⟨[("c", .courses)]⟩ markKey.dataset = some .courses := by decide
  have hclass : Kind.fieldClass? .courses markKey.field = some .numeric := by decide
  have hn : (Json.Num.real 81.5).Fits := by
    show (81.5 : Float).isFinite = true
    decide +kernel
  obtain ⟨hread, hrecords, hdatasets⟩ := comparisons_partition hraw hkind hclass hn
  obtain ⟨r, hr⟩ : ∃ r, Record.ofStored? .courses Record.sampleOverall = some r := by
    rw [← Option.isSome_iff_exists]
    decide +kernel
  rw [Record.ofStored?_eq_some_iff] at hr
  have hholds : (Memory.insert .empty "c" .courses [r]).source.Holds markKey.dataset .courses [r] :=
    .memory rfl
  refine ⟨fun m => (hread m).1, r, hr, (hrecords _ r Record.numbersFit_sampleOverall hr).1, ?_⟩
  refine (hdatasets _ _ hholds fun memory _ r' hr' => ?_).1
  obtain rfl := List.mem_singleton.mp hr'
  exact ⟨_, Record.numbersFit_sampleOverall, hr⟩

end Filter

end Campus
