import Campus.Grouping.Groups
import Campus.Proofs.Repetitions
import Campus.Proofs.Scalar

/-!
# What the partition loop finds

The loop goes over the records once and keeps an index beside the groups. `Partition.Holds` is its
invariant: there is one group for each tuple of values so far, in the order in which they came up,
with all records of these values, and the index tells the place of each group. `Partition.Holds.add`
keeps it for one record and `Partition.Holds.addAll` for all of them, so the groups are the distinct
tuples with the records that have them (`groupsOf_eq`).
-/

namespace Campus

variable {values : Record → List Scalar} {records : List Record} {p : Partition}

/-- A tuple of values is looked up in an index at the first place where it stands. -/
theorem lookup_zipIdx (tuple : List Scalar) (tuples : List (List Scalar)) (n : Nat) :
    (tuples.zipIdx n).lookup tuple = (tuples.findIdx? (tuple == ·)).map (· + n) := by
  induction tuples generalizing n with
  | nil => rfl
  | cons first tuples ih =>
      rw [List.zipIdx_cons, List.lookup_cons, List.findIdx?_cons, ih]
      cases tuple == first with
      | true => simp
      | false => simp [Function.comp_def, Nat.add_right_comm, Nat.add_assoc]

/-- The distinct tuples of values that records have. -/
def tuplesOf (values : Record → List Scalar) (records : List Record) : List (List Scalar) :=
  (records.map values).eraseDups

/-- The records that have these values. -/
def membersOf (values : Record → List Scalar) (records : List Record) (tuple : List Scalar) :
    List Record :=
  records.filter fun r => values r == tuple

theorem membersOf_concat (r : Record) (tuple : List Scalar) :
    membersOf values (records ++ [r]) tuple =
      membersOf values records tuple ++ if values r == tuple then [r] else [] := by
  rw [membersOf, List.filter_append, List.filter_singleton]
  cases values r == tuple <;> rfl

/-- Without a tuple for it, a record is the first one of its values. -/
theorem membersOf_eq_nil (h : (tuplesOf values records).findIdx? (values r == ·) = none) :
    membersOf values records (values r) = [] := by
  rw [membersOf, List.filter_eq_nil_iff]
  intro other hother hsame
  obtain ⟨tuple, htuple, hkept⟩ := exists_mem_eraseDups (List.mem_map_of_mem (f := values) hother)
  have hnone := List.findIdx?_eq_none_iff.mp h tuple htuple
  rw [← BEq.congr_left hsame, hkept] at hnone
  cases hnone

theorem tuplesOf_concat (values : Record → List Scalar) (records : List Record) (r : Record) :
    tuplesOf values (records ++ [r]) =
      match (tuplesOf values records).findIdx? (values r == ·) with
      | some _ => tuplesOf values records
      | none => tuplesOf values records ++ [values r] := by
  rw [tuplesOf, List.map_append, List.map_singleton, eraseDups_concat, ← any_eraseDups,
    ← List.findIdx?_isSome, tuplesOf]
  cases (records.map values).eraseDups.findIdx? (values r == ·) <;> rfl

theorem pairwise_tuplesOf (values : Record → List Scalar) (records : List Record) :
    (tuplesOf values records).Pairwise fun a b => (a == b) = false :=
  pairwise_eraseDups _

/-- A tuple is the same as just one of the distinct ones. -/
theorem same_getElem_iff {tuple : List Scalar} {i j : Nat}
    (hi : i < (tuplesOf values records).length)
    (hsame : (tuple == (tuplesOf values records)[i]) = true)
    (hj : j < (tuplesOf values records).length) :
    (tuple == (tuplesOf values records)[j]) = true ↔ i = j := by
  have hdistinct := List.pairwise_iff_getElem.mp (pairwise_tuplesOf values records)
  constructor
  · intro h
    have hboth := BEq.trans (BEq.symm hsame) h
    rcases Nat.lt_trichotomy i j with hlt | heq | hgt
    · rw [hdistinct i j hi hj hlt] at hboth
      cases hboth
    · exact heq
    · rw [BEq.comm, hdistinct j i hj hi hgt] at hboth
      cases hboth
  · intro h
    cases h
    exact hsame

namespace Partition

/-- What holds of the index and the groups once `records` have been put into them. -/
structure Holds (p : Partition) (values : Record → List Scalar) (records : List Record) :
    Prop where
  index : p.index = (tuplesOf values records).zipIdx
  groups : p.groups =
    (tuplesOf values records).map fun tuple => ⟨tuple, (membersOf values records tuple).reverse⟩

theorem holds_empty (values : Record → List Scalar) : Partition.empty.Holds values [] :=
  ⟨rfl, rfl⟩

theorem Holds.lookup (h : p.Holds values records) (tuple : List Scalar) :
    p.index.lookup tuple = (tuplesOf values records).findIdx? (tuple == ·) := by
  rw [h.index, lookup_zipIdx]
  simp

/-- One more record is put where it belongs. -/
theorem Holds.add (h : p.Holds values records) (r : Record) :
    (p.add (values r) r).Holds values (records ++ [r]) := by
  have hlookup := h.lookup (values r)
  have htuples := tuplesOf_concat values records r
  unfold Partition.add
  rw [hlookup]
  cases hfound : (tuplesOf values records).findIdx? (values r == ·) with
  | some i =>
      rw [hfound] at htuples
      refine ⟨htuples ▸ h.index, ?_⟩
      obtain ⟨hi, hsame, -⟩ := List.findIdx?_eq_some_iff_getElem.mp hfound
      dsimp only at htuples ⊢
      rw [h.groups, htuples]
      refine List.ext_getElem (by simp) fun j hj _ => ?_
      have hj : j < (tuplesOf values records).length := by simpa using hj
      rw [List.getElem_modify]
      simp only [List.getElem_map, membersOf_concat, same_getElem_iff hi hsame hj]
      -- Only the group that was found gets the record.
      split <;> simp
  | none =>
      rw [hfound] at htuples
      dsimp only at htuples ⊢
      refine ⟨?_, ?_⟩
      · rw [h.index, h.groups, htuples, List.zipIdx_append]
        simp
      · have hothers : ∀ tuple ∈ tuplesOf values records,
            membersOf values (records ++ [r]) tuple = membersOf values records tuple := by
          intro tuple htuple
          rw [membersOf_concat, List.findIdx?_eq_none_iff.mp hfound tuple htuple]
          simp
        dsimp only
        rw [h.groups, htuples, List.map_append, List.map_singleton, membersOf_concat,
          membersOf_eq_nil hfound]
        simp only [BEq.rfl, if_true, List.nil_append, List.reverse_singleton]
        congr 1
        refine List.map_congr_left fun tuple htuple => ?_
        rw [hothers tuple htuple]

theorem Holds.addAll (h : p.Holds values records) (others : List Record) :
    (p.addAll values others).Holds values (records ++ others) := by
  induction others generalizing p records with
  | nil => simpa [Partition.addAll] using h
  | cons r others ih =>
      have hothers := ih (h.add r)
      rwa [List.append_assoc] at hothers

end Partition

/-- There is a group for each tuple of values, with the records that have them. -/
theorem groupsOf_eq (values : Record → List Scalar) (records : List Record) :
    groupsOf values records =
      (tuplesOf values records).map fun tuple => ⟨tuple, membersOf values records tuple⟩ := by
  have hall := (Partition.holds_empty values).addAll records
  rw [groupsOf, Partition.finish, hall.groups]
  simp

/-! ### The groups as classes -/

/-- The classes into which a relation divides items. -/
structure AreClasses {α : Type} (alike : α → α → Prop) [DecidableRel alike] (items : List α)
    (classes : List (List α)) : Prop where
  /-- A class has all items that are like its first one, in their order. -/
  exact : ∀ members ∈ classes, ∃ first ∈ members.head?,
    members = items.filter fun item => alike first item
  /-- Each item is in one class, as often as it is among the items. -/
  covers : classes.flatten.Perm items
  /-- Items of different classes differ. -/
  apart : classes.Pairwise fun members others =>
    ∀ item ∈ members, ∀ other ∈ others, ¬ alike item other
  /-- The classes are in the order in which they occur first. -/
  ordered : classes.Pairwise fun members others => ∀ item ∈ members, ∀ other ∈ others,
    items.findIdx (fun candidate => alike item candidate) <
      items.findIdx (fun candidate => alike other candidate)

theorem mem_membersOf {tuple : List Scalar} {r : Record} :
    r ∈ membersOf values records tuple ↔ r ∈ records ∧ (values r == tuple) = true :=
  List.mem_filter

/-- The first record of a group has the very values of the group. -/
theorem exists_head?_membersOf {tuple : List Scalar} (h : tuple ∈ tuplesOf values records) :
    ∃ first ∈ (membersOf values records tuple).head?, values first = tuple := by
  have hfirst := find?_of_mem_eraseDups h
  rw [List.find?_map, Option.map_eq_some_iff] at hfirst
  obtain ⟨first, hfirst, hvalues⟩ := hfirst
  refine ⟨first, ?_, hvalues⟩
  rw [membersOf, List.head?_filter]
  exact hfirst

/-- Every record is in the group of its values and in no other. -/
theorem flatten_membersOf_perm {tuples : List (List Scalar)}
    (hapart : tuples.Pairwise fun a b => (a == b) = false)
    (hall : ∀ r ∈ records, ∃ tuple ∈ tuples, (values r == tuple) = true) :
    (tuples.map (membersOf values records)).flatten.Perm records := by
  induction tuples generalizing records with
  | nil =>
      obtain rfl : records = [] := by
        refine List.eq_nil_iff_forall_not_mem.mpr fun r hr => ?_
        obtain ⟨tuple, htuple, -⟩ := hall r hr
        cases htuple
      exact .nil
  | cons first tuples ih =>
      rw [List.pairwise_cons] at hapart
      have hothers : tuples.map (membersOf values records) =
          tuples.map (membersOf values (records.filter fun r => !values r == first)) := by
        refine List.map_congr_left fun tuple htuple => ?_
        rw [membersOf, membersOf, List.filter_filter]
        refine List.filter_congr fun r _ => ?_
        cases hsame : values r == tuple with
        | false => simp
        | true => simp [BEq.congr_left hsame, BEq.comm (a := tuple), hapart.1 tuple htuple]
      have hall' : ∀ r ∈ records.filter (fun r => !values r == first),
          ∃ tuple ∈ tuples, (values r == tuple) = true := by
        intro r hr
        obtain ⟨hr, hne⟩ := List.mem_filter.mp hr
        obtain ⟨tuple, htuple, hsame⟩ := hall r hr
        rcases List.mem_cons.mp htuple with rfl | htuple
        · simp [hsame] at hne
        · exact ⟨tuple, htuple, hsame⟩
      rw [List.map_cons, List.flatten_cons, hothers]
      exact ((ih hapart.2 hall').append_left _).trans
        (List.filter_append_perm (fun r => values r == first) records)

/-- The groups are the classes of the records that have the same values. -/
theorem areClasses_groupsOf {alike : Record → Record → Prop} [DecidableRel alike]
    (halike : ∀ r r', (values r == values r') = true ↔ alike r r') (records : List Record) :
    AreClasses alike records ((groupsOf values records).map (·.members)) := by
  have hgroups : (groupsOf values records).map (·.members) =
      (tuplesOf values records).map (membersOf values records) := by
    rw [groupsOf_eq, List.map_map]
    rfl
  have hvalues {tuple : List Scalar} {r : Record} (hr : r ∈ membersOf values records tuple) :
      (values r == tuple) = true :=
    (mem_membersOf.mp hr).2
  rw [hgroups]
  refine ⟨?_, ?_, ?_, ?_⟩
  · intro members hmembers
    obtain ⟨tuple, htuple, rfl⟩ := List.mem_map.mp hmembers
    obtain ⟨first, hfirst, rfl⟩ := exists_head?_membersOf htuple
    refine ⟨first, hfirst, List.filter_congr fun r _ => ?_⟩
    rw [BEq.comm, Bool.eq_iff_iff, halike, decide_eq_true_iff]
  · refine flatten_membersOf_perm (pairwise_tuplesOf values records) fun r hr => ?_
    exact exists_mem_eraseDups (List.mem_map_of_mem hr)
  · refine List.pairwise_map.mpr ((pairwise_tuplesOf values records).imp ?_)
    intro a b hapart r hr r' hr' hsame
    rw [← halike, BEq.congr_left (hvalues hr), BEq.congr_right (hvalues hr'), hapart] at hsame
    cases hsame
  · refine List.pairwise_map.mpr ((pairwise_findIdx_eraseDups (records.map values)).imp ?_)
    have hfindIdx {tuple : List Scalar} {r : Record} (hr : r ∈ membersOf values records tuple) :
        records.findIdx (fun candidate => alike r candidate) =
          (records.map values).findIdx (· == tuple) := by
      rw [List.findIdx_map]
      congr 1
      funext candidate
      rw [Function.comp_apply, Bool.eq_iff_iff, decide_eq_true_iff, ← halike, BEq.comm,
        BEq.congr_right (hvalues hr)]
    intro a b hlt r hr r' hr'
    rwa [hfindIdx hr, hfindIdx hr']

end Campus
