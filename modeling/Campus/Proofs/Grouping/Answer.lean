import Campus.Proofs.Grouping.Aggregates
import Campus.Proofs.Query.Acceptance
import Campus.Proofs.Query.Rows

/-!
# What a grouped query answers

A query with a grouping that was read from JSON has one row for each class of records with the same
values under the group keys (`Query.exists_classes_of_ofJson`). What stands in a row is said for
each column by itself (`Grouping.ColumnValue`): what the last rule of this name computes, or else
what the first record of the class has under the group key of this name. No default is ever taken,
since records have all fields that the keys name.
-/

namespace Campus

variable {c : Catalog} {kind : Kind} {g : Grouping} {records members : List Record} {r r' : Record}

instance : DecidableRel Scalar.Same := fun _ _ => decidable_of_iff _ Scalar.beq_iff_same

namespace Grouping

/-- Two records have the same values under the group keys. -/
def Alike (g : Grouping) (kind : Kind) (r r' : Record) : Prop :=
  ∀ key ∈ g.keys, (r.groupValue kind key).Same (r'.groupValue kind key)

instance : DecidableRel (g.Alike kind) := fun r r' =>
  inferInstanceAs
    (Decidable (∀ key ∈ g.keys, (r.groupValue kind key).Same (r'.groupValue kind key)))

theorem values_beq_iff_alike :
    (g.keys.map (r.groupValue kind) == g.keys.map (r'.groupValue kind)) = true ↔
      g.Alike kind r r' := by
  rw [Scalar.list_beq_iff, List.forall₂_map_left_iff, List.forall₂_map_right_iff,
    List.forall₂_same]
  exact forall₂_congr fun key _ => Scalar.beq_iff_same

/-! ### The cells of a group -/

/-- What stands under a column in the row of a class of records. -/
inductive ColumnValue (g : Grouping) (kind : Kind) (members : List Record) (column : String) :
    Scalar → Prop
  /-- The last rule of this name computes it of the values that the records have. -/
  | rule {earlier later : List ApplyRule} {rule : ApplyRule} {values : List Scalar} {value : Scalar}
      (rules : g.rules = earlier ++ rule :: later) (name : rule.name = column)
      (last : ∀ other ∈ later, other.name ≠ column)
      (valued : List.Forall₂ (fun r v => r.field? kind rule.key.field = some v) members values)
      (makes : rule.aggregate.Makes values value) : ColumnValue g kind members column value
  /-- Without such a rule it is what the first record has under the group key. -/
  | key {key : Key} {first : Record} {value : Scalar} (mem : key ∈ g.keys)
      (text : key.text = column) (plain : ∀ rule ∈ g.rules, rule.name ≠ column)
      (first_eq : members.head? = some first)
      (valued : first.field? kind key.field = some value) : ColumnValue g kind members column value

/-- What is known of a grouping that was read, where records of a kind are grouped. -/
structure Fits (g : Grouping) (kind : Kind) (records : List Record) : Prop where
  keys : ∀ key ∈ g.keys, ∀ r ∈ records, (r.field? kind key.field).isSome = true
  rules : ∀ rule ∈ g.rules, ∀ r ∈ records, (r.field? kind rule.key.field).isSome = true
  numbers : ∀ rule ∈ g.rules, rule.aggregate ≠ .count → ∀ r ∈ records,
    ∃ x, r.field? kind rule.key.field = some (.number x)

theorem Fits.field?_eq (h : g.Fits kind records) {key : Key} (hkey : key ∈ g.keys)
    (hr : r ∈ records) : r.field? kind key.field = some (r.groupValue kind key) := by
  obtain ⟨value, hvalue⟩ := Option.isSome_iff_exists.mp (h.keys key hkey r hr)
  rw [Row.groupValue, hvalue, Option.getD_some]

/-- The values that records have under a key, one for each record. -/
theorem forall₂_filterMap {f : Record → Option Scalar} (h : ∀ r ∈ members, (f r).isSome = true) :
    List.Forall₂ (fun r v => f r = some v) members (members.filterMap f) := by
  induction members with
  | nil => exact .nil
  | cons first members ih =>
      rw [List.forall_mem_cons] at h
      obtain ⟨value, hvalue⟩ := Option.isSome_iff_exists.mp h.1
      rw [List.filterMap_cons, hvalue]
      exact .cons hvalue (ih h.2)

theorem exists_numbers {f : Record → Option Scalar}
    (h : ∀ r ∈ members, ∃ x, f r = some (.number x)) :
    ∃ numbers : List Float, members.filterMap f = numbers.map .number ∧
      numbers.length = members.length := by
  induction members with
  | nil => exact ⟨[], rfl, rfl⟩
  | cons first members ih =>
      rw [List.forall_mem_cons] at h
      obtain ⟨x, hx⟩ := h.1
      obtain ⟨numbers, hnumbers, hlength⟩ := ih h.2
      refine ⟨x :: numbers, ?_, by simp [hlength]⟩
      rw [List.filterMap_cons, hx, hnumbers, List.map_cons]

/-- A rule computes its aggregate of the values of a class. -/
theorem Fits.makes (h : g.Fits kind records) (hne : members ≠ []) (hsub : members ⊆ records)
    {rule : ApplyRule} (hrule : rule ∈ g.rules) :
    rule.aggregate.Makes (members.filterMap (·.field? kind rule.key.field))
      (rule.value kind members) := by
  rw [ApplyRule.value]
  by_cases hcount : rule.aggregate = .count
  · rw [hcount]
    exact Aggregate.makes_count _
  · obtain ⟨numbers, hnumbers, hlength⟩ :=
      exists_numbers fun r hr => h.numbers rule hrule hcount r (hsub hr)
    rw [hnumbers]
    refine rule.aggregate.makes_of_numbers fun hnil => hne ?_
    rw [hnil] at hlength
    exact List.eq_nil_of_length_eq_zero hlength.symm

/-- Rules come before keys, and of each of them the last one of a name. -/
theorem get?_row (g : Grouping) (kind : Kind) (first : Record) (members : List Record)
    (column : String) :
    (g.row kind ⟨g.keys.map (first.groupValue kind), members⟩).get? column =
      ((g.rules.map fun rule => (rule.name, rule.value kind members)).reverse.lookup column).or
        ((g.keys.map fun key => (key.text, first.groupValue kind key)).reverse.lookup column) := by
  rw [row, Row.get?, Row.ofList, Assoc.lookup_putAll, List.reverse_append, List.lookup_append,
    List.zip_map']
  simp

theorem Fits.columnValue_of_rule (h : g.Fits kind records) (hne : members ≠ [])
    (hsub : members ⊆ records) {column : String} {value : Scalar}
    (hvalue : (g.rules.map fun rule => (rule.name, rule.value kind members)).reverse.lookup
      column = some value) : g.ColumnValue kind members column value := by
  obtain ⟨earlier, later, hsplit, hlast⟩ := Assoc.exists_append_of_lookup_reverse hvalue
  obtain ⟨before, behind, hrules, rfl, hbehind⟩ := List.map_eq_append_iff.mp hsplit
  obtain ⟨rule, after, rfl, heq, rfl⟩ := List.map_eq_cons_iff.mp hbehind
  cases heq
  have hrule : rule ∈ g.rules := by
    rw [hrules]
    simp
  refine .rule hrules rfl ?_
    (forall₂_filterMap fun r hr => h.rules rule hrule r (hsub hr)) (h.makes hne hsub hrule)
  intro other hother hname
  refine hlast (List.mem_map.mpr ⟨_, List.mem_map_of_mem hother, hname⟩)

theorem Fits.columnValue_of_key (h : g.Fits kind records) {first : Record}
    (hfirst : members.head? = some first) (hmem : first ∈ records) {column : String}
    (hplain : ∀ rule ∈ g.rules, rule.name ≠ column) {value : Scalar}
    (hvalue : (g.keys.map fun key => (key.text, first.groupValue kind key)).reverse.lookup
      column = some value) : g.ColumnValue kind members column value := by
  have hcell := List.mem_reverse.mp (Assoc.mem_of_lookup hvalue)
  obtain ⟨key, hkey, heq⟩ := List.mem_map.mp hcell
  cases heq
  exact .key hkey rfl hplain hfirst (h.field?_eq hkey hmem)

/-- A group has a value for each of its columns, and it is the right one. -/
theorem Fits.exists_columnValue (h : g.Fits kind records) {first : Record}
    (hfirst : members.head? = some first) (hsub : members ⊆ records) {column : String}
    (hcolumn : column ∈ g.columns) :
    ∃ value, (g.row kind ⟨g.keys.map (first.groupValue kind), members⟩).get? column = some value ∧
      g.ColumnValue kind members column value := by
  have hmem : first ∈ members := List.mem_of_head? hfirst
  rw [get?_row]
  cases hrule : (g.rules.map fun rule =>
      (rule.name, rule.value kind members)).reverse.lookup column with
  | some value =>
      exact ⟨value, rfl, h.columnValue_of_rule (List.ne_nil_of_mem hmem) hsub hrule⟩
  | none =>
      have hplain : ∀ rule ∈ g.rules, rule.name ≠ column := by
        intro rule hrule' hname
        refine Assoc.lookup_eq_none.mp hrule ?_
        simpa [Assoc.names, ← hname] using ⟨rule, hrule', rfl⟩
      -- Without a rule of that name the column is a key.
      have hkey : column ∈ g.keys.map Key.text := by
        refine (List.mem_append.mp hcolumn).resolve_right fun hname => ?_
        obtain ⟨rule, hrule', hname⟩ := List.mem_map.mp hname
        exact hplain rule hrule' hname
      have hsome : ((g.keys.map fun key =>
          (key.text, first.groupValue kind key)).reverse.lookup column).isSome = true := by
        rw [Assoc.lookup_isSome]
        simpa [Assoc.names] using hkey
      obtain ⟨value, hvalue⟩ := Option.isSome_iff_exists.mp hsome
      exact ⟨value, hvalue, h.columnValue_of_key hfirst (hsub hmem) hplain hvalue⟩

/-! ### The rows -/

/-- The row of a class of records: a cell for each column and none besides. -/
structure IsRow (g : Grouping) (kind : Kind) (columns : List String) (members : List Record)
    (row : Row) : Prop where
  names : row.names = columns.eraseDups
  cells : ∀ column ∈ columns, ∃ value, row.get? column = some value ∧
    g.ColumnValue kind members column value

theorem Fits.isRow (h : g.Fits kind records) {first : Record}
    (hfirst : members.head? = some first) (hsub : members ⊆ records) {columns : List String}
    (hcolumns : ∀ column ∈ columns, column ∈ g.columns) :
    g.IsRow kind columns members
      ((g.row kind ⟨g.keys.map (first.groupValue kind), members⟩).select columns) := by
  refine ⟨Row.names_gather fun column hcolumn => ?_, fun column hcolumn => ?_⟩
  · obtain ⟨value, hvalue, -⟩ := h.exists_columnValue hfirst hsub (hcolumns column hcolumn)
    rw [hvalue]
    rfl
  · rw [Row.select, Row.get?_gather hcolumn]
    exact h.exists_columnValue hfirst hsub (hcolumns column hcolumn)

/-- The rows of a grouping are those of the classes of records. -/
theorem Fits.exists_classes (h : g.Fits kind records) {columns : List String}
    (hcolumns : ∀ column ∈ columns, column ∈ g.columns) :
    ∃ classes, AreClasses (g.Alike kind) records classes ∧
      List.Forall₂ (g.IsRow kind columns) classes (g.rows kind columns records) := by
  have hclasses : AreClasses (g.Alike kind) records
      ((groupsOf (fun r => g.keys.map (r.groupValue kind)) records).map (·.members)) :=
    areClasses_groupsOf (fun _ _ => values_beq_iff_alike) records
  refine ⟨_, hclasses, ?_⟩
  rw [rows, groups, List.forall₂_map_left_iff, List.forall₂_map_right_iff, List.forall₂_same]
  intro group hgroup
  rw [groupsOf_eq] at hgroup
  obtain ⟨tuple, htuple, rfl⟩ := List.mem_map.mp hgroup
  obtain ⟨first, hfirst, rfl⟩ := exists_head?_membersOf htuple
  exact h.isRow hfirst (fun r hr => (mem_membersOf.mp hr).1) hcolumns

end Grouping

/-! ### Groupings that were read -/

/-- The record has a number in the field that a key of numbers names. -/
theorem Catalog.Admits.exists_number {key : Key} (h : c.Admits .numeric key)
    (hkind : c.kindOf? key.dataset = some kind) (hr : Record.IsStored kind r) :
    ∃ x, r.field? kind key.field = some (.number x) := by
  obtain ⟨kind', f, hkind', hf, hname, hclass⟩ := h.named
  obtain rfl : kind = kind' := Option.some.inj (hkind.symm.trans hkind')
  rw [Row.field?, ← hname, Kind.storedName_name hf]
  exact hr.exists_number hf (of_decide_eq_true hclass)

namespace Query

variable {q : Query} {value : Json}

theorem fits_of_ofJson (h : ofJson c value = .ok q) (hgrouping : q.grouping = some g)
    (hkind : c.kindOf? q.dataset = some kind) (hrecords : ∀ r ∈ records, Record.IsStored kind r) :
    g.Fits kind records ∧ ∀ column ∈ q.columns, column ∈ g.columns := by
  obtain ⟨members, options, rfl, hread⟩ := exists_readFrom_of_ofJson h
  have hcolumns := hread.columns
  have hspelled := hread.grouping
  simp only [IsColumn, hgrouping] at hcolumns
  rw [hgrouping] at hspelled
  generalize Json.member? members Clause.grouping.name = node? at hspelled
  cases hspelled with
  | some hspelled =>
      have hdataset : ∀ key ∈ g.allKeys, c.kindOf? key.dataset = some kind := by
        intro key hkey
        rwa [hread.grouping_dataset g hgrouping key hkey]
      have hkeys : ∀ key ∈ g.keys, key ∈ g.allKeys := fun key => List.mem_append_left _
      have hrules : ∀ rule ∈ g.rules, rule.key ∈ g.allKeys := fun rule hrule =>
        List.mem_append_right _ (List.mem_map_of_mem hrule)
      refine ⟨⟨?_, ?_, ?_⟩, hcolumns⟩
      · intro key hkey r hr
        exact (hspelled.admits key hkey).isSome_get? (hdataset key (hkeys key hkey)) (hrecords r hr)
      · intro rule hrule r hr
        exact (hspelled.admits_rule rule hrule).isSome_get? (hdataset _ (hrules rule hrule))
          (hrecords r hr)
      · intro rule hrule hcount r hr
        have hadmits := hspelled.admits_rule rule hrule
        rw [if_neg hcount] at hadmits
        exact hadmits.exists_number (hdataset _ (hrules rule hrule)) (hrecords r hr)

/-- A query with a grouping has one row for each class of records with the same values under the
group keys, in the order in which they occur first. All records have these values, and the row of a
class shows the aggregates of its values and the values of its first record. -/
theorem exists_classes_of_ofJson (h : ofJson c value = .ok q) (hgrouping : q.grouping = some g)
    (hkind : c.kindOf? q.dataset = some kind) (hrecords : ∀ r ∈ records, Record.IsStored kind r) :
    (∀ key ∈ g.keys, ∀ r ∈ records, r.field? kind key.field = some (r.groupValue kind key)) ∧
      ∃ classes, AreClasses (g.Alike kind) records classes ∧
        List.Forall₂ (g.IsRow kind q.columns) classes (g.rows kind q.columns records) := by
  obtain ⟨hfits, hcolumns⟩ := fits_of_ofJson h hgrouping hkind hrecords
  exact ⟨fun key hkey r hr => hfits.field?_eq hkey hr, hfits.exists_classes hcolumns⟩

/-- A room as it is stored. -/
def roomWith (seats : String) : Json :=
  .object [("fullname", .string "Hall"), ("shortname", .string "H"), ("number", .string "1"),
    ("name", .string "H_1"), ("address", .string ""), ("type", .string "Small"),
    ("furniture", .string "Fixed"), ("href", .string ""), ("lat", .string "49.2"),
    ("lon", .string "-123.2"), ("seats", .string seats)]

/-- A query for the number of buildings by seats, where a later rule takes the name of an earlier
one. -/
def seatsQuery : Json :=
  .object
    [("WHERE", .object []),
      ("TRANSFORMATIONS", .object
        [("GROUP", .array [.string "halls_seats"]),
          ("APPLY", .array
            [.object [("n", .object [("MAX", .string "halls_lat")])],
              .object [("n", .object [("COUNT", .string "halls_shortname")])]])]),
      ("OPTIONS", .object [("COLUMNS", .array [.string "halls_seats", .string "n"])])]

/-- The records of two rooms, with no seats of either sign. -/
def emptyRooms : List Record := ["0", "-0"].filterMap fun seats =>
  Record.ofStored? .rooms (roomWith seats)

/-- The two rooms are one class. -/
theorem exists_classes_seatsQuery : ∃ q g classes,
    ofJson sectionsAndHalls seatsQuery = .ok q ∧ q.grouping = some g ∧
      sectionsAndHalls.kindOf? q.dataset = some .rooms ∧
      (∀ r ∈ emptyRooms, Record.IsStored .rooms r) ∧
      AreClasses (g.Alike .rooms) emptyRooms classes ∧ classes.length = 1 := by
  have hread : ((ofJson sectionsAndHalls seatsQuery).toOption.bind fun q =>
      q.grouping.map fun g => (q.dataset, (g.rows .rooms q.columns emptyRooms).length)) =
        some ("halls", 1) := by
    decide +kernel
  have hrecords : ∀ r ∈ emptyRooms, Record.IsStored .rooms r := by
    intro r hr
    obtain ⟨seats, -, hseats⟩ := List.mem_filterMap.mp hr
    exact ⟨_, Record.ofStored?_eq_some_iff.mp hseats⟩
  obtain ⟨q, hq, hread⟩ := Option.bind_eq_some_iff.mp hread
  obtain ⟨g, hg, hread⟩ := Option.map_eq_some_iff.mp hread
  obtain ⟨hdataset, hlength⟩ := Prod.mk.inj hread
  have hquery : ofJson sectionsAndHalls seatsQuery = .ok q := by
    generalize ofJson sectionsAndHalls seatsQuery = read at hq
    cases read with
    | error e => cases hq
    | ok q' =>
        cases hq
        rfl
  have hkind : sectionsAndHalls.kindOf? q.dataset = some .rooms := by
    rw [hdataset]
    decide
  obtain ⟨-, classes, hclasses, hrows⟩ := exists_classes_of_ofJson hquery hg hkind hrecords
  exact ⟨q, g, classes, hquery, hg, hkind, hrecords, hclasses, hrows.length_eq.trans hlength⟩

end Query

end Campus
