import Campus.Proofs.Grouping.Partition
import Campus.Proofs.Key
import Campus.Proofs.Query.Execution
import Campus.Proofs.Query.Grammar
import Campus.Proofs.Record
import Campus.Proofs.Repetitions

/-!
# What the rows of an answer look like

A row is narrowed to the columns by leaving out cells that are not there, so a column that is not
found would be missing from the row without a word. `Query.Complete.names_of_mem_rows` says that
this does not happen: with columns as the grammar has them and records as they are stored, every row
has a cell for each column and none besides. A group has a cell for each of its keys and rules
(`Grouping.mem_names_row`), and a key names the same field where columns are read and where records
are projected (`Kind.columnField_text`).
-/

namespace Campus

/-! ### Cells -/

namespace Row

theorem mem_names_iff {r : Row} {name : String} : name ∈ r.names ↔ (r.get? name).isSome = true :=
  Assoc.lookup_isSome.symm

/-- A row is gathered with all columns if there is a value for each. -/
theorem names_gather {columns : List String} {source : String → Option Scalar}
    (h : ∀ column ∈ columns, (source column).isSome = true) :
    (gather columns source).names = columns.eraseDups := by
  have hcolumns : ∀ column ∈ columns.eraseDups, (source column).isSome = true :=
    fun column hcolumn => h column (List.mem_eraseDups.mp hcolumn)
  rw [names, gather, Assoc.names]
  generalize columns.eraseDups = distinct at hcolumns ⊢
  induction distinct with
  | nil => rfl
  | cons column distinct ih =>
      rw [List.forall_mem_cons] at hcolumns
      obtain ⟨value, hvalue⟩ := Option.isSome_iff_exists.mp hcolumns.1
      rw [List.filterMap_cons, hvalue, Option.map_some, List.map_cons, ih hcolumns.2]

/-- No row has two cells of one name. -/
theorem nodup_names_gather (columns : List String) (source : String → Option Scalar) :
    (gather columns source).names.Nodup := by
  have hsublist : ∀ distinct : List String,
      (Assoc.names (distinct.filterMap fun column => (source column).map (column, ·))).Sublist
        distinct := by
    intro distinct
    induction distinct with
    | nil => exact .slnil
    | cons column distinct ih =>
        rw [List.filterMap_cons]
        cases source column with
        | none => exact ih.cons _
        | some value => exact ih.cons_cons _
  exact (nodup_eraseDups columns).sublist (hsublist _)

theorem lookup_filterMap (source : String → Option Scalar) (columns : List String)
    (column : String) :
    (columns.filterMap fun column => (source column).map (column, ·)).lookup column =
      if column ∈ columns then source column else none := by
  induction columns with
  | nil => rfl
  | cons other columns ih =>
      rw [List.filterMap_cons]
      by_cases heq : column = other
      · subst heq
        cases hvalue : source column with
        | none => simp [ih, hvalue]
        | some value => simp
      · cases source other with
        | none => simp [ih, heq]
        | some value => simp [List.lookup_cons, beq_false_of_ne heq, ih, heq]

theorem get?_gather {columns : List String} {source : String → Option Scalar} {column : String}
    (h : column ∈ columns) : (gather columns source).get? column = source column := by
  rw [get?, gather, lookup_filterMap, if_pos (List.mem_eraseDups.mpr h)]

/-- A row that is put together has all cells that were given. -/
theorem mem_names_ofList {cells : List (String × Scalar)} {name : String} :
    name ∈ (ofList cells).names ↔ name ∈ Assoc.names cells := by
  rw [names, ofList, Assoc.mem_names_putAll]
  simp

end Row

/-! ### Records -/

/-- Reading a column as a key and taking it apart at its first separator lead to one field. -/
theorem Kind.columnField_text {key : Key} (h : IsKeyPart key.dataset) (kind : Kind) :
    kind.columnField key.text = kind.storedName key.field := by
  have hsplit : splitAtSeparator? key.text.toList = some (key.dataset.toList, key.field.toList) :=
    splitAtSeparator?_eq_some_iff.mpr ⟨by simp [Key.text], h.2⟩
  rw [columnField, hsplit]
  dsimp only
  rw [String.ofList_toList]

theorem Kind.storedName_name {kind : Kind} {f : Field} (hf : f ∈ kind.fields) :
    kind.storedName f.name = f.stored := by
  rw [storedName, Kind.field?_eq_some_iff.mpr ⟨hf, rfl⟩]
  rfl

variable {c : Catalog} {kind : Kind}

/-- The record has a value in the field that a key names. -/
theorem Catalog.Admits.isSome_get? {wanted : KeyClass} {key : Key} {r : Record}
    (h : c.Admits wanted key) (hkind : c.kindOf? key.dataset = some kind)
    (hr : Record.IsStored kind r) : (r.get? (kind.storedName key.field)).isSome = true := by
  obtain ⟨kind', f, hkind', hf, hname, -⟩ := h.named
  obtain rfl : kind = kind' := Option.some.inj (hkind.symm.trans hkind')
  rw [← hname, Kind.storedName_name hf, ← Row.mem_names_iff]
  exact hr.mem_names hf

/-! ### Groups -/

theorem length_values_of_mem_groupsOf {values : Record → List Scalar} {records : List Record}
    {n : Nat} (h : ∀ r, (values r).length = n) {group : Group}
    (hgroup : group ∈ groupsOf values records) : group.values.length = n := by
  rw [groupsOf_eq] at hgroup
  obtain ⟨tuple, htuple, rfl⟩ := List.mem_map.mp hgroup
  obtain ⟨r, -, rfl⟩ := List.mem_map.mp (mem_of_mem_eraseDups htuple)
  exact h r

/-- A group has a cell for each key and each rule. -/
theorem Grouping.mem_names_row {g : Grouping} {records : List Record} {group : Group}
    (hgroup : group ∈ g.groups kind records) {column : String} (hcolumn : column ∈ g.columns) :
    column ∈ (g.row kind group).names := by
  have hlength : group.values.length = g.keys.length :=
    length_values_of_mem_groupsOf (fun r => List.length_map _) hgroup
  rw [row, Row.mem_names_ofList, Assoc.names_append, Assoc.names, List.map_fst_zip (by simp [hlength])]
  simpa [columns, Assoc.names, Function.comp_def] using hcolumn

/-! ### Rows -/

/-- The row shows the record: under each column it has the value of the field that the column names
as a key. -/
def Row.Shows (row : Row) (kind : Kind) (columns : List String) (r : Record) : Prop :=
  ∀ column ∈ columns, ∃ key value, Key.ofText? column = some key ∧
    r.get? (kind.storedName key.field) = some value ∧ row.get? column = some value

namespace Query

variable {q : Query} {records : List Record}

/-- What the columns of a query have to be for its rows to be complete. -/
structure Complete (q : Query) (c : Catalog) (kind : Kind) (records : List Record) : Prop where
  columns : ∀ column ∈ q.columns, IsColumn c q.dataset q.grouping column
  kindOf : c.kindOf? q.dataset = some kind
  stored : ∀ r ∈ records, Record.IsStored kind r

theorem Complete.exists_value (h : q.Complete c kind records) (hgrouping : q.grouping = none)
    {column : String} (hcolumn : column ∈ q.columns) {r : Record} (hr : r ∈ records) :
    ∃ key value, Key.ofText? column = some key ∧
      kind.columnField column = kind.storedName key.field ∧
      r.get? (kind.storedName key.field) = some value := by
  have hkey := h.columns column hcolumn
  simp only [IsColumn, hgrouping] at hkey
  obtain ⟨key, hadmits, hdataset, rfl⟩ := hkey
  obtain ⟨value, hvalue⟩ := Option.isSome_iff_exists.mp
    (hadmits.isSome_get? (hdataset ▸ h.kindOf) (h.stored r hr))
  exact ⟨key, value, Key.ofText?_eq_some_iff.mpr ⟨rfl, hadmits.dataset, hadmits.field⟩,
    Kind.columnField_text hadmits.dataset kind, hvalue⟩

/-- Every row has a cell for each column and none besides. -/
theorem Complete.names_of_mem_shaped (h : q.Complete c kind records) {row : Row}
    (hrow : row ∈ q.shaped kind records) : row.names = q.columns.eraseDups := by
  unfold shaped at hrow
  split at hrow
  · next g hgrouping =>
    obtain ⟨group, hgroup, rfl⟩ := List.mem_map.mp hrow
    refine Row.names_gather fun column hcolumn => ?_
    have hgrouped := h.columns column hcolumn
    simp only [IsColumn, hgrouping] at hgrouped
    exact Row.mem_names_iff.mp (Grouping.mem_names_row hgroup hgrouped)
  · next hgrouping =>
    obtain ⟨r, hr, rfl⟩ := List.mem_map.mp hrow
    refine Row.names_gather fun column hcolumn => ?_
    obtain ⟨key, value, -, hfield, hvalue⟩ := h.exists_value hgrouping hcolumn hr
    rw [hfield, hvalue]
    rfl

/-- Sorting adds no row. -/
theorem mem_shaped_of_mem_rows {row : Row} (h : row ∈ q.rows kind records) :
    row ∈ q.shaped kind records := by
  rw [rows_eq] at h
  split at h
  · exact List.mem_mergeSort.mp h
  · exact h

theorem Complete.names_of_mem_rows (h : q.Complete c kind records) {row : Row}
    (hrow : row ∈ q.rows kind records) : row.names = q.columns.eraseDups :=
  h.names_of_mem_shaped (mem_shaped_of_mem_rows hrow)

/-- No row of an answer has two cells of one name, whatever the query and the records are. -/
theorem nodup_names_of_mem_rows {row : Row} (h : row ∈ q.rows kind records) : row.names.Nodup := by
  have hshaped := mem_shaped_of_mem_rows h
  unfold shaped at hshaped
  split at hshaped
  · obtain ⟨group, -, rfl⟩ := List.mem_map.mp hshaped
    exact Row.nodup_names_gather _ _
  · obtain ⟨r, -, rfl⟩ := List.mem_map.mp hshaped
    exact Row.nodup_names_gather _ _

/-- Without a grouping, each row shows a record, and each record is shown once. -/
theorem Complete.exists_shown (h : q.Complete c kind records) (hgrouping : q.grouping = none) :
    ∃ shown : List Record, shown.Perm records ∧
      List.Forall₂ (Row.Shows · kind q.columns ·) (q.rows kind records) shown := by
  obtain ⟨shown, hperm, hrows⟩ : ∃ shown : List Record, shown.Perm records ∧
      q.rows kind records = shown.map (·.project kind q.columns) := by
    have hshaped : q.shaped kind records = records.map (·.project kind q.columns) := by
      rw [shaped, hgrouping]
    rw [rows_eq, hshaped]
    split
    · next order _ =>
      -- Sorting rows is sorting the records that they show.
      refine ⟨records.mergeSort fun r r' =>
        Row.mayPrecede order (r.project kind q.columns) (r'.project kind q.columns),
        List.mergeSort_perm _ _, ?_⟩
      rw [Order.sort]
      refine (List.map_mergeSort (f := (Row.project · kind q.columns)) ?_).symm
      intro r _ r' _
      rfl
    · exact ⟨records, .refl _, rfl⟩
  refine ⟨shown, hperm, ?_⟩
  rw [hrows, List.forall₂_map_left_iff, List.forall₂_same]
  intro r hr column hcolumn
  obtain ⟨key, value, hkey, hfield, hvalue⟩ :=
    h.exists_value hgrouping hcolumn (hperm.mem_iff.mp hr)
  refine ⟨key, value, hkey, hvalue, ?_⟩
  rw [Row.project, Row.get?_gather hcolumn, hfield, hvalue]

end Query

end Campus
