import Campus.Proofs.Assoc
import Campus.Scan

/-!
# Which stored values are records

An object is a record if all fields of the kind can be read (`isRecord_object`). A record that a
stored value holds has the fields of its kind (`Record.names_of_ofStored`), each with what was read
for it, but for the year of an overall section (`Record.get?_of_ofStored`). So it has numbers in the
numeric fields (`Record.IsStored.exists_number`).
-/

namespace Campus

variable {kind : Kind} {members : List (String × Json)} {stored : Json}

/-- The record that a stored value holds, if it holds one. -/
def Record.ofStored? (kind : Kind) (stored : Json) : Option Record :=
  Entry.record? (Record.ofStored kind stored)

/-- Whether a stored value is a record. -/
def isRecord (kind : Kind) (stored : Json) : Bool :=
  (Entry.record? (Record.ofStored kind stored)).isSome

/-- Whether a field can be read. -/
def Field.isReadable (f : Field) (members : List (String × Json)) : Bool :=
  (Json.member? members f.stored).any fun stored => (f.fieldClass.usable? stored).isSome

theorem Field.read_isOk (f : Field) (members : List (String × Json)) :
    (f.read members).isOk = f.isReadable members := by
  unfold Field.read Field.isReadable
  cases Json.member? members f.stored with
  | none => rfl
  | some stored =>
      dsimp only
      cases hvalue : f.fieldClass.usable? stored <;> simp [hvalue, Except.isOk, Except.toBool]

theorem Field.read_eq_ok_iff {f : Field} {value : Scalar} :
    f.read members = .ok value ↔
      ∃ given, Json.member? members f.stored = some given ∧
        f.fieldClass.usable? given = some value := by
  unfold Field.read
  cases Json.member? members f.stored with
  | none => simp
  | some given =>
      dsimp only
      cases husable : f.fieldClass.usable? given <;> simp [husable]

theorem Record.readCells_isOk (members : List (String × Json)) (fields : List Field) :
    (readCells members fields).isOk = fields.all (·.isReadable members) := by
  induction fields with
  | nil => rfl
  | cons f fields ih =>
      rw [List.all_cons, ← Field.read_isOk, ← ih, readCells]
      cases f.read members with
      | error e => rfl
      | ok value => cases readCells members fields <;> rfl

/-- An object is a record if all fields of the kind can be read. -/
theorem isRecord_object (kind : Kind) (members : List (String × Json)) :
    isRecord kind (.object members) = kind.fields.all (·.isReadable members) := by
  rw [← Record.readCells_isOk, isRecord, Record.ofStored]
  cases Record.readCells members kind.fields <;> rfl

theorem isRecord_eq_false (h : stored.shape ≠ .object) : isRecord kind stored = false := by
  cases stored with
  | object members => exact absurd rfl h
  | null | bool b | number n | string s | array items => rfl

/-! ### The fields of a record -/

/-- Some stored value holds the record. -/
def Record.IsStored (kind : Kind) (r : Record) : Prop :=
  ∃ stored, Record.ofStored kind stored = .ok r

theorem Record.ofStored?_eq_some_iff {r : Record} :
    Record.ofStored? kind stored = some r ↔ Record.ofStored kind stored = .ok r := by
  unfold Record.ofStored?
  cases Record.ofStored kind stored <;> simp [Entry.record?]

/-- A field is read before the fields after it. -/
theorem Record.readCells_cons_eq_ok_iff {f : Field} {fields : List Field}
    {cells : List (String × Scalar)} : readCells members (f :: fields) = .ok cells ↔
      ∃ value rest, f.read members = .ok value ∧ readCells members fields = .ok rest ∧
        cells = (f.stored, value) :: rest := by
  rw [readCells]
  cases f.read members with
  | error e => simp
  | ok value => cases readCells members fields <;> simp [Except.map, eq_comm]

theorem Record.names_readCells {fields : List Field} {cells : List (String × Scalar)}
    (h : readCells members fields = .ok cells) : Assoc.names cells = fields.map (·.stored) := by
  induction fields generalizing cells with
  | nil =>
      cases h
      rfl
  | cons f fields ih =>
      obtain ⟨value, rest, -, hrest, rfl⟩ := readCells_cons_eq_ok_iff.mp h
      rw [Assoc.names_cons, ih hrest, List.map_cons]

/-- A cell that is read holds what its field gave. -/
theorem Record.exists_field_of_mem_readCells {fields : List Field}
    {cells : List (String × Scalar)} (h : readCells members fields = .ok cells) {name : String}
    {value : Scalar} (hcell : (name, value) ∈ cells) :
    ∃ f ∈ fields, f.stored = name ∧ f.read members = .ok value := by
  induction fields generalizing cells with
  | nil =>
      cases h
      cases hcell
  | cons f fields ih =>
      obtain ⟨first, rest, hfirst, hrest, rfl⟩ := readCells_cons_eq_ok_iff.mp h
      rcases List.mem_cons.mp hcell with heq | hcell
      · cases heq
        exact ⟨f, List.mem_cons_self, rfl, hfirst⟩
      · obtain ⟨f', hf', hname, hread⟩ := ih hrest hcell
        exact ⟨f', List.mem_cons_of_mem _ hf', hname, hread⟩

theorem FieldClass.exists_number_of_usable? {value : Scalar}
    (h : FieldClass.numeric.usable? stored = some value) : ∃ x, value = .number x := by
  obtain ⟨x, -, rfl⟩ := Option.map_eq_some_iff.mp h
  exact ⟨x, rfl⟩

theorem Kind.stored_nodup (kind : Kind) : (kind.fields.map (·.stored)).Nodup := by
  cases kind <;> decide

theorem Kind.field_eq_of_stored_eq {f f' : Field} (hf : f ∈ kind.fields) (hf' : f' ∈ kind.fields)
    (h : f.stored = f'.stored) : f = f' :=
  List.inj_on_of_nodup_map kind.stored_nodup hf hf' h

namespace Record

variable {r : Record} {f : Field}

/-- Every field has been read, and what was read stands in its cell. -/
theorem exists_read_of_readCells {cells : List (String × Scalar)}
    (h : readCells members kind.fields = .ok cells) (hf : f ∈ kind.fields) :
    ∃ value, f.read members = .ok value ∧ cells.lookup f.stored = some value := by
  have hmem : f.stored ∈ Assoc.names cells := by
    rw [names_readCells h]
    exact List.mem_map_of_mem hf
  obtain ⟨value, hlookup⟩ := Option.isSome_iff_exists.mp (Assoc.lookup_isSome.mpr hmem)
  obtain ⟨f', hf', hname, hread⟩ := exists_field_of_mem_readCells h (Assoc.mem_of_lookup hlookup)
  obtain rfl := Kind.field_eq_of_stored_eq hf' hf hname
  exact ⟨value, hread, hlookup⟩

theorem isOverall_iff : isOverall kind members = true ↔
    kind = .courses ∧ Json.member? members "Section" = some (.string "overall") := by
  unfold isOverall
  rw [Bool.and_eq_true, decide_eq_true_iff]
  refine and_congr_right fun _ => ?_
  show _ ↔ Json.member? members sectionMember = some (.string overallSection)
  cases Json.member? members sectionMember with
  | none => simp
  | some given => cases given <;> simp

/-- A record has the cells that were read, with another year if it is an overall section. -/
theorem exists_cells_of_ofStored (h : ofStored kind stored = .ok r) :
    ∃ members cells, stored = .object members ∧ readCells members kind.fields = .ok cells ∧
      r = if isOverall kind members then Row.set ⟨cells⟩ "Year" (.number overallYear)
        else ⟨cells⟩ := by
  cases stored with
  | object members =>
      rw [ofStored] at h
      cases hcells : readCells members kind.fields with
      | error e => simp [hcells, Except.map] at h
      | ok cells =>
          rw [hcells] at h
          cases h
          exact ⟨members, cells, rfl, hcells, rfl⟩
  | null | bool b | number n | string s | array items => cases h

/-- The record holds what was given for its fields, but for the year of an overall section. -/
theorem get?_of_ofStored (h : ofStored kind (.object members) = .ok r) (hf : f ∈ kind.fields) :
    ∃ value, f.read members = .ok value ∧ r.get? f.stored =
      some (if isOverall kind members = true ∧ f.stored = "Year" then .number overallYear
        else value) := by
  obtain ⟨_, cells, hstored, hcells, rfl⟩ := exists_cells_of_ofStored h
  cases hstored
  obtain ⟨value, hvalue, hlookup⟩ := exists_read_of_readCells hcells hf
  refine ⟨value, hvalue, ?_⟩
  by_cases hoverall : isOverall kind members = true
  · rw [if_pos hoverall]
    by_cases hyear : f.stored = "Year"
    · rw [if_pos ⟨hoverall, hyear⟩, hyear]
      exact Assoc.lookup_put_self _ _ _
    · rw [if_neg fun h => hyear h.2, ← hlookup]
      exact Assoc.lookup_put_of_ne hyear _ _
  · rw [if_neg hoverall, if_neg fun h => hoverall h.1]
    exact hlookup

/-- The record has the fields of its kind and no others. -/
theorem names_of_ofStored (h : ofStored kind stored = .ok r) :
    r.names = kind.fields.map (·.stored) := by
  obtain ⟨members, cells, -, hcells, rfl⟩ := exists_cells_of_ofStored h
  have hnames := names_readCells hcells
  split
  · next hoverall =>
    obtain ⟨rfl, -⟩ := isOverall_iff.mp hoverall
    -- The year has a cell already.
    have hyear : "Year" ∈ Assoc.names cells := by
      rw [hnames]
      decide
    rw [Row.names, Row.set, Assoc.names_put, if_pos hyear, hnames]
  · exact hnames

/-- A record has all fields of its kind. -/
theorem IsStored.mem_names (h : IsStored kind r) (hf : f ∈ kind.fields) : f.stored ∈ r.names := by
  obtain ⟨stored, hstored⟩ := h
  rw [names_of_ofStored hstored]
  exact List.mem_map_of_mem hf

/-- A numeric field of a record holds a number. -/
theorem IsStored.exists_number (h : IsStored kind r) (hf : f ∈ kind.fields)
    (hclass : f.fieldClass = .numeric) : ∃ x, r.get? f.stored = some (.number x) := by
  obtain ⟨stored, hstored⟩ := h
  obtain ⟨members, cells, rfl, -, -⟩ := exists_cells_of_ofStored hstored
  obtain ⟨value, hvalue, hget⟩ := get?_of_ofStored hstored hf
  rw [hget]
  split
  · exact ⟨overallYear, rfl⟩
  · obtain ⟨given, -, husable⟩ := Field.read_eq_ok_iff.mp hvalue
    rw [hclass] at husable
    obtain ⟨x, rfl⟩ := FieldClass.exists_number_of_usable? husable
    exact ⟨x, rfl⟩

end Record

end Campus
