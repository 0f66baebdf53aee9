import Campus.Proofs.Grouping.Partition
import Campus.Proofs.Query.Acceptance
import Campus.Proofs.Query.Rows

/-!
# Which fields an answer depends on

A query reads the fields that its keys name (`Query.fieldsRead`), and of the other fields of a
record it learns nothing: `Query.run_of_agree` says that records that agree in the fields read give
the same answer, or the same failure. The stages of an answer are shown to read only these fields
one by one: the filter (`Filter.accepts_of_agree`), the groups and their rows
(`Grouping.rows_of_agree`), and the rows of single records (`Row.project_of_agree`). Sorting reads
rows only.

The names that queries use and those that records are stored under are both texts, and a field can
be stored under the name that queries use for another one. So what has to agree is said in stored
names.
-/

namespace Campus

variable {kind : Kind} {r r' : Record} {records records' : List Record}

/-! ### Records that agree -/

/-- In each of the stored fields the records have the same value, or both have none. -/
def Row.AgreesIn (r r' : Record) (fields : List String) : Prop :=
  ∀ field ∈ fields, r.get? field = r'.get? field

section

variable {alike : Record → Record → Prop}

/-- What is made of each record by itself is the same if alike records make the same. -/
theorem map_eq_of_alike {α : Type} {f : Record → α} (hf : ∀ r r', alike r r' → f r = f r')
    (h : List.Forall₂ alike records records') : records.map f = records'.map f := by
  rw [← List.forall₂_eq_eq_eq, List.forall₂_map_left_iff, List.forall₂_map_right_iff]
  exact h.imp hf

theorem filterMap_eq_of_alike {α : Type} {f : Record → Option α}
    (hf : ∀ r r', alike r r' → f r = f r') (h : List.Forall₂ alike records records') :
    records.filterMap f = records'.filterMap f := by
  rw [← Function.id_comp f, ← List.filterMap_map, map_eq_of_alike hf h, List.filterMap_map]

/-- The records that pass a test are alike one by one, if the test does not tell them apart. -/
theorem forall₂_filter_of_alike {p : Record → Bool} (hp : ∀ r r', alike r r' → p r = p r')
    (h : List.Forall₂ alike records records') :
    List.Forall₂ alike (records.filter p) (records'.filter p) :=
  List.rel_filter (fun r r' hr => Bool.eq_iff_iff.mp (hp r r' hr)) h

end

/-! ### Filters -/

namespace Filter

-- The parts of a filter are filters again, so this is one induction over filters and lists of them.
mutual

/-- A filter reads the fields of its keys. -/
theorem accepts_of_agree : ∀ {f : Filter},
    (∀ key ∈ f.keys, r.field? kind key.field = r'.field? kind key.field) →
      accepts kind r f = accepts kind r' f
  | .all, _ => rfl
  | .and _, h => acceptsAll_of_agree h
  | .or _, h => acceptsAny_of_agree h
  | .not _, h => congrArg Bool.not (accepts_of_agree h)
  | .compare _ _ _, h => by
      rw [accepts, accepts, h _ (List.mem_singleton_self _)]
  | .is _ _, h => by
      rw [accepts, accepts, h _ (List.mem_singleton_self _)]

theorem acceptsAll_of_agree : ∀ {parts : List Filter},
    (∀ key ∈ keysAmong parts, r.field? kind key.field = r'.field? kind key.field) →
      acceptsAll kind r parts = acceptsAll kind r' parts
  | [], _ => rfl
  | _ :: _, h => by
      rw [keysAmong, List.forall_mem_append] at h
      rw [acceptsAll, acceptsAll, accepts_of_agree h.1, acceptsAll_of_agree h.2]

theorem acceptsAny_of_agree : ∀ {parts : List Filter},
    (∀ key ∈ keysAmong parts, r.field? kind key.field = r'.field? kind key.field) →
      acceptsAny kind r parts = acceptsAny kind r' parts
  | [], _ => rfl
  | _ :: _, h => by
      rw [keysAmong, List.forall_mem_append] at h
      rw [acceptsAny, acceptsAny, accepts_of_agree h.1, acceptsAny_of_agree h.2]

end

end Filter

/-! ### Groups -/

/-- A rule computes the same of groups whose members agree in its field. -/
theorem ApplyRule.value_of_agree {rule : ApplyRule} {alike : Record → Record → Prop}
    (hkey : ∀ r r' : Record, alike r r' →
      r.field? kind rule.key.field = r'.field? kind rule.key.field)
    (h : List.Forall₂ alike records records') :
    rule.value kind records = rule.value kind records' := by
  rw [value, value, filterMap_eq_of_alike hkey h]

/-- A grouping reads the fields of its keys and of the keys of its rules. -/
theorem Grouping.rows_of_agree {g : Grouping} {alike : Record → Record → Prop}
    (hkeys : ∀ r r' : Record, alike r r' →
      ∀ key ∈ g.allKeys, r.field? kind key.field = r'.field? kind key.field)
    (h : List.Forall₂ alike records records') (columns : List String) :
    g.rows kind columns records = g.rows kind columns records' := by
  let values (r : Record) : List Scalar := g.keys.map (r.groupValue kind)
  have hvalues : ∀ r r', alike r r' → values r = values r' := by
    intro r r' hr
    refine List.map_congr_left fun key hkey => ?_
    rw [Row.groupValue, Row.groupValue, hkeys r r' hr key (List.mem_append_left _ hkey)]
  have htuples : tuplesOf values records = tuplesOf values records' := by
    rw [tuplesOf, tuplesOf, map_eq_of_alike hvalues h]
  rw [rows, rows, groups, groups, groupsOf_eq, groupsOf_eq, htuples, List.map_map, List.map_map]
  -- The groups of one tuple have members that are alike, so the rules compute the same of them.
  refine List.map_congr_left fun tuple _ => ?_
  have hmembers : List.Forall₂ alike (membersOf values records tuple)
      (membersOf values records' tuple) :=
    forall₂_filter_of_alike (fun r r' hr => by rw [hvalues r r' hr]) h
  have hrules : (g.rules.map fun rule =>
        (rule.name, rule.value kind (membersOf values records tuple))) =
      g.rules.map fun rule =>
        (rule.name, rule.value kind (membersOf values records' tuple)) := by
    refine List.map_congr_left fun rule hrule => ?_
    rw [ApplyRule.value_of_agree (fun r r' hr => hkeys r r' hr rule.key
      (List.mem_append_right _ (List.mem_map_of_mem hrule))) hmembers]
  rw [Function.comp_apply, Function.comp_apply, row, row, hrules]

/-! ### Queries -/

/-- The row of a record shows the fields of its columns. -/
theorem Row.project_of_agree {columns : List String}
    (h : ∀ column ∈ columns, r.get? (kind.columnField column) = r'.get? (kind.columnField column)) :
    r.project kind columns = r'.project kind columns := by
  rw [project, project, gather, gather]
  congr 1
  refine List.filterMap_congr fun column hcolumn => ?_
  rw [h column (List.mem_eraseDups.mp hcolumn)]

namespace Query

variable {c : Catalog} {q : Query} {value : Json} {source source' : Source}

/-- The keys by which a query reads records: those of the filter, and those of the grouping or
else of the columns. -/
def keysRead (q : Query) : List Key :=
  q.filter.keys ++
    match q.grouping with
    | some g => g.allKeys
    | none => q.columns.filterMap Key.ofText?

/-- The stored names of the fields that a query reads. -/
def fieldsRead (q : Query) (kind : Kind) : List String :=
  q.keysRead.map fun key => kind.storedName key.field

theorem field?_of_agreesIn {key : Key} (h : r.AgreesIn r' (q.fieldsRead kind))
    (hkey : key ∈ q.keysRead) : r.field? kind key.field = r'.field? kind key.field :=
  h _ (List.mem_map_of_mem hkey)

/-- Without a grouping, what stands under a column is read by a key. -/
theorem columnField_mem_fieldsRead (h : ofJson c value = .ok q) (hgrouping : q.grouping = none)
    {column : String} (hcolumn : column ∈ q.columns) :
    kind.columnField column ∈ q.fieldsRead kind := by
  obtain ⟨members, options, rfl, hread⟩ := exists_readFrom_of_ofJson h
  have hkey := hread.columns column hcolumn
  simp only [IsColumn, hgrouping] at hkey
  obtain ⟨key, hadmits, -, rfl⟩ := hkey
  rw [Kind.columnField_text hadmits.dataset, fieldsRead, keysRead, hgrouping]
  refine List.mem_map.mpr ⟨key, List.mem_append_right _ ?_, rfl⟩
  exact List.mem_filterMap.mpr ⟨_, hcolumn,
    Key.ofText?_eq_some_iff.mpr ⟨rfl, hadmits.dataset, hadmits.field⟩⟩

theorem shaped_of_agree (h : ofJson c value = .ok q)
    (hagree : List.Forall₂ (Row.AgreesIn · · (q.fieldsRead kind)) records records') :
    q.shaped kind records = q.shaped kind records' := by
  unfold shaped
  split
  · next g hgrouping =>
    refine Grouping.rows_of_agree (fun r r' hr key hkey => ?_) hagree q.columns
    refine field?_of_agreesIn hr (List.mem_append_right _ ?_)
    rw [hgrouping]
    exact hkey
  · next hgrouping =>
    refine map_eq_of_alike (fun r r' hr => ?_) hagree
    exact Row.project_of_agree fun column hcolumn =>
      hr _ (columnField_mem_fieldsRead h hgrouping hcolumn)

theorem found_of_agree
    (hagree : List.Forall₂ (Row.AgreesIn · · (q.fieldsRead kind)) records records') :
    List.Forall₂ (Row.AgreesIn · · (q.fieldsRead kind)) (q.found kind records)
      (q.found kind records') :=
  forall₂_filter_of_alike (fun _ _ hr => Filter.accepts_of_agree fun _ hkey =>
    field?_of_agreesIn hr (List.mem_append_left _ hkey)) hagree

theorem reference_of_agree (h : ofJson c value = .ok q) (limit : Nat)
    (hagree : List.Forall₂ (Row.AgreesIn · · (q.fieldsRead kind)) records records') :
    q.reference kind limit records = q.reference kind limit records' := by
  have hfound := found_of_agree hagree
  rw [reference, reference, shaped_of_agree h hfound, hfound.length_eq, hagree.length_eq]

/-- A query that is read from JSON comes to the same on two datasets of a kind whose records agree,
one by one, in the fields that the query reads: the same rows of as many matches, or the same
failure. -/
theorem run_of_agree (h : ofJson c value = .ok q) (hkind : source.kindOf? q.dataset = some kind)
    (hkind' : source'.kindOf? q.dataset = some kind) (hvisits : source.Visits q.dataset records)
    (hvisits' : source'.Visits q.dataset records')
    (hagree : List.Forall₂ (Row.AgreesIn · · (q.fieldsRead kind)) records records')
    (limit : Nat) :
    (q.run source limit).1.map (fun a => (a.matched, a.scanned, a.rows)) =
      (q.run source' limit).1.map (fun a => (a.matched, a.scanned, a.rows)) := by
  obtain ⟨batches, hbatches, rfl⟩ := hvisits
  obtain ⟨batches', hbatches', rfl⟩ := hvisits'
  rw [run_of_batches hkind hbatches, run_of_batches hkind' hbatches',
    reference_of_agree h limit hagree]

/-- A section of one course, stored with the text under `id`. -/
def sectionWith (id : String) : Record :=
  ⟨[("Subject", .text "cpsc"), ("Course", .text "310"), ("id", .text id)]⟩

/-- A dataset in memory of one section. -/
def sectionSource (id : String) : Source :=
  (Memory.empty.insert "sections" .courses [sectionWith id]).source

/-- A query for the courses of a department, by the field that queries call `id`. -/
def coursesQuery : Json :=
  .object
    [("WHERE", .object [("IS", .object [("sections_dept", .string "cpsc")])]),
      ("OPTIONS", .object [("COLUMNS", .array [.string "sections_id"])])]

/-- The field that queries call `id` is not the one stored as `id`: sections that differ in that
one show the same course. -/
theorem run_coursesQuery : ∃ q, ofJson sectionsAndHalls coursesQuery = .ok q ∧
    q.fieldsRead .courses = ["Subject", "Course"] ∧
    (sectionWith "1").get? "id" ≠ (sectionWith "2").get? "id" ∧
    (q.run (sectionSource "1") 1).1.map (fun a => (a.matched, a.scanned, a.rows)) =
      (q.run (sectionSource "2") 1).1.map (fun a => (a.matched, a.scanned, a.rows)) := by
  have hread : (ofJson sectionsAndHalls coursesQuery).toOption.map (fun q =>
      (q.dataset, q.fieldsRead .courses)) = some ("sections", ["Subject", "Course"]) := by
    decide +kernel
  cases hquery : ofJson sectionsAndHalls coursesQuery with
  | error e =>
      rw [hquery] at hread
      cases hread
  | ok q =>
      rw [hquery] at hread
      obtain ⟨hdataset, hfields⟩ := Prod.mk.inj (Option.some.inj hread)
      have hholds (id : String) : (sectionSource id).Holds q.dataset .courses [sectionWith id] := by
        rw [hdataset]
        exact .memory rfl
      have hagree : (sectionWith "1").AgreesIn (sectionWith "2") (q.fieldsRead .courses) := by
        rw [hfields]
        simp [Row.AgreesIn, sectionWith, Row.get?, List.lookup_cons]
      exact ⟨q, rfl, hfields, by simp [sectionWith, Row.get?, List.lookup_cons],
        run_of_agree hquery (hholds "1").kindOf?_eq (hholds "2").kindOf?_eq
          (hholds "1").exists_batches (hholds "2").exists_batches (.cons hagree .nil) 1⟩

end Query

end Campus
