import Campus.Proofs.Record
import Campus.Proofs.Scalar.Numbers

/-!
# Records are normal

A record has exactly the fields of its kind, with a text in each text field and a finite number in
each numeric one (`Record.IsNormal`). Written as a JSON object and read again it is the same record
(`Record.IsNormal.exists_reread`): a text is read as itself, and a number as an equal one, whether
it is written as an integer or not. An overall section is no overall section any more then, since
only the fields are written; but its year is one of them.
-/

namespace Campus

variable {kind : Kind} {members : List (String × Json)} {stored : Json} {r : Record} {f : Field}

/-! ### Values of a class -/

/-- The value is one of the class. Numbers are finite. -/
def Scalar.IsOf (v : Scalar) : FieldClass → Prop
  | .text => ∃ s, v = .text s
  | .numeric => ∃ x, v = .number x ∧ x.isFinite = true

theorem Number.isFinite_of_looseFloat? {cs : List Char} {x : Float} (h : looseFloat? cs = some x) :
    x.isFinite = true := by
  simp only [looseFloat?, Option.bind_eq_bind, Option.bind_eq_some_iff, Option.guard_eq_some',
    Option.pure_def, Option.some.injEq] at h
  obtain ⟨numeral, -, -, -, -, hfinite, rfl⟩ := h
  exact hfinite

/-- What is usable for a class is of that class. -/
theorem FieldClass.isOf_of_usable? {c : FieldClass} {value : Scalar} (hfit : stored.NumbersFit)
    (h : c.usable? stored = some value) : value.IsOf c := by
  cases c with
  | text =>
      obtain ⟨s, -, rfl⟩ := Option.map_eq_some_iff.mp h
      exact ⟨s, rfl⟩
  | numeric =>
      obtain ⟨x, hx, rfl⟩ := Option.map_eq_some_iff.mp h
      refine ⟨x, rfl, ?_⟩
      cases stored with
      | number n =>
          obtain rfl := Option.some.inj hx
          exact Json.Num.Fits.isFinite hfit
      | string s => exact Number.isFinite_of_looseFloat? hx
      | null | bool b | array items | object members => cases hx

/-- A value of a class is usable for it after it was written as JSON, as the same value. -/
theorem Scalar.IsOf.exists_usable? {v : Scalar} {c : FieldClass} (h : v.IsOf c) :
    ∃ value, c.usable? v.toJson = some value ∧ (value == v) = true := by
  cases c with
  | text =>
      obtain ⟨s, rfl⟩ := h
      exact ⟨.text s, rfl, BEq.rfl⟩
  | numeric =>
      obtain ⟨x, rfl, hx⟩ := h
      have hshown : (Scalar.number x).ShownAs (numberToJson x) := shownAs_numberToJson hx
      have hfit : (numberToJson x).NumbersFit := numbersFit_toJson (.number x)
      rw [toJson]
      cases hjson : numberToJson x with
      | number n =>
          rw [hjson] at hshown hfit
          cases hshown with
          | number equal _ =>
              exact ⟨.number n.toFloat, rfl, beq_of_beq (Json.Num.Fits.isFinite hfit) hx equal⟩
      | null | bool b | string s | array items | object members =>
          rw [hjson] at hshown
          cases hshown

/-! ### The fields of a record -/

namespace Record

/-- The record has exactly the fields of the kind, each with a value of its class. -/
structure IsNormal (kind : Kind) (r : Record) : Prop where
  names : r.names = kind.fields.map (·.stored)
  values : ∀ f ∈ kind.fields, ∃ v, r.get? f.stored = some v ∧ v.IsOf f.fieldClass

theorem isNormal_of_ofStored (hfit : stored.NumbersFit) (h : ofStored kind stored = .ok r) :
    IsNormal kind r := by
  refine ⟨names_of_ofStored h, fun f hf => ?_⟩
  obtain ⟨members, cells, rfl, -, -⟩ := exists_cells_of_ofStored h
  obtain ⟨value, hvalue, hget⟩ := get?_of_ofStored h hf
  refine ⟨_, hget, ?_⟩
  split
  · next hoverall =>
    obtain ⟨rfl, -⟩ := isOverall_iff.mp hoverall.1
    have hclass : f.fieldClass = .numeric := by
      have hyear : ∀ f ∈ Kind.courses.fields, f.stored = "Year" → f.fieldClass = .numeric := by
        decide
      exact hyear f hf hoverall.2
    rw [hclass]
    exact ⟨overallYear, rfl, by decide +kernel⟩
  · obtain ⟨given, hgiven, husable⟩ := Field.read_eq_ok_iff.mp hvalue
    exact FieldClass.isOf_of_usable?
      (Json.numbersFitMembers_iff.mp hfit _ (Assoc.mem_of_lookup hgiven)) husable

/-! ### Writing a record and reading it again -/

/-- The records have the same fields, with the same value in each. -/
def Same (r r' : Record) : Prop := ∀ name, (r.get? name == r'.get? name) = true

/-- The members are the fields of the record as JSON, in some order. -/
def IsWritten (members : List (String × Json)) (r : Record) : Prop :=
  members.Perm (r.cells.map fun cell => (cell.1, cell.2.toJson))

theorem IsNormal.member?_eq (h : IsNormal kind r) (hwritten : IsWritten members r)
    (name : String) : Json.member? members name = (r.get? name).map Scalar.toJson := by
  have hnodup : (Assoc.names (r.cells.map fun cell => (cell.1, cell.2.toJson))).Nodup := by
    rw [Assoc.names_map_snd Scalar.toJson, ← Row.names, h.names]
    exact kind.stored_nodup
  rw [Json.member?, ← Assoc.lookup_eq_of_perm hnodup hwritten.symm, Assoc.lookup_map_snd, Row.get?]

/-- Each field is read again as the same value. -/
theorem IsNormal.exists_read (h : IsNormal kind r) (hwritten : IsWritten members r)
    (hf : f ∈ kind.fields) : ∃ v value, r.get? f.stored = some v ∧
      f.read members = .ok value ∧ (value == v) = true := by
  obtain ⟨v, hv, hclass⟩ := h.values f hf
  obtain ⟨value, husable, hsame⟩ := hclass.exists_usable?
  refine ⟨v, value, hv, Field.read_eq_ok_iff.mpr ⟨v.toJson, ?_, husable⟩, hsame⟩
  rw [h.member?_eq hwritten, hv, Option.map_some]

/-- The section is no field, so what was an overall section is none when it is read again. -/
theorem IsNormal.not_isOverall (h : IsNormal kind r) (hwritten : IsWritten members r) :
    ¬ isOverall kind members = true := by
  rw [isOverall_iff, h.member?_eq hwritten]
  rintro ⟨-, hsection⟩
  obtain ⟨v, hv, -⟩ := Option.map_eq_some_iff.mp hsection
  have hmem : "Section" ∈ r.names := Assoc.lookup_isSome.mp (by rw [← Row.get?, hv]; rfl)
  rw [h.names] at hmem
  cases kind <;> exact absurd hmem (by decide)

/-- A record is read again as the same one, in whatever order its fields are written. -/
theorem IsNormal.exists_reread (h : IsNormal kind r) (hwritten : IsWritten members r) :
    ∃ r', ofStored kind (.object members) = .ok r' ∧ Same r' r := by
  obtain ⟨r', hr'⟩ : ∃ r', ofStored kind (.object members) = .ok r' := by
    have hall : kind.fields.all (·.isReadable members) = true := by
      refine List.all_eq_true.mpr fun f hf => ?_
      obtain ⟨v, value, -, hvalue, -⟩ := h.exists_read hwritten hf
      rw [← Field.read_isOk, hvalue]
      rfl
    rw [← isRecord_object, isRecord, ← ofStored?, Option.isSome_iff_exists] at hall
    simpa only [ofStored?_eq_some_iff] using hall
  refine ⟨r', hr', fun name => ?_⟩
  have hnames : r'.names = r.names := (names_of_ofStored hr').trans h.names.symm
  by_cases hname : name ∈ r.names
  · rw [h.names] at hname
    obtain ⟨f, hf, rfl⟩ := List.mem_map.mp hname
    obtain ⟨v, value, hv, hvalue, hsame⟩ := h.exists_read hwritten hf
    obtain ⟨value', hvalue', hget⟩ := get?_of_ofStored hr' hf
    obtain rfl : value = value' := Except.ok.inj (hvalue.symm.trans hvalue')
    rw [if_neg fun hoverall => h.not_isOverall hwritten hoverall.1] at hget
    rw [hget, hv]
    exact hsame
  · have hnone : r.get? name = none := Assoc.lookup_eq_none.mpr hname
    have hnone' : r'.get? name = none := Assoc.lookup_eq_none.mpr (by rwa [← Row.names, hnames])
    rw [hnone, hnone']
    rfl

/-- A stored value is normalized to a record with exactly the fields of its kind, texts and finite
numbers. Each field holds what was given for it, which has to be usable in any case, but the year of
an overall section is 1900. Written as JSON and normalized again it is the same record. -/
theorem normal_of_ofStored (hfit : stored.NumbersFit) (h : ofStored kind stored = .ok r) :
    r.names = kind.fields.map (·.stored) ∧
      (∀ f ∈ kind.fields, ∃ v, r.get? f.stored = some v ∧ v.IsOf f.fieldClass) ∧
      (∃ members, stored = .object members ∧ ∀ f ∈ kind.fields, ∃ given value,
        Json.member? members f.stored = some given ∧ f.fieldClass.usable? given = some value ∧
          ((kind = .courses ∧ Json.member? members "Section" = some (.string "overall") ∧
              f.stored = "Year") ∧ r.get? f.stored = some (.number 1900) ∨
            ¬ (kind = .courses ∧ Json.member? members "Section" = some (.string "overall") ∧
              f.stored = "Year") ∧ r.get? f.stored = some value)) ∧
      ∀ members, IsWritten members r →
        ∃ r', ofStored kind (.object members) = .ok r' ∧ Same r' r := by
  have hnormal : IsNormal kind r := isNormal_of_ofStored hfit h
  refine ⟨hnormal.names, hnormal.values, ?_, fun members => hnormal.exists_reread⟩
  obtain ⟨members, -, rfl, -, -⟩ := exists_cells_of_ofStored h
  refine ⟨members, rfl, fun f hf => ?_⟩
  obtain ⟨value, hvalue, hget⟩ := get?_of_ofStored h hf
  obtain ⟨given, hgiven, husable⟩ := Field.read_eq_ok_iff.mp hvalue
  refine ⟨given, value, hgiven, husable, ?_⟩
  have hiff : isOverall kind members = true ∧ f.stored = "Year" ↔
      kind = .courses ∧ Json.member? members "Section" = some (.string "overall") ∧
        f.stored = "Year" := by
    rw [isOverall_iff, and_assoc]
  by_cases hyear : isOverall kind members = true ∧ f.stored = "Year"
  · rw [if_pos hyear] at hget
    exact .inl ⟨hiff.mp hyear, hget⟩
  · rw [if_neg hyear] at hget
    exact .inr ⟨mt hiff.mpr hyear, hget⟩

/-- An overall section as it may be stored, with numbers for texts and texts for numbers. -/
def sampleOverall : Json :=
  .object [("Section", .string "overall"), ("Subject", .string "math"),
    ("Course", .number (.integer 221)), ("Professor", .string ""), ("Title", .string "algebra"),
    ("id", .number (.real 7.5)), ("Avg", .string " 81.5 "), ("Pass", .string "4e1"),
    ("Fail", .number (.real (-0))), ("Audit", .number (.integer 0)), ("Year", .string "2015"),
    ("Campus", .null)]

theorem numbersFit_sampleOverall : sampleOverall.NumbersFit := by
  simp only [sampleOverall, Json.NumbersFit, Json.NumbersFitMembers, Json.Num.Fits, true_and,
    and_true]
  decide +kernel

/-- The section is dated anew, and what it is then stored as is the same section. -/
theorem normal_of_ofStored_overall : ∃ r, ofStored .courses sampleOverall = .ok r ∧
    r.get? "Year" = some (.number 1900) ∧
      ∃ r', ofStored .courses r.toJson = .ok r' ∧ Same r' r := by
  obtain ⟨r, hr⟩ : ∃ r, ofStored? .courses sampleOverall = some r := by
    rw [← Option.isSome_iff_exists]
    decide +kernel
  rw [ofStored?_eq_some_iff] at hr
  obtain ⟨-, -, ⟨members, hmembers, hfields⟩, hreread⟩ :=
    normal_of_ofStored numbersFit_sampleOverall hr
  obtain rfl := Json.object.inj hmembers
  refine ⟨r, hr, ?_, hreread _ (.refl _)⟩
  obtain ⟨-, -, -, -, ⟨-, hyear⟩ | ⟨hplain, -⟩⟩ :=
    hfields ⟨"year", "Year", .numeric⟩ (by decide)
  · exact hyear
  · exact absurd ⟨rfl, rfl, rfl⟩ hplain

end Record

end Campus
