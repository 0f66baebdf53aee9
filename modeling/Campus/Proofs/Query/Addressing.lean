import Campus.Proofs.Grouping.Answer
import Campus.Proofs.Registry.Change

/-!
# Keys of registered datasets

The rule for ids, the way in which keys are taken apart and the tables of fields fit together. An id
has no separator in it (`isKeyPart_of_isValidId`), and neither has the name of a field
(`Kind.isKeyPart_name`), so every field of a dataset that can be registered has a key, and the key
stands for this field and no other (`Catalog.resolve?_fieldKey_iff`).

A key is written as the text that it was read from. That is why a column finds the cell of a group
key, which is named by the key as it is written (`Grouping.get?_row_of_key`).
-/

namespace Campus

variable {c : Catalog} {kind : Kind}

/-! ### Fields -/

theorem Kind.isKeyPart_name {f : Field} (hf : f ∈ kind.fields) : IsKeyPart f.name := by
  have hall : ∀ f ∈ kind.fields, IsKeyPart f.name := by cases kind <;> decide
  exact hall f hf

/-- The class that asks for fields of this class and for no others. -/
def FieldClass.asked : FieldClass → KeyClass
  | .text => .text
  | .numeric => .numeric

theorem KeyClass.admits_iff {wanted : KeyClass} {found : FieldClass} :
    wanted.admits found = true ↔ wanted = found.asked ∨ wanted = .any := by
  cases wanted <;> cases found <;> decide

/-- The key of a field of a registered dataset stands where its class is asked for, and where any
class will do. -/
theorem Catalog.resolve?_fieldKey_iff {id : String} {f : Field} {wanted : KeyClass} {key : Key}
    (hid : isValidId id = true) (hkind : c.kindOf? id = some kind) (hf : f ∈ kind.fields) :
    c.resolve? (Key.text ⟨id, f.name⟩) wanted = some key ↔
      key = ⟨id, f.name⟩ ∧ (wanted = f.fieldClass.asked ∨ wanted = .any) := by
  have hparts : IsKeyPart id ∧ IsKeyPart f.name :=
    ⟨isKeyPart_of_isValidId hid, Kind.isKeyPart_name hf⟩
  rw [resolve?_eq_some_iff, ← KeyClass.admits_iff]
  constructor
  · intro h
    obtain ⟨htext, hadmits⟩ := h
    obtain rfl : key = ⟨id, f.name⟩ :=
      Key.text_inj ⟨hadmits.dataset, hadmits.field⟩ hparts htext.symm
    obtain ⟨kind', f', hkind', hf', hname, hclass⟩ := hadmits.named
    obtain rfl : kind = kind' := Option.some.inj (hkind.symm.trans hkind')
    obtain rfl : f' = f := List.inj_on_of_nodup_map kind.fieldNames_nodup hf' hf hname
    exact ⟨rfl, hclass⟩
  · intro h
    obtain ⟨rfl, hclass⟩ := h
    exact ⟨rfl, hparts.1, hparts.2, kind, f, hkind, hf, rfl, hclass⟩

/-! ### Cells of groups -/

/-- The cell of a group key is found under the text of the key, unless a rule has taken this name
for a cell of its own. -/
theorem Grouping.get?_row_of_key {g : Grouping} {records : List Record} {group : Group} {key : Key}
    (hparts : ∀ other ∈ g.keys, IsKeyPart other.dataset ∧ IsKeyPart other.field)
    (hgroup : group ∈ g.groups kind records) (hkey : key ∈ g.keys)
    (hplain : ∀ rule ∈ g.rules, rule.name ≠ key.text) :
    ∃ first ∈ group.members.head?,
      (g.row kind group).get? key.text = some (first.groupValue kind key) := by
  rw [groups, groupsOf_eq] at hgroup
  obtain ⟨tuple, htuple, rfl⟩ := List.mem_map.mp hgroup
  obtain ⟨first, hfirst, rfl⟩ := exists_head?_membersOf htuple
  refine ⟨first, hfirst, ?_⟩
  generalize membersOf _ records _ = members
  have hrules : (g.rules.map fun rule =>
      (rule.name, rule.value kind members)).reverse.lookup key.text = none := by
    rw [Assoc.lookup_eq_none]
    simpa [Assoc.names] using hplain
  have hsome : ((g.keys.map fun other =>
      (other.text, first.groupValue kind other)).reverse.lookup key.text).isSome = true := by
    rw [Assoc.lookup_isSome]
    simpa [Assoc.names] using ⟨key, hkey, rfl⟩
  obtain ⟨value, hvalue⟩ := Option.isSome_iff_exists.mp hsome
  obtain ⟨other, hother, heq⟩ :=
    List.mem_map.mp (List.mem_reverse.mp (Assoc.mem_of_lookup hvalue))
  obtain ⟨htext, rfl⟩ := Prod.mk.inj heq
  obtain rfl : other = key := Key.text_inj (hparts other hother) (hparts key hkey) htext
  rw [get?_row, hrules, hvalue, Option.none_or]

/-! ### Keys and texts -/

/-- A text is read as a key if it has two parts with one separator between them, and the key is
written as this text. A field of a registered dataset has such a text, which stands for this field
where its class or any class is asked for and nowhere else. What a group has under a key is found
under the text that the key was read from. -/
theorem Key.addresses_fields :
    (∀ (raw : String) (key : Key), Key.ofText? raw = some key ↔
      raw.toList = key.dataset.toList ++ '_' :: key.field.toList ∧
        (key.dataset ≠ "" ∧ '_' ∉ key.dataset.toList) ∧ key.field ≠ "" ∧ '_' ∉ key.field.toList) ∧
    (∀ (raw : String) (key : Key), Key.ofText? raw = some key → key.text = raw) ∧
    (∀ (c : Catalog) (id : String) (kind : Kind) (f : Field) (raw : String),
      isValidId id = true → c.kindOf? id = some kind → f ∈ kind.fields →
      raw.toList = id.toList ++ '_' :: f.name.toList →
      ∀ (wanted : KeyClass) (key : Key), c.resolve? raw wanted = some key ↔
        key = ⟨id, f.name⟩ ∧ (wanted = f.fieldClass.asked ∨ wanted = .any)) ∧
    ∀ (g : Grouping) (kind : Kind) (records : List Record) (group : Group) (raw : String)
      (key : Key), (∀ other ∈ g.keys, ∃ text, Key.ofText? text = some other) →
      group ∈ g.groups kind records → Key.ofText? raw = some key → key ∈ g.keys →
      (∀ rule ∈ g.rules, rule.name ≠ raw) →
      ∃ first ∈ group.members.head?,
        (g.row kind group).get? raw = some (first.groupValue kind key) := by
  have htext {raw : String} {key : Key} :
      raw = key.text ↔ raw.toList = key.dataset.toList ++ '_' :: key.field.toList := by
    rw [← String.toList_inj, Key.text, String.toList_ofList, keySeparator]
  refine ⟨fun raw key => ?_, fun raw key h => (Key.ofText?_eq_some_iff.mp h).1.symm, ?_, ?_⟩
  · rw [Key.ofText?_eq_some_iff, htext]
    rfl
  · intro c id kind f raw hid hkind hf hraw wanted key
    obtain rfl : raw = Key.text ⟨id, f.name⟩ := htext.mpr hraw
    exact Catalog.resolve?_fieldKey_iff hid hkind hf
  · intro g kind records group raw key hkeys hgroup hraw hkey hplain
    obtain ⟨rfl, -⟩ := Key.ofText?_eq_some_iff.mp hraw
    refine Grouping.get?_row_of_key (fun other hother => ?_) hgroup hkey hplain
    obtain ⟨text, hother⟩ := hkeys other hother
    exact (Key.ofText?_eq_some_iff.mp hother).2

/-- A dataset whose id has a space, a point and a letter beyond ASCII in it. -/
def hallsAbroad : Catalog := .ofList [("Bâtiments 2.0", .rooms)]

/-- The halls by name. -/
def hallsByName : Grouping := ⟨[⟨"Bâtiments 2.0", "name"⟩], []⟩

theorem Key.addresses_fields_hallsAbroad :
    isValidId "Bâtiments 2.0" = true ∧
      hallsAbroad.kindOf? "Bâtiments 2.0" = some .rooms ∧
      hallsAbroad.resolve? "Bâtiments 2.0_seats" .numeric = some ⟨"Bâtiments 2.0", "seats"⟩ ∧
      hallsAbroad.resolve? "Bâtiments 2.0_seats" .text = none ∧
      ∃ group ∈ hallsByName.groups .rooms [⟨[("name", .text "H_1")]⟩],
        (hallsByName.row .rooms group).get? "Bâtiments 2.0_name" = some (.text "H_1") := by
  obtain ⟨hread, -, hresolve, hcell⟩ := Key.addresses_fields
  have hid : isValidId "Bâtiments 2.0" = true := by decide
  have hkind : hallsAbroad.kindOf? "Bâtiments 2.0" = some .rooms := by decide
  have hseats := hresolve hallsAbroad "Bâtiments 2.0" .rooms ⟨"seats", "seats", .numeric⟩
    "Bâtiments 2.0_seats" hid hkind (by decide) (by decide)
  have hname : Key.ofText? "Bâtiments 2.0_name" = some ⟨"Bâtiments 2.0", "name"⟩ :=
    (hread _ _).mpr (by decide)
  refine ⟨hid, hkind, (hseats _ _).mpr ⟨rfl, .inl rfl⟩, ?_, ⟨[.text "H_1"], _⟩,
    List.mem_singleton_self _, ?_⟩
  · refine Option.eq_none_iff_forall_ne_some.mpr fun key h => ?_
    exact absurd ((hseats _ _).mp h).2 (by decide)
  · obtain ⟨first, hfirst, hvalue⟩ := hcell hallsByName .rooms [⟨[("name", .text "H_1")]⟩] _ _ _
      (by simpa [hallsByName] using ⟨_, hname⟩) (List.mem_singleton_self _) hname (by decide)
      (by simp [hallsByName])
    obtain rfl := Option.some.inj hfirst
    exact hvalue

end Campus
