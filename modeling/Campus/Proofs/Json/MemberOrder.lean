import Campus.Proofs.Assoc
import Campus.Proofs.Json.WellFormed
import Mathlib.Data.List.Perm.Basic

/-!
# JSON values up to the order of members

`Json.Reordered` relates values that differ in the order of members only, in any objects at any
depth; the items of arrays stay where they are. An object is related to another one if its members
are, one by one, related to the members that are found there in some order. The two steps can be
taken in either order (`Json.Reordered.exists_members_of_perm`), so the relation is symmetric, and
an object that has certain members in some order is related only to objects that have related ones
in some order.
-/

namespace Campus.Json

mutual

/-- The second value is the first one with the members of objects, at any depth, in another
order. -/
inductive Reordered : Json → Json → Prop
  | null : Reordered .null .null
  | bool (b : Bool) : Reordered (.bool b) (.bool b)
  | number (n : Num) : Reordered (.number n) (.number n)
  | string (s : String) : Reordered (.string s) (.string s)
  | array {items items' : List Json} (each : ReorderedItems items items') :
      Reordered (.array items) (.array items')
  | object {members middle members' : List (String × Json)} (each : ReorderedMembers members middle)
      (moved : middle.Perm members') : Reordered (.object members) (.object members')

/-- `Reordered` for items, one by one. -/
inductive ReorderedItems : List Json → List Json → Prop
  | nil : ReorderedItems [] []
  | cons {item item' : Json} {items items' : List Json} (first : Reordered item item')
      (others : ReorderedItems items items') : ReorderedItems (item :: items) (item' :: items')

/-- `Reordered` for the values of members, one by one. The names are the same. -/
inductive ReorderedMembers : List (String × Json) → List (String × Json) → Prop
  | nil : ReorderedMembers [] []
  | cons {name : String} {value value' : Json} {members members' : List (String × Json)}
      (first : Reordered value value') (others : ReorderedMembers members members') :
      ReorderedMembers ((name, value) :: members) ((name, value') :: members')

end

variable {value value' : Json} {items items' : List Json} {members members' : List (String × Json)}

theorem reorderedMembers_iff : ReorderedMembers members members' ↔
    List.Forall₂ (fun member member' => member.1 = member'.1 ∧ member.2.Reordered member'.2) members
      members' := by
  constructor
  · intro h
    induction members generalizing members' with
    | nil =>
        cases h
        exact .nil
    | cons member members ih =>
        cases h with
        | cons first others => exact .cons ⟨rfl, first⟩ (ih others)
  · intro h
    induction h with
    | nil => exact .nil
    | @cons member member' members members' hmember _ ih =>
        obtain ⟨name, value⟩ := member
        obtain ⟨name', value'⟩ := member'
        obtain ⟨rfl, hvalue⟩ := hmember
        exact .cons hvalue ih

namespace Reordered

mutual

theorem refl : ∀ value : Json, Reordered value value
  | .null => .null
  | .bool b => .bool b
  | .number n => .number n
  | .string s => .string s
  | .array items => .array (refl_items items)
  | .object members => .object (refl_members members) (.refl members)

theorem refl_items : ∀ items : List Json, ReorderedItems items items
  | [] => .nil
  | item :: items => .cons (refl item) (refl_items items)

theorem refl_members : ∀ members : List (String × Json), ReorderedMembers members members
  | [] => .nil
  | (_, value) :: members => .cons (refl value) (refl_members members)

end

/-- Members that are moved first can be moved last. -/
theorem exists_members_of_perm {middle : List (String × Json)} (hperm : members.Perm middle)
    (h : ReorderedMembers middle members') :
    ∃ middle', ReorderedMembers members middle' ∧ middle'.Perm members' := by
  obtain ⟨middle', heach, hmoved⟩ := List.perm_comp_forall₂ hperm (reorderedMembers_iff.mp h)
  exact ⟨middle', reorderedMembers_iff.mpr heach, hmoved⟩

mutual

theorem symm : ∀ {value value' : Json}, Reordered value value' → Reordered value' value
  | _, _, .null => .null
  | _, _, .bool b => .bool b
  | _, _, .number n => .number n
  | _, _, .string s => .string s
  | _, _, .array each => .array (symm_items each)
  | _, _, .object each moved =>
      let ⟨_, heach, hmoved⟩ := exists_members_of_perm moved.symm (symm_members each)
      .object heach hmoved

theorem symm_items : ∀ {items items' : List Json},
    ReorderedItems items items' → ReorderedItems items' items
  | _, _, .nil => .nil
  | _, _, .cons first others => .cons (symm first) (symm_items others)

theorem symm_members : ∀ {members members' : List (String × Json)},
    ReorderedMembers members members' → ReorderedMembers members' members
  | _, _, .nil => .nil
  | _, _, .cons first others => .cons (symm first) (symm_members others)

end

/-! ### Objects and arrays -/

/-- An object that has certain members is reordered to one that has the same members reordered. -/
theorem exists_perm {known : List (String × Json)} (h : Reordered (.object members) value')
    (hperm : members.Perm known) :
    ∃ members' known', value' = .object members' ∧ ReorderedMembers known known' ∧
      members'.Perm known' := by
  cases h with
  | object each moved =>
      obtain ⟨known', heach, hmoved⟩ := exists_members_of_perm hperm.symm each
      exact ⟨_, known', rfl, heach, (hmoved.trans moved).symm⟩

theorem exists_of_singleton {name : String} (h : Reordered (.object [(name, value)]) value') :
    ∃ inner, value' = .object [(name, inner)] ∧ value.Reordered inner := by
  obtain ⟨members', known', rfl, hknown, hperm⟩ := h.exists_perm (.refl _)
  cases hknown with
  | cons first others =>
      cases others
      rw [List.perm_singleton] at hperm
      exact ⟨_, by rw [hperm], first⟩

theorem items_ne_nil (h : ReorderedItems items items') (hne : items ≠ []) : items' ≠ [] := by
  cases h with
  | nil => exact absurd rfl hne
  | cons first others => exact List.cons_ne_nil _ _

theorem eq_of_strings {texts : List String} (h : Reordered (.array (texts.map .string)) value') :
    value' = .array (texts.map .string) := by
  cases h with
  | @array _ items' each =>
      congr 1
      induction texts generalizing items' with
      | nil =>
          cases each
          rfl
      | cons text texts ih =>
          cases each with
          | cons first others =>
              cases first
              rw [ih others, List.map_cons]

/-! ### Distinct names -/

theorem names_eq (h : ReorderedMembers members members') :
    Assoc.names members = Assoc.names members' := by
  induction members generalizing members' with
  | nil =>
      cases h
      rfl
  | cons member members ih =>
      cases h with
      | cons first others => rw [Assoc.names_cons, Assoc.names_cons, ih others]

mutual

/-- Names that do not repeat do not repeat in another order. -/
theorem distinctNames : ∀ {value value' : Json}, Reordered value value' →
    value.DistinctNames → value'.DistinctNames
  | _, _, .null, h => h
  | _, _, .bool _, h => h
  | _, _, .number _, h => h
  | _, _, .string _, h => h
  | _, _, .array each, h => distinctNames_items each h
  | _, _, .object each moved, h =>
      ⟨(Assoc.names_perm moved).nodup_iff.mp (names_eq each ▸ h.1),
        distinctNamesMembers_iff.mpr fun member hmember =>
          distinctNamesMembers_iff.mp (distinctNames_members each h.2) member
            (moved.mem_iff.mpr hmember)⟩

theorem distinctNames_items : ∀ {items items' : List Json}, ReorderedItems items items' →
    DistinctNamesItems items → DistinctNamesItems items'
  | _, _, .nil, h => h
  | _, _, .cons first others, h => ⟨distinctNames first h.1, distinctNames_items others h.2⟩

theorem distinctNames_members : ∀ {members members' : List (String × Json)},
    ReorderedMembers members members' → DistinctNamesMembers members →
      DistinctNamesMembers members'
  | _, _, .nil, h => h
  | _, _, .cons first others, h => ⟨distinctNames first h.1, distinctNames_members others h.2⟩

end

end Reordered

end Campus.Json
