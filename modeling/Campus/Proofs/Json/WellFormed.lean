import Campus.Assoc
import Campus.Json

/-!
# Well-formed JSON values

The type of values is wider than the values that texts denote: a member of an object could repeat,
and a number could be out of range. `Json.DistinctNames` and `Json.NumbersFit` rule that out at
every depth.
-/

namespace Campus.Json

mutual

/-- No object at any depth repeats the name of a member. -/
def DistinctNames : Json → Prop
  | .array items => DistinctNamesItems items
  | .object members => (Assoc.names members).Nodup ∧ DistinctNamesMembers members
  | _ => True

/-- `DistinctNames` of all items. -/
def DistinctNamesItems : List Json → Prop
  | [] => True
  | item :: items => item.DistinctNames ∧ DistinctNamesItems items

/-- `DistinctNames` of the values of all members. -/
def DistinctNamesMembers : List (String × Json) → Prop
  | [] => True
  | (_, value) :: members => value.DistinctNames ∧ DistinctNamesMembers members

end

/-- An integer has at most 64 bits, and any other number is finite. -/
def Num.Fits : Num → Prop
  | .integer n => Num.fits n = true
  | .real x => x.isFinite = true

mutual

/-- Every number at any depth is one that a text can denote. -/
def NumbersFit : Json → Prop
  | .number n => n.Fits
  | .array items => NumbersFitItems items
  | .object members => NumbersFitMembers members
  | _ => True

/-- `NumbersFit` of all items. -/
def NumbersFitItems : List Json → Prop
  | [] => True
  | item :: items => item.NumbersFit ∧ NumbersFitItems items

/-- `NumbersFit` of the values of all members. -/
def NumbersFitMembers : List (String × Json) → Prop
  | [] => True
  | (_, value) :: members => value.NumbersFit ∧ NumbersFitMembers members

end

theorem distinctNamesItems_iff {items : List Json} :
    DistinctNamesItems items ↔ ∀ item ∈ items, item.DistinctNames := by
  induction items with
  | nil => simp [DistinctNamesItems]
  | cons item items ih => simp [DistinctNamesItems, ih]

theorem distinctNamesMembers_iff {members : List (String × Json)} :
    DistinctNamesMembers members ↔ ∀ member ∈ members, member.2.DistinctNames := by
  induction members with
  | nil => simp [DistinctNamesMembers]
  | cons member members ih => simp [DistinctNamesMembers, ih]

theorem numbersFitItems_iff {items : List Json} :
    NumbersFitItems items ↔ ∀ item ∈ items, item.NumbersFit := by
  induction items with
  | nil => simp [NumbersFitItems]
  | cons item items ih => simp [NumbersFitItems, ih]

theorem numbersFitMembers_iff {members : List (String × Json)} :
    NumbersFitMembers members ↔ ∀ member ∈ members, member.2.NumbersFit := by
  induction members with
  | nil => simp [NumbersFitMembers]
  | cons member members ih => simp [NumbersFitMembers, ih]

end Campus.Json
