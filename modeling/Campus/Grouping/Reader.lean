import Campus.Grouping
import Campus.Reading

/-!
# Reading groupings

The clause has exactly the members `GROUP`, a list of keys, and `APPLY`, a list of rules. A rule
is an object whose only member names it and holds another object of one member, the aggregate and
its key. A group key that is repeated counts once; the names of rules may repeat. Both are noted
as the columns that the query may then ask for.
-/

namespace Campus.Grouping

/-- The member that lists the group keys. -/
def groupMember : String := "GROUP"

/-- The member that lists the rules. -/
def applyMember : String := "APPLY"

/-- What a rule is called in faults. -/
def rulePlace : String := "apply rule"

/-- Notes a group key, and tells whether it is a new one. -/
def noteGroupKey (raw : String) : Reading Bool := do
  let known := (← get).groupKeys.contains raw
  modify (·.addGroupKey raw)
  pure !known

/-- Reads the group keys. -/
def readKeys (c : Catalog) : List Json → Reading (List Key)
  | [] => pure []
  | item :: items => do
    let raw ← item.expectString groupMember
    let key ← c.expectKey raw .any groupMember
    Reading.mention key
    let new ← noteGroupKey raw
    let keys ← readKeys c items
    pure (if new then key :: keys else keys)

/-- Reads a rule. -/
def readRule (c : Catalog) (item : Json) : Reading ApplyRule := do
  let (name, body) ← expectSingle rulePlace (← item.expectObject applyMember)
  let (token, operand) ← expectSingle name (← body.expectObject rulePlace)
  match Aggregate.ofToken? token with
  | none => throw (.unknownAggregate token)
  | some aggregate =>
    let raw ← operand.expectString token
    let key ← c.expectKey raw aggregate.keyClass token
    Reading.mention key
    modify (·.addApplyName name)
    pure ⟨name, aggregate, key⟩

/-- Reads the rules. -/
def readRules (c : Catalog) : List Json → Reading (List ApplyRule)
  | [] => pure []
  | item :: items => do
    let rule ← readRule c item
    let rules ← readRules c items
    pure (rule :: rules)

/-- Reads the group keys, of which there must be one. -/
def readGroup (c : Catalog) (node : Json) : Reading (List Key) := do
  let items ← node.expectArray groupMember
  if items.isEmpty then throw (.emptyList groupMember) else readKeys c items

/-- Reads the list of rules, which may be empty. -/
def readApply (c : Catalog) (node : Json) : Reading (List ApplyRule) := do
  readRules c (← node.expectArray applyMember)

/-- Reads the clause. -/
def read (c : Catalog) (node : Json) : Reading Grouping := do
  let members ← node.expectObject Clause.grouping.name
  match Json.member? members groupMember, Json.member? members applyMember with
  | some group, some apply =>
    if members.length = 2 then
      let keys ← readGroup c group
      let rules ← readApply c apply
      pure ⟨keys, rules⟩
    else throw .groupingMembers
  | _, _ => throw .groupingMembers

end Campus.Grouping
