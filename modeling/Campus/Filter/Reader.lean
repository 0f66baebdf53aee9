import Campus.Filter
import Campus.Reading

/-!
# Reading filters

A filter is written as an object with one member, whose name is the operator. The empty object
stands for the filter that every record satisfies, but only as the whole clause.
-/

namespace Campus

/-- The operators of filters. -/
inductive Operator where
  | and
  | or
  | not
  | is
  | compare (op : Comparison)
  deriving DecidableEq, Repr

namespace Operator

/-- The token of an operator. -/
def token : Operator → String
  | .and => "AND"
  | .or => "OR"
  | .not => "NOT"
  | .is => "IS"
  | .compare op => op.token

/-- The operator of that token. -/
def ofToken? (token : String) : Option Operator :=
  [and, or, not, is, compare .equal, compare .greater, compare .less].find? (·.token = token)

/-- The type of value that an operator is applied to. -/
def operandShape : Operator → Json.Shape
  | .and | .or => .array
  | .not | .is | .compare _ => .object

end Operator

namespace Filter

/-- Reads the operand of a comparison: one numeric key and its bound. -/
def readCompare (c : Catalog) (op : Comparison) (members : List (String × Json)) :
    Reading Filter := do
  let (raw, value) ← expectSingle op.token members
  let key ← c.expectKey raw .numeric op.token
  let bound ← value.expectNumber op.token
  Reading.mention key
  pure (.compare op key bound)

/-- Reads the operand of `IS`: one text key and its pattern. -/
def readIs (c : Catalog) (members : List (String × Json)) : Reading Filter := do
  let (raw, value) ← expectSingle Operator.is.token members
  let key ← c.expectKey raw .text Operator.is.token
  let text ← value.expectString Operator.is.token
  match Pattern.ofText? text with
  | none => throw (.invalidPattern text)
  | some pattern =>
    Reading.mention key
    pure (.is key pattern)

mutual

/-- Reads a filter from the members of an object. -/
def readNode (c : Catalog) : List (String × Json) → Reading Filter
  | [member] => readMember c member
  | members => throw (.memberCount "filter" members.length)

/-- Reads a filter from its only member. -/
def readMember (c : Catalog) : String × Json → Reading Filter
  | (token, operand) =>
    match Operator.ofToken? token with
    | none => throw (.unknownOperator token)
    | some op => readOperand c op operand

/-- Reads the operand of an operator. -/
def readOperand (c : Catalog) (op : Operator) : Json → Reading Filter
  | .array items =>
    match op with
    | .and => if items.isEmpty then throw (.emptyList op.token) else .and <$> readParts c op items
    | .or => if items.isEmpty then throw (.emptyList op.token) else .or <$> readParts c op items
    | op => throw (.unexpectedType op.token op.operandShape.name .array)
  | .object members =>
    match op with
    | .not => .not <$> readNode c members
    | .is => readIs c members
    | .compare comparison => readCompare c comparison members
    | op => throw (.unexpectedType op.token op.operandShape.name .object)
  | other => throw (.unexpectedType op.token op.operandShape.name other.shape)

/-- Reads the parts of an `AND` or `OR`. -/
def readParts (c : Catalog) (op : Operator) : List Json → Reading (List Filter)
  | [] => pure []
  | item :: items => do
    let part ← readPart c op item
    let parts ← readParts c op items
    pure (part :: parts)

/-- Reads one part of an `AND` or `OR`, which must be an object. -/
def readPart (c : Catalog) (op : Operator) : Json → Reading Filter
  | .object members => readNode c members
  | other => throw (.unexpectedType op.token Json.Shape.object.name other.shape)

end

/-- Reads the clause. -/
def read (c : Catalog) (node : Json) : Reading Filter := do
  let members ← node.expectObject Clause.filter.name
  if members.isEmpty then pure .all else readNode c members

end Filter

end Campus
