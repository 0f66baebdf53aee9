import Campus.Key
import Campus.Pattern
import Campus.Row

/-!
# Filters

A filter is the `WHERE` clause of a query: comparisons of numeric fields and patterns on text
fields under `AND`, `OR` and `NOT`. A field that is missing or of the other type satisfies
neither a comparison nor a pattern.
-/

namespace Campus

/-- A comparison of a field with a bound. -/
inductive Comparison where
  | equal
  | greater
  | less
  deriving DecidableEq, Repr

namespace Comparison

/-- The token of a comparison. -/
def token : Comparison → String
  | .equal => "EQ"
  | .greater => "GT"
  | .less => "LT"

/-- The comparison of that token. -/
def ofToken? (token : String) : Option Comparison :=
  [equal, greater, less].find? (·.token = token)

/-- Whether `actual` compares to `bound` in this way. -/
def holds (op : Comparison) (actual bound : Float) : Bool :=
  match op with
  | .equal => actual == bound
  | .greater => bound < actual
  | .less => actual < bound

end Comparison

/-- A condition on records. -/
inductive Filter where
  /-- Satisfied by every record. -/
  | all
  | and (parts : List Filter)
  | or (parts : List Filter)
  | not (part : Filter)
  | compare (op : Comparison) (key : Key) (bound : Float)
  | is (key : Key) (pattern : Pattern)
  deriving Inhabited

/-- The value that a record of kind `kind` has in the field that queries call `field`. -/
def Row.field? (r : Row) (kind : Kind) (field : String) : Option Scalar :=
  r.get? (kind.storedName field)

namespace Filter

mutual

/-- Whether a record of kind `kind` satisfies the filter. -/
def accepts (kind : Kind) (r : Record) : Filter → Bool
  | .all => true
  | .and parts => acceptsAll kind r parts
  | .or parts => acceptsAny kind r parts
  | .not part => !accepts kind r part
  | .compare op key bound =>
    match (r.field? kind key.field).bind Scalar.number? with
    | some actual => op.holds actual bound
    | none => false
  | .is key pattern =>
    match (r.field? kind key.field).bind Scalar.text? with
    | some actual => pattern.accepts actual
    | none => false

/-- Whether a record satisfies every part. -/
def acceptsAll (kind : Kind) (r : Record) : List Filter → Bool
  | [] => true
  | part :: parts => accepts kind r part && acceptsAll kind r parts

/-- Whether a record satisfies some part. -/
def acceptsAny (kind : Kind) (r : Record) : List Filter → Bool
  | [] => false
  | part :: parts => accepts kind r part || acceptsAny kind r parts

end

theorem acceptsAll_eq (kind : Kind) (r : Record) (parts : List Filter) :
    acceptsAll kind r parts = parts.all (accepts kind r) := by
  induction parts with
  | nil => rfl
  | cons part parts ih => simp [acceptsAll, ih]

theorem acceptsAny_eq (kind : Kind) (r : Record) (parts : List Filter) :
    acceptsAny kind r parts = parts.any (accepts kind r) := by
  induction parts with
  | nil => rfl
  | cons part parts ih => simp [acceptsAny, ih]

end Filter

end Campus
