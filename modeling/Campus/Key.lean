import Campus.Assoc
import Campus.Kind

/-!
# Keys

A key `<dataset>_<field>` names a field of a dataset. A `Catalog` knows which datasets are
registered and of which kind, and so which keys stand for a field and of which class.
-/

namespace Campus

/-- A reference to a field of a dataset. -/
structure Key where
  dataset : String
  field : String
  deriving DecidableEq, Repr, Inhabited

/-- The character between the two parts of a key. -/
def keySeparator : Char := '_'

/-- The parts before and after the first separator. -/
def splitAtSeparator? : List Char → Option (List Char × List Char)
  | [] => none
  | c :: cs =>
    if c = keySeparator then some ([], cs)
    else (splitAtSeparator? cs).map fun parts => (c :: parts.1, parts.2)

namespace Key

/-- The key as text. -/
def text (k : Key) : String :=
  String.ofList (k.dataset.toList ++ keySeparator :: k.field.toList)

/-- The key that a text spells: two parts, neither empty, with one separator between them. -/
def ofText? (raw : String) : Option Key :=
  match splitAtSeparator? raw.toList with
  | none => none
  | some (dataset, field) =>
    if dataset.isEmpty || field.isEmpty || field.contains keySeparator then none
    else some ⟨String.ofList dataset, String.ofList field⟩

end Key

/-- The registered datasets and their kinds, each id once. -/
structure Catalog where
  entries : List (String × Kind)
  deriving DecidableEq, Repr, Inhabited

namespace Catalog

/-- The catalog of a list of datasets; the last of several with one id counts. -/
def ofList (datasets : List (String × Kind)) : Catalog :=
  ⟨Assoc.putAll [] datasets⟩

/-- The kind of a registered dataset. -/
def kindOf? (c : Catalog) (id : String) : Option Kind := c.entries.lookup id

/-- How many datasets are registered. -/
def size (c : Catalog) : Nat := c.entries.length

/-- The class of the field that a key names. -/
def fieldClass? (c : Catalog) (key : Key) : Option FieldClass :=
  (c.kindOf? key.dataset).bind fun kind => kind.fieldClass? key.field

/-- The key that a text spells, if it names a field that may stand where `wanted` is asked
for. -/
def resolve? (c : Catalog) (raw : String) (wanted : KeyClass) : Option Key :=
  (Key.ofText? raw).bind fun key =>
    (c.fieldClass? key).bind fun found => if wanted.admits found then some key else none

end Catalog

end Campus
