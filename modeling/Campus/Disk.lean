import Campus.Assoc

/-!
# Disks

A disk is a tree of directories and files. `Tree.find?` says what is at a path; `Tree.put` and
`Tree.erase` change what is there. All three are total: what can fail on a disk, and how, is the
matter of `Campus.Disk.Access`.
-/

namespace Campus

/-- A file with its bytes, or a directory with its entries in the order of their creation. -/
inductive Tree where
  | file (content : ByteArray)
  | directory (entries : List (String × Tree))
  deriving Inhabited

/-- The names on the way from the top of a tree. -/
abbrev Path := List String

namespace Tree

/-- A directory without entries. -/
def empty : Tree := .directory []

/-- The entries of a directory; a file has none. -/
def entries : Tree → List (String × Tree)
  | .file _ => []
  | .directory entries => entries

/-- Whether the node is a directory. -/
def isDirectory : Tree → Bool
  | .file _ => false
  | .directory _ => true

/-- What is at a path, if anything is. -/
def find? : Tree → Path → Option Tree
  | t, [] => some t
  | t, name :: path => (t.entries.lookup name).bind (·.find? path)

/-- The tree with `new` at a path. Directories that are missing on the way are made. -/
def put : Tree → Path → Tree → Tree
  | _, [], new => new
  | t, name :: path, new =>
    let child := (t.entries.lookup name).getD empty
    .directory (Assoc.put name (child.put path new) t.entries)

/-- The tree without what is at a path. The top stays. -/
def erase : Tree → Path → Tree
  | t, [] => t
  | .file content, _ => .file content
  | .directory entries, [name] => .directory (entries.filter fun entry => entry.1 != name)
  | .directory entries, name :: next :: path =>
    match entries.lookup name with
    | some t => .directory (Assoc.put name (t.erase (next :: path)) entries)
    | none => .directory entries

theorem find?_append (t : Tree) (path rest : Path) :
    t.find? (path ++ rest) = (t.find? path).bind (·.find? rest) := by
  induction path generalizing t with
  | nil => rfl
  | cons name path ih => cases h : t.entries.lookup name <;> simp [find?, h, ih]

theorem find?_put (t : Tree) (path : Path) (new : Tree) :
    (t.put path new).find? path = some new := by
  induction path generalizing t with
  | nil => rfl
  | cons name path ih => simp [put, find?, entries, Assoc.lookup_put_self, ih]

end Tree

end Campus
