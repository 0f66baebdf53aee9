import Campus.Disk.Place
import Campus.Text.Lines

/-!
# Access to a disk

The operations on the places of a disk. `Tree.locate` follows the steps of a place from directory
to directory, and fails where they lead through something else; the operations act on what it
finds, and a change that fails leaves the tree as it was. Only `Tree.makeDirs`, which makes a
directory after the other, leaves those that it has made.

The main statement is `Tree.find?_locate`: what `locate` says to be at a path is what is there.
-/

namespace Campus

/-- Why an operation on a disk fails. -/
inductive DiskError where
  | notFound
  | alreadyExists
  | notADirectory
  | isADirectory
  | nameTooLong
  /-- The text of the place holds the character that ends texts. -/
  | nulInText
  /-- The bytes of a file are no text. -/
  | notText
  deriving DecidableEq, Repr

/-- The failure in words. -/
def DiskError.message : DiskError → String
  | .notFound => "No such file or directory (os error 2)"
  | .alreadyExists => "File exists (os error 17)"
  | .notADirectory => "Not a directory (os error 20)"
  | .isADirectory => "Is a directory (os error 21)"
  | .nameTooLong => "File name too long (os error 36)"
  | .nulInText => "file name contained an unexpected NUL byte"
  | .notText => Text.notTextMessage

/-- The most bytes that a name may have. -/
def nameLimit : Nat := 255

/-- The most bytes that the text of a place may have. -/
def textLimit : Nat := 4095

/-- Why a place is none on any disk. -/
def Place.error? (p : Place) : Option DiskError :=
  if p.text.toList.contains '\x00' then some .nulInText
  else if textLimit < p.text.utf8ByteSize then some .nameTooLong
  else if p.text.isEmpty then some .notFound
  else none

/-- Where steps lead: to a path, and to what is there, if anything is. -/
structure Spot where
  path : Path
  node? : Option Tree

/-- The path of the directory around, both with their names in reverse order. Nothing is around
the root. -/
def outer : Path → Path
  | [] => [aroundName]
  | name :: above =>
    if name = aroundName then aroundName :: name :: above
    else if name = rootName then name :: above
    else above

namespace Tree

/-! ### Finding -/

/-- Where steps lead from a path whose names stand in reverse order. -/
def follow (t : Tree) (trail : Path) (node? : Option Tree) : List Step → Except DiskError Spot
  | [] => .ok ⟨trail.reverse, node?⟩
  | step :: steps =>
    match node? with
    | none => .error .notFound
    | some (.file _) => .error .notADirectory
    | some (.directory entries) =>
      match step with
      | .stay => t.follow trail node? steps
      | .up => t.follow (outer trail) (t.find? (outer trail).reverse) steps
      | .down name =>
        if nameLimit < name.utf8ByteSize then .error .nameTooLong
        else t.follow (name :: trail) (entries.lookup name) steps

/-- Where steps lead from the top. -/
def spot (t : Tree) (steps : List Step) : Except DiskError Spot := t.follow [] (some t) steps

/-- Where a place is. -/
def locate (t : Tree) (p : Place) : Except DiskError Spot :=
  match p.error? with
  | some e => .error e
  | none => t.spot p.steps

theorem find?_follow {t : Tree} {trail : Path} {node? : Option Tree} {steps : List Step}
    {s : Spot} (h : t.follow trail node? steps = .ok s)
    (start : t.find? trail.reverse = node?) : t.find? s.path = s.node? := by
  induction steps generalizing trail node? with
  | nil => cases h; exact start
  | cons step steps ih =>
    match node?, step with
    | none, _ => simp [follow] at h
    | some (.file _), _ => simp [follow] at h
    | some (.directory _), .stay => exact ih (by simpa [follow] using h) start
    | some (.directory _), .up => exact ih (by simpa [follow] using h) rfl
    | some (.directory entries), .down name =>
      by_cases long : nameLimit < name.utf8ByteSize
      · simp [follow, long] at h
      · refine ih (by simpa [follow, long] using h) ?_
        simp [find?_append, start, find?, Tree.entries]

theorem find?_locate {t : Tree} {p : Place} {s : Spot} (h : t.locate p = .ok s) :
    t.find? s.path = s.node? := by
  unfold locate at h
  split at h
  · cases h
  · exact find?_follow h rfl

/-! ### Reading -/

/-- The text of a file. -/
def readText (t : Tree) (p : Place) : Except DiskError String :=
  match t.locate p with
  | .error e => .error e
  | .ok ⟨_, none⟩ => .error .notFound
  | .ok ⟨_, some (.directory _)⟩ => .error .isADirectory
  | .ok ⟨_, some (.file content)⟩ =>
    match String.fromUTF8? content with
    | some text => .ok text
    | none => .error .notText

/-- The entries of a directory. -/
def list (t : Tree) (p : Place) : Except DiskError (List (String × Tree)) :=
  match t.locate p with
  | .error e => .error e
  | .ok ⟨_, none⟩ => .error .notFound
  | .ok ⟨_, some (.file _)⟩ => .error .notADirectory
  | .ok ⟨_, some (.directory entries)⟩ => .ok entries

/-! ### Changing -/

/-- The tree with a file of that content at a place, in place of an older file. -/
def write (t : Tree) (p : Place) (content : ByteArray) : Except DiskError Tree :=
  match t.locate p with
  | .error e => .error e
  | .ok ⟨_, some (.directory _)⟩ => .error .isADirectory
  | .ok ⟨path, _⟩ => .ok (t.put path (.file content))

/-- The tree without a directory and all that is in it. -/
def removeTree (t : Tree) (p : Place) : Except DiskError Tree :=
  match t.locate p with
  | .error e => .error e
  | .ok ⟨_, none⟩ => .error .notFound
  | .ok ⟨_, some (.file _)⟩ => .error .notADirectory
  | .ok ⟨path, some (.directory _)⟩ => .ok (t.erase path)

/-- The tree in which steps lead to a directory, made if it is missing. What is around it must
be there. -/
def makeDir (t : Tree) (steps : List Step) : Except DiskError Tree :=
  match t.spot steps with
  | .error e => .error e
  | .ok ⟨path, none⟩ => .ok (t.put path empty)
  | .ok ⟨_, some (.file _)⟩ => .error .alreadyExists
  | .ok ⟨_, some (.directory _)⟩ => .ok t

/-- Makes the directory that steps in reverse order lead to. If something is missing on the way,
the directory that the steps but the last lead to is made before it. -/
def makeWay (t : Tree) : List Step → Except DiskError Unit × Tree
  | [] => (.ok (), t)
  | step :: above =>
    match t.makeDir (step :: above).reverse with
    | .ok made => (.ok (), made)
    | .error .notFound =>
      match t.makeWay above with
      | (.error e, left) => (.error e, left)
      | (.ok (), left) =>
        match left.makeDir (step :: above).reverse with
        | .ok made => (.ok (), made)
        | .error e => (.error e, left)
    | .error e => (.error e, t)

/-- Makes a directory and those that are missing on the way to it. The tree comes back with those
that are made, also if one cannot be made. -/
def makeDirs (t : Tree) (p : Place) : Except DiskError Unit × Tree :=
  match p.error? with
  | some e => (.error e, t)
  | none => t.makeWay p.steps.reverse

end Tree

end Campus
