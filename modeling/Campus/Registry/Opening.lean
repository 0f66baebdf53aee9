import Campus.Registry

/-!
# Opening a data directory

The registry is nowhere stored: it is found again in the directories. Opening makes the
directories of the kinds, if they are missing, and registers what lies in them: kind by kind, and
in the order of the ids. A directory whose name is no id, or is registered already, is left out
with a line in the log.
-/

namespace Campus

/-- What is left of opening a data directory. -/
structure Opening where
  result : Except DatasetError Registry
  disk : Tree
  log : List LogLine

/-- The log line for a directory that is left out. -/
def skippedDirectoryLine (place : Place) (reason : String) : LogLine :=
  Event.recordSkipped.line [("path", place.text), ("reason", reason)]

namespace Registry

/-- Registers a directory among those of a kind, if it can be. -/
def register (r : Registry) (kind : Kind) (entry : String × Tree) : Registry × List LogLine :=
  let (id, t) := entry
  let place := r.datasetPlace kind id
  if !isValidId id then (r, [skippedDirectoryLine place "invalid dataset id"])
  else if (r.find? id).isSome then (r, [skippedDirectoryLine place "dataset id already registered"])
  else
    let scan := scanAll (Batch.ofEntries kind place t.entries)
    ({ r with listings := r.listings ++ [⟨id, kind, scan.scanned⟩] }, scan.log)

/-- Registers directories of a kind one after the other. -/
def registerAll (r : Registry) (kind : Kind) :
    List (String × Tree) → Registry × List LogLine
  | [] => (r, [])
  | entry :: entries =>
    let (r, lines) := r.register kind entry
    let (r, more) := r.registerAll kind entries
    (r, lines ++ more)

/-- The directories among some entries, in the order of their names. -/
def sortedDirectories (entries : List (String × Tree)) : List (String × Tree) :=
  (entries.filter fun entry => entry.2.isDirectory).mergeSort fun a b =>
    (compare a.1 b.1).isLE

/-- The log line for an open registry. -/
def loadedLine (r : Registry) : LogLine :=
  Event.datasetsLoaded.line
    [("count", Nat.repr r.listings.length), ("data_dir", r.place.text)]

/-- Opens the directories of some kinds one after the other, up to the first that cannot be. -/
def openKinds (r : Registry) (disk : Tree) : List Kind → Opening
  | [] => ⟨.ok r, disk, [r.loadedLine]⟩
  | kind :: kinds =>
    let place := r.kindPlace kind
    match disk.makeDirs place with
    | (.error e, disk) => ⟨.error (.ofDisk place e), disk, []⟩
    | (.ok (), disk) =>
      match disk.list place with
      | .error e => ⟨.error (.ofDisk place e), disk, []⟩
      | .ok entries =>
        let (r, lines) := r.registerAll kind (sortedDirectories entries)
        let opening := r.openKinds disk kinds
        { opening with log := lines ++ opening.log }

/-- Opens a data directory. -/
def openAt (place : Place) (disk : Tree) : Opening := openKinds ⟨place, []⟩ disk Kind.all

end Registry

end Campus
