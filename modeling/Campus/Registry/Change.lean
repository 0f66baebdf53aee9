import Campus.Registry

/-!
# Adding and removing datasets

A dataset is added with at least one record, under an id that is valid and free; all its records
are written, the malformed ones too. If a file cannot be written, the directory of the dataset is
removed with all that is in it. A dataset that is to be removed leaves the registry before its
directory is removed, so it is gone even if the disk fails.
-/

namespace Campus

/-- What is left of a change. -/
structure Change where
  /-- The listing that was added or removed. -/
  result : Except DatasetError Listing
  registry : Registry
  disk : Tree
  log : List LogLine

namespace Registry

/-- A change that is refused. -/
def refuse (r : Registry) (disk : Tree) (e : DatasetError) : Change := ⟨.error e, r, disk, []⟩

/-- How many of some stored values are records. -/
def countRecords (kind : Kind) (records : List Json) : Nat :=
  (records.filterMap fun stored => Entry.record? (Record.ofStored kind stored)).length

/-- Puts the files of a dataset into its directory. If a file cannot be written, the tree comes
back without the directory. If the directory cannot be made, it is none, and those that were
made around it stay. -/
def persist (place : Place) (files : List (String × Json)) (disk : Tree) :
    Except DatasetError Unit × Tree :=
  match disk.makeDirs place with
  | (.error e, left) => (.error (.ofDisk place e), left)
  | (.ok (), made) =>
    match writeFiles place files made with
    | .error (failed, e) =>
      (.error (.ofDisk failed e), (made.removeTree place).toOption.getD made)
    | .ok written => (.ok (), written)

/-- Adds a dataset with the given records. -/
def add (r : Registry) (disk : Tree) (id : String) (kind : Kind) (records : List Json) : Change :=
  if !isValidId id then r.refuse disk (.invalidId id)
  else if (r.find? id).isSome then r.refuse disk (.duplicateId id)
  else
    let rows := countRecords kind records
    if rows = 0 then r.refuse disk (.noValidRecords id)
    else
      match persist (r.datasetPlace kind id) (recordFilesOf kind records) disk with
      | (.error e, disk) => r.refuse disk e
      | (.ok (), disk) =>
        let listing : Listing := ⟨id, kind, rows⟩
        { result := .ok listing
          registry := { r with listings := r.listings ++ [listing] }
          disk
          log := [Event.datasetAdded.line
            [("id", id), ("kind", kind.name), ("rows", Nat.repr rows)]] }

/-- Removes a dataset and its files. -/
def remove (r : Registry) (disk : Tree) (id : String) : Change :=
  if !isValidId id then r.refuse disk (.invalidId id)
  else
    match r.find? id with
    | none => r.refuse disk (.notFound id)
    | some listing =>
      let place := r.datasetPlace listing.kind id
      let rest := { r with listings := r.listings.eraseP fun l => l.id = id }
      match disk.removeTree place with
      | .error e => rest.refuse disk (.ofDisk place e)
      | .ok disk =>
        { result := .ok listing
          registry := rest
          disk
          log := [Event.datasetRemoved.line [("id", id), ("kind", listing.kind.name)]] }

end Registry

end Campus
