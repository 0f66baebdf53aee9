import Campus.Engine
import Campus.Registry.Change
import Campus.Registry.Opening

/-!
# Archives

An archive is an engine over a data directory. The disk is not part of it, since others may
change the disk at any time; each operation takes the disk as it is then. The catalog of the
engine follows the registry at each change that succeeds.
-/

namespace Campus

/-- A registry with its engine. -/
structure Archive where
  registry : Registry
  engine : Engine
  deriving DecidableEq, Repr, Inhabited

/-- What is left of an operation on an archive. -/
structure Archived (α : Type) where
  result : Except ServiceError α
  archive : Archive
  disk : Tree
  log : List LogLine

namespace Archive

/-- The archive over an open registry. -/
def ofRegistry (r : Registry) : Archive := ⟨r, ⟨.ofList r.datasets, .zero⟩⟩

/-- The source of its queries on a disk. -/
def source (a : Archive) (disk : Tree) : Source := a.registry.source disk

/-- Takes over a change of the registry. The catalog is read anew only if it succeeded. -/
def follow {α : Type} (a : Archive) (change : Change) (result : Listing → Registry → α) :
    Archived α :=
  match change.result with
  | .error e =>
    { result := .error (.ofDatasetError e)
      archive := { a with registry := change.registry }
      disk := change.disk
      log := change.log }
  | .ok listing =>
    { result := .ok (result listing change.registry)
      archive :=
        ⟨change.registry, a.engine.refresh (change.registry.source change.disk)⟩
      disk := change.disk
      log := change.log }

/-- Adds a dataset; the result is the list of all ids. -/
def add (a : Archive) (disk : Tree) (id : String) (kind : Kind) (records : List Json) :
    Archived (List String) :=
  a.follow (a.registry.add disk id kind records) fun _ registry => registry.ids

/-- Removes a dataset; the result is its id. -/
def remove (a : Archive) (disk : Tree) (id : String) : Archived String :=
  a.follow (a.registry.remove disk id) fun listing _ => listing.id

/-- Asks a query. -/
def ask (a : Archive) (disk : Tree) (stamp : Stamp) (query : Json) : Asked :=
  a.engine.ask (a.source disk) stamp query

end Archive

/-- The archive that an opening gives. -/
def Opening.archive (o : Opening) : Except ServiceError Archive :=
  match o.result with
  | .ok registry => .ok (.ofRegistry registry)
  | .error e => .error (.ofDatasetError e)

end Campus
