import Campus.RecordFile

/-!
# The registry

The registry lists the datasets of a data directory. A dataset of kind `k` and id `i` lies in
the directory `k/i`; its id has no separator of keys, so that keys can be taken apart, and is one
plain name, so that it leads nowhere else.
-/

namespace Campus

/-- A registered dataset. -/
structure Listing where
  id : String
  kind : Kind
  /-- How many records there were when it was registered. -/
  rows : Nat
  deriving DecidableEq, Repr

/-- The listing as JSON. -/
def Listing.toJson (l : Listing) : Json :=
  .object [("id", .string l.id), ("kind", .string l.kind.name), ("numRows", Json.ofNat l.rows)]

/-- Why datasets cannot be managed as asked. -/
inductive DatasetError where
  | invalidId (id : String)
  | duplicateId (id : String)
  | notFound (id : String)
  | noValidRecords (id : String)
  /-- Something failed on the disk. -/
  | io (path cause : String)
  deriving DecidableEq, Repr

namespace DatasetError

/-- A failure of the disk at a place. -/
def ofDisk (place : Place) (e : DiskError) : DatasetError := .io place.text e.message

/-- The code of an error. -/
def code : DatasetError → String
  | .invalidId _ => "CAMPUS_DATASET_INVALID_ID"
  | .duplicateId _ => "CAMPUS_DATASET_EXISTS"
  | .notFound _ => "CAMPUS_DATASET_NOT_FOUND"
  | .noValidRecords _ => "CAMPUS_DATASET_EMPTY"
  | .io _ _ => "CAMPUS_DATASET_IO"

/-- The error in words. -/
def message : DatasetError → String
  | .invalidId id => "Invalid dataset id: '" ++ id ++ "'"
  | .duplicateId id => "Dataset already exists: " ++ id
  | .notFound id => "Dataset not found: " ++ id
  | .noValidRecords id => "Dataset '" ++ id ++ "' contains no valid records"
  | .io path cause => "I/O error at " ++ path ++ ": " ++ cause

end DatasetError

/-- The characters that no id has: the separator of keys and those of paths. -/
def isReserved (c : Char) : Bool := c = keySeparator || c = '/' || c = '\\'

/-- Whether a text may be the id of a dataset. -/
def isValidId (id : String) : Bool :=
  !Text.allBlank id.toList && !id.toList.any isReserved && id != "." && id != ".."

/-- The data directory and the datasets registered in it, in the order of registration. -/
structure Registry where
  place : Place
  listings : List Listing
  deriving DecidableEq, Repr, Inhabited

namespace Registry

/-- The listing of an id. -/
def find? (r : Registry) (id : String) : Option Listing := r.listings.find? fun l => l.id = id

/-- The registered ids. -/
def ids (r : Registry) : List String := r.listings.map (·.id)

/-- The registered datasets with their kinds. -/
def datasets (r : Registry) : List (String × Kind) := r.listings.map fun l => (l.id, l.kind)

/-- Where the datasets of a kind lie. -/
def kindPlace (r : Registry) (kind : Kind) : Place := r.place.child kind.name

/-- Where a dataset lies. -/
def datasetPlace (r : Registry) (kind : Kind) (id : String) : Place := (r.kindPlace kind).child id

/-- What a scan of a dataset meets. -/
def batches (r : Registry) (disk : Tree) (id : String) : Except String (List Batch) :=
  match r.find? id with
  | none => .error "dataset not registered"
  | some l => (Batch.ofDirectory l.kind (r.datasetPlace l.kind id) disk).mapError DiskError.message

/-- The registered datasets as a source of queries. -/
def source (r : Registry) (disk : Tree) : Source := ⟨r.datasets, r.batches disk⟩

end Registry

end Campus
