import Campus.Disk.Access
import Campus.Json.Reader
import Campus.Scan

/-!
# Record files

The records of a dataset lie in the `.json` files at and below its directory, which are read in
the order of their paths. A file that holds an array has an entry for each item; any other value
is one entry. A dataset of courses is written as one file with an array, a dataset of rooms as
one file for each room, with its number in the name.
-/

namespace Campus

/-- How the name of a record file ends. -/
def recordSuffix : List Char := ['.', 'j', 's', 'o', 'n']

/-- Whether a file of that name is a record file: something must stand before the ending. -/
def isRecordName (name : String) : Bool :=
  recordSuffix.length < name.toList.length && recordSuffix.isSuffixOf name.toList

namespace Tree

mutual

/-- The record files at and below a node that has a name, with the paths to them. -/
def recordFiles (name : String) : Tree → List (Path × ByteArray)
  | .file content => if isRecordName name then [([name], content)] else []
  | .directory entries => (recordFilesAmong entries).map fun f => (name :: f.1, f.2)

/-- The record files at and below some entries. -/
def recordFilesAmong : List (String × Tree) → List (Path × ByteArray)
  | [] => []
  | (name, t) :: entries => t.recordFiles name ++ recordFilesAmong entries

end

end Tree

/-- The record files at and below some entries, in the order of their paths. -/
def sortedRecordFiles (entries : List (String × Tree)) : List (Path × ByteArray) :=
  (Tree.recordFilesAmong entries).mergeSort fun a b => (compare a.1 b.1).isLE

/-- The entries of a record file of that text, unless it is no JSON text. -/
def Entry.ofText? (kind : Kind) (text : String) : Option (List Entry) :=
  (Json.read? text).map fun
    | .array items => items.map (Record.ofStored kind)
    | value => [Record.ofStored kind value]

namespace Batch

/-- What is said of a file that is no JSON text. -/
def notJsonReason : String := "invalid JSON: the file does not hold one JSON value"

/-- What a scan meets in a record file. -/
def ofFile (kind : Kind) (path : String) (content : ByteArray) : Batch :=
  match String.fromUTF8? content with
  | none => .unreadable path DiskError.notText.message
  | some text =>
    match Entry.ofText? kind text with
    | none => .unreadable path notJsonReason
    | some entries => .readable path entries

/-- What a scan meets at and below the entries of a directory. -/
def ofEntries (kind : Kind) (place : Place) (entries : List (String × Tree)) : List Batch :=
  (sortedRecordFiles entries).map fun f => ofFile kind (place.descend f.1).text f.2

/-- What a scan of a directory meets. -/
def ofDirectory (kind : Kind) (place : Place) (disk : Tree) : Except DiskError (List Batch) :=
  (disk.list place).map (ofEntries kind place)

end Batch

/-! ### Writing -/

/-- The name of the file that holds the sections of a dataset of courses. -/
def sectionsFileName : String := "sections.json"

/-- How many digits the number of a room has at least. -/
def roomDigits : Nat := 5

/-- The name of the file of the room with that number. -/
def roomFileName (number : Nat) : String :=
  "room_" ++ String.ofList ((Nat.toDigits 10 number).leftpad roomDigits '0') ++ ".json"

/-- The files that hold the records of a dataset, by name. -/
def recordFilesOf (kind : Kind) (records : List Json) : List (String × Json) :=
  match kind with
  | .courses => [(sectionsFileName, .array records)]
  | .rooms => records.zipIdx.map fun record => (roomFileName record.2, record.1)

/-- The entries that files are written as. -/
def Tree.ofFiles (files : List (String × Json)) : List (String × Tree) :=
  files.map fun f => (f.1, .file f.2.toText.toUTF8)

/-- Writes files into a directory one after the other, up to the first that cannot be written. -/
def writeEach (place : Place) :
    List (String × Json) → Tree → Except (Place × DiskError) Tree
  | [], disk => .ok disk
  | (name, value) :: files, disk =>
    match disk.write (place.child name) value.toText.toUTF8 with
    | .ok disk => writeEach place files disk
    | .error e => .error (place.child name, e)

/-- Whether a file of that name can lie in a directory at the place. -/
def Place.admits (place : Place) (name : String) : Bool :=
  (place.child name).error?.isNone && name.utf8ByteSize ≤ nameLimit

/-- Whether a name is shorter than another, or as long and before it in the order of texts. -/
def precedes (name other : String) : Bool :=
  name.utf8ByteSize < other.utf8ByteSize ||
    (name.utf8ByteSize == other.utf8ByteSize && name < other)

/-- Whether each name precedes the next, as numbered names do. So no name repeats. -/
def isNumbered : List String → Bool
  | name :: next :: names => precedes name next && isNumbered (next :: names)
  | _ => true

/-- Writes files into a directory, up to the first that cannot be written. Where nothing can be in
their way, they are written all at once. -/
def writeFiles (place : Place) (files : List (String × Json)) (disk : Tree) :
    Except (Place × DiskError) Tree :=
  match disk.locate place with
  | .ok ⟨path, some (.directory [])⟩ =>
    if isNumbered (Assoc.names files) && files.all fun f => place.admits f.1 then
      .ok (disk.put path (.directory (Tree.ofFiles files)))
    else writeEach place files disk
  | _ => writeEach place files disk

end Campus
