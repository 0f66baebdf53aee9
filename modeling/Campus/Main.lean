import Campus.Command.Arguments

/-!
# The program

The outer layer: it reads the command line, the disk and the standard input, has the library do
the work, and writes responses to the standard output and the log to the standard error. The part
of the disk that a command may touch is read before the command and brought up to date after it.
While it serves, the disk is read anew for each query.
-/

namespace Campus.Program

/-! ### The disk -/

/-- A file or a directory with all that is in it. -/
partial def snapshot (place : Place) : IO (Option Tree) := do
  let path ← try IO.FS.realPath place.text catch _ => return none
  if !(← path.pathExists) then return none
  if ← path.isDir then
    let mut entries : List (String × Tree) := []
    for entry in ← path.readDir do
      if let some t ← snapshot (place.child entry.fileName) then
        entries := (entry.fileName, t) :: entries
    return some (.directory entries.reverse)
  else return some (.file (← IO.FS.readBinFile path))

/-- A file, or a directory without what is in it. -/
def glimpse (place : Place) : IO (Option Tree) := do
  let path ← try IO.FS.realPath place.text catch _ => return none
  if !(← path.pathExists) then return none
  if ← path.isDir then return some .empty
  else return some (.file (← IO.FS.readBinFile path))

/-- How a step is written. -/
def stepText : Step → String
  | .down name => name
  | .up => ".."
  | .stay => "."

/-- The disk with what is at a place and on the way there. `before` is the part of the way that is
read already; a directory at the end is read with all that is in it if `whole`. -/
def mountWay (whole : Bool) (disk : Tree) (before : Place) : List Step → IO Tree
  | [] => return disk
  | step :: steps => do
    let here : Place := ⟨(before.child (stepText step)).text, before.steps ++ [step]⟩
    match disk.spot here.steps with
    | .error _ => return disk
    | .ok spot =>
      let node? ← if whole && steps.isEmpty then snapshot here
        else match spot.node? with
          | some node => pure (some node)
          | none => glimpse here
      match node? with
      | none => return disk
      | some node => mountWay whole (disk.put spot.path node) here steps

/-- The disk with what is at a place. -/
def mount (whole : Bool) (disk : Tree) (place : Place) : IO Tree :=
  if place.error?.isSome then return disk
  else mountWay whole disk ⟨"", []⟩ place.steps

/-- The part of the disk that an invocation may touch. -/
def mountAll (i : Invocation) : IO Tree := do
  let mut disk ← mount false .empty (.ofText i.config)
  match Config.load disk (.ofText i.config) with
  | .error _ => return disk
  | .ok config =>
    for kind in Kind.all do
      disk ← mount true disk ((Place.ofText config.dataDir).child kind.name)
    if let .add _ _ file := i.command then disk ← mount false disk (.ofText file)
    return disk

/-- Brings a place of the disk up to date. -/
partial def update (place : Place) (before after : Option Tree) : IO Unit := do
  match before, after with
  | none, none => pure ()
  | some (.file _), none => IO.FS.removeFile place.text
  | some (.directory _), none => IO.FS.removeDirAll place.text
  | _, some (.file content) =>
    if let some (.file old) := before then
      if old == content then return
    IO.FS.writeBinFile place.text content
  | _, some (.directory entries) =>
    let old ← match before with
      | some (.directory old) => pure old
      | _ =>
        IO.FS.createDir place.text
        pure []
    for entry in old do
      if (entries.lookup entry.1).isNone then
        update (place.child entry.1) (some entry.2) none
    for entry in entries do
      update (place.child entry.1) (old.lookup entry.1) (some entry.2)

/-- Brings the disk up to date. -/
def updateDisk (before after : Tree) : IO Unit :=
  update ⟨"", []⟩ (some before) (some after)

/-! ### Answering -/

/-- Writes the lines of a log that are severe enough. -/
def writeLog (least : Severity) (lines : List LogLine) : IO Unit := do
  (← IO.getStderr).putStr (writtenLog least lines)

/-- Writes responses. -/
def writeResponses (responses : List Response) : IO Unit := do
  let out ← IO.getStdout
  out.putStr (Response.output responses)
  out.flush

/-- An id for a query. -/
def freshId : IO String := do
  let mut digits : List Char := []
  for _ in List.range 8 do
    digits := Json.hexCode (← IO.rand 0 0xFFFF) ++ digits
  return String.ofList digits

/-- Answers a request and writes the response and the log. -/
def answer (engine : Engine) (source : IO Source) (least : Severity) (request : Request) :
    IO Engine := do
  let responded : Responded ← match request with
    | .malformed => pure ⟨.failure .invalidQuery, engine, []⟩
    | .query q =>
      let id ← freshId
      let started ← IO.monoNanosNow
      let source ← source
      let outcome ← IO.lazyPure fun _ => engine.outcome source q
      let elapsed := ((← IO.monoNanosNow) - started) / 1000
      let asked := engine.conclude ⟨id, Nat.repr elapsed⟩ outcome
      pure ⟨asked.response, asked.engine, asked.log⟩
  writeLog least responded.log
  writeResponses [responded.response]
  return responded.engine

/-- Reads the standard input to its end. -/
partial def readAll (stream : IO.FS.Stream) (read : ByteArray) : IO ByteArray := do
  let bytes ← stream.read 65536
  if bytes.isEmpty then return read else readAll stream (read ++ bytes)

/-- How serving ends: the engine, the number of requests answered, and whether all were. -/
structure Ending where
  engine : Engine
  count : Nat
  complete : Bool

/-- Answers requests one after the other. -/
def answerAll (source : IO Source) (least : Severity) (ending : Ending)
    (requests : List (Option Request)) : IO Ending := do
  let mut ending := ending
  for request in requests do
    match request with
    | none => return { ending with complete := false }
    | some request =>
      ending := ⟨← answer ending.engine source least request, ending.count + 1, true⟩
  return ending

/-- Answers the lines of the standard input as they come. Bytes after the last line feed wait in
`rest`. -/
partial def serve (stream : IO.FS.Stream) (source : IO Source) (least : Severity) (ending : Ending)
    (rest : List UInt8) : IO Ending := do
  let bytes ← stream.read 65536
  if bytes.isEmpty then answerAll source least ending (Request.ofLines rest)
  else
    let reversed := (rest ++ bytes.toList).reverse
    let rest := (reversed.takeWhile (· != Text.lineFeed)).reverse
    let whole := (reversed.dropWhile (· != Text.lineFeed)).reverse
    let ending ← answerAll source least ending (Request.ofLines whole)
    if ending.complete then serve stream source least ending rest else return ending

/-- Writes an error that ends the program. -/
def fail (e : CommandError) : IO UInt32 := do
  (← IO.getStderr).putStrLn e.shown
  return 1

/-- The source of an archive's queries on the disk as it is now. -/
def currentSource (i : Invocation) (archive : Archive) : IO Source := do
  return archive.source (← mountAll i)

/-- Answers the query that is the whole standard input. -/
def runQuery (archive : Archive) (source : IO Source) (least : Severity) : IO UInt32 := do
  let bytes ← readAll (← IO.getStdin) .empty
  match Request.ofInput? bytes.toList with
  | none => fail .inputNotText
  | some request =>
    let _ ← answer archive.engine source least request
    return 0

/-- Serves the standard input. -/
def runStart (archive : Archive) (source : IO Source) (least : Severity) : IO UInt32 := do
  writeLog least [archive.serveStartLine]
  let ending ← serve (← IO.getStdin) source least ⟨archive.engine, 0, true⟩ []
  if ending.complete then
    writeLog least [Archive.serveStopLine ending.engine.metrics ending.count]
    return 0
  else fail .inputNotText

/-- Runs an invocation. -/
def run (i : Invocation) : IO UInt32 := do
  let disk ← mountAll i
  let begun := boot i.config disk
  updateDisk disk begun.disk
  writeLog begun.severity begun.log
  match begun.result with
  | .error e => fail e
  | .ok archive =>
    match i.command with
    | .query => runQuery archive (currentSource i archive) begun.severity
    | .start => runStart archive (currentSource i archive) begun.severity
    | command =>
      let performed := archive.perform begun.disk (fun _ => default) [] command
      updateDisk begun.disk performed.disk
      writeLog begun.severity performed.log
      writeResponses performed.responses
      match performed.result with
      | .ok () => return 0
      | .error e => fail e

/-! ### The command line -/

/-- How the program is used. -/
def usage : String :=
  "A strict, deterministic query engine for course and room datasets\n\n" ++
  "Usage: campusdb <COMMAND>\n\n" ++
  "Commands:\n" ++
  "  query     [--config <CONFIG>]\n" ++
  "  start     [--config <CONFIG>]\n" ++
  "  datasets  [--config <CONFIG>]\n" ++
  "  add       [--config <CONFIG>] --id <ID> --kind <KIND> --file <FILE>\n" ++
  "  remove    [--config <CONFIG>] --id <ID>\n" ++
  "  help\n"

/-- The name and version of the program. -/
def version : String := "campusdb 0.1.0\n"

/-- What is said of a command line that gives no command. -/
def faultMessage : ArgumentFault → String
  | .unknownCommand => "error: unrecognized subcommand\n"
  | .unknownArgument => "error: unexpected argument\n"
  | .missingValue => "error: a value is required\n"
  | .unknownKind => "error: unknown dataset kind\n"
  | .unneededValue => "error: unexpected value\n"
  | .repeatedSetting => "error: an argument cannot be used multiple times\n"
  | .missingSetting => "error: required arguments were not provided\n"
  | .noCommand | .helpWanted | .versionWanted => ""

/-- Ends the program on a command line that gives no command. -/
def refuse (fault : ArgumentFault) : IO UInt32 := do
  match fault with
  | .helpWanted =>
    (← IO.getStdout).putStr usage
    return 0
  | .versionWanted =>
    (← IO.getStdout).putStr version
    return 0
  | fault =>
    (← IO.getStderr).putStr (faultMessage fault ++ usage)
    return 2

end Campus.Program

/-- Runs the program. -/
def main (arguments : List String) : IO UInt32 :=
  match Campus.Invocation.ofArguments arguments with
  | .error fault => Campus.Program.refuse fault
  | .ok invocation => Campus.Program.run invocation
