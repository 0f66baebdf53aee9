import Campus.Archive
import Campus.Config
import Campus.Request

/-!
# Commands

A command loads the configuration, opens the data directory, does its work and writes responses.
What goes wrong with a query or a dataset is a response like any other; only a configuration, an
input or a file that cannot be read ends a command with an error.
-/

namespace Campus

/-- What the program is asked to do. -/
inductive Command where
  /-- Answers one query. -/
  | query
  /-- Answers the query on each line. -/
  | start
  /-- Lists the datasets. -/
  | datasets
  /-- Adds a dataset from a file with an array of records. -/
  | add (id : String) (kind : Kind) (file : String)
  /-- Removes a dataset. -/
  | remove (id : String)
  deriving DecidableEq, Repr

/-- A command with the configuration that it runs under. -/
structure Invocation where
  /-- The text of the place of the configuration. -/
  config : String
  command : Command
  deriving DecidableEq, Repr

/-- What kind of error ends a command. -/
inductive CommandCode where
  | config
  | io
  deriving DecidableEq, Repr

namespace CommandCode

/-- The text of a code. -/
def text : CommandCode → String
  | .config => "CAMPUS_CLI_CONFIG_ERROR"
  | .io => "CAMPUS_CLI_IO_ERROR"

/-- An error of that code as it is shown. -/
def shown (code : CommandCode) (message : String) : String := code.text ++ ": " ++ message

end CommandCode

/-- Why a command ends before its work is done. -/
inductive CommandError where
  | config (e : ConfigError)
  /-- The data directory cannot be opened. -/
  | dataDir (e : ServiceError)
  /-- The file of records cannot be read. -/
  | recordsFile (file : String) (e : DiskError)
  /-- The input is no text. -/
  | inputNotText
  deriving DecidableEq, Repr

namespace CommandError

/-- The code of an error. -/
def code : CommandError → CommandCode
  | .config _ => .config
  | _ => .io

/-- The error in words. -/
def message : CommandError → String
  | .config e => e.message
  | .dataDir e => "Failed to open data directory: " ++ e.shown
  | .recordsFile file e => "Failed to read " ++ file ++ ": " ++ e.message
  | .inputNotText => Text.notTextMessage

/-- The error as it is shown. -/
def shown (e : CommandError) : String := e.code.shown e.message

end CommandError

/-- What is left of a command, or of a part of it. -/
structure Performed where
  result : Except CommandError Unit
  responses : List Response
  disk : Tree
  log : List LogLine

/-! ### Beginning -/

/-- What a command begins its work with. -/
structure Boot where
  result : Except CommandError Archive
  /-- The least severity that is logged. -/
  severity : Severity
  disk : Tree
  log : List LogLine

/-- The log line for a configuration that is loaded. -/
def Config.loadedLine (c : Config) (place : Place) : LogLine :=
  Event.configLoaded.line
    [("config", place.text), ("data_dir", c.dataDir), ("log_level", c.logLevel)]

/-- Loads the configuration and opens the data directory. -/
def boot (configText : String) (disk : Tree) : Boot :=
  let place := Place.ofText configText
  match Config.load disk place with
  | .error e => ⟨.error (.config e), .info, disk, []⟩
  | .ok config =>
    let opening := Registry.openAt (.ofText config.dataDir) disk
    { result := opening.archive.mapError .dataDir
      severity := config.severity
      disk := opening.disk
      log := config.loadedLine place :: opening.log }

/-! ### Working -/

namespace Archive

/-- The log line for the begin of serving. -/
def serveStartLine (a : Archive) : LogLine :=
  Event.serveStart.line [("datasets", Nat.repr a.registry.listings.length)]

/-- The log line for the end of serving. -/
def serveStopLine (metrics : Metrics) (count : Nat) : LogLine :=
  Event.serveStop.line [("metrics", metrics.text), ("queries", Nat.repr count)]

/-- The response that lists the datasets. -/
def listResponse (a : Archive) : Response :=
  .success (.array (a.registry.listings.map Listing.toJson))

/-- Answers the query that is the whole input. -/
def performQuery (a : Archive) (disk : Tree) (stamp : Stamp) (input : List UInt8) : Performed :=
  match Request.ofInput? input with
  | none => ⟨.error .inputNotText, [], disk, []⟩
  | some request =>
    let responded := a.engine.respond (a.source disk) stamp request
    ⟨.ok (), [responded.response], disk, responded.log⟩

/-- Answers the query on each line of the input. -/
def performStart (a : Archive) (disk : Tree) (stamps : Nat → Stamp) (input : List UInt8) :
    Performed :=
  let served := a.engine.serve (a.source disk) stamps input
  let log := a.serveStartLine :: served.log
  if served.complete then
    ⟨.ok (), served.responses, disk, log ++ [serveStopLine served.engine.metrics served.count]⟩
  else ⟨.error .inputNotText, served.responses, disk, log⟩

/-- Adds a dataset from a file. A file that holds no array holds no records. -/
def performAdd (a : Archive) (disk : Tree) (id : String) (kind : Kind) (file : String) :
    Performed :=
  match disk.readText (.ofText file) with
  | .error e => ⟨.error (.recordsFile file e), [], disk, []⟩
  | .ok text =>
    match Json.read? text with
    | some (.array records) =>
      let added := a.add disk id kind records
      let response := Response.ofResult (fun ids => .array (ids.map .string)) added.result
      ⟨.ok (), [response], added.disk, added.log⟩
    | _ => ⟨.ok (), [.failure (.ofDatasetError (.noValidRecords id))], disk, []⟩

/-- Removes a dataset. -/
def performRemove (a : Archive) (disk : Tree) (id : String) : Performed :=
  let removed := a.remove disk id
  ⟨.ok (), [Response.ofResult .string removed.result], removed.disk, removed.log⟩

/-- Does the work of a command. -/
def perform (a : Archive) (disk : Tree) (stamps : Nat → Stamp) (input : List UInt8) :
    Command → Performed
  | .query => a.performQuery disk (stamps 0) input
  | .start => a.performStart disk stamps input
  | .datasets => ⟨.ok (), [a.listResponse], disk, []⟩
  | .add id kind file => a.performAdd disk id kind file
  | .remove id => a.performRemove disk id

end Archive

namespace Invocation

/-- Runs a command. Only the lines that are to be written are left in its log. -/
def run (i : Invocation) (disk : Tree) (stamps : Nat → Stamp) (input : List UInt8) : Performed :=
  let begun := boot i.config disk
  match begun.result with
  | .error e => ⟨.error e, [], begun.disk, enabledLines begun.severity begun.log⟩
  | .ok archive =>
    let performed := archive.perform begun.disk stamps input i.command
    { performed with log := enabledLines begun.severity (begun.log ++ performed.log) }

end Invocation

end Campus
