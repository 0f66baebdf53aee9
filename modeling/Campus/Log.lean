import Campus.Json.Printer

/-!
# The log

A log line is a JSON object of strings: the event first, then the severity, then the fields
sorted by key. It ends in the only line feed in it, since every control character is escaped, so
that no value can forge a field or a second line. Lines below the least severity are not
written.
-/

namespace Campus

/-- How severe a log line is. -/
inductive Severity where
  | trace
  | info
  | warn
  | error
  /-- Nothing goes on after it. -/
  | fatal
  deriving DecidableEq, Repr, Inhabited

namespace Severity

/-- All severities, upwards. -/
def all : List Severity := [trace, info, warn, error, fatal]

/-- The name of a severity. -/
def name : Severity → String
  | .trace => "TRACE"
  | .info => "INFO"
  | .warn => "WARN"
  | .error => "ERROR"
  | .fatal => "FATAL"

/-- The place of a severity among all. -/
def rank (s : Severity) : Nat := all.idxOf s

/-- The severity of that name, in letters of either case. -/
def ofName? (name : String) : Option Severity := all.find? (·.name.toLower = name.toLower)

/-- What is said of a name that no severity has. -/
def unknownMessage (name : String) : String := "unknown log level '" ++ name.toLower ++ "'"

/-- Whether lines of severity `s` are written when `least` is the least severity. -/
def enabled (least s : Severity) : Bool := least.rank ≤ s.rank

theorem name_inj {s s' : Severity} : s.name = s'.name ↔ s = s' := by
  cases s <;> cases s' <;> decide

/-- From trace through info, warn and error up to fatal, the severities that are written are the
least one and those after it. -/
theorem enabled_iff {least s : Severity} :
    least.enabled s = true ↔ s ∈ [trace, info, warn, error, fatal].dropWhile (· != least) := by
  cases least <;> cases s <;> decide

end Severity

/-- What is logged. -/
inductive Event where
  | configLoaded
  /-- Serving begins. -/
  | serveStart
  /-- Serving has come to the end of its input. -/
  | serveStop
  | datasetsLoaded
  | datasetAdded
  | datasetRemoved
  /-- A file, record or directory was left out. -/
  | recordSkipped
  | queryReceived
  | queryExecuted
  | queryRejected
  | queryTooLarge
  | queryFailed
  deriving DecidableEq, Repr

namespace Event

/-- All events. -/
def all : List Event :=
  [configLoaded, serveStart, serveStop, datasetsLoaded, datasetAdded, datasetRemoved,
    recordSkipped, queryReceived, queryExecuted, queryRejected, queryTooLarge, queryFailed]

/-- The name of an event. -/
def name : Event → String
  | .configLoaded => "CONFIG_LOADED"
  | .serveStart => "SERVE_START"
  | .serveStop => "SERVE_STOP"
  | .datasetsLoaded => "DATASETS_LOADED"
  | .datasetAdded => "DATASET_ADDED"
  | .datasetRemoved => "DATASET_REMOVED"
  | .recordSkipped => "RECORD_SKIPPED"
  | .queryReceived => "QUERY_BEGIN"
  | .queryExecuted => "QUERY_COMPLETE"
  | .queryRejected => "QUERY_REJECTED"
  | .queryTooLarge => "QUERY_TOO_LARGE"
  | .queryFailed => "QUERY_FAILED"

/-- The event of that name. -/
def ofName? (name : String) : Option Event := all.find? (·.name = name)

/-- The severity at which an event is logged. -/
def severity : Event → Severity
  | .recordSkipped | .queryRejected | .queryTooLarge => .warn
  | .queryFailed => .error
  | _ => .info

end Event

/-- A log line before it is written. -/
structure LogLine where
  severity : Severity
  event : String
  fields : List (String × String)
  deriving DecidableEq, Repr

/-- A line for an event, at the event's severity. -/
def Event.line (e : Event) (fields : List (String × String)) : LogLine :=
  ⟨e.severity, e.name, fields⟩

namespace LogLine

/-- Control characters: those below the space, and those from delete to the end of the second
control block. -/
def isControl (c : Char) : Bool := c.toNat < 0x20 || (0x7F ≤ c.toNat && c.toNat < 0xA0)

/-- A character inside a logged text. -/
def escape (c : Char) : List Char :=
  if c = '"' then ['\\', '"']
  else if c = '\\' then ['\\', '\\']
  else if c = '\n' then ['\\', 'n']
  else if c = '\r' then ['\\', 'r']
  else if c = '\t' then ['\\', 't']
  else if isControl c then '\\' :: 'u' :: Json.hexCode c.toNat
  else [c]

/-- A logged text with its quotes. -/
def quote (s : String) : List Char := '"' :: (s.toList.flatMap escape ++ ['"'])

/-- A field, led by the comma that sets it off. -/
def showField (field : String × String) : List Char :=
  ',' :: (quote field.1 ++ ':' :: quote field.2)

/-- The fields in the order of their keys. -/
def sortedFields (line : LogLine) : List (String × String) :=
  line.fields.mergeSort fun a b => compare a.1 b.1 != .gt

/-- The characters of a line. -/
def chars (line : LogLine) : List Char :=
  '\x7b' :: (quote "event" ++ ':' :: quote line.event ++ showField ("severity", line.severity.name)
    ++ line.sortedFields.flatMap showField ++ ['\x7d', '\n'])

/-- The text of a line. -/
def text (line : LogLine) : String := String.ofList line.chars

end LogLine

/-- The lines that are written when `least` is the least severity. -/
def enabledLines (least : Severity) (lines : List LogLine) : List LogLine :=
  lines.filter fun line => least.enabled line.severity

/-- The text that is written for some lines when `least` is the least severity. -/
def writtenLog (least : Severity) (lines : List LogLine) : String :=
  String.join ((enabledLines least lines).map LogLine.text)

/-! ### Scopes -/

/-- A stretch of work that is logged at its begin and at its end. Its fields appear in every one
of its lines. -/
structure Scope where
  name : String
  fields : List (String × String)
  deriving DecidableEq, Repr

namespace Scope

/-- The line of an event of the scope. -/
def line (s : Scope) (e : Event) (extra : List (String × String)) : LogLine :=
  e.line (s.fields ++ extra)

/-- The line of a scope that is left without an end. -/
def incompleteLine (s : Scope) : LogLine :=
  ⟨.warn, s.name ++ "_INCOMPLETE", s.fields ++ [("reason", "scope dropped without completion")]⟩

end Scope

/-- A scope between its begin and the moment when it is left. -/
structure OpenScope where
  scope : Scope
  /-- Whether an end has been logged. -/
  ended : Bool
  log : List LogLine
  deriving DecidableEq, Repr

/-- Begins a scope with an event. -/
def Scope.begin (s : Scope) (e : Event) : OpenScope := ⟨s, false, [s.line e []]⟩

namespace OpenScope

/-- Takes in what the work inside the scope logs. -/
def during (o : OpenScope) (lines : List LogLine) : OpenScope := { o with log := o.log ++ lines }

/-- Ends the scope with an event. -/
def endWith (o : OpenScope) (e : Event) (extra : List (String × String)) : OpenScope :=
  { o with ended := true, log := o.log ++ [o.scope.line e extra] }

/-- Leaves the scope: if it has not been ended, that is logged. -/
def leave (o : OpenScope) : List LogLine :=
  if o.ended then o.log else o.log ++ [o.scope.incompleteLine]

end OpenScope

end Campus
