import Campus.Command

/-!
# Command lines

A command line names a command and gives it settings, as `--id text` or `--id=text`. The
arguments are taken from left to right, and the first fault ends the reading. A setting whose
value is an argument of its own waits until the next setting begins or the line ends, and only
then is its value looked at; so an argument that fits nowhere is found before a bad value.
-/

namespace Campus

/-- Why a command line gives no command. -/
inductive ArgumentFault where
  /-- Nothing is asked for. -/
  | noCommand
  | unknownCommand
  | unknownArgument
  /-- Help is asked for. -/
  | helpWanted
  /-- The version is asked for. -/
  | versionWanted
  /-- A setting has no value, or an empty one that may not be empty. -/
  | missingValue
  /-- A value that no kind has as its name. -/
  | unknownKind
  /-- A value for a setting that takes none. -/
  | unneededValue
  /-- A setting is given twice. -/
  | repeatedSetting
  /-- A setting that the command needs is not given. -/
  | missingSetting
  deriving DecidableEq, Repr

/-- The form of an argument. -/
inductive Argument where
  /-- Two dashes: all that follows is plain. -/
  | escape
  /-- Two dashes and a name, possibly with a value after an equals sign. -/
  | long (name : String) (value : Option String)
  /-- A dash and letters, of which the first counts. -/
  | short (letter : Char)
  | plain (text : String)
  deriving DecidableEq, Repr

/-- The parts of a long argument before and after the first equals sign. -/
def splitAtEquals (cs : List Char) : String × Option String :=
  match cs.dropWhile (· != '=') with
  | [] => (String.ofList cs, none)
  | _ :: value => (String.ofList (cs.takeWhile (· != '=')), some (String.ofList value))

/-- The form of an argument. -/
def Argument.ofText (text : String) : Argument :=
  match text.toList with
  | ['-', '-'] => .escape
  | '-' :: '-' :: rest =>
    let (name, value) := splitAtEquals rest
    .long name value
  | '-' :: letter :: _ => .short letter
  | _ => .plain text

/-! ### Settings -/

/-- What can be set. -/
inductive Setting where
  | config
  | id
  | kind
  | file
  deriving DecidableEq, Repr

/-- The name of a setting. -/
def Setting.name : Setting → String
  | .config => "config"
  | .id => "id"
  | .kind => "kind"
  | .file => "file"

/-- The values of settings. -/
structure Settings where
  config : Option String
  id : Option String
  kind : Option Kind
  file : Option String
  deriving DecidableEq, Repr

namespace Settings

/-- No setting has a value. -/
def none : Settings := ⟨.none, .none, .none, .none⟩

/-- Whether a setting has a value. -/
def has (s : Settings) : Setting → Bool
  | .config => s.config.isSome
  | .id => s.id.isSome
  | .kind => s.kind.isSome
  | .file => s.file.isSome

/-- Gives a setting its value. Places may not be empty, but ids may. -/
def set (s : Settings) (setting : Setting) (value : String) : Except ArgumentFault Settings :=
  if s.has setting then .error .repeatedSetting
  else
    match setting with
    | .config => if value.isEmpty then .error .missingValue else .ok { s with config := value }
    | .file => if value.isEmpty then .error .missingValue else .ok { s with file := value }
    | .id => .ok { s with id := value }
    | .kind =>
      match Kind.ofName? value with
      | some kind => .ok { s with kind := kind }
      | .none => .error .unknownKind

end Settings

/-- A setting that waits: for its value, or with its value for the next setting. -/
structure Waiting where
  setting : Setting
  value : Option String
  deriving DecidableEq, Repr

/-- The settings, with the one that waits taken in. -/
def Settings.resolve (s : Settings) : Option Waiting → Except ArgumentFault Settings
  | .none => .ok s
  | some ⟨_, .none⟩ => .error .missingValue
  | some ⟨setting, some value⟩ => s.set setting value

/-- Reads the arguments of a command that can have the settings `allowed`. -/
def readSettings (allowed : List Setting) (s : Settings) (waiting : Option Waiting) :
    List String → Except ArgumentFault Settings
  | [] => s.resolve waiting
  | argument :: arguments =>
    match Argument.ofText argument with
    | .escape => if arguments.isEmpty then s.resolve waiting else .error .unknownArgument
    | .short letter =>
      if letter = 'h' then (s.resolve waiting).bind fun _ => .error .helpWanted
      else .error .unknownArgument
    | .long name value =>
      if name = "help" then
        match value with
        | none => (s.resolve waiting).bind fun _ => .error .helpWanted
        | some _ => .error .unneededValue
      else
        match allowed.find? fun setting => setting.name = name with
        | none => .error .unknownArgument
        | some setting =>
          match s.resolve waiting with
          | .error e => .error e
          | .ok s =>
            match value with
            | none => readSettings allowed s (some ⟨setting, none⟩) arguments
            | some value =>
              match s.set setting value with
              | .error e => .error e
              | .ok s => readSettings allowed s none arguments
    | .plain text =>
      match waiting with
      | some ⟨setting, none⟩ => readSettings allowed s (some ⟨setting, some text⟩) arguments
      | _ => .error .unknownArgument

/-! ### Commands -/

/-- The commands by name. -/
inductive Verb where
  | query
  | start
  | datasets
  | add
  | remove
  deriving DecidableEq, Repr

namespace Verb

/-- All commands. -/
def all : List Verb := [query, start, datasets, add, remove]

/-- The name of a command. -/
def name : Verb → String
  | .query => "query"
  | .start => "start"
  | .datasets => "datasets"
  | .add => "add"
  | .remove => "remove"

/-- The command of that name. -/
def ofName? (name : String) : Option Verb := all.find? fun v => v.name = name

/-- The settings that a command can have. -/
def settings : Verb → List Setting
  | .query | .start | .datasets => [.config]
  | .add => [.config, .id, .kind, .file]
  | .remove => [.config, .id]

/-- The command with its settings, if none is missing. -/
def command? (s : Settings) : Verb → Option Command
  | .query => some .query
  | .start => some .start
  | .datasets => some .datasets
  | .add => s.id.bind fun id => s.kind.bind fun kind => s.file.map fun file => .add id kind file
  | .remove => s.id.map .remove

end Verb

/-- The name that asks for help in the place of a command. -/
def helpName : String := "help"

namespace Invocation

/-- Where the configuration is unless a place is given. -/
def defaultConfig : String := "./campusdb.json"

/-- Reads the arguments of a command. -/
def ofVerb (verb : Verb) (arguments : List String) : Except ArgumentFault Invocation :=
  match readSettings verb.settings .none none arguments with
  | .error e => .error e
  | .ok settings =>
    match verb.command? settings with
    | some command => .ok ⟨settings.config.getD defaultConfig, command⟩
    | none => .error .missingSetting

/-- Why help on some names gives no command: because it is help, or because the names are not the
name of one command. -/
def helpFault : List String → ArgumentFault
  | [] => .helpWanted
  | [name] =>
    if name = helpName || (Verb.ofName? name).isSome then .helpWanted else .unknownCommand
  | _ => .unknownCommand

/-- Why an argument before any command gives none. -/
def leadingFault (name : String) (value : Option String) : ArgumentFault :=
  if name = "help" then if value.isSome then .unneededValue else .helpWanted
  else if name = "version" then if value.isSome then .unneededValue else .versionWanted
  else .unknownArgument

/-- The invocation that arguments spell. -/
def ofArguments : List String → Except ArgumentFault Invocation
  | [] => .error .noCommand
  | argument :: arguments =>
    match Argument.ofText argument with
    | .escape =>
      match arguments with
      | [] => .error .noCommand
      | name :: _ =>
        if name = helpName || (Verb.ofName? name).isSome then .error .unknownArgument
        else .error .unknownCommand
    | .long name value => .error (leadingFault name value)
    | .short letter =>
      if letter = 'h' then .error .helpWanted
      else if letter = 'V' then .error .versionWanted
      else .error .unknownArgument
    | .plain name =>
      if name = helpName then .error (helpFault arguments)
      else
        match Verb.ofName? name with
        | some verb => ofVerb verb arguments
        | none => .error .unknownCommand

end Invocation

end Campus
