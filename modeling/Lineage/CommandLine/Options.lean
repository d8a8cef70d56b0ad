import Lineage.CommandLine.EnvironmentFile
import Lineage.Session.Config
import Lineage.Text.Integer

/-!
# Options

The command line names a journal and options.  An option is given once, with its value behind it or
behind a `=`.  A value does not start with a dash, unless it is a dash alone or stands behind a `=`.
Behind `--` there are no options any more.

What the command line leaves open comes from the environment, where an option has a variable, and
then from the defaults (`Options.ofArguments`).
-/

namespace Lineage.CommandLine

/-- The stores there are. -/
inductive StoreChoice where
  | memory
  | falkordb
  deriving DecidableEq, Repr

/-- The modes there are. -/
inductive ModeChoice where
  | simple
  | advanced
  deriving DecidableEq, Repr

/-- What the command line asks for. -/
structure Options where
  /-- The journal, if one is named. -/
  input : Option String := none
  /-- The store. -/
  store : StoreChoice := .memory
  /-- The address of the server. -/
  url : Option String := none
  /-- The name of the graph. -/
  graph : String := "procgraph"
  /-- The mode. -/
  mode : ModeChoice := .simple
  /-- The number of parsers. -/
  parserThreads : Nat := 2
  /-- The number of slots between two stages. -/
  ringCapacity : Nat := Session.defaultRingCapacity
  /-- The number of operations in a full batch. -/
  batchSize : Nat := Session.defaultBatchSize
  /-- Whether the first refused line ends the ingest. -/
  strict : Bool := false
  deriving DecidableEq, Repr

/-! ## Names and values -/

/-- The options that have a value. -/
inductive Setting where
  | store
  | url
  | graph
  | mode
  | parserThreads
  | ringCapacity
  | batchSize
  deriving DecidableEq, Repr

/-- The name of a setting. -/
def Setting.name : Setting → String
  | .store => "store"
  | .url => "falkordb-url"
  | .graph => "falkordb-graph"
  | .mode => "mode"
  | .parserThreads => "parser-threads"
  | .ringCapacity => "ring-capacity"
  | .batchSize => "batch-size"

/-- The variable that gives a setting which the command line leaves open. -/
def Setting.envName? : Setting → Option String
  | .url => some "FALKORDB_URL"
  | .graph => some "FALKORDB_GRAPH"
  | _ => none

/-- All settings. -/
def Setting.all : List Setting :=
  [.store, .url, .graph, .mode, .parserThreads, .ringCapacity, .batchSize]

/-- The setting with a name. -/
def Setting.ofName? (name : String) : Option Setting := all.find? fun s => s.name == name

/-- The name of the option without a value. -/
def strictName : String := "strict"

/-- The store with a name. -/
def StoreChoice.ofName? : String → Option StoreChoice
  | "memory" => some .memory
  | "falkordb" => some .falkordb
  | _ => none

/-- The mode with a name. -/
def ModeChoice.ofName? : String → Option ModeChoice
  | "simple" => some .simple
  | "advanced" => some .advanced
  | _ => none

/-- A number of things. -/
def count? (value : String) : Option Nat := Text.natural? UInt64.size value.toList

/-- Why a command line cannot be understood. -/
inductive UsageError where
  /-- There is no such option, or no place for another journal. -/
  | unexpected (argument : String)
  /-- An option is given again. -/
  | repeated (name : String)
  /-- An option has no value. -/
  | missingValue (name : String)
  /-- An option has a value and takes none. -/
  | needlessValue (name : String)
  /-- An option has a value that it does not take. -/
  | invalidValue (name value : String)
  /-- The name of the journal is empty. -/
  | emptyInput
  deriving DecidableEq, Repr

/-- The message of a usage error. -/
def UsageError.message : UsageError → String
  | .unexpected argument => "unexpected argument '" ++ argument ++ "'"
  | .repeated name => "the option --" ++ name ++ " is given twice"
  | .missingValue name => "the option --" ++ name ++ " needs a value"
  | .needlessValue name => "the option --" ++ name ++ " takes no value"
  | .invalidValue name value => "invalid value '" ++ value ++ "' for --" ++ name
  | .emptyInput => "the name of the trace is empty"

/-! ## Reading arguments -/

/-- What was read so far. -/
structure Draft where
  /-- The journal. -/
  input : Option String := none
  /-- The settings with their values. -/
  settings : List (Setting × String) := []
  /-- Whether `--strict` was given. -/
  strict : Bool := false

/-- Whether a setting takes a value. -/
def Setting.accepts (s : Setting) (value : String) : Bool :=
  match s with
  | .store => (StoreChoice.ofName? value).isSome
  | .mode => (ModeChoice.ofName? value).isSome
  | .url | .graph => true
  | .parserThreads | .ringCapacity | .batchSize => (count? value).isSome

namespace Draft

/-- The value of a setting. -/
def get? (d : Draft) (s : Setting) : Option String := d.settings.lookup s

/-- Adds a setting. -/
def add (d : Draft) (s : Setting) (value : String) : Except UsageError Draft :=
  if (d.get? s).isSome then .error (.repeated s.name)
  else if !s.accepts value then .error (.invalidValue s.name value)
  else .ok { d with settings := (s, value) :: d.settings }

/-- Adds `--strict`. -/
def addStrict (d : Draft) : Except UsageError Draft :=
  if d.strict then .error (.repeated strictName) else .ok { d with strict := true }

/-- Adds a journal. -/
def addInput (d : Draft) (path : String) : Except UsageError Draft :=
  match d.input with
  | some _ => .error (.unexpected path)
  | none => if path.isEmpty then .error .emptyInput else .ok { d with input := some path }

/-- Adds arguments none of which is an option. -/
def addInputs (d : Draft) : List String → Except UsageError Draft
  | [] => .ok d
  | path :: paths =>
    match d.addInput path with
    | .error e => .error e
    | .ok d => d.addInputs paths

end Draft

/-- The kinds of arguments. -/
inductive Argument where
  /-- The end of the options. -/
  | endOfOptions
  /-- An option with its value, if it has one behind a `=`. -/
  | long (name : String) (value : Option String)
  /-- Options of one letter each. -/
  | short (letters : List Char)
  /-- Anything else. -/
  | plain (text : String)
  deriving DecidableEq, Repr

/-- The kind of an argument. -/
def Argument.ofString (text : String) : Argument :=
  match text.toList with
  | ['-', '-'] => .endOfOptions
  | '-' :: '-' :: cs =>
    let name := String.ofList (cs.takeWhile (· != '='))
    match cs.dropWhile (· != '=') with
    | [] => .long name none
    | _ :: value => .long name (some (String.ofList value))
  | '-' :: c :: cs => .short (c :: cs)
  | _ => .plain text

/-- The value that an argument gives to the option in front of it. -/
def Argument.value? : Argument → Option String
  | .plain text => some text
  | _ => none

/-- What a command line is for. -/
inductive Request where
  /-- To show how it is used. -/
  | help
  /-- To run. -/
  | run (d : Draft)

/-- Reads arguments. -/
def readArguments (d : Draft) : List String → Except UsageError Request
  | [] => .ok (.run d)
  | a :: rest =>
    match Argument.ofString a with
    | .endOfOptions => (d.addInputs rest).map .run
    | .short ('h' :: _) => .ok .help
    | .short _ => .error (.unexpected a)
    | .plain text =>
      match d.addInput text with
      | .error e => .error e
      | .ok d => readArguments d rest
    | .long name value =>
      if name = "help" then
        if value.isSome then .error (.needlessValue name) else .ok .help
      else if name = strictName then
        if value.isSome then .error (.needlessValue name)
        else
          match d.addStrict with
          | .error e => .error e
          | .ok d => readArguments d rest
      else
        match Setting.ofName? name, value, rest with
        | none, _, _ => .error (.unexpected a)
        | some s, some value, rest =>
          match d.add s value with
          | .error e => .error e
          | .ok d => readArguments d rest
        | some _, none, [] => .error (.missingValue name)
        | some s, none, b :: rest =>
          match (Argument.ofString b).value? with
          | none => .error (.missingValue name)
          | some value =>
            match d.add s value with
            | .error e => .error e
            | .ok d => readArguments d rest

/-! ## Defaults -/

/-- The value of a setting in a draft, or else in its variable. -/
def Draft.getOr? (env : Environment) (d : Draft) (s : Setting) : Option String :=
  (d.get? s).or (s.envName?.bind fun name => env.lookup name)

/-- The options of a draft and an environment. -/
def Options.ofDraft (env : Environment) (d : Draft) : Options :=
  let defaults : Options := {}
  let count (s : Setting) (n : Nat) : Nat := ((d.get? s).bind count?).getD n
  { input := d.input
    store := ((d.get? .store).bind StoreChoice.ofName?).getD defaults.store
    url := d.getOr? env .url
    graph := (d.getOr? env .graph).getD defaults.graph
    mode := ((d.get? .mode).bind ModeChoice.ofName?).getD defaults.mode
    parserThreads := count .parserThreads defaults.parserThreads
    ringCapacity := count .ringCapacity defaults.ringCapacity
    batchSize := count .batchSize defaults.batchSize
    strict := d.strict }

/-- The options of a command line, or nothing if it asks for help. -/
def Options.ofArguments (env : Environment) (args : List String) :
    Except UsageError (Option Options) :=
  match readArguments {} args with
  | .error e => .error e
  | .ok .help => .ok none
  | .ok (.run d) => .ok (some (.ofDraft env d))

end Lineage.CommandLine
