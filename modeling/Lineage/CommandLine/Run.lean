import Lineage.CommandLine.HelpPage
import Lineage.Graph.Remote
import Lineage.Session.Basic
import Lineage.Session.ReportText

/-!
# Running a command line

A run starts one session, ingests one journal and prints the report.  Everything it takes from
outside is in its *surroundings*, and everything it leaves is in its *result*.

A run that cannot be understood ends with 2.  One that fails ends with 1 and says in which step and
why.  The settings are checked before the store is asked to prepare, and that happens before the
journal is opened.
-/

namespace Lineage.CommandLine

open Lineage.Audit (Source)
open Lineage.Graph (Database GraphStore Memory Remote)
open Lineage.Session (Config ConfigError)

/-! ## Plans -/

/-- Where the journal comes from. -/
inductive Input where
  /-- Standard input. -/
  | stdin
  /-- A file. -/
  | file (path : String)
  deriving DecidableEq, Repr

/-- Where the graph goes. -/
inductive Target where
  /-- Into memory. -/
  | memory
  /-- To a server. -/
  | remote (url graph : String)
  deriving DecidableEq, Repr

/-- What a run has to do. -/
structure Plan where
  /-- Where the journal comes from. -/
  input : Input
  /-- Where the graph goes. -/
  target : Target
  /-- The settings of the session. -/
  config : Config
  deriving DecidableEq, Repr

/-- Options that do not go together. -/
inductive PlanError where
  /-- The address of the server is missing. -/
  | noUrl
  /-- A setting cannot be honoured. -/
  | config (e : ConfigError)
  deriving DecidableEq, Repr

/-- The message of a plan error. -/
def PlanError.message : PlanError → String
  | .noUrl => "--falkordb-url is required for falkordb store"
  | .config e => e.message

namespace Options

/-- The journal of some options. -/
def source (o : Options) : Input :=
  match o.input with
  | some path => if path = "-" then .stdin else .file path
  | none => .stdin

/-- The target of some options. -/
def target (o : Options) : Except PlanError Target :=
  match o.store with
  | .memory => .ok .memory
  | .falkordb =>
    match o.url with
    | none => .error .noUrl
    | some url => .ok (.remote url o.graph)

/-- The settings of some options. -/
def config (o : Options) : Config where
  mode :=
    match o.mode with
    | .simple => .simple
    | .advanced => .advanced o.parserThreads o.ringCapacity
  batchSize := o.batchSize
  skipInvalid := !o.strict

/-- The plan of some options. -/
def plan (o : Options) : Except PlanError Plan :=
  match o.target with
  | .error e => .error e
  | .ok target =>
    match o.config.validate with
    | .error e => .error (.config e)
    | .ok () => .ok ⟨o.source, target, o.config⟩

end Options

/-! ## Surroundings and results -/

/-- What a run takes from outside. -/
structure Surroundings where
  /-- The arguments. -/
  arguments : List String
  /-- The environment. -/
  environment : Environment
  /-- The environment file, if there is one. -/
  environmentFile : Option String
  /-- Standard input. -/
  stdin : Source
  /-- The journal in a file, or why it cannot be opened. -/
  file : String → Except String Source
  /-- The server at an address. -/
  server : String → Database

/-- What a run leaves. -/
structure Result where
  /-- The code it ends with. -/
  exit : Nat
  /-- What it prints. -/
  stdout : String := ""
  /-- What it prints about its failure. -/
  stderr : String := ""
  /-- The server it used, if it used one. -/
  server : Option Database := none

/-- A text whose lines behind the first one are indented. -/
def indented (text : String) : String :=
  String.ofList (text.toList.flatMap fun c =>
    if c = '\n' then '\n' :: List.replicate 4 ' ' else [c])

/-- The result of a failure in a step. -/
def failure (step cause : String) : Result where
  exit := 1
  stderr := "Error: " ++ step ++ "\n\nCaused by:\n    " ++ indented cause ++ "\n"

/-- The result of a failure without a step. -/
def plainFailure (cause : String) : Result where
  exit := 1
  stderr := "Error: " ++ cause ++ "\n"

/-- The result of a command line that cannot be understood. -/
def misuse (e : UsageError) : Result where
  exit := 2
  stderr := "error: " ++ e.message ++ "\n\n" ++ usageLine ++
    "\nFor more information, try '--help'.\n"

/-- The variable that turns the environment file off. -/
def noFileVariable : String := "PROCGRAPH_NO_DOTENV"

namespace Surroundings

/-- The environment with that of the file, unless it is turned off. -/
def fullEnvironment (w : Surroundings) : Environment :=
  match w.environmentFile with
  | none => w.environment
  | some text =>
    if w.environment.has noFileVariable then w.environment else w.environment.withFile text

/-- The plan of a run, or its result if it has none. -/
def plan (w : Surroundings) : Except Result Plan :=
  match Options.ofArguments w.fullEnvironment w.arguments with
  | .error e => .error (misuse e)
  | .ok none => .error { exit := 0, stdout := helpPage w.fullEnvironment }
  | .ok (some o) =>
    match o.plan with
    | .error e => .error (failure "Failed to parse arguments" e.message)
    | .ok plan => .ok plan

/-- The journal of a plan. -/
def source (w : Surroundings) : Input → Except Result Source
  | .stdin => .ok w.stdin
  | .file path =>
    (w.file path).mapError fun reason => failure ("Failed to open trace " ++ path) reason

/-- Ingests the journal of a plan, if that comes to an end, and ends the session. -/
def ingest {σ : Type} [GraphStore σ] (w : Surroundings) (input : Input) (s : Session σ) :
    Session σ × Result :=
  match w.source input with
  | .error r => (s, r)
  | .ok source =>
    match s.ingest source with
    | (s, .error e, _) => (s, failure "Ingest failed" e.message)
    | (s, .ok report, _) =>
      match s.stop with
      | (s, .error e) => (s, plainFailure e.message)
      | (s, .ok _) => (s, { exit := 0, stdout := report.print ++ "\n" })

/-- Runs a plan over a store. -/
def runOver {σ : Type} [GraphStore σ] (w : Surroundings) (p : Plan) (store : σ) : σ × Result :=
  match ({ config := p.config, store := store } : Session σ).start with
  | (s, .error e) => (s.store, failure "Failed to start pipeline" e.message)
  | (s, .ok ()) =>
    let (s, r) := w.ingest p.input s
    (s.store, r)

/-- Runs a plan. -/
def runPlan (w : Surroundings) (p : Plan) : Result :=
  match p.target with
  | .memory => (w.runOver p ({} : Memory)).2
  | .remote url graph =>
    let (store, r) := w.runOver p ({ graph := graph, database := w.server url } : Remote)
    { r with server := some store.database }

/-- Runs a command line. -/
def run (w : Surroundings) : Result :=
  match w.plan with
  | .error r => r
  | .ok p => w.runPlan p

end Surroundings

end Lineage.CommandLine
