import Lineage.CommandLine.Options

/-!
# The help page

The page that `--help` asks for: what the program is for, how it is called, and an entry for each
argument.  An option has its names on one line and its text on the next, since the longest text does
not fit beside the longest name.  Behind the text stand remarks in brackets: the variable of the
option with its value, the default, and the values there are.
-/

namespace Lineage.CommandLine

/-- How the program is called. -/
def usageLine : String := "Usage: procgraph-ingest [OPTIONS] [TRACE]\n"

/-- The place of the value of a setting. -/
def Setting.placeholder (s : Setting) : String :=
  "<" ++ String.ofList (s.name.toList.map fun c => if c = '-' then '_' else c.toUpper) ++ ">"

/-- What a setting is for, if that is not plain from its name. -/
def Setting.about? : Setting → Option String
  | .store => some "Graph store backend"
  | .url => some "FalkorDB connection URL (required when the store is falkordb)"
  | .graph => some "FalkorDB graph name"
  | .mode =>
    some "Threading mode. \x60advanced\x60 honours --parser-threads and --ring-capacity"
  | .parserThreads => none
  | .ringCapacity => some "Slots per ring channel; must be a power of two"
  | .batchSize => some "Graph operations per store transaction"

/-- The default of a setting as it is written, if it has one. -/
def Setting.default? (s : Setting) : Option String :=
  let defaults : Options := {}
  match s with
  | .store => some "memory"
  | .url => none
  | .graph => some defaults.graph
  | .mode => some "simple"
  | .parserThreads => some (toString defaults.parserThreads)
  | .ringCapacity => some (toString defaults.ringCapacity)
  | .batchSize => some (toString defaults.batchSize)

/-- The values of a setting that has a choice of them. -/
def Setting.choices? : Setting → Option String
  | .store => some "memory, falkordb"
  | .mode => some "simple, advanced"
  | _ => none

/-- The remarks on a setting. -/
def Setting.remarks (env : Environment) (s : Setting) : List String :=
  (s.envName?.map fun name => "[env: " ++ name ++ "=" ++ (env.lookup name).getD "" ++ "]").toList ++
    (s.default?.map fun value => "[default: " ++ value ++ "]").toList ++
    (s.choices?.map fun values => "[possible values: " ++ values ++ "]").toList

/-- The entry of an option. -/
def helpEntry (names text : String) : String := "  " ++ names ++ "\n          " ++ text ++ "\n"

/-- The entry of a setting. -/
def Setting.helpEntry (env : Environment) (s : Setting) : String :=
  CommandLine.helpEntry ("    --" ++ s.name ++ " " ++ s.placeholder)
    (" ".intercalate (s.about?.toList ++ s.remarks env))

/-- The help page. -/
def helpPage (env : Environment) : String :=
  "Build a process lineage graph from an audit trace\n\n" ++ usageLine ++
  "\nArguments:\n  [TRACE]  Trace file to ingest. Reads stdin when omitted or \x60-\x60\n" ++
  "\nOptions:\n" ++ String.join (Setting.all.map (Setting.helpEntry env)) ++
  helpEntry ("    --" ++ strictName) "Abort on the first invalid record instead of skipping it" ++
  helpEntry "-h, --help" "Print help"

end Lineage.CommandLine
