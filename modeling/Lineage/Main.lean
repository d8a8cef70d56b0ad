import Lineage.CommandLine.Run

/-!
# The program

The program gathers its surroundings, runs its command line and leaves the result.  The journal is
read only when the plan asks for it.
-/

namespace Lineage.CommandLine

/-- The words for an error of the system, with its number. -/
def systemReason : IO.Error → String
  | .noFileOrDirectory _ code details | .permissionDenied _ code details
  | .inappropriateType _ code details => details ++ " (os error " ++ toString code ++ ")"
  | e => toString e

/-- Reads a stream to its end, or as far as it can be read. -/
partial def readAll (stream : IO.FS.Stream) (done : ByteArray) : IO Audit.Source := do
  match ← (stream.read 65536).toBaseIO with
  | .error e => return { bytes := done.toList, failure := some (systemReason e) }
  | .ok chunk =>
    if chunk.isEmpty then return { bytes := done.toList }
    readAll stream (done ++ chunk)

/-- The variables that matter beside an environment file. -/
def variableNames (file : Option String) : List String :=
  noFileVariable :: Setting.all.filterMap Setting.envName? ++
    file.toList.flatMap EnvironmentFile.names

/-- The variables that matter and are there. -/
def readEnvironment (file : Option String) : IO Environment :=
  (variableNames file).filterMapM fun name => do
    return (← IO.getEnv name).map fun value => (name, value)

/-- The environment file of the working directory, if there is one. -/
def readEnvironmentFile : IO (Option String) := do
  try return some (← IO.FS.readFile ".env") catch _ => return none

/-- The journal of a plan, as far as it can be read, or why it cannot be opened. -/
def readInput : Input → IO (Except String Audit.Source)
  | .stdin => do return .ok (← readAll (← IO.getStdin) .empty)
  | .file path => do
    match ← (IO.FS.Handle.mk path .read).toBaseIO with
    | .error e => return .error (systemReason e)
    | .ok handle => return .ok (← readAll (.ofHandle handle) .empty)

/-- Runs the program with its arguments. -/
def runProgram (args : List String) : IO UInt32 := do
  let file ← readEnvironmentFile
  let bare : Surroundings :=
    { arguments := args
      environment := ← readEnvironment file
      environmentFile := file
      stdin := { bytes := [] }
      file := fun _ => .ok { bytes := [] }
      server := fun _ => { outage := some "there is no client for servers" } }
  let w ← match bare.plan with
    | .error _ => pure bare
    | .ok plan =>
      let input ← readInput plan.input
      pure { bare with stdin := input.toOption.getD { bytes := [] }, file := fun _ => input }
  let r := w.run
  (← IO.getStdout).putStr r.stdout
  (← IO.getStderr).putStr r.stderr
  return r.exit.toUInt32

end Lineage.CommandLine

/-- Runs the program. -/
def main (args : List String) : IO UInt32 := Lineage.CommandLine.runProgram args
