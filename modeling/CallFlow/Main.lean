import CallFlow.CommandLine

/-!
# The program

Runs the command line on the files and variables of the machine and prints what it shows.
-/

namespace CallFlow.CommandLine

/-- The cause of a failed operation on a file. Causes that are not told apart count as a missing
file. -/
def fileFault : IO.Error → FileFault
  | .alreadyExists .. => .alreadyExists
  | .inappropriateType .. => .isDirectory
  | _ => .missing

/-- The result of an operation on a file. -/
def caught {α : Type} (operation : IO α) : IO (Except FileFault α) := do
  try
    return .ok (← operation)
  catch e =>
    return .error (fileFault e)

instance : MonadFiles IO where
  readText p := caught (IO.FS.readFile p.text)
  makeDirectories p := caught (IO.FS.createDirAll p.text)
  writeText p text := caught (IO.FS.writeFile p.text text)

/-- The variables that settings are read from. -/
def variableNames : List String :=
  ["IVRFLOW_LOG_LEVEL", "IVRFLOW_FLOWS_DIR", "IVRFLOW_SCRIPTS_DIR",
    "IVRFLOW_DEFAULT_DEAD_BRANCH_POLICY", "IVRFLOW_AGI_CONTEXT", "IVRFLOW_REPROMPT_LIMIT"]

/-- The variables of the environment that settings are read from. -/
def environment : IO (List (String × String)) :=
  variableNames.filterMapM fun name => do
    return (← IO.getEnv name).map fun value => (name, value)

/-- What is shown, as lines. -/
def printed : Display → String
  | .row cells => "  ".intercalate cells
  | .panel text => text
  | .outline text => text

/-- The reason of a breakdown, in words. -/
def reason : Breakdown → String
  | .settings issues =>
    "Invalid settings: " ++ ", ".intercalate (issues.map fun i => i.kind.name)
  | .logLevel name => "Unknown log level: " ++ name
  | .file .missing => "No such file or directory."
  | .file .isDirectory => "Is a directory."
  | .file .notDirectory => "Not a directory."
  | .file .alreadyExists => "File exists."
  | .numberOutOfRange => "A number is out of range."
  | .halfPair => "Half of a pair of units is no character."
  | .nameless path => "The path " ++ path.text ++ " has no last name."
  | .options _ => "The options of a block are not a mapping."
  | .unitMissing label => "The script has no unit " ++ label ++ "."
  | .unopenedTag => "A text has a tag that closes nothing."

/-- How the command is called. -/
def usage : String :=
  "Usage: ivrflow [--verbose] " ++ "|".intercalate (CommandName.all.map CommandName.name) ++ " ..."

end CallFlow.CommandLine

open CallFlow.CommandLine

/-- Runs the program. -/
def main (args : List String) : IO UInt32 := do
  let outcome ← run (m := IO) (← environment) args
  for shown in outcome.shown do
    IO.println (printed shown)
  match outcome.stop with
  | some .help => IO.println usage
  | some .usage => IO.eprintln usage
  | some (.broken cause) => IO.eprintln (reason cause)
  | some .refused | none => pure ()
  return outcome.exitCode.toUInt32
