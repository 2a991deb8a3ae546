import CallFlow.Fitting
import CallFlow.Path
import CallFlow.Script
import CallFlow.Settings.EnvFile

/-!
# Settings

What a command uses where nothing else is said. Settings are variables: those of the environment
come before those of a file, names may be in letters of either case, and other variables are passed
over. The issues of all settings are found.
-/

namespace CallFlow

/-- The settings of a command. -/
structure Settings where
  logLevel : String
  /-- The directory of flows. -/
  flowsDir : Path
  /-- The directory of compiled scripts. -/
  scriptsDir : Path
  /-- What unconnected options do. -/
  policy : Option Policy
  /-- The context of dialplans. -/
  context : String
  /-- How often a caller is asked in all. -/
  repromptLimit : Int
  deriving DecidableEq, Repr

namespace Settings

/-- The settings where no variable is set. -/
def default : Settings where
  logLevel := "WARNING"
  flowsDir := .ofText "flows"
  scriptsDir := .ofText "artifacts"
  policy := none
  context := "ivr-flow"
  repromptLimit := 3

/-- Variables by name. -/
abbrev Variables := List (String × Option String)

/-- The ASCII letters of a name in lower case. -/
def lower (s : String) : String := String.ofList (s.toList.map Char.toLower)

/-- Variables under lower-case names. Of names that differ in case only the last one counts. -/
def normalize (vars : Variables) : Variables :=
  Association.ofPairs (· = ·) (vars.map fun v => (lower v.1, v.2))

/-- What the names of the variables start with. -/
def nameStart : String := "ivrflow_"

/-- The variable of a setting, from the first of the sources that sets it. -/
def find? (sources : List Variables) (setting : String) : Option String :=
  sources.findSome? fun vars =>
    (Association.lookup? (· = ·) (nameStart ++ setting) vars).join

/-- The issues of a setting whose variable does not fit. -/
def unfit (setting : String) (kind : IssueKind) : List Issue := [⟨[.name setting], kind⟩]

/-- The policy of a variable. -/
def readPolicy (s : String) : Except IssueKind (Option Policy) :=
  match Policy.ofName? s with
  | some p => .ok (some p)
  | none => .error .notChoice

/-- The limit of a variable: a whole number from one on. -/
def readLimit (s : String) : Except IssueKind Int := do
  let n ← Fitting.wholeOfText s
  if 1 ≤ n then .ok n else .error .belowLeast

/-- The value of a setting: from its variable, or the given one. -/
def readSetting {α : Type} (sources : List Variables) (setting : String) (default : α)
    (read : String → Except IssueKind α) : Except (List Issue) α :=
  match find? sources setting with
  | none => .ok default
  | some s => (read s).mapError (unfit setting)

/-- The issues of a value that was not read. -/
def issuesOf {α : Type} : Except (List Issue) α → List Issue
  | .ok _ => []
  | .error issues => issues

/-- Reads the settings from the variables of the environment and the text of a file. -/
def read (environment : List (String × String)) (file : Option String) :
    Except (List Issue) Settings :=
  let env : Variables := normalize (environment.map fun v => (v.1, some v.2))
  let sources := [env, normalize ((file.map (EnvFile.read environment)).getD [])]
  let text (setting : String) (default : String) := (find? sources setting).getD default
  let path (setting : String) (default : Path) :=
    ((find? sources setting).map Path.ofText).getD default
  let policy := readSetting sources "default_dead_branch_policy" default.policy readPolicy
  let limit := readSetting sources "reprompt_limit" default.repromptLimit readLimit
  match policy, limit with
  | .ok policy, .ok limit =>
    .ok {
      logLevel := text "log_level" default.logLevel
      flowsDir := path "flows_dir" default.flowsDir
      scriptsDir := path "scripts_dir" default.scriptsDir
      policy := policy
      context := text "agi_context" default.context
      repromptLimit := limit }
  | policy, limit => .error (issuesOf policy ++ issuesOf limit)

example : (read [] none).toOption = some default := by decide +kernel
example : ((read [("ivrflow_Reprompt_Limit", "4")] (some "IVRFLOW_REPROMPT_LIMIT=5")).toOption.map
    repromptLimit) = some 4 := by decide +kernel

end Settings

end CallFlow
