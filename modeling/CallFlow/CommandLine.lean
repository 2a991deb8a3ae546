import CallFlow.CommandLine.Arguments
import CallFlow.Compilation
import CallFlow.Dialplan
import CallFlow.FlowFile
import CallFlow.Outline
import CallFlow.Settings
import CallFlow.Simulation
import CallFlow.Template
import CallFlow.Text.Markup
import CallFlow.Validation

/-!
# The command line

The commands that write, check, compile, outline and simulate flows in files. A run
(`CommandLine.run`) shows tables and panels and ends in one of a few ways (`Stop`). The files that
it reads and writes are reached through `MonadFiles`, so that a run on a tree of files in memory is
a pure function.
-/

namespace CallFlow

namespace CommandLine

/-! ## What a run shows and how it ends -/

/-- What is shown. -/
inductive Display where
  /-- A row of a table. -/
  | row (cells : List String)
  | panel (text : String)
  | outline (text : String)
  deriving DecidableEq, Repr

/-- Why a run breaks off without a word about it. -/
inductive Breakdown where
  | settings (issues : List Issue)
  /-- The name of a log level is not known. -/
  | logLevel (name : String)
  | file (fault : FileFault)
  /-- A number stands for nothing that can be computed with. -/
  | numberOutOfRange
  /-- Half of a pair of units in a file is no character. -/
  | halfPair
  /-- A path has no last name that could get a suffix. -/
  | nameless (path : Path)
  /-- The options of an unknown block are not a mapping. -/
  | options (fault : PairFault)
  /-- A unit of a script is missing. -/
  | unitMissing (label : String)
  /-- A text that was to be shown has a tag that closes nothing. -/
  | unopenedTag
  deriving DecidableEq, Repr

/-- How a run ends before it is done. -/
inductive Stop where
  /-- The arguments are not in the form of the command. -/
  | usage
  /-- The form of the arguments was asked for. -/
  | help
  /-- The command was refused, and the reason was shown. -/
  | refused
  | broken (cause : Breakdown)
  deriving DecidableEq, Repr

/-- The outcome of a run: what was shown, and how it ended if it was not done. -/
structure Outcome where
  shown : List Display
  stop : Option Stop
  deriving DecidableEq, Repr

/-- The number that a run ends with. -/
def Outcome.exitCode (o : Outcome) : Nat :=
  match o.stop with
  | none | some .help => 0
  | some .refused | some (.broken _) => 1
  | some .usage => 2

/-! ## Commands -/

/-- The commands by name. -/
inductive CommandName where
  | init
  | templates
  | new
  | validate
  | compile
  | explain
  | simulate
  deriving DecidableEq, Repr

namespace CommandName

/-- All commands. -/
def all : List CommandName := [init, templates, new, validate, compile, explain, simulate]

/-- The name of a command. -/
def name : CommandName → String
  | init => "init"
  | templates => "templates"
  | new => "new"
  | validate => "validate"
  | compile => "compile"
  | explain => "explain"
  | simulate => "simulate"

/-- The command of a name. -/
def ofName? (s : String) : Option CommandName := all.find? (·.name = s)

end CommandName

/-- The option that asks for the form of the arguments. -/
def helpForm : OptionForm := ⟨"--help", none, false⟩

/-- The option that sets the log level. -/
def verboseForm : OptionForm := ⟨"--verbose", some 'v', false⟩

/-- An option with a value and a long name. -/
def valued (long : String) : OptionForm := ⟨long, none, true⟩

/-- The options before the name of a command. -/
def generalForms : List OptionForm := [verboseForm, helpForm]

/-- The options of a command. -/
def CommandName.forms : CommandName → List OptionForm
  | init | templates | validate | explain => [helpForm]
  | new => [valued "--template", valued "--name", valued "--outdir", helpForm]
  | compile => [valued "--on-dead-branch", valued "--format", valued "--out", helpForm]
  | simulate => [⟨"--input", some 'i', true⟩, valued "--on-dead-branch", helpForm]

/-- A command with what it is to work on. -/
inductive Command where
  | init
  | templates
  | new (template name : String) (outdir : Option Path)
  | validate (file : Path)
  | compile (file : Path) (policy : Option Policy) (format : String) (out : Option Path)
  | explain (file : Path)
  | simulate (file : Path) (inputs : List String) (policy : Option Policy)
  deriving DecidableEq, Repr

namespace Command

/-- The policy that is asked for, if any; it must be one. -/
def policy? (a : Arguments) : Option (Option Policy) :=
  match a.value? "--on-dead-branch" with
  | none => some none
  | some s => (Policy.ofName? s).map some

/-- The only word, as the path of a file. -/
def file? (a : Arguments) : Option Path :=
  match a.words with
  | [w] => some (.ofText w)
  | _ => none

/-- The command of a name and its arguments, if they are complete and not too many. -/
def ofArguments? (name : CommandName) (a : Arguments) : Option Command :=
  match name with
  | .init => if a.words.isEmpty then some .init else none
  | .templates => if a.words.isEmpty then some .templates else none
  | .new => do
    let template ← a.value? "--template"
    if a.words.isEmpty then
      some (.new template ((a.value? "--name").getD "flow") ((a.value? "--outdir").map Path.ofText))
    else none
  | .validate => (file? a).map .validate
  | .explain => (file? a).map .explain
  | .compile => do
    let file ← file? a
    let policy ← policy? a
    some (.compile file policy ((a.value? "--format").getD "json")
      ((a.value? "--out").map Path.ofText))
  | .simulate => do
    let file ← file? a
    let policy ← policy? a
    some (.simulate file (a.values "--input") policy)

end Command

/-! ## Running -/

/-- A run that may stop early and keeps what was shown. -/
abbrev Run (m : Type → Type) (α : Type) := ExceptT Stop (StateT (List Display) m) α

variable {m : Type → Type} [Monad m]

/-- Shows something behind what was shown before. -/
def display (d : Display) : Run m Unit := modify (· ++ [d])

/-- Stops without a word. -/
def breakOff {α : Type} (cause : Breakdown) : Run m α := throw (.broken cause)

/-- Shows a text with tags. -/
def panel (text : String) : Run m Unit :=
  match Text.Markup.plain? text with
  | some text => display (.panel text)
  | none => breakOff .unopenedTag

/-- Shows a table, whose cells are texts with tags. Nothing of it is shown if one is at fault. -/
def table (rows : List (List String)) : Run m Unit :=
  match rows.mapM fun cells => cells.mapM Text.Markup.plain? with
  | some rows => modify (· ++ rows.map Display.row)
  | none => breakOff .unopenedTag

/-- A text in a style. The text may have tags of its own. -/
def styled (style text : String) : String := "[" ++ style ++ "]" ++ text ++ "[/]"

/-- Stops with a reason that is shown. -/
def refuse {α : Type} (reason : String) : Run m α := do
  panel (styled "bold red" (Text.Markup.escape reason))
  throw .refused

/-- The result of an operation on files. -/
def ofFile {α : Type} (result : Except FileFault α) : Run m α :=
  match result with
  | .ok a => pure a
  | .error fault => breakOff (.file fault)

/-- The settings. They may be wrong as long as nothing asks for them. -/
def settingsOf (settings : Except (List Issue) Settings) : Run m Settings :=
  match settings with
  | .ok s => pure s
  | .error issues => breakOff (.settings issues)

/-- The names of the log levels. -/
def logLevels : List String :=
  ["CRITICAL", "FATAL", "ERROR", "WARN", "WARNING", "INFO", "DEBUG", "NOTSET"]

/-- The capital of a letter that can stand in the name of a log level. Two letters outside ASCII
have an ASCII capital. -/
def capital (c : Char) : Char :=
  if c = 'ı' then 'I' else if c = 'ſ' then 'S' else c.toUpper

/-- Whether a log level is known, in letters of either case. -/
def isLogLevel (s : String) : Bool := logLevels.contains (String.ofList (s.toList.map capital))

/-- The flow in a file. -/
def loadFlow [MonadFiles m] (file : Path) : Run m Flow := do
  match ← (FlowFile.load file : m _) with
  | .ok f => pure f
  | .error fault =>
    match fault.message?, fault with
    | some reason, _ => refuse reason
    | none, .file fault => breakOff (.file fault)
    | none, .halfPair => breakOff .halfPair
    | none, _ => breakOff .numberOutOfRange

/-- What unconnected options do: as given, or as the settings say. -/
def choosePolicy (settings : Except (List Issue) Settings) (given : Option Policy) :
    Run m Policy := do
  match given with
  | some p => pure p
  | none =>
    match (← settingsOf settings).policy with
    | some p => pure p
    | none =>
      refuse ("Choose what unconnected options do: --on-dead-branch reprompt|hangup " ++
        "(or set IVRFLOW_DEFAULT_DEAD_BRANCH_POLICY).")

/-- The script of the flow in a file. Where the flow has errors, they are shown as a table. -/
def compileFile [MonadFiles m] (file : Path) (policy : Policy) : Run m Script := do
  let f ← loadFlow file
  match f.compile policy with
  | .ok s => pure s
  | .error (.notCompilable errors) =>
    table (["Status", "Code", "Message"] :: errors.map fun e =>
      [e.severity.mark, e.code.name, Text.Markup.escape e.message])
    refuse (CompileFault.notCompilable errors).message
  | .error .handleTooLong => breakOff .numberOutOfRange
  | .error fault => refuse fault.message

/-- What the run of a script comes to. -/
def ofCall {α : Type} (result : Except String α) : Run m α :=
  match result with
  | .ok a => pure a
  | .error label => breakOff (.unitMissing label)

/-- What the dialplan of a script comes to. -/
def ofDialplan {α : Type} (result : Except Dialplan.Fault α) : Run m α :=
  match result with
  | .ok a => pure a
  | .error (.unitMissing label) => breakOff (.unitMissing label)
  | .error .numberTooLong => breakOff .numberOutOfRange

/-- A number as it stands in a table or a panel. -/
def number (n : Nat) : String := String.ofList (Text.digits n)

/-- Makes the directories of the settings. -/
def runInit [MonadFiles m] (s : Settings) : Run m Unit := do
  ofFile (← (MonadFiles.makeDirectories s.flowsDir : m _))
  ofFile (← (MonadFiles.makeDirectories s.scriptsDir : m _))
  panel (styled "bold green" "Initialized" ++ " directories: " ++ s.flowsDir.text ++ "/, " ++
    s.scriptsDir.text ++ "/")

/-- Lists the templates and the number of their nodes. -/
def runTemplates : Run m Unit :=
  table (["Name", "Blocks"] :: Template.all.map fun t => [t.name, number t.flow.nodes.length])

/-- Saves the flow of a template as a file of its own, in a directory that is made. -/
def runNew [MonadFiles m] (settings : Except (List Issue) Settings) (template name : String)
    (outdir : Option Path) : Run m Unit := do
  match Flow.ofTemplate template with
  | .error fault => refuse fault.message
  | .ok f =>
    let dir ←
      match outdir with
      | some dir => pure dir
      | none => pure (← settingsOf settings).flowsDir
    ofFile (← (MonadFiles.makeDirectories dir : m _))
    let path := dir.join (.ofText name)
    match path.withSuffix? ".yaml" with
    | none => breakOff (.nameless path)
    | some file =>
      ofFile (← (FlowFile.save file f : m _))
      panel ("Saved template " ++ styled "bold" template ++ " to " ++ styled "cyan" file.text)

/-- Checks the flow in a file; one that cannot be compiled is refused. -/
def runValidate [MonadFiles m] (file : Path) : Run m Unit := do
  let f ← loadFlow file
  let report := f.validate
  table (["Status", "Message"] :: report.rows.map fun r => [r.1, Text.Markup.escape r.2])
  if !report.compilable then throw .refused

/-- The formats that scripts are written in. -/
inductive ScriptFormat where
  | json
  | agi
  deriving DecidableEq, Repr

/-- The name of a format, which is also the suffix of its files. -/
def ScriptFormat.name : ScriptFormat → String
  | json => "json"
  | agi => "agi"

/-- The format of a name. -/
def ScriptFormat.ofName? (s : String) : Option ScriptFormat := [json, agi].find? (·.name = s)

/-- The text of a script, whose last line is complete. -/
def scriptText (settings : Except (List Issue) Settings) (format : ScriptFormat) (s : Script) :
    Run m String := do
  match format with
  | .json => pure (s.write (some 2) ++ "\n")
  | .agi =>
    let used ← settingsOf settings
    ofDialplan (s.dialplan used.context used.repromptLimit)

/-- Compiles the flow in a file and writes the script to another one. -/
def runCompile [MonadFiles m] (settings : Except (List Issue) Settings) (file : Path)
    (policy : Option Policy) (formatName : String) (out : Option Path) : Run m Unit := do
  let some format := ScriptFormat.ofName? formatName
    | refuse ("Unknown format '" ++ formatName ++ "'. Use one of: json, agi")
  let script ← compileFile file (← choosePolicy settings policy)
  let text ← scriptText settings format script
  let target ←
    match out with
    | some p => pure p
    | none => pure ((← settingsOf settings).scriptsDir.join
        (.ofText (file.stem ++ "." ++ format.name)))
  ofFile (← (MonadFiles.makeDirectories target.parent : m _))
  ofFile (← (MonadFiles.writeText target text : m _))
  panel ("Compiled " ++ styled "bold" (number script.units.length) ++ " unit(s) to " ++
    styled "cyan" target.text)

/-- Outlines the flow in a file. -/
def runExplain [MonadFiles m] (file : Path) : Run m Unit := do
  let f ← loadFlow file
  match f.outline with
  | .ok text => display (.outline (text ++ "\n"))
  | .error .handleTooLong => breakOff .numberOutOfRange
  | .error (.options fault) => breakOff (.options fault)

/-- A step of a call as a row of a table. -/
def stepRow (index : Nat) (t : TraceStep) : List String :=
  [number (index + 1), t.name, t.kindName,
    t.input.getD "" ++ if t.reprompt then " (re-prompt)" else ""]

/-- Runs the flow in a file against inputs. -/
def runSimulate [MonadFiles m] (settings : Except (List Issue) Settings) (file : Path)
    (inputs : List String) (policy : Option Policy) : Run m Unit := do
  let script ← compileFile file (← choosePolicy settings policy)
  let used ← settingsOf settings
  let result ← ofCall (script.simulate inputs used.repromptLimit Script.defaultSteps)
  table (["#", "Block", "Kind", "Input"] ::
    result.trace.zipIdx.map fun (t, i) => stepRow i t)
  panel ("Outcome: " ++ styled "bold" result.outcome.name)

/-- Performs a command. -/
def perform [MonadFiles m] (settings : Except (List Issue) Settings) : Command → Run m Unit
  | .init => do runInit (← settingsOf settings)
  | .templates => runTemplates
  | .new template name outdir => runNew settings template name outdir
  | .validate file => runValidate file
  | .compile file policy format out => runCompile settings file policy format out
  | .explain file => runExplain file
  | .simulate file inputs policy => runSimulate settings file inputs policy

/-- Reads the arguments and performs the command. The settings are asked for the log level, unless
the arguments set it, before the arguments of the command are read. -/
def runArguments [MonadFiles m] (settings : Except (List Issue) Settings) (args : List String) :
    Run m Unit := do
  let some general := readArguments? generalForms false args | throw .usage
  if general.has helpForm.long then throw .help
  match general.words with
  | [] => throw .usage
  | word :: rest =>
    let some name := CommandName.ofName? word | throw .usage
    if !general.has verboseForm.long then
      let level := (← settingsOf settings).logLevel
      if !isLogLevel level then breakOff (.logLevel level)
    let some own := readArguments? name.forms true rest | throw .usage
    if own.has helpForm.long then throw .help
    let some command := Command.ofArguments? name own | throw .usage
    perform settings command

/-- Runs a command line. Settings come from the environment and from the file `.env`. -/
def run [MonadFiles m] (environment : List (String × String)) (args : List String) : m Outcome := do
  let file ← MonadFiles.readText (.ofText ".env")
  let settings := Settings.read environment file.toOption
  let (result, shown) ← (runArguments settings args).run.run []
  return ⟨shown, match result with | .ok () => none | .error stop => some stop⟩

end CommandLine

end CallFlow
