import CallFlow.Document
import CallFlow.FileTree
import CallFlow.Yaml.Writer

/-!
# Files of flows

The document of a flow in a file, in the format that the suffix of the file's name tells: YAML for
`.yaml` and `.yml`, in letters of either case, and JSON for every other one.
-/

namespace CallFlow

/-- The formats of files. -/
inductive FileFormat where
  | json
  | yaml
  deriving DecidableEq, Repr

/-- The format of the file at a path. -/
def Path.format (p : Path) : FileFormat :=
  let suffix := p.suffix.toList.map Char.toLower
  if suffix = ".yaml".toList || suffix = ".yml".toList then .yaml else .json

/-- Why a file holds no flow. -/
inductive FlowFileFault where
  | file (fault : FileFault)
  | notJson
  /-- The file at the path is not in YAML. -/
  | notYaml (path : String)
  /-- A number in the text stands for nothing. -/
  | numberOutOfRange
  /-- Half of a pair of units in the text is no character. -/
  | halfPair
  | document (fault : DocumentFault)
  deriving DecidableEq, Repr

/-- Why a file holds no flow, in words, where its text is at fault. -/
def FlowFileFault.message? : FlowFileFault → Option String
  | notJson => some "Invalid JSON"
  | notYaml path => some ("Invalid YAML in " ++ path)
  | document fault => some fault.message
  | file _ | numberOutOfRange | halfPair => none

namespace FlowFile

/-- Reads the flow in the text of the file at a path. -/
def read (p : Path) (text : String) : Except FlowFileFault Flow :=
  match p.format with
  | .json =>
    match Document.read text with
    | .ok f => .ok f
    | .error (.text .malformed) => .error .notJson
    | .error (.text .numberTooLong) => .error .numberOutOfRange
    | .error (.text .halfPair) => .error .halfPair
    | .error (.document fault) => .error (.document fault)
  | .yaml =>
    match Yaml.read text with
    | .ok v => (Document.toFlow v).mapError .document
    | .error .malformed => .error (.notYaml p.text)
    | .error .numberOutOfRange => .error .numberOutOfRange

/-- The text of a flow for the file at a path. -/
def write (p : Path) (f : Flow) : String :=
  match p.format with
  | .json => Document.write (some 2) f ++ "\n"
  | .yaml => Yaml.write (Document.ofFlow f)

/-- The flow in the file at a path. -/
def load {m : Type → Type} [Monad m] [MonadFiles m] (p : Path) : m (Except FlowFileFault Flow) := do
  match ← MonadFiles.readText p with
  | .ok text => return read p text
  | .error fault => return .error (.file fault)

/-- Writes a flow to the file at a path. -/
def save {m : Type → Type} [MonadFiles m] (p : Path) (f : Flow) : m (Except FileFault Unit) :=
  MonadFiles.writeText p (write p f)

end FlowFile

end CallFlow
