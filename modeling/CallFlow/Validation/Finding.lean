import CallFlow.Flow

/-!
# Findings

What a check of a flow can find. A finding names the nodes, edges and handles it is about; its code,
severity and message follow from it. Errors keep a flow from being compiled, warnings do not.
-/

namespace CallFlow

/-- Whether a finding keeps a flow from being compiled. -/
inductive Severity where
  | error
  | warning
  deriving DecidableEq, Repr

/-- The word for a severity. -/
def Severity.name : Severity → String
  | .error => "error"
  | .warning => "warning"

/-- The mark of a severity in a report. -/
def Severity.mark : Severity → String
  | .error => "ERR"
  | .warning => "WARN"

/-- What a finding is about. -/
inductive FindingCode where
  | danglingEdge
  | incompleteConfig
  | unknownBlockType
  | duplicateBranch
  | illegalOutgoingEdge
  | illegalSelfLoop
  | invalidHandle
  | ambiguousStart
  | cycleDetected
  | unreachableNode
  | deadBranch
  deriving DecidableEq, Repr

namespace FindingCode

/-- All codes. -/
def all : List FindingCode :=
  [danglingEdge, incompleteConfig, unknownBlockType, duplicateBranch, illegalOutgoingEdge,
    illegalSelfLoop, invalidHandle, ambiguousStart, cycleDetected, unreachableNode, deadBranch]

/-- The word for a code. -/
def name : FindingCode → String
  | danglingEdge => "DanglingEdge"
  | incompleteConfig => "IncompleteConfig"
  | unknownBlockType => "UnknownBlockType"
  | duplicateBranch => "DuplicateBranch"
  | illegalOutgoingEdge => "IllegalOutgoingEdge"
  | illegalSelfLoop => "IllegalSelfLoop"
  | invalidHandle => "InvalidHandle"
  | ambiguousStart => "AmbiguousStart"
  | cycleDetected => "CycleDetected"
  | unreachableNode => "UnreachableNode"
  | deadBranch => "DeadBranch"

/-- The code with the given word. -/
def ofName? (s : String) : Option FindingCode := all.find? (·.name = s)

end FindingCode

/-- What was found. -/
inductive Finding where
  /-- An edge with an end that is no node. -/
  | danglingEdge (edge source target : String) (missing : List String)
  /-- A node of a kind that is not known. -/
  | unknownBlockType (node name declared : String)
  /-- A node without any of the fields of a required group. -/
  | incompleteConfig (node name : String) (kind : BlockKind) (field : String)
  /-- A second edge for one option, or a second edge for none. -/
  | duplicateBranch (edge source : String) (handle : Option String)
  /-- An edge that leaves a node which ends the call. -/
  | illegalOutgoingEdge (edge node name : String) (kind : BlockKind)
  /-- An edge from a node to itself where the caller has no choice. -/
  | illegalSelfLoop (edge node name : String) (kind : BlockKind)
  /-- An edge without an option where one must be chosen. -/
  | optionWithheld (edge node name : String) (kind : BlockKind)
  /-- An edge for an option that its source does not declare. -/
  | optionUndeclared (edge node name handle : String)
  /-- An edge without a response code where the response decides. -/
  | responseWithheld (edge node name : String)
  /-- An edge for an option where there is nothing to choose. -/
  | optionUnexpected (edge node handle : String) (kind : BlockKind)
  /-- A start marker on a node that is missing. -/
  | startMissing (node : String)
  /-- No node or several nodes where a call could begin. -/
  | startAmbiguous (candidates : List String)
  /-- A cycle, by its members and their names. -/
  | cycle (members : List (String × String))
  /-- A node that no call reaches. -/
  | unreachable (node name : String)
  /-- An option that leads nowhere. -/
  | deadBranch (node name handle : String)
  deriving DecidableEq, Repr

namespace Finding

/-- The code of a finding. -/
def code : Finding → FindingCode
  | danglingEdge .. => .danglingEdge
  | unknownBlockType .. => .unknownBlockType
  | incompleteConfig .. => .incompleteConfig
  | duplicateBranch .. => .duplicateBranch
  | illegalOutgoingEdge .. => .illegalOutgoingEdge
  | illegalSelfLoop .. => .illegalSelfLoop
  | optionWithheld .. | optionUndeclared .. | responseWithheld .. | optionUnexpected .. =>
    .invalidHandle
  | startMissing .. | startAmbiguous .. => .ambiguousStart
  | cycle .. => .cycleDetected
  | unreachable .. => .unreachableNode
  | deadBranch .. => .deadBranch

/-- The severity of a finding. -/
def severity : Finding → Severity
  | unknownBlockType .. | cycle .. | unreachable .. | deadBranch .. => .warning
  | _ => .error

/-- Whether a finding keeps the flow from being compiled. -/
def isError (f : Finding) : Bool := f.severity = .error

/-- A finding in words. -/
def message : Finding → String
  | danglingEdge edge source target missing =>
    "Edge " ++ edge ++ " (" ++ source ++ "->" ++ target ++ ") references missing node(s): " ++
      ", ".intercalate missing ++ "."
  | unknownBlockType _ name declared =>
    "Node '" ++ name ++ "' has block type '" ++ declared ++
      "' which this version cannot compile."
  | incompleteConfig _ name kind field =>
    "Node '" ++ name ++ "' (" ++ kind.name ++ ") is missing '" ++ field ++ "'."
  | duplicateBranch edge source handle =>
    let branch :=
      match handle with
      | some h => "option '" ++ h ++ "'"
      | none => "its default output"
    "Node " ++ source ++ " has more than one edge on " ++ branch ++ " (edge " ++ edge ++ ")."
  | illegalOutgoingEdge edge _ name kind =>
    kind.name ++ " node '" ++ name ++ "' ends the call but has outgoing edge " ++ edge ++ "."
  | illegalSelfLoop edge _ name kind =>
    kind.name ++ " node '" ++ name ++ "' loops to itself (edge " ++ edge ++ ")."
  | optionWithheld edge _ name kind =>
    "Edge " ++ edge ++ " leaves " ++ kind.name ++ " node '" ++ name ++ "' without an option key."
  | optionUndeclared edge _ name handle =>
    "Edge " ++ edge ++ " uses option '" ++ handle ++ "' which '" ++ name ++ "' does not declare."
  | responseWithheld edge _ name =>
    "Edge " ++ edge ++ " leaves branching api node '" ++ name ++ "' without a response code."
  | optionUnexpected edge _ handle kind =>
    "Edge " ++ edge ++ " carries handle '" ++ handle ++ "' but " ++ kind.name ++
      " nodes do not branch."
  | startMissing node => "Start marker points to missing node '" ++ node ++ "'."
  | startAmbiguous candidates =>
    let detail := if candidates.isEmpty then "none" else ", ".intercalate candidates
    "Cannot determine the start node (candidates: " ++ detail ++ "); mark one explicitly."
  | cycle members =>
    "Cycle through " ++ " -> ".intercalate (members.map Prod.snd) ++
      "; guard it with a retry limit."
  | unreachable _ name => "Node '" ++ name ++ "' cannot be reached from the start node."
  | deadBranch _ name handle => "Option '" ++ handle ++ "' of '" ++ name ++ "' is not connected."

/-- The node that a finding is about; of a cycle the first one. -/
def node? : Finding → Option String
  | danglingEdge .. | startAmbiguous .. => none
  | unknownBlockType node .. | incompleteConfig node .. | unreachable node _ | deadBranch node ..
  | startMissing node => some node
  | duplicateBranch _ source _ => some source
  | illegalOutgoingEdge _ node .. | illegalSelfLoop _ node .. | optionWithheld _ node ..
  | optionUndeclared _ node .. | responseWithheld _ node _ | optionUnexpected _ node .. =>
    some node
  | cycle members => (members.map Prod.fst).head?

/-- The edge that a finding is about. -/
def edge? : Finding → Option String
  | danglingEdge edge .. | duplicateBranch edge .. | illegalOutgoingEdge edge ..
  | illegalSelfLoop edge .. | optionWithheld edge .. | optionUndeclared edge ..
  | responseWithheld edge .. | optionUnexpected edge .. => some edge
  | _ => none

/-- The field that a finding is about. -/
def field? : Finding → Option String
  | incompleteConfig _ _ _ field => some field
  | _ => none

/-- The handle that a finding is about. -/
def handle? : Finding → Option String
  | duplicateBranch _ _ handle => handle
  | optionUndeclared _ _ _ handle | optionUnexpected _ _ handle _ | deadBranch _ _ handle =>
    some handle
  | _ => none

/-- The members of a cycle, in the order of the nodes. -/
def members : Finding → List String
  | cycle members => members.map Prod.fst
  | _ => []

/-- The code and the words of a finding. -/
def text (f : Finding) : String := "[" ++ f.code.name ++ "] " ++ f.message

end Finding

end CallFlow
