import CallFlow.Validation.Finding
import CallFlow.Traversal

/-!
# Checking flows

A flow is checked before it is compiled. Eight checks run in order (`Validation.checks`), each with
the findings it makes and the line that is shown when it makes none. The checks on cycles and on
unreachable nodes run only if it is clear where a call begins.

`Report.compilable` says whether there is no error among the findings.
-/

namespace CallFlow

namespace Flow

/-! ## Successors -/

/-- Whether an edge may be followed over and over without being a cycle: it leads from a branching
node back to itself, which only asks the caller again. -/
def isRepeat (f : Flow) (e : Edge) : Bool :=
  e.source = e.target && (f.node? e.source).any fun n => n.block.isBranching

/-- The nodes that edges lead to from a node, leaving out the edges that only ask again. -/
def flowTargets (f : Flow) (id : String) : List String :=
  ((f.outgoing id).filter fun e => f.hasNode e.target && !f.isRepeat e).map Edge.target

/-- The nodes that a call can reach from a node, and the node itself. -/
def reachedFrom (f : Flow) (id : String) : List String :=
  Traversal.preorder f.flowTargets f.ids id

/-- The nodes that a call can reach from a start, in order, each with the nodes it reaches. -/
def reach (f : Flow) (start : String) : List (String × List String) :=
  let reached := f.reachedFrom start
  (f.ids.filter (· ∈ reached)).map fun id => (id, f.reachedFrom id)

/-- Of nodes with the nodes they reach, those that reach a given node and are reached from it. -/
def component (reach : List (String × List String)) (id : String) (behind : List String) :
    List String :=
  (reach.filter fun other => other.1 ∈ behind && id ∈ other.2).map Prod.fst

/-- The cycles that can be reached from a start. Each is listed once, at its first member. -/
def cycles (f : Flow) (start : String) : List (List String) :=
  let reach := f.reach start
  reach.filterMap fun (id, behind) =>
    let c := component reach id behind
    if c.head? = some id && (1 < c.length || id ∈ f.flowTargets id) then some c else none

end Flow

namespace Validation

/-! ## The checks -/

/-- Edges whose ends are not all nodes. -/
def danglingEdges (f : Flow) : List Finding :=
  f.edges.filterMap fun e =>
    match [e.source, e.target].filter fun id => !f.hasNode id with
    | [] => none
    | missing => some (.danglingEdge e.id e.source e.target missing)

/-- The missing configuration of a node, or that its kind is unknown. -/
def configFindings (n : Node) : List Finding :=
  match n.block with
  | .unknown declared _ => [.unknownBlockType n.id n.name declared]
  | .known c => c.missing.map (.incompleteConfig n.id n.name c.kind)

/-- Edges for which an earlier edge has the same source and handle. -/
def repeatedBranches : List (String × Option String) → List Edge → List Finding
  | _, [] => []
  | seen, e :: rest =>
    let key := (e.source, e.handle)
    let later := repeatedBranches (key :: seen) rest
    if key ∈ seen then .duplicateBranch e.id e.source e.handle :: later else later

/-- Edges whose handles do not fit the block they leave. The block of an interface may have one
edge without a handle, or any number of them with handles. -/
def handleFindings (n : Node) (c : Config) (out : List Edge) : List Finding :=
  out.filterMap fun e =>
    if c.kind.isBranching then
      match e.handle with
      | none => some (.optionWithheld e.id n.id n.name c.kind)
      | some h =>
        if h ∈ c.options.keys then none else some (.optionUndeclared e.id n.id n.name h)
    else if c.kind = .api then
      if e.handle.isNone && 1 < out.length then some (.responseWithheld e.id n.id n.name)
      else none
    else e.handle.map fun h => .optionUnexpected e.id n.id h c.kind

/-- Edges from a node to itself, which only branching blocks may have. -/
def selfLoops (n : Node) (c : Config) (out : List Edge) : List Finding :=
  if c.kind.isBranching then []
  else
    (out.filter fun e => e.target = n.id).map fun e => .illegalSelfLoop e.id n.id n.name c.kind

/-- Edges that do not fit the block they leave. -/
def outgoingFindings (f : Flow) (n : Node) : List Finding :=
  match n.block with
  | .unknown _ _ => []
  | .known c =>
    let out := f.outgoing n.id
    if c.kind.isTerminal then
      out.map fun e => .illegalOutgoingEdge e.id n.id n.name c.kind
    else selfLoops n c out ++ handleFindings n c out

/-- The node where a call begins, as far as the start marker is valid. -/
def validStart (f : Flow) : Option String :=
  match f.start with
  | some id => if f.hasNode id then some id else none
  | none => f.resolveStart

/-- A start marker on a missing node, or no clear start. -/
def startFindings (f : Flow) : List Finding :=
  match f.start with
  | some id => if f.hasNode id then [] else [.startMissing id]
  | none =>
    match f.resolveStart with
    | some _ => []
    | none => [.startAmbiguous f.startCandidates]

/-- The name of a node. -/
def nameOf (f : Flow) (id : String) : String := ((f.node? id).map Node.name).getD ""

/-- The cycles that can be reached. -/
def cycleFindings (f : Flow) (start : String) : List Finding :=
  (f.cycles start).map fun c => .cycle (c.map fun id => (id, nameOf f id))

/-- The nodes that cannot be reached. -/
def unreachableFindings (f : Flow) (start : String) : List Finding :=
  let reached := f.reachedFrom start
  (f.nodes.filter fun n => n.id ∉ reached).map fun n => .unreachable n.id n.name

/-- The declared options of a branching node that no edge leaves by. -/
def deadBranches (f : Flow) (n : Node) : List Finding :=
  match n.block with
  | .unknown _ _ => []
  | .known c =>
    let used := (f.outgoing n.id).map Edge.handle
    (c.options.keys.filter fun o => some o ∉ used).map fun o => .deadBranch n.id n.name o

/-- A check: the line for when nothing is found, and what is found. -/
structure Check where
  passed : String
  findings : List Finding
  deriving Repr

/-- The checks of a flow, in order. -/
def checks (f : Flow) : List Check :=
  [⟨"All edges reference existing nodes.", danglingEdges f⟩,
    ⟨"Every block has its required configuration.", f.nodes.flatMap configFindings⟩,
    ⟨"Every branch has a single edge.", repeatedBranches [] f.edges⟩,
    ⟨"Outgoing edges fit their block types.", f.nodes.flatMap (outgoingFindings f)⟩,
    ⟨"Start node is unambiguous.", startFindings f⟩] ++
  (match validStart f with
    | none => []
    | some start =>
      [⟨"No cycles reachable from start.", cycleFindings f start⟩,
        ⟨"Every node is reachable from start.", unreachableFindings f start⟩]) ++
  [⟨"Every declared option is connected.", f.nodes.flatMap (deadBranches f)⟩]

end Validation

/-- The outcome of checking a flow. -/
structure Report where
  start : Option String
  checks : List Validation.Check
  deriving Repr

/-- Checks a flow. -/
def Flow.validate (f : Flow) : Report := ⟨Validation.validStart f, Validation.checks f⟩

namespace Report

/-- All findings in the order of the checks. -/
def found (r : Report) : List Finding := r.checks.flatMap Validation.Check.findings

/-- The findings that keep the flow from being compiled. -/
def errors (r : Report) : List Finding := r.found.filter Finding.isError

/-- The other findings. -/
def warnings (r : Report) : List Finding := r.found.filter fun f => !f.isError

/-- Whether the flow may be compiled. -/
def compilable (r : Report) : Bool := r.errors.isEmpty

/-- The errors, and behind them the warnings. -/
def findings (r : Report) : List Finding := r.errors ++ r.warnings

/-- The findings with a code. -/
def byCode (r : Report) (code : FindingCode) : List Finding :=
  r.findings.filter fun f => f.code = code

/-- The lines of the checks that found nothing. -/
def passed (r : Report) : List String :=
  (r.checks.filter fun c => c.findings.isEmpty).map Validation.Check.passed

/-- The report as rows of a mark and a text: checks passed, errors, warnings. -/
def rows (r : Report) : List (String × String) :=
  r.passed.map (fun line => ("OK", line)) ++
    r.findings.map fun f => (f.severity.mark, f.text)

/-- The rows of the report as lines. -/
def messages (r : Report) : List String := r.rows.map fun row => row.1 ++ ": " ++ row.2

end Report

end CallFlow
