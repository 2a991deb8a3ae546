import CallFlow.Validation
import CallFlow.Keypad
import CallFlow.Script

/-!
# Compiling flows

A flow without errors is compiled to a script: one unit for each node that a call can reach, in the
order of a depth-first walk from the start that takes the edges of a node in keypad order.

Nothing is compiled if there is an error among the findings, or if the walk comes to a node of an
unknown kind.
-/

namespace CallFlow

/-- Why a flow is not compiled. -/
inductive CompileFault where
  /-- There are errors among the findings. -/
  | notCompilable (errors : List Finding)
  /-- A call comes to a node of an unknown kind. -/
  | unsupported (node declared : String)
  /-- A handle is a number with too many digits. -/
  | handleTooLong
  /-- A node lacks what its unit needs. -/
  | incomplete (node : String)
  deriving DecidableEq, Repr

/-- Why a flow is not compiled, in words. -/
def CompileFault.message : CompileFault → String
  | notCompilable errors =>
    "Graph has " ++ String.ofList (Text.digits errors.length) ++
      " validation error(s); nothing was compiled."
  | unsupported node declared =>
    "Node '" ++ node ++ "' has unsupported block type '" ++ declared ++ "'."
  | handleTooLong => "A handle has too many digits."
  | incomplete node => "Node '" ++ node ++ "' is incomplete."

namespace Compilation

/-- The edges that leave a node, in keypad order. -/
def branchesOf (f : Flow) (id : String) : List Edge := Keypad.sortBy Edge.handle (f.outgoing id)

/-- The nodes that the edges of a node lead to, in keypad order. -/
def successors (f : Flow) (id : String) : List String := (branchesOf f id).map Edge.target

/-- The order of the units. -/
def order (f : Flow) (start : String) : List String :=
  Traversal.preorder (successors f) f.ids start

/-- The table of branches of some edges; each must have a handle. -/
def branchTable? (edges : List Edge) : Option TextTable :=
  (edges.mapM fun (e : Edge) => e.handle.map fun h => (h, e.target)).map TextTable.ofPairs

/-- The table of branches of the edges that have a handle. -/
def handledBranches (edges : List Edge) : TextTable :=
  TextTable.ofPairs (edges.filterMap fun e => e.handle.map fun h => (h, e.target))

/-- What the unit of a block does, given the edges that leave it in keypad order. -/
def action? (policy : Policy) (edges : List Edge) : Config → Option Action
  | .prompt c => some (.play (edges.head?.map Edge.target) c.message c.audioUrl)
  | .key c => do
    let branches ← branchTable? edges
    some (.collectDigit ⟨c.options, branches, policy⟩ c.message c.audioUrl)
  | .language c => do
    let branches ← branchTable? edges
    some (.language ⟨c.options, branches, policy⟩ c.summary)
  | .api c =>
    let next := if edges.all (·.handle.isNone) then edges.head?.map Edge.target else none
    some (.apiCall next c.endpoint c.method c.apiMock c.conditions (handledBranches edges))
  | .record c => some (.record (edges.head?.map Edge.target) c.maxSeconds c.summary)
  | .menu c =>
    some (.menu (edges.head?.map Edge.target) c.summary c.destination c.conditions)
  | .transfer c => do
    let destination ← c.destination
    some (.transfer destination c.conditions)
  | .hangup => some .hangup
  | .queue c => do
    let queue ← c.destination <|> c.summary
    some (.queue queue c.conditions)
  | .voicemail c => do
    let mailbox ← c.destination <|> c.summary
    some (.voicemail mailbox c.conditions)

/-- The unit of a node. -/
def unit (f : Flow) (policy : Policy) (n : Node) : Except CompileFault ScriptUnit :=
  match n.block with
  | .unknown declared _ => .error (.unsupported n.id declared)
  | .known c =>
    match Keypad.sortBy? Edge.handle (f.outgoing n.id) with
    | none => .error .handleTooLong
    | some edges =>
      match action? policy edges c with
      | none => .error (.incomplete n.id)
      | some action => .ok ⟨n.id, n.name, action⟩

/-- The units of some nodes. -/
def units (f : Flow) (policy : Policy) : List Node → Except CompileFault (List ScriptUnit)
  | [] => .ok []
  | n :: rest => do
    let u ← unit f policy n
    let us ← units f policy rest
    .ok (u :: us)

end Compilation

/-- Compiles a flow. -/
def Flow.compile (f : Flow) (policy : Policy) : Except CompileFault Script :=
  let report := f.validate
  match report.errors, report.start with
  | [], some start => do
    let units ← Compilation.units f policy ((Compilation.order f start).filterMap f.node?)
    .ok ⟨start, units⟩
  | errors, _ => .error (.notCompilable errors)

end CallFlow
