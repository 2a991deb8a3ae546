import CallFlow.Validation
import CallFlow.Keypad
import CallFlow.Json.Writer

/-!
# Outlines

A flow as an indented list for reading: the nodes in the order of a depth-first walk from the start,
each with the edges that leave it in keypad order and with its options that lead nowhere, and at
the end the nodes that the walk does not come to.

Edges of a node that lead to the same place are shown together, at the place of the first of them.
-/

namespace CallFlow

/-- Why an outline cannot be made. -/
inductive OutlineFault where
  /-- A number has too many digits: a handle that is one, or one in an option that leads nowhere. -/
  | handleTooLong
  /-- The options of an unknown block are not a mapping. -/
  | options (fault : PairFault)
  deriving DecidableEq, Repr

namespace Outline

/-- The edges between nodes of a flow. -/
def innerEdges (f : Flow) : List Edge :=
  f.edges.filter fun e => f.hasNode e.source && f.hasNode e.target

/-- The distinct targets of some edges, each at the place of its first edge. -/
def targets : List Edge → List String
  | [] => []
  | e :: rest => e.target :: (targets rest).filter (· ≠ e.target)

/-- The edges that leave a node, those to one target together. -/
def grouped (sorted : List Edge) (id : String) : List Edge :=
  let out := sorted.filter fun e => e.source = id
  (targets out).flatMap fun t => out.filter fun e => e.target = t

/-- The targets of a node, each once. -/
def successors (sorted : List Edge) (id : String) : List String :=
  targets (sorted.filter fun e => e.source = id)

/-- The order in which nodes are listed. -/
def order (f : Flow) (sorted : List Edge) : List String :=
  match f.resolveStart with
  | some start => Traversal.preorder (successors sorted) f.ids start
  | none => f.ids

/-- The line of an edge. -/
def edgeLine (f : Flow) (e : Edge) : String :=
  "    └─▶ " ++ Validation.nameOf f e.target ++
    (match e.handle with
      | some h => "  (on " ++ h ++ ")"
      | none => "")

/-- The key that a handle is found under among options; no handle is the absent key. -/
def handleKey (e : Edge) : Scalar :=
  match e.handle with
  | some h => .text h
  | none => .null

/-- The options that no edge leaves by. -/
def openOptions (out : List Edge) (options : Entries) : Entries :=
  options.filter fun o => !out.any fun e => (handleKey e).same o.1

/-- The line of an option that leads nowhere. -/
def openLine (option : Scalar × Value) : String :=
  "    └─✗ " ++ option.2.display ++ "  (on " ++ option.1.display ++ ", not connected)"

/-- Whether the line of an option can be written: each whole number in it is short enough. -/
def canWriteLine (option : Scalar × Value) : Bool :=
  Json.isShort option.1 && Json.canWrite option.2

/-- The lines of a node. -/
def nodeLines (f : Flow) (sorted : List Edge) (number : Nat) (n : Node) :
    Except OutlineFault (List String) := do
  let out := grouped sorted n.id
  let options ← n.block.options.mapError .options
  let unused := openOptions out options
  if unused.all canWriteLine then
    .ok ((Text.twoDigits number ++ ". " ++ n.name ++ " [" ++ n.block.typeName ++ "]  id=" ++
      n.id) :: (out.map (edgeLine f) ++ unused.map openLine))
  else .error .handleTooLong

/-- The lines of the nodes of a list, numbered from the given number on. -/
def numberedLines (f : Flow) (sorted : List Edge) : Nat → List Node →
    Except OutlineFault (List (List String))
  | _, [] => .ok []
  | number, n :: rest => do
    let lines ← nodeLines f sorted number n
    let more ← numberedLines f sorted (number + 1) rest
    .ok (lines :: more)

/-- The first line. -/
def title (f : Flow) : String :=
  match f.resolveStart with
  | some start => "# ASCII Plan (depth-first from '" ++ Validation.nameOf f start ++ "')"
  | none => "# ASCII Plan (no unique start node; insertion order)"

/-- The lines of the nodes that are not listed. -/
def restLines (f : Flow) (listed : List String) : List String :=
  match f.nodes.filter fun n => n.id ∉ listed with
  | [] => []
  | rest =>
    "# Unreachable" :: rest.map fun n =>
      "  - " ++ n.name ++ " [" ++ n.block.typeName ++ "]  id=" ++ n.id

end Outline

/-- The outline of a flow. -/
def Flow.outline (f : Flow) : Except OutlineFault String := do
  let some sorted := Keypad.sortBy? Edge.handle (Outline.innerEdges f) | .error .handleTooLong
  let listed := Outline.order f sorted
  let blocks ← Outline.numberedLines f sorted 1 (listed.filterMap f.node?)
  .ok ("\n".intercalate (Outline.title f :: (blocks.flatten ++ Outline.restLines f listed)))

end CallFlow
