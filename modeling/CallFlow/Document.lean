import CallFlow.Flow
import CallFlow.Json.Reader
import CallFlow.Json.Writer

/-!
# Interchange documents

A document is a mapping with the lists `nodes` and `edges` and, if a node is marked, its id under
`start`. `Document.ofFlow` writes a flow as a document and `Document.toFlow` reads one; only the
shape of a document is checked there, not whether its edges lead to nodes.

Two shapes of node entries are read. In the flat shape the fields stand in the entry itself. In the
canvas shape they stand in a mapping under `data`, among fields of the editor that are dropped.
-/

namespace CallFlow

/-- Why a value is not a document of a flow. -/
inductive DocumentFault where
  | notMapping (kind : String)
  | nodesNotList
  | edgesNotList
  | startNotId
  | nodeNotMapping (index : Nat)
  | nodeWithoutId (index : Nat)
  | nodeWithoutType (id : String)
  | configNotMapping (id : String)
  | positionNotMapping (id : String)
  | configUnfit (id : String) (issues : List Issue)
  | positionUnfit (id : String) (issues : List Issue)
  | edgeNotMapping (index : Nat)
  | edgeIdInvalid (index : Nat)
  | edgeIdRepeated (id : String)
  | edgeWithoutEnds (index : Nat)
  | handleUnfit (index : Nat) (issues : List Issue)
  | nodeIdRepeated (id : String)
  deriving DecidableEq, Repr

/-- A number as it stands in a message. -/
private def ordinal (n : Nat) : String := String.ofList (Text.digits n)

namespace DocumentFault

/-- What is wrong, in words. -/
def message : DocumentFault → String
  | notMapping kind => "Expected an object with 'nodes' and 'edges', got " ++ kind ++ "."
  | nodesNotList => "'nodes' must be a list."
  | edgesNotList => "'edges' must be a list."
  | startNotId => "'start' must be a node id."
  | nodeNotMapping i => "nodes[" ++ ordinal i ++ "] is not an object."
  | nodeWithoutId i => "nodes[" ++ ordinal i ++ "] has no id."
  | nodeWithoutType id => "Node '" ++ id ++ "' has no blockType."
  | configNotMapping id => "Node '" ++ id ++ "' config is not an object."
  | positionNotMapping id => "Node '" ++ id ++ "' position is not an object."
  | configUnfit id _ => "Invalid config for node '" ++ id ++ "'"
  | positionUnfit id _ => "Node '" ++ id ++ "'"
  | edgeNotMapping i => "edges[" ++ ordinal i ++ "] is not an object."
  | edgeIdInvalid i => "edges[" ++ ordinal i ++ "] has an invalid id."
  | edgeIdRepeated id => "Edge id '" ++ id ++ "' is used more than once."
  | edgeWithoutEnds i => "edges[" ++ ordinal i ++ "] needs string 'source' and 'target'."
  | handleUnfit i _ => "edges[" ++ ordinal i ++ "]"
  | nodeIdRepeated id => "Node id '" ++ id ++ "' is already in use."

/-- The issues behind a fault, where values do not fit their fields. -/
def issues : DocumentFault → Option (List Issue)
  | configUnfit _ issues | positionUnfit _ issues | handleUnfit _ issues => some issues
  | _ => none

end DocumentFault

namespace Document

/-! ## Writing -/

/-- A node as an entry of a document. -/
def ofNode (n : Node) : Value :=
  .mapping [(.text "id", .text n.id), (.text "blockType", .text n.block.documentType),
    (.text "name", .text n.name), (.text "config", .mapping n.block.toEntries),
    (.text "position", .mapping n.position)]

/-- An edge as an entry of a document. -/
def ofEdge (e : Edge) : Value :=
  .mapping ([(.text "id", .text e.id), (.text "source", .text e.source),
    (.text "target", .text e.target)] ++
      (e.handle.map fun h => (Scalar.text "sourceHandle", Value.text h)).toList)

/-- The document of a flow. -/
def ofFlow (f : Flow) : Value :=
  .mapping ([(.text "nodes", .list (f.nodes.map ofNode)),
    (.text "edges", .list (f.edges.map ofEdge))] ++
      (f.start.map fun s => (Scalar.text "start", Value.text s)).toList)

/-! ## Reading nodes -/

/-- The fields that an editor keeps beside the configuration of a node on its canvas. -/
def editorKeys : List String :=
  ["name", "label", "blockType", "onDelete", "onConfigure", "onEdit", "simNodeId"]

/-- Whether a key is one of the editor's own. -/
def isEditorKey : Scalar → Bool
  | .text s => editorKeys.contains s
  | _ => false

/-- The flat entry for a canvas entry with the given data. A configuration at the top of the entry
goes before the one in the data. -/
def flatten (entry data : Entries) : Entries :=
  let inner : Entries := data.filter fun e => !isEditorKey e.1
  let config :=
    match entry.field "config" with
    | .mapping outer => inner.setAll outer
    | _ => inner
  Entries.ofFields ([("id", entry.field "id"), ("blockType", data.field "blockType"),
    ("name", data.field "name"), ("config", .mapping config)] ++
      ((entry.find? (.text "position")).map fun p => ("position", p)).toList)

/-- A node entry in the flat shape. -/
def lift (entry : Entries) : Entries :=
  match entry.has "blockType", entry.field "data" with
  | false, .mapping data => flatten entry data
  | _, _ => entry

/-- A text that is not empty. -/
def nonemptyText? : Value → Option String
  | .text s => if s = "" then none else some s
  | _ => none

/-- A mapping, or the given one where none was given. -/
def mappingOr? (default : Entries) : Value → Option Entries
  | .null => some default
  | .mapping entries => some entries
  | _ => none

/-- Reads the block of a node of the given type. -/
def readBlock (id declared : String) (config : Entries) : Except DocumentFault Block :=
  match BlockKind.ofName? declared with
  | some kind => ((Config.read kind config).map .known).mapError (.configUnfit id)
  | none => ((Block.readOpaque config).map (.unknown declared)).mapError (.configUnfit id)

/-- Reads a node from an entry in the flat shape. The name may be any value and becomes a text;
whole numbers in it are taken to be short enough to be written. -/
def readFlatNode (index : Nat) (entry : Entries) : Except DocumentFault Node := do
  let some id := nonemptyText? (entry.field "id") | .error (.nodeWithoutId index)
  let some declared := nonemptyText? (entry.field "blockType") | .error (.nodeWithoutType id)
  let some config := mappingOr? [] (entry.field "config") | .error (.configNotMapping id)
  let some position := mappingOr? Node.origin (entry.field "position")
    | .error (.positionNotMapping id)
  let name :=
    match entry.field "name" with
    | .null => declared ++ "-" ++ ordinal (index + 1)
    | v => v.display
  let block ← readBlock id declared config
  (Node.checked ⟨id, name, block, position⟩).mapError (.positionUnfit id)

/-- Reads a node from an entry. -/
def readNode (index : Nat) : Value → Except DocumentFault Node
  | .mapping entry => readFlatNode index (lift entry)
  | _ => .error (.nodeNotMapping index)

/-- Reads the nodes of a list, from the given index on. -/
def readNodes : Nat → List Value → Except DocumentFault (List Node)
  | _, [] => .ok []
  | index, v :: rest => do
    let n ← readNode index v
    let ns ← readNodes (index + 1) rest
    .ok (n :: ns)

/-! ## Reading edges -/

/-- The ids that edges are given in a document, in order; each must be its own. -/
def explicitIds : Nat → List String → List Value → Except DocumentFault (List String)
  | _, seen, [] => .ok seen
  | index, seen, .mapping entry :: rest =>
    match Entries.field entry "id" with
    | .null => explicitIds (index + 1) seen rest
    | v =>
      match nonemptyText? v with
      | none => .error (.edgeIdInvalid index)
      | some id =>
        if id ∈ seen then .error (.edgeIdRepeated id)
        else explicitIds (index + 1) (id :: seen) rest
  | index, seen, _ :: rest => explicitIds (index + 1) seen rest

/-- The handle of an edge: a text, where the empty one is none, or a number by its text. -/
def readHandle : Value → Except (List Issue) (Option String)
  | .null => .ok none
  | .text s => .ok (if s = "" then none else some s)
  | .int n => .ok (some (Text.ofInt n))
  | .float x => .ok (some x.text)
  | _ => .error [⟨[.name "source_handle"], .notText⟩]

/-- Reads an edge from an entry. An edge without an id gets one that is not taken. -/
def readEdge (index : Nat) (taken : List String) : Value → Except DocumentFault Edge
  | .mapping entry => do
    let some source := nonemptyText? (Entries.field entry "source") | .error (.edgeWithoutEnds index)
    let some target := nonemptyText? (Entries.field entry "target") | .error (.edgeWithoutEnds index)
    let handle ← (readHandle (Entries.field entry "sourceHandle")).mapError (.handleUnfit index)
    let id := (nonemptyText? (Entries.field entry "id")).getD
      (Edge.freeId taken (Edge.derivedId source target handle))
    .ok ⟨id, source, target, handle⟩
  | _ => .error (.edgeNotMapping index)

/-- Reads the edges of a list, from the given index on. -/
def readEdges : Nat → List String → List Value → Except DocumentFault (List Edge)
  | _, _, [] => .ok []
  | index, taken, v :: rest => do
    let e ← readEdge index taken v
    let es ← readEdges (index + 1) (e.id :: taken) rest
    .ok (e :: es)

/-! ## Reading documents -/

/-- A list, where an empty, zero or absent value is the empty one. -/
def listOrEmpty? (v : Value) : Option (List Value) :=
  if v.holds then match v with | .list items => some items | _ => none
  else some []

/-- The start marker of a document. -/
def readStart : Value → Except DocumentFault (Option String)
  | .null => .ok none
  | .text s => .ok (some s)
  | _ => .error .startNotId

/-- The flow of a document. -/
def toFlow : Value → Except DocumentFault Flow
  | .mapping entries => do
    let some rawNodes := listOrEmpty? (Entries.field entries "nodes") | .error .nodesNotList
    let some rawEdges := listOrEmpty? (Entries.field entries "edges") | .error .edgesNotList
    let start ← readStart (Entries.field entries "start")
    let nodes ← readNodes 0 rawNodes
    let taken ← explicitIds 0 [] rawEdges
    let edges ← readEdges 0 taken rawEdges
    (Flow.ofParts nodes edges start).mapError .nodeIdRepeated
  | v => .error (.notMapping v.kindName)

/-! ## Documents as text -/

/-- Why a text is not the document of a flow. -/
inductive TextFault where
  | document (fault : DocumentFault)
  | text (fault : Json.Fault)
  deriving DecidableEq, Repr

/-- The text of the document of a flow. -/
def write (indent : Option Int) (f : Flow) : String := Json.write (.document indent) (ofFlow f)

/-- The flow of the document that a text holds. -/
def read (s : String) : Except TextFault Flow := do
  let v ← (Json.read s).mapError .text
  (toFlow v).mapError .document

end Document

/-- Whether two flows are equal by value or have the same document. The latter holds also where a
position has a value that is not equal to itself. -/
def Flow.agrees (f g : Flow) : Bool :=
  f.same g || Document.write none f = Document.write none g

end CallFlow
