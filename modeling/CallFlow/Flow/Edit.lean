import CallFlow.Document

/-!
# Editing flows

The operations of an editor on a flow. An `Editor` holds the flow and counts the changes made to
it; `Editor.apply` performs one operation and says what it gave or why it failed. A run of
operations is a list of them, `Editor.run`.

Each operation looks up and checks everything before it changes the flow. Removing what is not
there, and clearing a marker that is not set, changes nothing and is not counted.
-/

namespace CallFlow

/-! ## Changes of a flow -/

namespace Flow

/-- A flow with one more node, whose id is new. -/
def addNode (f : Flow) (n : Node) (h : f.hasNode n.id = false) : Flow where
  nodes := f.nodes ++ [n]
  edges := f.edges
  start := f.start
  distinct := by
    have hn : n.id ∉ f.nodes.map Node.id := by
      intro hm
      rw [hasNode_iff.mpr hm] at h
      cases h
    rw [List.map_append, List.nodup_append]
    refine ⟨f.distinct, by simp, ?_⟩
    intro a ha b hb
    simp only [List.map_cons, List.map_nil, List.mem_singleton] at hb
    subst hb
    exact fun he => hn (he ▸ ha)

/-- A flow with a node in the place of the one that has its id. -/
def replaceNode (f : Flow) (n : Node) : Flow where
  nodes := f.nodes.map fun m => if m.id = n.id then n else m
  edges := f.edges
  start := f.start
  distinct := by
    have h : (f.nodes.map fun m => if m.id = n.id then n else m).map Node.id =
        f.nodes.map Node.id := by
      rw [List.map_map]
      apply List.map_congr_left
      intro m _
      simp only [Function.comp_apply]
      split
      · rename_i he
        exact he.symm
      · rfl
    rw [h]
    exact f.distinct

/-- A flow without a node, without its edges, and without the marker if it was on the node. -/
def removeNode (f : Flow) (id : String) : Flow where
  nodes := f.nodes.filter (·.id ≠ id)
  edges := f.edges.filter fun e => e.source ≠ id && e.target ≠ id
  start := if f.start = some id then none else f.start
  distinct := f.distinct.sublist (List.Sublist.map _ List.filter_sublist)

/-- A flow with other edges. -/
def withEdges (f : Flow) (edges : List Edge) : Flow := { f with edges := edges }

/-- A flow with another start marker. -/
def withStart (f : Flow) (start : Option String) : Flow := { f with start := start }

end Flow

/-! ## Operations -/

/-- A node to be added. -/
structure NodeRequest where
  blockType : Value
  config : Value
  name : Option String
  position : Value
  /-- The id that is asked for; an empty one counts as none. -/
  id : Option String
  /-- The id that the node gets if none is asked for. -/
  fresh : String

/-- An operation on a flow. -/
inductive Edit where
  | addNode (request : NodeRequest)
  | updateConfig (id : String) (more : Value)
  | rename (id name : String)
  | move (id : String) (position : Value)
  | remove (id : String)
  | connect (source target : String) (handle : Value)
  | disconnect (edge : String)
  | markStart (id : String)
  | clearStart
  | importDocument (document : Value)
  | replaceWith (flow : Flow)

/-- What an operation gives. -/
inductive EditResult where
  | node (n : Node)
  | edge (e : Edge)
  | done

/-- Why an operation fails. -/
inductive EditFault where
  | invalidBlockType (shown : String)
  | nodeExists (id : String)
  | config (node : String) (fault : ConfigFault)
  | position (fault : PairFault)
  | positionUnfit (issues : List Issue)
  | nodeMissing (id : String)
  | branchTaken (source : String) (handle : Option String)
  | document (fault : DocumentFault)
  /-- The keys of an update cannot be put in order. -/
  | keysNotComparable
  /-- A value that is wanted as a text has a whole number with too many digits to be written. -/
  | numberTooLong
  deriving DecidableEq, Repr

/-- Why an operation fails, in words; faults of values have none. -/
def EditFault.message? : EditFault → Option String
  | invalidBlockType shown => some ("Unknown block type '" ++ shown ++ "'.")
  | nodeExists id => some ("Node id '" ++ id ++ "' is already in use.")
  | config node fault => some (fault.message (some node))
  | nodeMissing id => some ("Node '" ++ id ++ "' does not exist.")
  | branchTaken source handle =>
    let branch :=
      match handle with
      | some h => "handle '" ++ h ++ "'"
      | none => "its default output"
    some ("Node '" ++ source ++ "' already has an edge on " ++ branch ++ ".")
  | document fault => some fault.message
  | position _ | positionUnfit _ | keysNotComparable | numberTooLong => none

/-- The kind that a value names. One that names none is shown, if its numbers can be written. -/
def BlockKind.ofValue (v : Value) : Except EditFault BlockKind :=
  match v with
  | .text s =>
    match BlockKind.ofName? s with
    | some kind => .ok kind
    | none => .error (.invalidBlockType s)
  | v => .error (if Json.canWrite v then .invalidBlockType v.display else .numberTooLong)

namespace NodeRequest

/-- Whether a node that is added gets a fresh id. -/
def drawsId (r : NodeRequest) : Bool :=
  r.id.all (· = "") && (BlockKind.ofValue r.blockType).isOk

/-- The id of the node. -/
def chosenId (r : NodeRequest) : String := (r.id.filter (· ≠ "")).getD r.fresh

/-- The position of the node. -/
def readPosition (r : NodeRequest) : Except EditFault Entries :=
  if r.position.holds then r.position.entries.mapError .position else .ok Node.origin

/-- The node, for a flow with the given number of nodes. -/
def toNode (r : NodeRequest) (kind : BlockKind) (count : Nat) : Except EditFault Node := do
  let config ← (Block.readKnown kind r.config).mapError (.config r.chosenId)
  let position ← r.readPosition
  let name := (r.name.filter (· ≠ "")).getD
    (kind.name ++ "-" ++ String.ofList (Text.digits (count + 1)))
  (Node.checked ⟨r.chosenId, name, .known config, position⟩).mapError .positionUnfit

end NodeRequest

/-- A flow that is being edited, and the number of changes made to it. -/
structure Editor where
  flow : Flow
  version : Nat

namespace Editor

/-- The editor of a flow that has not been changed. -/
def ofFlow (f : Flow) : Editor := ⟨f, 0⟩

/-- What an operation leaves behind, and what it gives. -/
abbrev Outcome := Editor × Except EditFault EditResult

/-- An operation that fails without a change. -/
def fail (e : Editor) (fault : EditFault) : Outcome := (e, .error fault)

/-- An operation that finds nothing to do. -/
def keep (e : Editor) : Outcome := (e, .ok .done)

/-- An operation that changes the flow. -/
def change (e : Editor) (f : Flow) (result : EditResult) : Outcome :=
  (⟨f, e.version + 1⟩, .ok result)

/-- Adds a node. -/
def addNode (e : Editor) (r : NodeRequest) : Outcome :=
  match BlockKind.ofValue r.blockType with
  | .error fault => e.fail fault
  | .ok kind =>
    if e.flow.hasNode r.chosenId then e.fail (.nodeExists r.chosenId)
    else
      match r.toNode kind e.flow.nodes.length with
      | .error fault => e.fail fault
      | .ok n =>
        if h : e.flow.hasNode n.id = false then e.change (e.flow.addNode n h) (.node n)
        else e.fail (.nodeExists n.id)

/-- Texts can be put in order among each other, and so can numbers and truth values. -/
def comparable (entries : Entries) : Bool :=
  let isText : Scalar × Value → Bool := fun e => match e.1 with | .text _ => true | _ => false
  let isNumber : Scalar × Value → Bool := fun e =>
    match e.1 with | .bool _ | .int _ | .float _ => true | _ => false
  entries.length ≤ 1 || entries.all isText || entries.all isNumber

/-- Replaces some entries of the configuration of a node. The keys of the entries are put in order
for the record of changes only after the change. -/
def updateConfig (e : Editor) (id : String) (more : Value) : Outcome :=
  match e.flow.node? id with
  | none => e.fail (.nodeMissing id)
  | some n =>
    match more with
    | .mapping entries =>
      match n.block.update entries with
      | .error issues => e.fail (.config id (.unfit issues))
      | .ok block =>
        let updated := { n with block := block }
        let outcome := e.change (e.flow.replaceNode updated) (.node updated)
        if comparable entries then outcome else (outcome.1, .error .keysNotComparable)
    | v => e.fail (.config id (.notMapping v.kindName))

/-- Gives a node another name. -/
def rename (e : Editor) (id name : String) : Outcome :=
  match e.flow.node? id with
  | none => e.fail (.nodeMissing id)
  | some n =>
    let updated := { n with name := name }
    e.change (e.flow.replaceNode updated) (.node updated)

/-- Puts a node in another place. -/
def move (e : Editor) (id : String) (position : Value) : Outcome :=
  match e.flow.node? id with
  | none => e.fail (.nodeMissing id)
  | some n =>
    match position.entries with
    | .error fault => e.fail (.position fault)
    | .ok position =>
      let updated := { n with position := position }
      e.change (e.flow.replaceNode updated) (.node updated)

/-- Removes a node and the edges at it. -/
def remove (e : Editor) (id : String) : Outcome :=
  if e.flow.hasNode id then e.change (e.flow.removeNode id) .done else e.keep

/-- A handle as it is given to `connect`: absent, or the text of a value. -/
def handleText : Value → Option String
  | .null => none
  | v => some v.display

/-- Connects two nodes. The text of the handle is made before any edge is looked at, which fails at
a whole number with too many digits. An empty handle becomes none on the edge that is made. -/
def connect (e : Editor) (source target : String) (handle : Value) : Outcome :=
  if !e.flow.hasNode source then e.fail (.nodeMissing source)
  else if !e.flow.hasNode target then e.fail (.nodeMissing target)
  else if !Json.canWrite handle then e.fail .numberTooLong
  else
    let handle := handleText handle
    if e.flow.edges.any fun g => g.source = source && g.handle = handle then
      e.fail (.branchTaken source handle)
    else
      let id := Edge.freeId (e.flow.edges.map Edge.id) (Edge.derivedId source target handle)
      let edge : Edge := ⟨id, source, target, handle.filter (· ≠ "")⟩
      e.change (e.flow.withEdges (e.flow.edges ++ [edge])) (.edge edge)

/-- Removes the edges with an id. -/
def disconnect (e : Editor) (edge : String) : Outcome :=
  if e.flow.edges.any (·.id = edge) then
    e.change (e.flow.withEdges (e.flow.edges.filter (·.id ≠ edge))) .done
  else e.keep

/-- Marks the node where a call begins. -/
def markStart (e : Editor) (id : String) : Outcome :=
  if e.flow.hasNode id then e.change (e.flow.withStart (some id)) .done
  else e.fail (.nodeMissing id)

/-- Takes the start marker away. -/
def clearStart (e : Editor) : Outcome :=
  if e.flow.start.isNone then e.keep else e.change (e.flow.withStart none) .done

/-- Takes over the flow of a document. -/
def importDocument (e : Editor) (document : Value) : Outcome :=
  match Document.toFlow document with
  | .error fault => e.fail (.document fault)
  | .ok f => e.change f .done

/-- Performs an operation. -/
def apply (e : Editor) : Edit → Outcome
  | .addNode r => e.addNode r
  | .updateConfig id more => e.updateConfig id more
  | .rename id name => e.rename id name
  | .move id position => e.move id position
  | .remove id => e.remove id
  | .connect source target handle => e.connect source target handle
  | .disconnect edge => e.disconnect edge
  | .markStart id => e.markStart id
  | .clearStart => e.clearStart
  | .importDocument document => e.importDocument document
  | .replaceWith flow => e.change flow .done

/-- Performs operations one after the other, whether they fail or not. -/
def run (e : Editor) (edits : List Edit) : Editor := edits.foldl (fun e op => (e.apply op).1) e

/-- An editor in words. -/
def describe (e : Editor) : String :=
  let count n := String.ofList (Text.digits n)
  "Graph(nodes=" ++ count e.flow.nodes.length ++ ", edges=" ++ count e.flow.edges.length ++
    ", start=" ++ ((e.flow.start.map Text.quoted).getD "None") ++ ", version=" ++
    count e.version ++ ")"

end Editor

end CallFlow
