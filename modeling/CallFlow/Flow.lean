import CallFlow.Block

/-!
# Call flows

A flow is a list of nodes with distinct ids, a list of edges between ids, and an optional start
marker. An edge need not lead to a node of the flow, since flows are loaded before they are checked.

`Flow.resolveStart` finds the node where a call begins: the marked one, or the only node that
nothing leads to and that leads somewhere, or the first node when every node is entered from a
cycle or there is only one.
-/

namespace CallFlow

/-- A node: a block under an id, with a name to show and a place on a canvas. -/
structure Node where
  id : String
  name : String
  block : Block
  position : Entries
  deriving Repr

/-- A way from one node to another, for one of the options of the source or for any. -/
structure Edge where
  id : String
  source : String
  target : String
  handle : Option String
  deriving DecidableEq, Repr

namespace Node

/-- The place of a node that none was given for. -/
def origin : Entries := [(.text "x", .int 0), (.text "y", .int 0)]

/-- Equality by value. -/
def same (a b : Node) : Bool :=
  a.id = b.id && a.name = b.name && a.block.same b.block && a.position.same b.position

/-- The issues of a position: all keys must be texts. -/
def positionIssues (position : Entries) : List Issue :=
  position.filterMap fun e =>
    match e.1 with
    | .text _ => none
    | k => some ⟨[.name "position", Step.ofKey k, .name "[key]"], .notText⟩

/-- A node with a position whose keys are texts. -/
def checked (n : Node) : Except (List Issue) Node :=
  match positionIssues n.position with
  | [] => .ok n
  | issues => .error issues

end Node

namespace Edge

/-- The id of an edge that none was given for. -/
def derivedId (source target : String) (handle : Option String) : String :=
  match handle with
  | none => "e-" ++ source ++ "-" ++ target
  | some h => "e-" ++ source ++ "-" ++ h ++ "-" ++ target

/-- The text with a number behind it. -/
def numbered (base : String) (n : Nat) : String :=
  base ++ "-" ++ String.ofList (Text.digits n)

/-- The given text if it is free, else the text with the least number from two on that is free.
Among more candidates than there are taken texts a free one is found. -/
def freeId (taken : List String) (base : String) : String :=
  if base ∈ taken then
    (((List.range (taken.length + 1)).map fun i => numbered base (i + 2)).find?
      (· ∉ taken)).getD base
  else base

end Edge

/-- A call flow. -/
structure Flow where
  nodes : List Node
  edges : List Edge
  start : Option String
  distinct : (nodes.map Node.id).Nodup

namespace Flow

/-- The flow without nodes. -/
def empty : Flow := ⟨[], [], none, List.nodup_nil⟩

/-- The first id that an earlier node of the list has. -/
def repeatedId? : List String → List Node → Option String
  | _, [] => none
  | seen, n :: rest => if n.id ∈ seen then some n.id else repeatedId? (n.id :: seen) rest

/-- Where no id is found to be repeated, the ids are distinct and none of them was seen before. -/
theorem nodup_of_repeatedId?_eq_none {seen : List String} {nodes : List Node}
    (h : repeatedId? seen nodes = none) :
    (nodes.map Node.id).Nodup ∧ ∀ n ∈ nodes, n.id ∉ seen := by
  induction nodes generalizing seen with
  | nil => simp
  | cons n rest ih =>
    simp only [repeatedId?] at h
    split at h
    · cases h
    · rename_i hn
      obtain ⟨hd, hs⟩ := ih h
      refine ⟨?_, ?_⟩
      · simp only [List.map_cons, List.nodup_cons, List.mem_map, not_exists, not_and]
        exact ⟨fun m hm he => hs m hm (he ▸ List.mem_cons_self), hd⟩
      · intro m hm
        rcases List.mem_cons.mp hm with rfl | hm
        · exact hn
        · exact fun h' => hs m hm (List.mem_cons_of_mem _ h')

/-- The flow of the given parts, or the id that two nodes have. -/
def ofParts (nodes : List Node) (edges : List Edge) (start : Option String) : Except String Flow :=
  match h : repeatedId? [] nodes with
  | some id => .error id
  | none => .ok ⟨nodes, edges, start, (nodup_of_repeatedId?_eq_none h).1⟩

/-! ## Looking up -/

/-- The ids of the nodes, in order. -/
def ids (f : Flow) : List String := f.nodes.map Node.id

/-- The node with the given id. -/
def node? (f : Flow) (id : String) : Option Node := f.nodes.find? (·.id = id)

/-- Whether a node has the given id. -/
def hasNode (f : Flow) (id : String) : Bool := f.nodes.any (·.id = id)

/-- The first edge with the given id. -/
def edge? (f : Flow) (id : String) : Option Edge := f.edges.find? (·.id = id)

/-- The edges that leave a node, in order. -/
def outgoing (f : Flow) (id : String) : List Edge := f.edges.filter (·.source = id)

/-- The edges that enter a node, in order. -/
def incoming (f : Flow) (id : String) : List Edge := f.edges.filter (·.target = id)

/-- Whether an edge enters the node. -/
def isEntered (f : Flow) (id : String) : Bool := f.edges.any (·.target = id)

/-- Whether an edge leaves the node. -/
def isLeft (f : Flow) (id : String) : Bool := f.edges.any (·.source = id)

/-! ## The start of a call -/

/-- The nodes that no edge enters and some edge leaves, in order. -/
def startCandidates (f : Flow) : List String :=
  f.ids.filter fun id => !f.isEntered id && f.isLeft id

/-- The node where a call begins when no node is marked. -/
def inferredStart (f : Flow) : Option String :=
  match f.startCandidates with
  | [id] => some id
  | _ :: _ :: _ => none
  | [] => if f.nodes.length = 1 || f.ids.all f.isEntered then f.ids.head? else none

/-- The node where a call begins: the marked node if it is there, else the inferred one. -/
def resolveStart (f : Flow) : Option String :=
  match f.start with
  | some id => if f.hasNode id then some id else f.inferredStart
  | none => f.inferredStart

/-! ## Equality -/

/-- Equality by value: the same nodes and edges in the same order and the same start marker. -/
def same (f g : Flow) : Bool :=
  f.nodes.length = g.nodes.length && (f.nodes.zip g.nodes).all (fun p => p.1.same p.2) &&
    f.edges = g.edges && f.start = g.start

/-- A flow has a node exactly if the id is one of its ids. -/
theorem hasNode_iff {f : Flow} {id : String} : f.hasNode id = true ↔ id ∈ f.ids := by
  simp [hasNode, ids]

end Flow

end CallFlow
