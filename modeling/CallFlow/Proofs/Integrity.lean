import CallFlow.Proofs.Change
import CallFlow.Proofs.Compilable
import CallFlow.Proofs.EdgeIds

/-!
# Flows that are edited hold together

Whoever builds a flow with the operations of the editor, one node, edge or marker at a time, gets a
flow that holds together (`Flow.Sound`): edges have ids of their own and lead from node to node, and
the start marker is on a node. Each change keeps that (`Flow.Change.sound`), so a run of operations
does, in whatever order and whether they fail or not (`Flow.sound_ofEdits`).
-/

namespace CallFlow

namespace Flow

variable {f g : Flow}

/-! ## The nodes after a change -/

/-- A new node comes last. -/
theorem ids_addNode (n : Node) (h : f.hasNode n.id = false) :
    (f.addNode n h).ids = f.ids ++ [n.id] := List.map_append

/-- A node that takes the place of another leaves the ids as they are. -/
theorem ids_replaceNode (n : Node) : (f.replaceNode n).ids = f.ids := by
  unfold ids replaceNode
  rw [List.map_map]
  refine List.map_congr_left fun m _ => ?_
  by_cases h : m.id = n.id <;> simp [h]

/-- All nodes but the one are left. -/
theorem mem_ids_removeNode {id id' : String} :
    id' ∈ (f.removeNode id).ids ↔ id' ∈ f.ids ∧ id' ≠ id := by
  unfold ids removeNode
  simp only [List.mem_map, List.mem_filter, decide_eq_true_eq]
  constructor
  · rintro ⟨n, ⟨hn, hne⟩, rfl⟩
    exact ⟨⟨n, hn, rfl⟩, hne⟩
  · rintro ⟨⟨n, hn, rfl⟩, hne⟩
    exact ⟨n, ⟨hn, hne⟩, rfl⟩

/-! ## Soundness -/

/-- The parts of a flow refer to nodes of the flow, and edges are told apart by their ids. -/
structure Sound (f : Flow) : Prop where
  edgeIds : (f.edges.map Edge.id).Nodup
  /-- Edges lead from node to node. -/
  connected : ∀ e ∈ f.edges, e.source ∈ f.ids ∧ e.target ∈ f.ids
  /-- A start marker is on a node. -/
  marked : ∀ id, f.start = some id → id ∈ f.ids

/-- Nothing is wrong with a flow without nodes. -/
theorem sound_empty : Flow.empty.Sound :=
  ⟨List.nodup_nil, fun _ he => absurd he List.not_mem_nil, fun _ h => nomatch h⟩

namespace Sound

/-- More nodes do no harm. -/
theorem addNode (hf : f.Sound) (n : Node) (h : f.hasNode n.id = false) : (f.addNode n h).Sound where
  edgeIds := hf.edgeIds
  connected e he := by
    rw [ids_addNode]
    exact ⟨List.mem_append_left _ (hf.connected e he).1,
      List.mem_append_left _ (hf.connected e he).2⟩
  marked id hid := by
    rw [ids_addNode]
    exact List.mem_append_left _ (hf.marked id hid)

/-- A node may be replaced by one with the same id. -/
theorem replaceNode (hf : f.Sound) (n : Node) : (f.replaceNode n).Sound where
  edgeIds := hf.edgeIds
  connected := by
    rw [ids_replaceNode]
    exact hf.connected
  marked := by
    rw [ids_replaceNode]
    exact hf.marked

/-- Without a node, its edges are gone, and so is the marker if it was there. -/
theorem removeNode (hf : f.Sound) (id : String) : (f.removeNode id).Sound where
  edgeIds := hf.edgeIds.sublist (List.filter_sublist.map _)
  connected e he := by
    obtain ⟨he, hends⟩ := List.mem_filter.mp he
    simp only [Bool.and_eq_true, decide_eq_true_eq] at hends
    exact ⟨mem_ids_removeNode.mpr ⟨(hf.connected e he).1, hends.1⟩,
      mem_ids_removeNode.mpr ⟨(hf.connected e he).2, hends.2⟩⟩
  marked id' hid' := by
    rw [mem_ids_removeNode]
    simp only [Flow.removeNode] at hid'
    split at hid'
    · cases hid'
    · rename_i hother
      exact ⟨hf.marked id' hid', fun heq => hother (heq ▸ hid')⟩

/-- An edge between nodes with a new id may be added. -/
theorem addEdge (hf : f.Sound) {e : Edge} (hid : e.id ∉ f.edges.map Edge.id)
    (hsource : e.source ∈ f.ids) (htarget : e.target ∈ f.ids) :
    (f.withEdges (f.edges ++ [e])).Sound where
  edgeIds := Association.nodup_map_append hf.edgeIds hid
  connected e' he' := by
    rcases List.mem_append.mp he' with he' | he'
    · exact hf.connected e' he'
    · obtain rfl := List.mem_singleton.mp he'
      exact ⟨hsource, htarget⟩
  marked := hf.marked

/-- Edges may be left out. -/
theorem filterEdges (hf : f.Sound) (p : Edge → Bool) : (f.withEdges (f.edges.filter p)).Sound where
  edgeIds := hf.edgeIds.sublist (List.filter_sublist.map _)
  connected e he := hf.connected e (List.mem_filter.mp he).1
  marked := hf.marked

end Sound

/-- Each change of a sound flow by an operation of its own gives a sound flow. -/
theorem Change.sound {op : Edit} (h : f.Change op g) (hop : op.isLocal) (hf : f.Sound) :
    g.Sound := by
  cases h with
  | addNode hkind hnode => exact hf.addNode _ _
  | updateConfig hnode hblock => exact hf.replaceNode _
  | rename hnode => exact hf.replaceNode _
  | move hnode hposition => exact hf.replaceNode _
  | remove hnode => exact hf.removeNode _
  | connect hsource htarget _ hfree =>
    exact hf.addEdge (Edge.freeId_not_mem _ _) (hasNode_iff.mp hsource) (hasNode_iff.mp htarget)
  | disconnect hedge => exact hf.filterEdges _
  | markStart hnode =>
    refine ⟨hf.edgeIds, hf.connected, fun id hid => ?_⟩
    obtain rfl := Option.some.inj hid
    exact hasNode_iff.mp hnode
  | clearStart hstart => exact ⟨hf.edgeIds, hf.connected, fun _ h => nomatch h⟩
  | importDocument hread => cases hop
  | replaceWith => cases hop

/-- **A flow that is built by editing holds together.** After any run of operations on nodes, edges
and the marker, failing or not, no two nodes share an id and each is found under its own, no two
edges share an id, every edge leads from node to node, and the marker, if it is set, is on a node.
So the checks never report an edge without an end or a marker on a missing node. -/
theorem sound_ofEdits {edits : List Edit} (h : ∀ op ∈ edits, op.isLocal) :
    (ofEdits edits).ids.Nodup ∧
    (∀ n ∈ (ofEdits edits).nodes, (ofEdits edits).node? n.id = some n) ∧
    ((ofEdits edits).edges.map Edge.id).Nodup ∧
    (∀ e ∈ (ofEdits edits).edges, e.source ∈ (ofEdits edits).ids ∧ e.target ∈ (ofEdits edits).ids) ∧
    (∀ id, (ofEdits edits).start = some id → id ∈ (ofEdits edits).ids) ∧
    (ofEdits edits).validate.byCode .danglingEdge = [] ∧
    ∀ id, .startMissing id ∉ (ofEdits edits).validate.findings := by
  have hsound : (ofEdits edits).Sound :=
    ofEdits_keeps sound_empty fun op hop _ _ hchange => hchange.sound (h op hop)
  refine ⟨(ofEdits edits).distinct, fun n hn => node?_eq_some_iff.mpr ⟨hn, rfl⟩, hsound.edgeIds,
    hsound.connected, hsound.marked, ?_, fun id hfound => ?_⟩
  · rw [Validation.byCode_danglingEdge]
    exact Validation.danglingEdges_eq_nil_iff.mpr hsound.connected
  · obtain ⟨hstart, hmissing⟩ := Validation.startMissing_mem_findings_iff.mp hfound
    exact hmissing (hsound.marked id hstart)

/-- A request for a node of a kind under an id. -/
def nodeUnder (id kind : String) : NodeRequest := ⟨.text kind, .null, none, .null, some id, id⟩

/-- Two edges whose derived ids are the same, a node that is asked for twice, an edge to a missing
node, and a marked node that is removed. -/
def someEdits : List Edit :=
  [.addNode (nodeUnder "a" "key"), .addNode (nodeUnder "b" "hangup"),
    .addNode (nodeUnder "a" "menu"), .addNode (nodeUnder "1-b" "hangup"),
    .connect "a" "b" (.text "1"), .connect "a" "1-b" .null, .connect "a" "c" (.text "2"),
    .connect "a" "b" (.int 1), .markStart "b", .remove "b"]

/-- None of the edits imports a document. -/
theorem isLocal_someEdits : ∀ op ∈ someEdits, op.isLocal := by simp [someEdits, Edit.isLocal]

/-- What is left are two nodes and the edge between them, whose first candidate for an id was taken.
-/
theorem sound_ofEdits_someEdits : (∀ op ∈ someEdits, op.isLocal) ∧
    (ofEdits someEdits).edges = [⟨"e-a-1-b-2", "a", "1-b", none⟩] ∧
    (ofEdits someEdits).ids = ["a", "1-b"] ∧ (ofEdits someEdits).start = none ∧
    (ofEdits someEdits).validate.byCode .danglingEdge = [] := by
  obtain ⟨-, -, -, -, -, hdangling, -⟩ := sound_ofEdits isLocal_someEdits
  exact ⟨isLocal_someEdits, by decide +kernel, by decide +kernel, by decide +kernel, hdangling⟩

end Flow

end CallFlow
