import CallFlow.Proofs.Change
import CallFlow.Proofs.FreeIds

/-!
# Connecting and disconnecting

Two nodes are connected if both are there, the handle can be written as a text and the branch is not
in use (`Editor.connect_eq_ok_iff`).
The edge that is made has an id that no other edge has, so whoever disconnects it again has the flow
from before (`Editor.disconnect_connect`).
-/

namespace CallFlow

/-- The edge that connects two nodes of a flow by a handle as it is given. -/
def Flow.newEdge (f : Flow) (source target : String) (handle : Option String) : Edge :=
  ⟨Edge.freeId (f.edges.map Edge.id) (Edge.derivedId source target handle), source, target,
    handle.filter (· ≠ "")⟩

/-- No edge of the flow has its id. -/
theorem Flow.id_ne_newEdge {f : Flow} {g : Edge} (h : g ∈ f.edges) (source target : String)
    (handle : Option String) : g.id ≠ (f.newEdge source target handle).id := by
  intro heq
  apply Edge.freeId_not_mem (f.edges.map Edge.id) (Edge.derivedId source target handle)
  exact List.mem_map.mpr ⟨g, h, heq⟩

namespace Editor

variable {e : Editor} {source target : String} {handle : Value} {result : EditResult}

/-- Two nodes are connected exactly if both are there, the numbers in the handle can be written and
no edge leaves the first node by the handle, and then the new edge is given. -/
theorem connect_eq_ok_iff : (e.connect source target handle).2 = .ok result ↔
    e.flow.hasNode source ∧ e.flow.hasNode target ∧ Json.canWrite handle = true ∧
      (∀ g ∈ e.flow.edges, g.source = source → g.handle ≠ handleText handle) ∧
      result = .edge (e.flow.newEdge source target (handleText handle)) := by
  constructor
  · intro h
    unfold connect at h
    split at h
    · cases h
    · rename_i hsource
      split at h
      · cases h
      · rename_i htarget
        split at h
        · cases h
        · rename_i hshort
          dsimp only at h
          split at h
          · cases h
          · rename_i hfree
            refine ⟨by simpa using hsource, by simpa using htarget, by simpa using hshort,
              by simpa using hfree, ?_⟩
            exact (Except.ok.inj h).symm
  · rintro ⟨hsource, htarget, hshort, hfree, rfl⟩
    have hnone : (e.flow.edges.any fun g => g.source = source && g.handle = handleText handle) =
        false := by
      simpa using hfree
    simp [connect, change, Flow.newEdge, hsource, htarget, hshort, hnone]

/-- Then the new edge is put behind the edges of the flow. -/
theorem connect_fst (h : (e.connect source target handle).2 = .ok result) :
    (e.connect source target handle).1.flow =
      e.flow.withEdges (e.flow.edges ++ [e.flow.newEdge source target (handleText handle)]) := by
  obtain ⟨hsource, htarget, hshort, hfree, -⟩ := connect_eq_ok_iff.mp h
  have hchange := e.apply_of_change (.connect hsource htarget hshort hfree)
  exact congrArg Editor.flow hchange

/-- Where an edge has the given id, disconnecting leaves the edges that have another one. -/
theorem disconnect_of_mem {g : Edge} (h : g ∈ e.flow.edges) :
    (e.disconnect g.id).1.flow = e.flow.withEdges (e.flow.edges.filter (·.id ≠ g.id)) := by
  have hchange := e.apply_of_change (.disconnect ⟨g, h, rfl⟩)
  exact congrArg Editor.flow hchange

/-- **Connecting can be undone.** Where two nodes of a flow are connected, by whatever handle and
however the flow was reached, the edge that is given comes last in the flow. It is the only one with
its id and is found under it. When it is disconnected, the flow is the one from before: the same
nodes and edges in the same order, and the same start marker. -/
theorem disconnect_connect {g : Edge} (h : (e.connect source target handle).2 = .ok (.edge g)) :
    (e.connect source target handle).1.flow.edges = e.flow.edges ++ [g] ∧
    (e.connect source target handle).1.flow.edges.filter (·.id = g.id) = [g] ∧
    (e.connect source target handle).1.flow.edge? g.id = some g ∧
    ((e.connect source target handle).1.disconnect g.id).1.flow = e.flow := by
  obtain ⟨-, -, -, -, hresult⟩ := connect_eq_ok_iff.mp h
  have hg : g = e.flow.newEdge source target (handleText handle) := EditResult.edge.inj hresult
  have hflow : (e.connect source target handle).1.flow =
      e.flow.withEdges (e.flow.edges ++ [g]) := by
    rw [connect_fst h, hg]
  have hedges : (e.connect source target handle).1.flow.edges = e.flow.edges ++ [g] := by
    rw [hflow]
    rfl
  have hnew : ∀ g' ∈ e.flow.edges, g'.id ≠ g.id := by
    intro g' hg'
    rw [hg]
    exact Flow.id_ne_newEdge hg' source target (handleText handle)
  refine ⟨hedges, ?_, ?_, ?_⟩
  · rw [hedges, List.filter_append, List.filter_eq_nil_iff.mpr]
    · simp
    · simpa using hnew
  · unfold Flow.edge?
    rw [hedges, List.find?_append, List.find?_eq_none.mpr]
    · simp
    · simpa using hnew
  · rw [disconnect_of_mem (hedges ▸ List.mem_append_right _ (List.mem_singleton_self g)), hedges,
      List.filter_append, List.filter_eq_self.mpr, hflow]
    · simp [Flow.withEdges]
    · simpa using hnew

/-- Two nodes with an edge whose id is the one that is derived for the way back. -/
def thereAndBack : Editor :=
  .ofFlow ⟨[⟨"a", "A", .known .hangup, Node.origin⟩, ⟨"b", "B", .known .hangup, Node.origin⟩],
    [⟨"e-a-b", "b", "a", none⟩], none, by decide⟩

/-- The edge of the way back gets another id, and goes again under it. -/
theorem disconnect_connect_thereAndBack :
    (thereAndBack.connect "a" "b" .null).2 = .ok (.edge ⟨"e-a-b-2", "a", "b", none⟩) ∧
    (thereAndBack.connect "a" "b" .null).1.flow ≠ thereAndBack.flow ∧
    ((thereAndBack.connect "a" "b" .null).1.disconnect "e-a-b-2").1.flow = thereAndBack.flow := by
  have h : (thereAndBack.connect "a" "b" .null).2 = .ok (.edge ⟨"e-a-b-2", "a", "b", none⟩) := rfl
  obtain ⟨hlast, -, -, hback⟩ := disconnect_connect h
  refine ⟨h, fun heq => ?_, hback⟩
  rw [heq] at hlast
  simp at hlast

end Editor

end CallFlow
