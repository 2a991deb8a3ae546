import CallFlow.Proofs.Positions

/-!
# Derived ids

An edge that is made by connecting two nodes gets the first candidate for its ends and its handle
that no edge before it has, and so does an edge of a document that gives no ids. So the ids of a
flow that was built by adding and connecting nodes need not be written: they are derived again when
the document without them is read (`Document.toFlow_withoutEdgeIds`).

* `Edge.DerivedFrom`: edges with derived ids, one after the other.
* `Flow.derivedFrom_ofEdits`: the edges of flows that are built.
* `Document.readEdges_withoutId`: such edges are read from entries without ids.
-/

namespace CallFlow

/-! ## Edges with derived ids -/

/-- Each edge has the free id for its ends and its handle, beside the ids that are taken and those
of the edges before it. -/
def Edge.DerivedFrom : List String → List Edge → Prop
  | _, [] => True
  | taken, e :: rest => e.id = freeId taken (derivedId e.source e.target e.handle) ∧
      DerivedFrom (e.id :: taken) rest

/-- Edges with derived ids may be followed by one whose id is derived beside theirs. -/
theorem Edge.DerivedFrom.snoc {e : Edge} : ∀ {edges : List Edge} {taken : List String},
    DerivedFrom taken edges →
    e.id = freeId (edges.map Edge.id ++ taken) (derivedId e.source e.target e.handle) →
      DerivedFrom taken (edges ++ [e])
  | [], _, _, hid => ⟨hid, trivial⟩
  | first :: rest, taken, ⟨hfirst, hrest⟩, hid => by
    refine ⟨hfirst, hrest.snoc ?_⟩
    rw [hid]
    apply freeId_congr
    intro id
    simp only [List.map_cons, List.mem_append, List.mem_cons]
    tauto

/-- The operation adds a node, or it connects two nodes by no handle or by one that is not empty.
The id that is drawn for a new node is not empty. -/
def Edit.Builds : Edit → Prop
  | .addNode r => r.fresh ≠ ""
  | .connect _ _ handle => Editor.handleText handle ≠ some ""
  | _ => False

namespace Flow

/-- A handle that is not empty is that of the edge that is made. -/
theorem filter_handleText {handle : Value} (h : Editor.handleText handle ≠ some "") :
    (Editor.handleText handle).filter (· ≠ "") = Editor.handleText handle := by
  cases hhandle : Editor.handleText handle with
  | none => rfl
  | some s =>
    rw [hhandle] at h
    exact Option.filter_some_pos (by simpa using h)

/-- A change that builds on a flow keeps the ids of its edges derived. -/
theorem Change.derivedFrom {f g : Flow} {op : Edit} (h : f.Change op g) (hop : op.Builds)
    (hf : Edge.DerivedFrom [] f.edges) : Edge.DerivedFrom [] g.edges := by
  cases h with
  | addNode hkind hnode => exact hf
  | connect hsource htarget _ hfree =>
    apply hf.snoc
    show Edge.freeId _ _ = Edge.freeId _ (Edge.derivedId _ _ (Option.filter _ _))
    rw [filter_handleText hop, List.append_nil]
  | updateConfig | rename | move | remove | disconnect | markStart | clearStart
  | importDocument | replaceWith => exact hop.elim

variable {edits : List Edit}

/-- The edges of a flow that is built have derived ids. -/
theorem derivedFrom_ofEdits (h : ∀ op ∈ edits, op.Builds) :
    Edge.DerivedFrom [] (ofEdits edits).edges := by
  apply ofEdits_keeps (P := fun f => Edge.DerivedFrom [] f.edges)
  · trivial
  · intro op hop f g hchange
    exact hchange.derivedFrom (h op hop)

/-- A flow that is built is in normal form. -/
theorem normal_ofEdits (h : ∀ op ∈ edits, op.Builds) : (ofEdits edits).Normal := by
  apply Reached.normal
  apply Reached.run .empty
  · intro r hr
    exact h _ hr
  · intro g hg
    exact (h _ hg).elim

/-- The nodes of a flow that is built have positions under texts. -/
theorem placed_ofEdits (h : ∀ op ∈ edits, op.Builds) : (ofEdits edits).Placed := by
  intro n hn
  rcases Editor.placed_or_moved placed_empty (fun g hg => (h _ hg).elim) n hn with
    hplaced | ⟨v, hmove, -⟩
  · exact hplaced
  · exact (h _ hmove).elim

end Flow

/-! ## Documents without the ids of edges -/

namespace Document

/-- The entry for an edge without the id that it gives. -/
def withoutId : Value → Value
  | .mapping entry => .mapping (entry.filter fun e => e.1 ≠ .text "id")
  | v => v

/-- Entries for edges without the ids that they give. -/
def withoutIds : Value → Value
  | .list items => .list (items.map withoutId)
  | v => v

/-- A document without the ids of its edges. -/
def withoutEdgeIds : Value → Value
  | .mapping entries =>
    .mapping (entries.map fun e => if e.1 = .text "edges" then (e.1, withoutIds e.2) else e)
  | v => v

/-- What is left of the entry of an edge. -/
theorem withoutId_ofEdge (e : Edge) : withoutId (ofEdge e) =
    .mapping ([(.text "source", .text e.source), (.text "target", .text e.target)] ++
      (e.handle.map fun h => (Scalar.text "sourceHandle", Value.text h)).toList) := by
  cases hhandle : e.handle <;> simp [withoutId, ofEdge, hhandle]

/-- Entries without ids give none. -/
theorem explicitId?_withoutId (e : Edge) : explicitId? (withoutId (ofEdge e)) = none := by
  rw [withoutId_ofEdge]
  cases e.handle <;> simp [explicitId?, nonemptyText?]

/-- Entries without ids give no ids. -/
theorem explicitIds_withoutId (seen : List String) : ∀ (edges : List Edge) (index : Nat),
    explicitIds index seen (edges.map fun e => withoutId (ofEdge e)) = .ok seen
  | [], _ => rfl
  | e :: rest, index => by
    have ih := explicitIds_withoutId seen rest (index + 1)
    rw [List.map_cons, withoutId_ofEdge]
    cases hhandle : e.handle <;> simpa [explicitIds] using ih

/-- An edge whose id is derived is read from its entry without the id. -/
theorem readEdge_withoutId {e : Edge} {taken : List String} (he : e.Normal)
    (hid : e.id = Edge.freeId taken (Edge.derivedId e.source e.target e.handle)) (index : Nat) :
    readEdge index taken (withoutId (ofEdge e)) = .ok e := by
  have hsource := nonemptyText?_text he.source
  have htarget := nonemptyText?_text he.target
  have hhandle := readHandle_toList he.handle
  have hnone := explicitId?_withoutId e
  rw [withoutId_ofEdge] at hnone ⊢
  rw [readEdge_of_fields (by simpa using hsource) (by simpa using htarget) (by simpa using hhandle),
    hnone, Option.getD_none, ← hid]

/-- Edges with derived ids are read from their entries without the ids. -/
theorem readEdges_withoutId : ∀ {edges : List Edge} {taken : List String} (index : Nat),
    (∀ e ∈ edges, e.Normal) → Edge.DerivedFrom taken edges →
      readEdges index taken (edges.map fun e => withoutId (ofEdge e)) = .ok edges
  | [], _, _, _, _ => rfl
  | e :: rest, taken, index, hnormal, ⟨hid, hrest⟩ => by
    obtain ⟨he, hnormal⟩ := List.forall_mem_cons.mp hnormal
    have ih := readEdges_withoutId (index + 1) hnormal hrest
    rw [List.map_cons, readEdges, readEdge_withoutId he hid]
    simp only [bind, Except.bind, ih]

/-- The fields of the document of a flow without the ids of its edges. -/
theorem exists_fields_withoutEdgeIds (f : Flow) :
    ∃ entries, withoutEdgeIds (ofFlow f) = .mapping entries ∧
      Entries.field entries "nodes" = .list (f.nodes.map ofNode) ∧
      Entries.field entries "edges" = .list (f.edges.map fun e => withoutId (ofEdge e)) ∧
      readStart (Entries.field entries "start") = .ok f.start := by
  refine ⟨_, rfl, ?_, ?_, ?_⟩
  · simp
  · simp [withoutIds]
  · cases f.start <;> simp [readStart]

/-- **Ids need not be written.** A flow that is built from the empty one by adding nodes and
connecting them, in whatever order and whether it fails or not, by no handles or by such as are not
empty, is read back as it is from its document without the ids of the edges: each edge gets the id
again that it got when it was made. -/
theorem toFlow_withoutEdgeIds {edits : List Edit} (h : ∀ op ∈ edits, op.Builds) :
    toFlow (withoutEdgeIds (ofFlow (Flow.ofEdits edits))) = .ok (Flow.ofEdits edits) := by
  have hnormal := Flow.normal_ofEdits h
  have hplaced := Flow.placed_ofEdits h
  obtain ⟨entries, hdocument, hnodes, hedges, hstart⟩ :=
    exists_fields_withoutEdgeIds (Flow.ofEdits edits)
  apply toFlow_eq_ok_iff.mpr
  refine ⟨entries, (Flow.ofEdits edits).nodes.map ofNode,
    (Flow.ofEdits edits).edges.map fun e => withoutId (ofEdge e), [], hdocument, ?_, ?_, hstart,
    ?_, explicitIds_withoutId [] (Flow.ofEdits edits).edges 0, ?_⟩
  · rw [hnodes, listOrEmpty?_list]
  · rw [hedges, listOrEmpty?_list]
  · apply readNodes_map_ofNode 0 hnormal.nodes
    intro n hn
    exact Node.placed_iff.mp (hplaced n hn)
  · exact readEdges_withoutId 0 hnormal.edges (Flow.derivedFrom_ofEdits h)

/-- Three edges for which the same id is derived, an edge for which the id of the second of them is,
and two connections that fail. -/
def dashedEdits : List Edit :=
  [.addNode ⟨.text "key", .null, none, .null, some "a", "a"⟩,
    .addNode ⟨.text "menu", .null, none, .null, some "a-1", "a-1"⟩,
    .addNode ⟨.text "hangup", .null, none, .null, some "b", "b"⟩,
    .addNode ⟨.text "hangup", .null, none, .null, some "1-b", "1-b"⟩,
    .addNode ⟨.text "hangup", .null, none, .null, some "2", "2"⟩,
    .connect "a" "b" (.int 1), .connect "a-1" "b" .null, .connect "a" "c" .null,
    .connect "a" "1-b" .null, .connect "a" "b" (.text "1"), .connect "a" "2" (.text "1-b")]

/-- Ids and handles with dashes in them, so that four edges compete for one id. -/
theorem toFlow_withoutEdgeIds_dashed : (∀ op ∈ dashedEdits, op.Builds) ∧
    (Flow.ofEdits dashedEdits).edges = [⟨"e-a-1-b", "a", "b", some "1"⟩,
      ⟨"e-a-1-b-2", "a-1", "b", none⟩, ⟨"e-a-1-b-3", "a", "1-b", none⟩,
      ⟨"e-a-1-b-2-2", "a", "2", some "1-b"⟩] ∧
    toFlow (withoutEdgeIds (ofFlow (Flow.ofEdits dashedEdits))) =
      .ok (Flow.ofEdits dashedEdits) := by
  have hbuilds : ∀ op ∈ dashedEdits, op.Builds := by
    simp [dashedEdits, Edit.Builds, Editor.handleText, Value.display, Scalar.display,
      Scalar.literal, Text.ofInt_ne_empty]
  exact ⟨hbuilds, by decide +kernel, toFlow_withoutEdgeIds hbuilds⟩

end Document

end CallFlow
