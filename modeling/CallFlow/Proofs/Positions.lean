import CallFlow.Proofs.FailedEdits

/-!
# The positions of nodes

A position is a mapping from texts. A document with another one is refused, and so is a request for
a node with one, but a node can be moved to any mapping. So moves are the only way for a position
under other keys into a flow: where a run of operations leaves one, a move of that very node has
given it (`Editor.placed_or_moved`). A flow with such a position can be written, but what is written
is refused when it is read again (`Document.toFlow_ofFlow_of_unplaced`).

* `Flow.Change.placed_cases`: where the position of a node comes from after one operation.
* `Editor.placed_unless_moved`: runs of operations.
* `Editor.unplaced_of_move`: a flow that is reached and not read again.
-/

namespace CallFlow

/-! ## Positions under texts -/

/-- The keys of the position are texts. -/
def Node.Placed (n : Node) : Prop := ∀ e ∈ n.position, ∃ s, e.1 = .text s

/-- All nodes of a flow have positions under texts. -/
def Flow.Placed (f : Flow) : Prop := ∀ n ∈ f.nodes, n.Placed

/-- A node has its place if nothing is wrong with its position. -/
theorem Node.placed_iff {n : Node} : n.Placed ↔ positionIssues n.position = [] :=
  positionIssues_eq_nil_iff.symm

/-- A node without such a position does not pass the check. -/
theorem Node.checked_of_unplaced {n : Node} (h : ¬ n.Placed) :
    n.checked = .error (positionIssues n.position) := by
  unfold checked
  split
  · rename_i hnone
    exact absurd (placed_iff.mpr hnone) h
  · rfl

/-- Where there are no nodes, all have their place. -/
theorem Flow.placed_empty : Flow.empty.Placed := by
  intro n hn
  cases hn

namespace Document

/-- A node that is read has its place. -/
theorem placed_of_readNode {index : Nat} {v : Value} {n : Node} (h : readNode index v = .ok n) :
    n.Placed := by
  unfold readNode at h
  split at h
  · obtain ⟨_, _, -, -, -, -, -, -, hissues⟩ := readFlatNode_eq_ok h
    exact Node.placed_iff.mpr hissues
  · cases h

/-- A document gives its nodes positions under texts. -/
theorem placed_of_toFlow {document : Value} {f : Flow} (h : toFlow document = .ok f) :
    f.Placed := by
  obtain ⟨_, _, _, _, -, -, -, -, hnodes, -⟩ := toFlow_eq_ok_iff.mp h
  intro n hn
  obtain ⟨v, -, i, hnode⟩ := exists_readNode_of_mem hnodes n hn
  exact placed_of_readNode hnode

/-! ## Reading such a flow again -/

/-- The entries of nodes are read up to the first one whose position is refused. -/
theorem readNodes_map_ofNode_of_unplaced : ∀ {nodes : List Node} (index : Nat),
    (∀ n ∈ nodes, n.Normal) → (∃ n ∈ nodes, ¬ n.Placed) → ∃ n ∈ nodes, ¬ n.Placed ∧
      readNodes index (nodes.map ofNode) =
        .error (.positionUnfit n.id (Node.positionIssues n.position))
  | [], _, _, h => by
    obtain ⟨n, hn, -⟩ := h
    cases hn
  | n :: rest, index, hnormal, h => by
    obtain ⟨hn, hrest⟩ := List.forall_mem_cons.mp hnormal
    rw [List.map_cons, readNodes]
    by_cases hplaced : n.Placed
    · have hlater : ∃ m ∈ rest, ¬ m.Placed := by
        obtain ⟨m, hm, hunplaced⟩ := h
        rcases List.mem_cons.mp hm with rfl | hm
        · exact absurd hplaced hunplaced
        · exact ⟨m, hm, hunplaced⟩
      obtain ⟨m, hm, hunplaced, hread⟩ := readNodes_map_ofNode_of_unplaced (index + 1) hrest hlater
      refine ⟨m, List.mem_cons_of_mem _ hm, hunplaced, ?_⟩
      rw [readNode_ofNode hn (Node.placed_iff.mp hplaced), hread]
      rfl
    · refine ⟨n, List.mem_cons_self, hplaced, ?_⟩
      rw [readNode_ofNode_eq hn, Node.checked_of_unplaced hplaced]
      rfl

/-- What is wrong with the entry of a node is wrong with the document of the flow. -/
theorem toFlow_ofFlow_of_error {f : Flow} {fault : DocumentFault}
    (h : readNodes 0 (f.nodes.map ofNode) = .error fault) : toFlow (ofFlow f) = .error fault := by
  obtain ⟨entries, hdocument, hnodes, hedges, hstart⟩ := exists_fields_ofFlow f
  rw [hdocument]
  simp only [toFlow, hnodes, hedges, hstart, listOrEmpty?_list, h]
  rfl

/-- The document of a flow with a position under other keys than texts is refused for the position
of such a node. -/
theorem toFlow_ofFlow_of_unplaced {f : Flow} (hf : f.Normal) (h : ¬ f.Placed) :
    ∃ n ∈ f.nodes, ¬ n.Placed ∧
      toFlow (ofFlow f) = .error (.positionUnfit n.id (Node.positionIssues n.position)) := by
  unfold Flow.Placed at h
  push Not at h
  obtain ⟨n, hn, hunplaced, hread⟩ := readNodes_map_ofNode_of_unplaced 0 hf.nodes h
  exact ⟨n, hn, hunplaced, toFlow_ofFlow_of_error hread⟩

end Document

/-! ## Where positions come from -/

/-- After a change, the position of a node is under texts, or it is the one that the node had, or a
move has given it, or the whole flow is another one. -/
theorem Flow.Change.placed_cases {f g : Flow} {op : Edit} (h : f.Change op g) {m : Node}
    (hm : m ∈ g.nodes) : m.Placed ∨ (∃ n ∈ f.nodes, n.id = m.id ∧ n.position = m.position) ∨
      (∃ v, op = .move m.id v ∧ v.entries = .ok m.position) ∨ op = .replaceWith g := by
  have hsame : m ∈ f.nodes → ∃ n ∈ f.nodes, n.id = m.id ∧ n.position = m.position :=
    fun hm => ⟨m, hm, rfl, rfl⟩
  cases h with
  | addNode hkind hnode =>
    rcases List.mem_append.mp hm with hm | hm
    · exact .inr (.inl (hsame hm))
    · obtain rfl := List.mem_singleton.mp hm
      exact .inl (Node.placed_iff.mpr (NodeRequest.toNode_eq_ok hnode).2.2)
  | updateConfig hnode hblock | rename hnode =>
    obtain ⟨m', hm', rfl⟩ := List.mem_map.mp hm
    right; left
    split
    · exact ⟨_, (node?_eq_some_iff.mp hnode).1, rfl, rfl⟩
    · exact ⟨m', hm', rfl, rfl⟩
  | @move id v position n hnode hposition =>
    obtain ⟨m', hm', rfl⟩ := List.mem_map.mp hm
    right
    split
    · right; left
      obtain ⟨-, rfl⟩ := node?_eq_some_iff.mp hnode
      exact ⟨v, rfl, hposition⟩
    · left
      exact ⟨m', hm', rfl, rfl⟩
  | remove hnode => exact .inr (.inl (hsame (List.mem_filter.mp hm).1))
  | connect | disconnect | markStart | clearStart => exact .inr (.inl (hsame hm))
  | importDocument hread => exact .inl (Document.placed_of_toFlow hread m hm)
  | replaceWith => exact .inr (.inr (.inr rfl))

namespace Editor

/-- After a run of operations, the position of a node is under texts or was given by a move of that
node. -/
theorem placed_or_moved {e : Editor} {edits : List Edit} (he : e.flow.Placed)
    (hother : ∀ g, .replaceWith g ∈ edits → g.Placed) : ∀ n ∈ (e.run edits).flow.nodes,
      n.Placed ∨ ∃ v, .move n.id v ∈ edits ∧ v.entries = .ok n.position := by
  apply run_keeps (P := fun f => ∀ n ∈ f.nodes,
    n.Placed ∨ ∃ v, .move n.id v ∈ edits ∧ v.entries = .ok n.position)
  · intro n hn
    exact .inl (he n hn)
  · intro op hop f g hchange hf n hn
    rcases hchange.placed_cases hn with hplaced | ⟨m, hm, hid, hposition⟩ | ⟨v, rfl, hv⟩ | rfl
    · exact .inl hplaced
    · -- the node was there before, and kept its position
      have hm := hf m hm
      unfold Node.Placed at hm ⊢
      rwa [hid, hposition] at hm
    · exact .inr ⟨v, hop, hv⟩
    · exact .inl (hother g hop n hn)

/-- **Only moves leave positions that are not under texts.** Let a run of operations begin with the
empty flow or with that of a document. A position that is left and has another key than a text was
given by a move of its node. So if all moves are to positions under texts, all positions are, and
the flow is read back from its document. If one position is not, the document is refused for the
position of such a node. -/
theorem placed_unless_moved {e : Editor} {edits : List Edit}
    (he : e.flow = .empty ∨ ∃ document, Document.toFlow document = .ok e.flow)
    (hfresh : ∀ r, .addNode r ∈ edits → r.fresh ≠ "")
    (hother : ∀ g, .replaceWith g ∈ edits → g.Reached ∧ g.Placed) :
    (∀ n ∈ (e.run edits).flow.nodes,
      n.Placed ∨ ∃ v, .move n.id v ∈ edits ∧ v.entries = .ok n.position) ∧
    ((∀ id v position, .move id v ∈ edits → v.entries = .ok position →
        ∀ entry ∈ position, ∃ s, entry.1 = .text s) →
      (e.run edits).flow.Placed ∧
        Document.toFlow (Document.ofFlow (e.run edits).flow) = .ok (e.run edits).flow) ∧
    (¬ (e.run edits).flow.Placed → ∃ n ∈ (e.run edits).flow.nodes, ¬ n.Placed ∧
      Document.toFlow (Document.ofFlow (e.run edits).flow) =
        .error (.positionUnfit n.id (Node.positionIssues n.position))) := by
  have hstart : e.flow.Reached ∧ e.flow.Placed := by
    rcases he with hempty | ⟨document, hread⟩
    · rw [hempty]
      exact ⟨.empty, Flow.placed_empty⟩
    · exact ⟨.loaded hread, Document.placed_of_toFlow hread⟩
  have hnormal : (e.run edits).flow.Normal :=
    (Flow.Reached.run hstart.1 hfresh fun g hg => (hother g hg).1).normal
  have hmoved := placed_or_moved hstart.2 fun g hg => (hother g hg).2
  refine ⟨hmoved, ?_, ?_⟩
  · intro hmoves
    have hplaced : (e.run edits).flow.Placed := by
      intro n hn
      rcases hmoved n hn with hplaced | ⟨v, hop, hv⟩
      · exact hplaced
      · exact hmoves n.id v n.position hop hv
    refine ⟨hplaced, Document.toFlow_ofFlow_of_normal hnormal ?_⟩
    intro n hn
    exact Node.placed_iff.mp (hplaced n hn)
  · intro hunplaced
    exact Document.toFlow_ofFlow_of_unplaced hnormal hunplaced

/-- A prompt that is moved to a list of pairs, after a move that fails. -/
def movedEdits : List Edit :=
  [.addNode ⟨.text "prompt", .null, none, .null, some "a", "a"⟩, .move "a" (.int 5),
    .move "a" (.list [.list [.text "x", .int 10], .text "y2"])]

/-- The move that fails leaves no trace, and the pairs of the other one are the position. -/
theorem placed_unless_moved_prompt :
    ((Editor.ofFlow .empty).run movedEdits).flow.nodes.map Node.position =
      [[(.text "x", .int 10), (.text "y", .text "2")]] ∧
    Document.toFlow (Document.ofFlow ((Editor.ofFlow .empty).run movedEdits).flow) =
      .ok ((Editor.ofFlow .empty).run movedEdits).flow := by
  refine ⟨rfl, ?_⟩
  obtain ⟨-, hplaced, -⟩ := @placed_unless_moved (.ofFlow .empty) movedEdits (.inl rfl)
    (by simp [movedEdits]) (by simp [movedEdits])
  refine (hplaced ?_).2
  intro id v position hop hposition
  simp only [movedEdits, List.mem_cons, reduceCtorEq, Edit.move.injEq, List.not_mem_nil, or_false,
    false_or] at hop
  rcases hop with ⟨-, rfl⟩ | ⟨-, rfl⟩
  · cases hposition
  · obtain rfl : position = [(.text "x", .int 10), (.text "y", .text "2")] :=
      (Except.ok.inj hposition).symm
    simp

/-- A position with a number for a key. -/
def gridPosition : Value := .mapping [(.int 1, .int 2)]

/-- A node is moved to a position that no node can be added with. The flow is reached, and what is
written of it is not read. -/
theorem unplaced_of_move :
    (greeting.apply (.addNode ⟨.text "hangup", .null, none, gridPosition, some "b", "b"⟩)).2 =
      .error (.positionUnfit [⟨[.name "position", .index 1, .name "[key]"], .notText⟩]) ∧
    (greeting.apply (.move "a" gridPosition)).2.isOk ∧
    (greeting.apply (.move "a" gridPosition)).1.flow.Reached ∧
    ¬ (greeting.apply (.move "a" gridPosition)).1.flow.Placed ∧
    Document.toFlow (Document.ofFlow (greeting.apply (.move "a" gridPosition)).1.flow) =
      .error (.positionUnfit "a" [⟨[.name "position", .index 1, .name "[key]"], .notText⟩]) := by
  have hgreeting : greeting.flow.Reached := Flow.Reached.run .empty (by simp) (by simp)
  refine ⟨rfl, rfl, .edited hgreeting (by simp) (by simp), ?_, rfl⟩
  intro hplaced
  obtain ⟨s, hs⟩ := hplaced _ List.mem_cons_self _ List.mem_cons_self
  cases hs

end Editor

end CallFlow
