import CallFlow.Flow
import CallFlow.Proofs.Association

/-!
# Looking up nodes and edges

A flow has at most one node under an id (`Flow.node?_eq_some_iff`), and a call begins at one of its
nodes (`Flow.mem_ids_of_resolveStart`). Nodes with distinct ids make a flow, and no others do
(`Flow.ofParts_eq_ok_iff`).
-/

namespace CallFlow

namespace Flow

variable {f : Flow}

/-- The edges that leave a node are those with the node as their source. -/
theorem mem_outgoing_iff {id : String} {e : Edge} :
    e ∈ f.outgoing id ↔ e ∈ f.edges ∧ e.source = id := by
  simp [outgoing]

/-- The node under an id is the only one that has it. -/
theorem node?_eq_some_iff {id : String} {n : Node} :
    f.node? id = some n ↔ n ∈ f.nodes ∧ n.id = id :=
  Association.find?_key_eq_some_iff f.distinct

/-- A node is found by its id. -/
theorem exists_node?_of_mem_ids {id : String} (h : id ∈ f.ids) : ∃ n, f.node? id = some n := by
  obtain ⟨n, hn, hid⟩ := List.mem_map.mp h
  exact ⟨n, node?_eq_some_iff.mpr ⟨hn, hid⟩⟩

/-- The nodes under some ids have these ids. -/
theorem map_id_filterMap_node? : ∀ {ids : List String}, (∀ id ∈ ids, id ∈ f.ids) →
    (ids.filterMap f.node?).map Node.id = ids
  | [], _ => rfl
  | id :: rest, h => by
    obtain ⟨n, hn⟩ := exists_node?_of_mem_ids (h id List.mem_cons_self)
    rw [List.filterMap_cons_some hn, List.map_cons, (node?_eq_some_iff.mp hn).2,
      map_id_filterMap_node? fun id' h' => h id' (List.mem_cons_of_mem _ h')]

/-- A call begins at a node. -/
theorem mem_ids_of_resolveStart {start : String} (h : f.resolveStart = some start) :
    start ∈ f.ids := by
  have hinferred : ∀ {id}, f.inferredStart = some id → id ∈ f.ids := by
    intro id h
    unfold inferredStart at h
    split at h
    · rename_i id' hid'
      obtain rfl := Option.some.inj h
      have : id' ∈ f.startCandidates := hid' ▸ List.mem_cons_self
      exact (List.mem_filter.mp this).1
    · cases h
    · split at h
      · exact List.mem_of_head? h
      · cases h
  unfold resolveStart at h
  split at h
  · split at h
    · rename_i hnode
      obtain rfl := Option.some.inj h
      exact hasNode_iff.mp hnode
    · exact hinferred h
  · exact hinferred h

/-- Nodes with distinct ids are not found to repeat one. -/
theorem repeatedId?_eq_none {seen : List String} : ∀ {nodes : List Node},
    (nodes.map Node.id).Nodup → (∀ n ∈ nodes, n.id ∉ seen) → repeatedId? seen nodes = none
  | [], _, _ => rfl
  | n :: rest, hnodup, hseen => by
    obtain ⟨hnew, hnodup⟩ := List.nodup_cons.mp hnodup
    rw [repeatedId?, if_neg (hseen n List.mem_cons_self)]
    refine repeatedId?_eq_none hnodup fun m hm hmem => ?_
    rcases List.mem_cons.mp hmem with heq | hmem
    · exact hnew (List.mem_map.mpr ⟨m, hm, heq⟩)
    · exact hseen m (List.mem_cons_of_mem _ hm) hmem

/-- Parts make a flow exactly if they are the parts of that flow. -/
theorem ofParts_eq_ok_iff {nodes : List Node} {edges : List Edge} {start : Option String} :
    ofParts nodes edges start = .ok f ↔
      f.nodes = nodes ∧ f.edges = edges ∧ f.start = start := by
  unfold ofParts
  split
  · rename_i id hrepeated
    simp only [reduceCtorEq, false_iff]
    rintro ⟨rfl, -, -⟩
    rw [repeatedId?_eq_none f.distinct fun _ _ => List.not_mem_nil] at hrepeated
    cases hrepeated
  · constructor
    · intro h
      obtain rfl := Except.ok.inj h
      exact ⟨rfl, rfl, rfl⟩
    · rintro ⟨rfl, rfl, rfl⟩
      rfl

end Flow

end CallFlow
