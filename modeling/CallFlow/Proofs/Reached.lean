import CallFlow.Proofs.Change
import CallFlow.Proofs.EdgeIds
import CallFlow.Proofs.Lookup
import CallFlow.Proofs.NormalForm

/-!
# The flows that can be reached

A flow is reached if it is empty, or was read from a document, or is what an operation leaves of a
flow that was reached before (`Flow.Reached`). Operations may fail on the way.

Every flow that is reached is in normal form (`Flow.Reached.normal`): ids are not empty, edges have
distinct ids and no empty handles, and configurations are in normal form. Reading gives such a flow
(`Document.normal_of_toFlow`), and each change keeps it so (`Flow.Change.normal`).
-/

namespace CallFlow

/-! ## Normal form -/

/-- A node that has an id and a block in normal form. -/
structure Node.Normal (n : Node) : Prop where
  id : n.id ≠ ""
  block : n.block.Normal

/-- An edge with an id and two ends, and with a handle that is not empty if it has one. -/
structure Edge.Normal (e : Edge) : Prop where
  id : e.id ≠ ""
  source : e.source ≠ ""
  target : e.target ≠ ""
  handle : e.handle ≠ some ""

/-- A flow of nodes and edges in normal form, where no two edges have the same id. -/
structure Flow.Normal (f : Flow) : Prop where
  nodes : ∀ n ∈ f.nodes, n.Normal
  edges : ∀ e ∈ f.edges, e.Normal
  edgeIds : (f.edges.map Edge.id).Nodup

/-- The flows that can be reached by reading documents and by operations on flows. The ids that are
drawn for new nodes are not empty, and what replaces a flow was reached itself. -/
inductive Flow.Reached : Flow → Prop where
  | empty : Reached .empty
  | loaded {document : Value} {f : Flow} (h : Document.toFlow document = .ok f) : Reached f
  | edited {e : Editor} {op : Edit} (h : Reached e.flow)
      (hfresh : ∀ r, op = .addNode r → r.fresh ≠ "")
      (hother : ∀ g, op = .replaceWith g → Reached g) : Reached (e.apply op).1.flow

/-! ## Reading -/

namespace Document

/-- The block of a node of a document is in normal form. -/
theorem normal_of_readBlock {id declared : String} {config : Entries} {b : Block}
    (hdeclared : declared ≠ "") (h : readBlock id declared config = .ok b) : b.Normal := by
  unfold readBlock at h
  split at h
  · obtain ⟨c, hc, rfl⟩ := Except.map_eq_ok_iff.mp (Except.mapError_eq_ok_iff.mp h)
    exact (Config.normal_of_readNormalized hc).2
  · rename_i hunknown
    obtain ⟨entries, hentries, rfl⟩ := Except.map_eq_ok_iff.mp (Except.mapError_eq_ok_iff.mp h)
    obtain ⟨hkeys, rfl⟩ := Block.readOpaque_eq_ok_iff.mp hentries
    exact ⟨hdeclared, hunknown, hkeys⟩

/-- A node that is read from an entry has the id of the entry, and each of its other parts is read
from a field of its own. A name that is not given is made up. -/
theorem readFlatNode_eq_ok {index : Nat} {entry : Entries} {n : Node}
    (h : readFlatNode index entry = .ok n) : ∃ declared config,
      nonemptyText? (entry.field "id") = some n.id ∧
      nonemptyText? (entry.field "blockType") = some declared ∧
      (entry.field "name" ≠ .null → n.name = (entry.field "name").display) ∧
      mappingOr? [] (entry.field "config") = some config ∧
      mappingOr? Node.origin (entry.field "position") = some n.position ∧
      readBlock n.id declared config = .ok n.block ∧ Node.positionIssues n.position = [] := by
  unfold readFlatNode at h
  split at h
  · rename_i id hid
    split at h
    · rename_i declared hdeclared
      split at h
      · rename_i config hconfig
        split at h
        · rename_i position hposition
          obtain ⟨block, hblock, h⟩ := Except.bind_eq_ok_iff.mp h
          obtain ⟨hissues, rfl⟩ := Node.checked_eq_ok_iff.mp (Except.mapError_eq_ok_iff.mp h)
          refine ⟨declared, config, hid, hdeclared, ?_, hconfig, hposition, hblock, hissues⟩
          intro hgiven
          split
          · rename_i hnull
            exact absurd hnull hgiven
          · rfl
        · cases h
      · cases h
    · cases h
  · cases h

/-- A node that is read has the id of its entry, and its block in normal form. -/
theorem normal_of_readFlatNode {index : Nat} {entry : Entries} {n : Node}
    (h : readFlatNode index entry = .ok n) : n.Normal := by
  obtain ⟨declared, config, hid, hdeclared, -, -, -, hblock, -⟩ := readFlatNode_eq_ok h
  exact ⟨(nonemptyText?_eq_some_iff.mp hid).2,
    normal_of_readBlock (nonemptyText?_eq_some_iff.mp hdeclared).2 hblock⟩

/-- A node that is read is in normal form. -/
theorem normal_of_readNode {index : Nat} {v : Value} {n : Node} (h : readNode index v = .ok n) :
    n.Normal := by
  unfold readNode at h
  split at h
  · exact normal_of_readFlatNode h
  · cases h

/-- Entries are read as nodes one after the other. -/
theorem readNodes_cons_eq_ok {index : Nat} {v : Value} {rest : List Value} {ns : List Node}
    (h : readNodes index (v :: rest) = .ok ns) : ∃ n ns', readNode index v = .ok n ∧
      readNodes (index + 1) rest = .ok ns' ∧ ns = n :: ns' := by
  rw [readNodes] at h
  obtain ⟨n, hnode, h⟩ := Except.bind_eq_ok_iff.mp h
  obtain ⟨ns', hrest, h⟩ := Except.bind_eq_ok_iff.mp h
  exact ⟨n, ns', hnode, hrest, (Except.ok.inj h).symm⟩

/-- The nodes of a list are read from its entries, one from each. -/
theorem forall₂_readNodes : ∀ {index : Nat} {vs : List Value} {ns : List Node},
    readNodes index vs = .ok ns → List.Forall₂ (fun v n => ∃ i, readNode i v = .ok n) vs ns
  | _, [], ns, h => by
    obtain rfl := Except.ok.inj h
    exact .nil
  | index, v :: rest, ns, h => by
    obtain ⟨n, ns', hnode, hrest, rfl⟩ := readNodes_cons_eq_ok h
    exact .cons ⟨index, hnode⟩ (forall₂_readNodes hrest)

/-- Each node that is read has its entry. -/
theorem exists_readNode_of_mem {index : Nat} {vs : List Value} {ns : List Node}
    (h : readNodes index vs = .ok ns) : ∀ n ∈ ns, ∃ v ∈ vs, ∃ i, readNode i v = .ok n :=
  (forall₂_readNodes h).flip.exists_mem

/-- So are all nodes of a document. -/
theorem normal_of_readNodes {index : Nat} {vs : List Value} {ns : List Node}
    (h : readNodes index vs = .ok ns) : ∀ n ∈ ns, n.Normal := by
  intro n hn
  obtain ⟨v, -, i, hnode⟩ := exists_readNode_of_mem h n hn
  exact normal_of_readNode hnode

/-- A handle that is read is not empty: an empty text counts as none, and numbers have digits. -/
theorem ne_empty_of_readHandle {v : Value} {handle : Option String}
    (h : readHandle v = .ok handle) : handle ≠ some "" := by
  unfold readHandle at h
  split at h
  · cases h
    simp
  · rename_i s
    cases h
    split
    · simp
    · rename_i hs
      simpa using hs
  · cases h
    simpa using Text.ofInt_ne_empty _
  · cases h
    simpa using Binary64.text_ne_empty _
  · cases h

/-- An edge that is read is in normal form. -/
theorem normal_of_readEdge {index : Nat} {taken : List String} {v : Value} {e : Edge}
    (h : readEdge index taken v = .ok e) : e.Normal := by
  obtain ⟨entry, rfl, hsource, htarget, hhandle, hid⟩ := readEdge_eq_ok h
  refine ⟨?_, (nonemptyText?_eq_some_iff.mp hsource).2, (nonemptyText?_eq_some_iff.mp htarget).2,
    ne_empty_of_readHandle hhandle⟩
  rw [hid]
  cases hexplicit : explicitId? (.mapping entry) with
  | none => exact Edge.freeId_ne_empty taken (Edge.derivedId_ne_empty _ _ _)
  | some id => exact (nonemptyText?_eq_some_iff.mp hexplicit).2

/-- So are the edges of a document. -/
theorem normal_of_readEdges : ∀ {index : Nat} {taken : List String} {vs : List Value}
    {es : List Edge}, readEdges index taken vs = .ok es → ∀ e ∈ es, e.Normal
  | _, _, [], es, h => by
    obtain rfl := Except.ok.inj h
    exact fun e he => absurd he List.not_mem_nil
  | index, taken, v :: rest, es, h => by
    obtain ⟨e, es', hedge, hrest, rfl⟩ := readEdges_cons_eq_ok h
    intro e' he'
    rcases List.mem_cons.mp he' with rfl | he'
    · exact normal_of_readEdge hedge
    · exact normal_of_readEdges hrest e' he'

/-- What a flow that is read is made of. -/
theorem toFlow_eq_ok_iff {document : Value} {f : Flow} : toFlow document = .ok f ↔
    ∃ entries rawNodes rawEdges taken, document = .mapping entries ∧
      listOrEmpty? (Entries.field entries "nodes") = some rawNodes ∧
      listOrEmpty? (Entries.field entries "edges") = some rawEdges ∧
      readStart (Entries.field entries "start") = .ok f.start ∧
      readNodes 0 rawNodes = .ok f.nodes ∧ explicitIds 0 [] rawEdges = .ok taken ∧
      readEdges 0 taken rawEdges = .ok f.edges := by
  constructor
  · intro h
    unfold toFlow at h
    split at h
    · rename_i entries
      split at h
      · rename_i rawNodes hrawNodes
        split at h
        · rename_i rawEdges hrawEdges
          obtain ⟨start, hstart, h⟩ := Except.bind_eq_ok_iff.mp h
          obtain ⟨nodes, hnodes, h⟩ := Except.bind_eq_ok_iff.mp h
          obtain ⟨taken, htaken, h⟩ := Except.bind_eq_ok_iff.mp h
          obtain ⟨edges, hedges, h⟩ := Except.bind_eq_ok_iff.mp h
          obtain ⟨rfl, rfl, rfl⟩ := Flow.ofParts_eq_ok_iff.mp (Except.mapError_eq_ok_iff.mp h)
          exact ⟨entries, rawNodes, rawEdges, taken, rfl, hrawNodes, hrawEdges, hstart, hnodes,
            htaken, hedges⟩
        · cases h
      · cases h
    · cases h
  · rintro ⟨entries, rawNodes, rawEdges, taken, rfl, hrawNodes, hrawEdges, hstart, hnodes, htaken,
      hedges⟩
    simp only [toFlow, hrawNodes, hrawEdges, Except.bind_eq_ok_iff, Except.mapError_eq_ok_iff]
    exact ⟨_, hstart, _, hnodes, _, htaken, _, hedges, Flow.ofParts_eq_ok_iff.mpr ⟨rfl, rfl, rfl⟩⟩

/-- Every flow that is read is in normal form. -/
theorem normal_of_toFlow {document : Value} {f : Flow} (h : toFlow document = .ok f) :
    f.Normal := by
  obtain ⟨_, _, rawEdges, taken, -, -, -, -, hnodes, htaken, hedges⟩ := toFlow_eq_ok_iff.mp h
  obtain ⟨rfl, hnodup⟩ := explicitIds_eq_ok htaken List.nodup_nil
  rw [List.append_nil, List.nodup_reverse] at hnodup
  refine ⟨normal_of_readNodes hnodes, normal_of_readEdges hedges, ?_⟩
  exact (nodup_ids_readEdges hedges hnodup (by simp)).1

end Document

/-! ## Changes -/

namespace Flow

variable {f g : Flow}

/-- A node that is made on request is in normal form, if the id drawn for it is not empty. -/
theorem normal_of_toNode {r : NodeRequest} {kind : BlockKind} {count : Nat} {n : Node}
    (h : r.toNode kind count = .ok n) (hfresh : r.fresh ≠ "") : n.Normal := by
  obtain ⟨hid, ⟨c, hread, hblock⟩, -⟩ := NodeRequest.toNode_eq_ok h
  refine ⟨hid ▸ NodeRequest.chosenId_ne_empty hfresh, ?_⟩
  rw [hblock]
  exact Block.normal_of_readKnown hread

namespace Normal

/-- A node in normal form may be added. -/
theorem addNode (hf : f.Normal) {n : Node} (hn : n.Normal) (h : f.hasNode n.id = false) :
    (f.addNode n h).Normal := by
  refine ⟨fun m hm => ?_, hf.edges, hf.edgeIds⟩
  rcases List.mem_append.mp hm with hm | hm
  · exact hf.nodes m hm
  · obtain rfl := List.mem_singleton.mp hm
    exact hn

/-- A node may be replaced by one in normal form. -/
theorem replaceNode (hf : f.Normal) {n : Node} (hn : n.Normal) : (f.replaceNode n).Normal := by
  refine ⟨fun m hm => ?_, hf.edges, hf.edgeIds⟩
  obtain ⟨m', hm', rfl⟩ := List.mem_map.mp hm
  split
  · exact hn
  · exact hf.nodes m' hm'

/-- A node may be taken away with its edges. -/
theorem removeNode (hf : f.Normal) (id : String) : (f.removeNode id).Normal :=
  ⟨fun n hn => hf.nodes n (List.mem_filter.mp hn).1,
    fun e he => hf.edges e (List.mem_filter.mp he).1,
    hf.edgeIds.sublist (List.filter_sublist.map _)⟩

/-- An edge in normal form may be added under a new id. -/
theorem addEdge (hf : f.Normal) {e : Edge} (he : e.Normal) (hnew : e.id ∉ f.edges.map Edge.id) :
    (f.withEdges (f.edges ++ [e])).Normal := by
  refine ⟨hf.nodes, fun e' he' => ?_, Association.nodup_map_append hf.edgeIds hnew⟩
  rcases List.mem_append.mp he' with he' | he'
  · exact hf.edges e' he'
  · obtain rfl := List.mem_singleton.mp he'
    exact he

/-- Edges may be left out. -/
theorem filterEdges (hf : f.Normal) (p : Edge → Bool) :
    (f.withEdges (f.edges.filter p)).Normal :=
  ⟨hf.nodes, fun e he => hf.edges e (List.mem_filter.mp he).1,
    hf.edgeIds.sublist (List.filter_sublist.map _)⟩

/-- No node has the empty text for an id. -/
theorem ne_empty_of_hasNode (hf : f.Normal) {id : String} (h : f.hasNode id) : id ≠ "" := by
  obtain ⟨n, hn, rfl⟩ := List.mem_map.mp (hasNode_iff.mp h)
  exact (hf.nodes n hn).id

end Normal

/-- Each change of a flow in normal form gives one in normal form, if the ids that are drawn are not
empty and a flow that takes its place is in normal form. -/
theorem Change.normal {op : Edit} (h : f.Change op g) (hf : f.Normal)
    (hfresh : ∀ r, op = .addNode r → r.fresh ≠ "")
    (hother : ∀ g', op = .replaceWith g' → g'.Normal) : g.Normal := by
  have hnode? : ∀ {id n}, f.node? id = some n → n.Normal := fun hnode =>
    hf.nodes _ (node?_eq_some_iff.mp hnode).1
  cases h with
  | addNode hkind hnode => exact hf.addNode (normal_of_toNode hnode (hfresh _ rfl)) _
  | updateConfig hnode hblock =>
    have hn := hnode? hnode
    exact hf.replaceNode ⟨hn.id, Block.normal_of_update hn.block hblock⟩
  | rename hnode => exact hf.replaceNode ⟨(hnode? hnode).id, (hnode? hnode).block⟩
  | move hnode hposition => exact hf.replaceNode ⟨(hnode? hnode).id, (hnode? hnode).block⟩
  | remove hnode => exact hf.removeNode _
  | connect hsource htarget _ hfree =>
    refine hf.addEdge ⟨Edge.freeId_ne_empty _ (Edge.derivedId_ne_empty _ _ _),
      hf.ne_empty_of_hasNode hsource, hf.ne_empty_of_hasNode htarget, fun hempty => ?_⟩
      (Edge.freeId_not_mem _ _)
    simpa using (Option.filter_eq_some_iff.mp hempty).2
  | disconnect hedge => exact hf.filterEdges _
  | markStart hnode => exact ⟨hf.nodes, hf.edges, hf.edgeIds⟩
  | clearStart hstart => exact ⟨hf.nodes, hf.edges, hf.edgeIds⟩
  | importDocument hread => exact Document.normal_of_toFlow hread
  | replaceWith => exact hother g rfl

/-- A flow without nodes is in normal form. -/
theorem normal_empty : Flow.empty.Normal :=
  ⟨fun _ hn => absurd hn List.not_mem_nil, fun _ he => absurd he List.not_mem_nil,
    List.nodup_nil⟩

/-- Every flow that is reached is in normal form. -/
theorem Reached.normal (h : f.Reached) : f.Normal := by
  induction h with
  | empty => exact normal_empty
  | loaded h => exact Document.normal_of_toFlow h
  | @edited e op _ hfresh _ ihe ihother =>
    rcases e.apply_cases op with hsame | ⟨g, hg, hchange⟩
    · rw [hsame]
      exact ihe
    · rw [hg]
      exact hchange.normal ihe hfresh ihother

/-- What a run of operations leaves is reached, whether they fail or not. -/
theorem Reached.run : ∀ {edits : List Edit} {e : Editor}, e.flow.Reached →
    (∀ r, .addNode r ∈ edits → r.fresh ≠ "") → (∀ g, .replaceWith g ∈ edits → g.Reached) →
      (e.run edits).flow.Reached
  | [], _, he, _, _ => he
  | op :: rest, e, he, hfresh, hother => by
    refine Reached.run (e := (e.apply op).1) (.edited he ?_ ?_) ?_ ?_
    · rintro r rfl
      exact hfresh r List.mem_cons_self
    · rintro g rfl
      exact hother g List.mem_cons_self
    · exact fun r hr => hfresh r (List.mem_cons_of_mem _ hr)
    · exact fun g hg => hother g (List.mem_cons_of_mem _ hg)

end Flow

end CallFlow
