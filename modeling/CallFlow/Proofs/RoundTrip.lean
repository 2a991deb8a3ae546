import CallFlow.Proofs.Reached

/-!
# Writing a flow and reading it again

A flow in normal form is read back from its document as it is, provided that the positions of its
nodes have texts for keys: each node and each edge is read back from its own entry, whatever its
index, and the ids of the edges are the explicit ones of the document.

* `Document.readNode_ofNode`, `Document.readEdge_ofEdge`: the entries of nodes and edges.
* `Document.toFlow_ofFlow_of_normal`: flows in normal form.
* `Document.toFlow_ofFlow`: all flows that can be reached.
-/

namespace CallFlow.Document

/-! ## Nodes -/

/-- A block in normal form is read back from its entries under the name of its kind. -/
theorem readBlock_toEntries {b : Block} (hb : b.Normal) (id : String) :
    readBlock id b.documentType b.toEntries = .ok b := by
  unfold readBlock
  cases b with
  | known c =>
    simp only [Block.documentType, BlockKind.ofName?_name, Except.mapError_eq_ok_iff,
      Except.map_eq_ok_iff]
    exact ⟨c, Config.read_toEntries hb, rfl⟩
  | unknown declared entries =>
    obtain ⟨-, hunknown, hkeys⟩ := hb
    simp only [Block.documentType, hunknown, Except.mapError_eq_ok_iff, Except.map_eq_ok_iff]
    exact ⟨entries, Block.readOpaque_eq_ok_iff.mpr ⟨hkeys, rfl⟩, rfl⟩

/-- The kind of a block is named in documents, also if it is unknown. -/
theorem documentType_ne_empty {b : Block} (hb : b.Normal) : b.documentType ≠ "" := by
  cases b with
  | known c =>
    have hname : ∀ kind : BlockKind, kind.name ≠ "" := by
      intro kind
      cases kind <;> decide
    exact hname c.kind
  | unknown declared entries => exact hb.1

/-- A text that is not empty is read as it is. -/
theorem nonemptyText?_text {s : String} (h : s ≠ "") : nonemptyText? (.text s) = some s :=
  nonemptyText?_eq_some_iff.mpr ⟨rfl, h⟩

/-- The entry of a node in normal form is read up to the position, which is checked last. -/
theorem readNode_ofNode_eq {n : Node} (hn : n.Normal) (index : Nat) :
    readNode index (ofNode n) = n.checked.mapError (.positionUnfit n.id) := by
  have hid := nonemptyText?_text hn.id
  have htype := nonemptyText?_text (documentType_ne_empty hn.block)
  have hblock := readBlock_toEntries hn.block n.id
  simp only [readNode, ofNode, readFlatNode, lift, Entries.has_cons_text, Entries.field_cons_text,
    String.reduceEq, decide_false, decide_true, Bool.false_or, Bool.true_or, Bool.or_true,
    reduceIte, hid, htype, mappingOr?, hblock]
  rfl

/-- A node in normal form with a position under texts is read back from its entry. -/
theorem readNode_ofNode {n : Node} (hn : n.Normal) (hposition : Node.positionIssues n.position = [])
    (index : Nat) : readNode index (ofNode n) = .ok n := by
  rw [readNode_ofNode_eq hn]
  exact Except.mapError_eq_ok_iff.mpr (Node.checked_eq_ok_iff.mpr ⟨hposition, rfl⟩)

/-- The entries of nodes are read as the nodes, in their order. -/
theorem readNodes_map_ofNode : ∀ {nodes : List Node} (index : Nat), (∀ n ∈ nodes, n.Normal) →
    (∀ n ∈ nodes, Node.positionIssues n.position = []) →
      readNodes index (nodes.map ofNode) = .ok nodes
  | [], _, _, _ => rfl
  | n :: rest, index, hnormal, hposition => by
    have hnode := readNode_ofNode (hnormal n List.mem_cons_self) (hposition n List.mem_cons_self)
      index
    have hrest := readNodes_map_ofNode (index + 1)
      (fun m hm => hnormal m (List.mem_cons_of_mem _ hm))
      fun m hm => hposition m (List.mem_cons_of_mem _ hm)
    rw [List.map_cons, readNodes, hnode, hrest]
    rfl

/-! ## Edges -/

/-- The entry of an edge gives its id. -/
theorem explicitId?_ofEdge {e : Edge} (h : e.id ≠ "") : explicitId? (ofEdge e) = some e.id :=
  nonemptyText?_text h

/-- Distinct ids of edges are found in their entries. -/
theorem explicitIds_map_ofEdge : ∀ {edges : List Edge} (index : Nat) (seen : List String),
    (edges.map Edge.id).Nodup → (∀ e ∈ edges, e.id ≠ "" ∧ e.id ∉ seen) →
      ∃ ids, explicitIds index seen (edges.map ofEdge) = .ok ids
  | [], _, seen, _, _ => ⟨seen, rfl⟩
  | e :: rest, index, seen, hnodup, hids => by
    obtain ⟨hnew, hnodup⟩ := List.nodup_cons.mp hnodup
    obtain ⟨hid, hseen⟩ := hids e List.mem_cons_self
    have hrest : ∀ e' ∈ rest, e'.id ≠ "" ∧ e'.id ∉ e.id :: seen := by
      intro e' he'
      obtain ⟨hid', hseen'⟩ := hids e' (List.mem_cons_of_mem _ he')
      refine ⟨hid', fun hmem => ?_⟩
      rcases List.mem_cons.mp hmem with heq | hmem
      · exact hnew (List.mem_map.mpr ⟨e', he', heq⟩)
      · exact hseen' hmem
    obtain ⟨ids, hids⟩ := explicitIds_map_ofEdge (index + 1) (e.id :: seen) hnodup hrest
    exact ⟨ids, (explicitIds_cons_of_some (explicitId?_ofEdge hid) hseen _).trans hids⟩

/-- A handle that is not empty is read back from the end of an entry. -/
theorem readHandle_toList {handle : Option String} (h : handle ≠ some "") :
    readHandle (Entries.field
      (handle.map fun h => (Scalar.text "sourceHandle", Value.text h)).toList "sourceHandle") =
        .ok handle := by
  cases handle with
  | none => rfl
  | some s => simpa [readHandle] using h

/-- An edge in normal form is read back from its entry, whatever ids are taken. -/
theorem readEdge_ofEdge {e : Edge} (h : e.Normal) (index : Nat) (taken : List String) :
    readEdge index taken (ofEdge e) = .ok e := by
  have hsource := nonemptyText?_text h.source
  have htarget := nonemptyText?_text h.target
  have hhandle := readHandle_toList h.handle
  have hid := explicitId?_ofEdge h.id
  unfold ofEdge at hid ⊢
  rw [readEdge_of_fields (by simpa using hsource) (by simpa using htarget) (by simpa using hhandle),
    hid]
  rfl

/-- The entries of edges are read as the edges, whatever ids are taken. -/
theorem readEdges_map_ofEdge : ∀ {edges : List Edge} (index : Nat) (taken : List String),
    (∀ e ∈ edges, e.Normal) → readEdges index taken (edges.map ofEdge) = .ok edges
  | [], _, _, _ => rfl
  | e :: rest, index, taken, h => by
    have hedge := readEdge_ofEdge (h e List.mem_cons_self) index taken
    have hrest := readEdges_map_ofEdge (index + 1) (e.id :: taken) fun e' he' =>
      h e' (List.mem_cons_of_mem _ he')
    rw [List.map_cons, readEdges, hedge]
    simp only [bind, Except.bind, hrest]

/-! ## Flows -/

/-- A list is read as it is. -/
theorem listOrEmpty?_list (items : List Value) : listOrEmpty? (.list items) = some items := by
  cases items <;> rfl

/-- The fields of the document of a flow. -/
theorem exists_fields_ofFlow (f : Flow) : ∃ entries, ofFlow f = .mapping entries ∧
    Entries.field entries "nodes" = .list (f.nodes.map ofNode) ∧
    Entries.field entries "edges" = .list (f.edges.map ofEdge) ∧
    readStart (Entries.field entries "start") = .ok f.start := by
  refine ⟨_, rfl, ?_, ?_, ?_⟩
  · rw [List.cons_append, Entries.field_cons_text, if_pos rfl]
  · rw [List.cons_append, List.cons_append, Entries.field_cons_text, if_neg (by decide),
      Entries.field_cons_text, if_pos rfl]
  · cases hstart : f.start with
    | none => rfl
    | some start => rfl

/-- A flow in normal form whose positions have texts for keys is read back from its document. -/
theorem toFlow_ofFlow_of_normal {f : Flow} (h : f.Normal)
    (hposition : ∀ n ∈ f.nodes, Node.positionIssues n.position = []) :
    toFlow (ofFlow f) = .ok f := by
  obtain ⟨ids, hids⟩ := explicitIds_map_ofEdge 0 [] h.edgeIds fun e he =>
    ⟨(h.edges e he).id, List.not_mem_nil⟩
  obtain ⟨entries, hdocument, hnodes, hedges, hstart⟩ := exists_fields_ofFlow f
  refine toFlow_eq_ok_iff.mpr ⟨entries, f.nodes.map ofNode, f.edges.map ofEdge, ids, hdocument, ?_,
    ?_, hstart, readNodes_map_ofNode 0 h.nodes hposition, hids, readEdges_map_ofEdge 0 ids h.edges⟩
  · rw [hnodes, listOrEmpty?_list]
  · rw [hedges, listOrEmpty?_list]

/-- **Nothing is lost in a document.** Each flow that can be reached and whose positions have texts
for keys is read back from its document as it is: the same nodes and edges in the same order, with
all that belongs to them, and the same start marker. So its document is also the same again. -/
theorem toFlow_ofFlow {f : Flow} (h : f.Reached)
    (htexts : ∀ n ∈ f.nodes, ∀ e ∈ n.position, ∃ s, e.1 = .text s) :
    toFlow (ofFlow f) = .ok f ∧ (toFlow (ofFlow f)).map ofFlow = .ok (ofFlow f) := by
  have hread := toFlow_ofFlow_of_normal h.normal fun n hn =>
    Node.positionIssues_eq_nil_iff.mpr (htexts n hn)
  exact ⟨hread, congrArg (Except.map ofFlow) hread⟩

/-- A document with a choice and a block of an unknown kind. -/
def faxDocument : Value :=
  .mapping [(.text "nodes", .list [
    .mapping [(.text "id", .text "ask"), (.text "blockType", .text "key"),
      (.text "config", .mapping [(.text "options", .mapping [(.int 1, .text "Fax")])])],
    .mapping [(.text "id", .text "fax"), (.text "blockType", .text "fax"),
      (.text "config", .mapping [(.text "pages", .null)])]])]

/-- The flow of that document, after the choice was connected. -/
def faxFlow : Flow :=
  ((Editor.ofFlow .empty).run [.importDocument faxDocument, .connect "ask" "fax" (.int 1)]).flow

/-- A flow with an unknown block is read back from its document. -/
theorem toFlow_ofFlow_faxFlow : faxFlow.Reached ∧
    (∀ n ∈ faxFlow.nodes, ∀ e ∈ n.position, ∃ s, e.1 = .text s) ∧
      toFlow (ofFlow faxFlow) = .ok faxFlow := by
  have hreached : faxFlow.Reached := Flow.Reached.run .empty (by simp) (by simp)
  have hposition : ∀ n ∈ faxFlow.nodes, Node.positionIssues n.position = [] := by decide +kernel
  have htexts : ∀ n ∈ faxFlow.nodes, ∀ e ∈ n.position, ∃ s, e.1 = .text s := fun n hn =>
    Node.positionIssues_eq_nil_iff.mp (hposition n hn)
  exact ⟨hreached, htexts, (toFlow_ofFlow hreached htexts).1⟩

example : faxFlow.ids = ["ask", "fax"] ∧
    faxFlow.edges = [⟨"e-ask-1-fax", "ask", "fax", some "1"⟩] := by decide +kernel

end CallFlow.Document
