import CallFlow.Proofs.AcceptedDocuments
import CallFlow.Proofs.Integrity
import CallFlow.Proofs.RoundTrip

/-!
# Blocks of unknown kinds

A document may hold blocks that only a newer version knows. Whoever opens it with this one, edits
other parts of the flow and saves it again finds the entries of such blocks as they were: the node
keeps the name of its kind and the entries of its configuration, whatever they are, and no operation
touches a node that it is not on.

* `Document.readBlock_of_unknown`: the block of such an entry.
* `Flow.Change.mem_nodes_of_spares`, `Editor.mem_nodes_run`: nodes that operations are not on.
* `Document.keptAs_ofNode`: the entry that the node is written to.
* `Document.unknown_block_kept`: from the document that is read to the one that is written.
-/

namespace CallFlow

/-- The operation is on some other part of the flow than the node with the given id. The operations
that put a whole flow in the place of another are on all its nodes. -/
def Edit.spares (id : String) : Edit → Bool
  | .updateConfig id' _ | .rename id' _ | .move id' _ | .remove id' => id' ≠ id
  | .importDocument _ | .replaceWith _ => false
  | _ => true

/-! ## Nodes that operations are not on -/

namespace Flow

variable {f g : Flow} {n : Node}

/-- A node stays when another takes the place of one with another id. -/
theorem mem_nodes_replaceNode (hn : n ∈ f.nodes) {n' : Node} (hid : n'.id ≠ n.id) :
    n ∈ (f.replaceNode n').nodes := by
  apply List.mem_map.mpr
  exact ⟨n, hn, if_neg (Ne.symm hid)⟩

/-- A change leaves the nodes that it is not on as they are. -/
theorem Change.mem_nodes_of_spares {op : Edit} (h : f.Change op g) (hop : op.spares n.id)
    (hn : n ∈ f.nodes) : n ∈ g.nodes := by
  cases h with
  | addNode hkind hnode => exact List.mem_append_left _ hn
  | updateConfig hnode hblock | rename hnode | move hnode hposition =>
    obtain ⟨-, rfl⟩ := node?_eq_some_iff.mp hnode
    exact mem_nodes_replaceNode hn (of_decide_eq_true hop)
  | remove hnode =>
    apply List.mem_filter.mpr
    have hne : _ ≠ n.id := of_decide_eq_true hop
    exact ⟨hn, decide_eq_true hne.symm⟩
  | connect | disconnect | markStart | clearStart => exact hn
  | importDocument hread => cases hop
  | replaceWith => cases hop

end Flow

/-- A run of operations leaves the nodes that none of them is on as they are, whether they fail or
not. -/
theorem Editor.mem_nodes_run {e : Editor} {edits : List Edit} {n : Node} (hn : n ∈ e.flow.nodes)
    (hedits : ∀ op ∈ edits, op.spares n.id) : n ∈ (e.run edits).flow.nodes := by
  apply run_keeps (P := fun f => n ∈ f.nodes) hn
  intro op hop f g hchange
  exact hchange.mem_nodes_of_spares (hedits op hop)

namespace Document

/-! ## The entry that is read -/

/-- The entries for nodes that stand in a document. -/
def nodeEntries : Value → List Value
  | .mapping entries =>
    match Entries.field entries "nodes" with
    | .list items => items
    | _ => []
  | _ => []

/-- The entries for nodes of a document are those that are read. -/
theorem nodeEntries_of_listOrEmpty? {entries : Entries} {rawNodes : List Value}
    (h : listOrEmpty? (entries.field "nodes") = some rawNodes) :
    nodeEntries (.mapping entries) = rawNodes := by
  simp only [nodeEntries]
  rcases listOrEmpty?_eq_some_iff.mp h with hlist | ⟨hblank, rfl⟩
  · rw [hlist]
  · split
    · rename_i items hlist
      -- a list that does not hold is the empty one
      rw [hlist] at hblank
      simpa [Value.holds] using hblank
    · rfl

/-- Each entry for a node of a document that is read has its node in the flow. -/
theorem exists_node_of_mem_nodeEntries {document : Value} {f : Flow}
    (h : toFlow document = .ok f) {v : Value} (hv : v ∈ nodeEntries document) :
    ∃ n ∈ f.nodes, ∃ i, readNode i v = .ok n := by
  obtain ⟨entries, rawNodes, _, _, rfl, hraw, -, -, hnodes, -⟩ := toFlow_eq_ok_iff.mp h
  rw [nodeEntries_of_listOrEmpty? hraw] at hv
  exact (forall₂_readNodes hnodes).exists_mem v hv

/-- The entries for nodes of the document of a flow are those of its nodes. -/
theorem nodeEntries_ofFlow (f : Flow) : nodeEntries (ofFlow f) = f.nodes.map ofNode := by
  obtain ⟨entries, hdocument, hnodes, -, -⟩ := exists_fields_ofFlow f
  rw [hdocument, nodeEntries, hnodes]

/-- An entry that has a type of its own is in the flat shape. -/
theorem lift_of_has {entry : Entries} (h : entry.has "blockType") : lift entry = entry := by
  unfold lift
  rw [h]

/-- A block whose type is not the name of a known kind keeps the type and the entries. -/
theorem readBlock_of_unknown {id declared : String} {config : Entries} {b : Block}
    (hdeclared : BlockKind.ofName? declared = none) (h : readBlock id declared config = .ok b) :
    b = .unknown declared config := by
  unfold readBlock at h
  rw [hdeclared] at h
  obtain ⟨entries, hentries, rfl⟩ := Except.map_eq_ok_iff.mp (Except.mapError_eq_ok_iff.mp h)
  obtain ⟨-, rfl⟩ := Block.readOpaque_eq_ok_iff.mp hentries
  rfl

/-! ## The entry that is written -/

/-- An entry for a node is written as another: with the same id, type and configuration, where
none is the empty one, and with the same name, as a text, and position where these are given. -/
structure KeptAs (entry written : Entries) : Prop where
  id : written.field "id" = entry.field "id"
  type : written.field "blockType" = entry.field "blockType"
  config : entry.field "config" ≠ .null → written.field "config" = entry.field "config"
  noConfig : entry.field "config" = .null → written.field "config" = .mapping []
  name : entry.field "name" ≠ .null → written.field "name" = .text (entry.field "name").display
  position : entry.field "position" ≠ .null → written.field "position" = entry.field "position"

/-- A mapping that is given is taken as it is. -/
theorem eq_mapping_of_mappingOr? {default entries : Entries} {v : Value}
    (h : mappingOr? default v = some entries) (hv : v ≠ .null) : v = .mapping entries := by
  rcases mappingOr?_eq_some_iff.mp h with ⟨hnull, -⟩ | hmapping
  · exact absurd hnull hv
  · exact hmapping

/-- The node of a flat entry of an unknown type is written as the entry. -/
theorem keptAs_ofNode {index : Nat} {entry : Entries} {n : Node}
    (h : readFlatNode index entry = .ok n)
    (hunknown : ∀ kind : BlockKind, entry.field "blockType" ≠ .text kind.name) :
    ∃ written, ofNode n = .mapping written ∧ KeptAs entry written := by
  obtain ⟨declared, config, hid, hdeclared, hname, hconfig, hposition, hblock, -⟩ :=
    readFlatNode_eq_ok h
  obtain ⟨hid, -⟩ := nonemptyText?_eq_some_iff.mp hid
  obtain ⟨htype, -⟩ := nonemptyText?_eq_some_iff.mp hdeclared
  have hnone : BlockKind.ofName? declared = none := by
    apply Option.eq_none_iff_forall_ne_some.mpr
    intro kind hkind
    apply hunknown kind
    rw [htype, BlockKind.ofName?_eq_some_iff.mp hkind]
  have hkept := readBlock_of_unknown hnone hblock
  refine ⟨_, rfl, ?_⟩
  rw [hkept]
  constructor
  · simp [hid]
  · simp [htype, Block.documentType]
  · intro hgiven
    simp [eq_mapping_of_mappingOr? hconfig hgiven, Block.toEntries]
  · intro hnull
    rw [hnull] at hconfig
    obtain rfl := Option.some.inj hconfig
    simp [Block.toEntries]
  · intro hgiven
    simp [hname hgiven]
  · intro hgiven
    simp [eq_mapping_of_mappingOr? hposition hgiven]

/-- **Blocks of unknown kinds are kept.** Let an entry for a node, in the flat shape, have a type
that is not the name of a known kind. After its document is read and edited by any operations that
are not on that node, whether they fail or not, the document that is written has one entry under its
id, and that has the same type, the same configuration to the last entry, and the same name and
position if they were given. -/
theorem unknown_block_kept {document : Value} {f : Flow} {entry : Entries}
    (hread : toFlow document = .ok f) (hentry : .mapping entry ∈ nodeEntries document)
    (hflat : entry.has "blockType")
    (hunknown : ∀ kind : BlockKind, entry.field "blockType" ≠ .text kind.name) :
    ∃ id, entry.field "id" = .text id ∧ ∀ edits : List Edit, (∀ op ∈ edits, op.spares id) →
      ∃ written, KeptAs entry written ∧
        .mapping written ∈ nodeEntries (ofFlow ((Editor.ofFlow f).run edits).flow) ∧
        ∀ other, .mapping other ∈ nodeEntries (ofFlow ((Editor.ofFlow f).run edits).flow) →
          other.field "id" = .text id → other = written := by
  obtain ⟨n, hn, i, hnode⟩ := exists_node_of_mem_nodeEntries hread hentry
  rw [readNode, lift_of_has hflat] at hnode
  obtain ⟨written, hwritten, hkept⟩ := keptAs_ofNode hnode hunknown
  have hid : entry.field "id" = .text n.id := by
    obtain ⟨_, _, hid, -⟩ := readFlatNode_eq_ok hnode
    exact (nonemptyText?_eq_some_iff.mp hid).1
  refine ⟨n.id, hid, ?_⟩
  intro edits hedits
  have hstays : n ∈ ((Editor.ofFlow f).run edits).flow.nodes := Editor.mem_nodes_run hn hedits
  rw [nodeEntries_ofFlow]
  refine ⟨written, hkept, List.mem_map.mpr ⟨n, hstays, hwritten⟩, ?_⟩
  intro other hother hsame
  obtain ⟨m, hm, hothers⟩ := List.mem_map.mp hother
  -- the other entry is that of a node with the same id, and there is only one
  have hmid : m.id = n.id := by
    unfold ofNode at hothers
    obtain rfl := Value.mapping.inj hothers
    simpa using hsame
  have hmn : m = n := Option.some.inj
    ((Flow.node?_eq_some_iff.mpr ⟨hm, hmid⟩).symm.trans (Flow.node?_eq_some_iff.mpr ⟨hstays, rfl⟩))
  rw [hmn, hwritten] at hothers
  exact (Value.mapping.inj hothers).symm

/-- An entry for a fax: some of its configuration is blank or absent, and its name is a number. -/
def faxEntry : Entries :=
  [(.text "id", .text "fax"), (.text "blockType", .text "fax"), (.text "name", .int 7),
    (.text "config", .mapping [(.text "pages", .null), (.text "header", .text " "),
      (.text "options", .mapping [(.int 1, .list [.null])])])]

/-- A document with the fax and a prompt. -/
def officeDocument : Value :=
  .mapping [(.text "nodes", .list [
    .mapping [(.text "id", .text "hello"), (.text "blockType", .text "prompt")],
    .mapping faxEntry])]

/-- The prompt is updated and goes, and the fax is connected to itself. -/
def officeEdits : List Edit :=
  [.updateConfig "hello" (.mapping [(.text "message", .text "Hello")]),
    .connect "hello" "fax" .null, .connect "fax" "fax" (.int 1), .remove "hello", .markStart "fax"]

/-- The fax comes through the edits with its entries as they were. -/
theorem unknown_block_kept_fax : ∃ f written, toFlow officeDocument = .ok f ∧
    .mapping faxEntry ∈ nodeEntries officeDocument ∧
    (∀ op ∈ officeEdits, op.spares "fax") ∧ KeptAs faxEntry written ∧
    nodeEntries (ofFlow ((Editor.ofFlow f).run officeEdits).flow) = [.mapping written] := by
  obtain ⟨f, hread⟩ : ∃ f, toFlow officeDocument = .ok f := ⟨_, rfl⟩
  have hentry : .mapping faxEntry ∈ nodeEntries officeDocument :=
    List.mem_cons_of_mem _ List.mem_cons_self
  have hunknown : ∀ kind : BlockKind, faxEntry.field "blockType" ≠ .text kind.name := by
    intro kind
    cases kind <;> simp [faxEntry, BlockKind.name]
  have hedits : ∀ op ∈ officeEdits, op.spares "fax" := by simp [officeEdits, Edit.spares]
  obtain ⟨id, hid, hkept⟩ := unknown_block_kept hread hentry rfl hunknown
  obtain rfl : "fax" = id := Scalar.text.inj (Value.scalar.inj hid)
  obtain ⟨written, hwritten, hmem, -⟩ := hkept officeEdits hedits
  refine ⟨f, written, hread, hentry, hedits, hwritten, ?_⟩
  obtain ⟨w, hw⟩ : ∃ w, nodeEntries (ofFlow ((Editor.ofFlow f).run officeEdits).flow) = [w] := by
    obtain rfl := Except.ok.inj hread
    exact ⟨_, rfl⟩
  rw [hw] at hmem ⊢
  rw [List.mem_singleton.mp hmem]

end Document

end CallFlow
