import CallFlow.Proofs.Reached

/-!
# The documents that are accepted

The interchange format as a predicate on values, and the reader against it. An entry for a node
(`Document.IsNode`) and an entry for an edge (`Document.IsEdge`) are told by their own fields. A
document is in the format (`Document.InFormat`) if its entries are, no two nodes have the same id
and no two edges are given the same id. What may stand in the place of a list is left open there: a
list or nothing at all (`Document.IsListed`), or any value that does not hold in the place of an
empty list (`Document.IsTaken`).

Main statements:
* `Document.readNodes_eq_ok` and `Document.exists_readNodes`: the entries for nodes that are read;
* `Document.exists_explicitIds_iff`: the ids of edges that pass the first of the two readings;
* `Document.exists_toFlow_iff`: the reader accepts the format, with the wider places of lists;
* `Document.toFlow_accepts`: so it accepts the format proper and, beyond it, only documents with an
  empty or zero value that is no list under `nodes` or `edges`.
-/

namespace CallFlow

namespace Document

/-! ## The format -/

/-- What may stand under the handle of an edge: nothing, a text, or a number. -/
def IsHandle (v : Value) : Prop :=
  v = .null ∨ (∃ s, v = .text s) ∨ (∃ n, v = .int n) ∨ ∃ x, v = .float x

/-- The name under which the configuration of a block is read. All unknown types share one. -/
def configName (declared : String) : String :=
  match BlockKind.ofName? declared with
  | some kind => kind.name
  | none => unknownName

/-- What may stand under the configuration of a node: nothing, or a mapping that a block of the type
can be configured with. -/
def IsConfig (declared : String) (v : Value) : Prop :=
  v = .null ∨ ∃ entries b, v = .mapping entries ∧
    Block.readNamed? (configName declared) v = some (.ok b)

/-- What may stand under the position of a node: nothing, or a mapping with texts for keys. -/
def IsPosition (v : Value) : Prop :=
  v = .null ∨ ∃ entries : Entries, v = .mapping entries ∧ ∀ e ∈ entries, ∃ s, e.1 = .text s

/-- A node by its fields, in the flat shape. -/
structure NodeFields (entry : Entries) : Prop where
  id : IsName (entry.field "id")
  type : ∃ declared, entry.field "blockType" = .text declared ∧ declared ≠ "" ∧
    IsConfig declared (entry.field "config")
  position : IsPosition (entry.field "position")

/-- An edge by its fields. -/
structure EdgeFields (entry : Entries) : Prop where
  source : IsName (entry.field "source")
  target : IsName (entry.field "target")
  id : entry.field "id" = .null ∨ IsName (entry.field "id")
  handle : IsHandle (entry.field "sourceHandle")

/-- An entry for a node, in the flat shape or in that of the canvas. -/
def IsNode (v : Value) : Prop := ∃ entry, v = .mapping entry ∧ NodeFields (lift entry)

/-- An entry for an edge. -/
def IsEdge (v : Value) : Prop := ∃ entry, v = .mapping entry ∧ EdgeFields entry

/-- The id that an entry of a document gives to its node. -/
def nodeId? : Value → Option String
  | .mapping entry => nonemptyText? ((lift entry).field "id")
  | _ => none

/-- A document whose lists of entries are the given ones. -/
structure DocumentFields (entries : Entries) (rawNodes rawEdges : List Value) : Prop where
  start : entries.field "start" = .null ∨ ∃ s, entries.field "start" = .text s
  nodes : ∀ v ∈ rawNodes, IsNode v
  nodeIds : (rawNodes.filterMap nodeId?).Nodup
  edges : ∀ v ∈ rawEdges, IsEdge v
  edgeIds : (rawEdges.filterMap explicitId?).Nodup

/-- A list, or nothing in the place of the empty one. -/
def IsListed (v : Value) (items : List Value) : Prop := v = .list items ∨ v = .null ∧ items = []

/-- A list, or any value that does not hold in the place of the empty one. -/
def IsTaken (v : Value) (items : List Value) : Prop :=
  v = .list items ∨ v.holds = false ∧ items = []

/-- A value in the interchange format, with what may stand in the place of a list. -/
def InFormat (Place : Value → List Value → Prop) (document : Value) : Prop :=
  ∃ entries rawNodes rawEdges, document = .mapping entries ∧
    Place (Entries.field entries "nodes") rawNodes ∧
    Place (Entries.field entries "edges") rawEdges ∧ DocumentFields entries rawNodes rawEdges

/-- Nothing but lists stands in the places of lists. -/
def ListsInPlace (document : Value) : Prop :=
  ∀ entries, document = .mapping entries → ∀ place ∈ ["nodes", "edges"],
    Entries.field entries place = .null ∨ ∃ items, Entries.field entries place = .list items

/-! ## Single values -/

/-- What is taken for a handle. -/
theorem exists_readHandle_iff {v : Value} : (∃ handle, readHandle v = .ok handle) ↔ IsHandle v := by
  constructor
  · rintro ⟨handle, h⟩
    unfold readHandle at h
    split at h
    · exact .inl rfl
    · exact .inr (.inl ⟨_, rfl⟩)
    · exact .inr (.inr (.inl ⟨_, rfl⟩))
    · exact .inr (.inr (.inr ⟨_, rfl⟩))
    · cases h
  · rintro (rfl | ⟨s, rfl⟩ | ⟨n, rfl⟩ | ⟨x, rfl⟩)
    all_goals exact ⟨_, rfl⟩

/-- The start may be absent, or it is a text, whether or not a node has it for an id. -/
theorem exists_readStart_iff {v : Value} :
    (∃ start, readStart v = .ok start) ↔ v = .null ∨ ∃ s, v = .text s := by
  constructor
  · rintro ⟨start, h⟩
    unfold readStart at h
    split at h
    · exact .inl rfl
    · exact .inr ⟨_, rfl⟩
    · cases h
  · rintro (rfl | ⟨s, rfl⟩)
    all_goals exact ⟨_, rfl⟩

/-- A mapping that may be absent, with what stands for it then. -/
theorem mappingOr?_eq_some_iff {default entries : Entries} {v : Value} :
    mappingOr? default v = some entries ↔
      v = .null ∧ default = entries ∨ v = .mapping entries := by
  unfold mappingOr?
  split
  · simp
  · simp
  · rename_i hnull hmapping
    simp only [reduceCtorEq, false_iff, not_or, not_and]
    exact ⟨fun h => absurd h hnull, hmapping entries⟩

/-- A value is taken for a list if it is one, or if it does not hold. -/
theorem listOrEmpty?_eq_some_iff {v : Value} {items : List Value} :
    listOrEmpty? v = some items ↔ IsTaken v items := by
  unfold listOrEmpty? IsTaken
  split
  · rename_i hholds
    split
    · simp [hholds]
    · rename_i hlist
      simp only [reduceCtorEq, hholds, false_and, or_false, false_iff]
      exact hlist items
  · rename_i hblank
    constructor
    · intro h
      exact .inr ⟨by simpa using hblank, (Option.some.inj h).symm⟩
    · rintro (rfl | ⟨-, rfl⟩)
      · -- a list that does not hold is the empty one
        cases items with
        | nil => rfl
        | cons v rest => exact absurd rfl hblank
      · rfl

/-! ## Nodes -/

/-- Every kind of block is configured by no entries at all: what must be set is checked later. -/
theorem exists_read_nil (kind : BlockKind) : ∃ c, Config.read kind [] = .ok c := by
  have hread : ∀ f, Config.readEntry [] f = .ok none := Config.readField_none
  exact ⟨_, Config.readNormalized_eq_ok_iff.mpr ⟨fun f _ => ⟨none, hread f⟩, rfl⟩⟩

/-- The entries that configure a block of the given type: for a known kind those that its fields are
read from, for an unknown one all that stand under texts. -/
def Configures (declared : String) (config : Entries) : Prop :=
  match BlockKind.ofName? declared with
  | some kind => ∃ c, Config.read kind config = .ok c
  | none => Block.keyIssues config = []

/-- A node without entries has the configuration of its kind in which nothing is set. -/
theorem configures_nil (declared : String) : Configures declared [] := by
  unfold Configures
  split
  · exact exists_read_nil _
  · rfl

/-- An unknown block takes any entries whose keys are texts. -/
theorem exists_readOpaque_iff {entries : Entries} :
    (∃ entries', Block.readOpaque entries = .ok entries') ↔ Block.keyIssues entries = [] := by
  simp only [Block.readOpaque_eq_ok_iff, exists_and_left, exists_eq', and_true]

/-- The block of a node is read exactly if its entries configure one. -/
theorem exists_readBlock_iff {id declared : String} {config : Entries} :
    (∃ b, readBlock id declared config = .ok b) ↔ Configures declared config := by
  unfold readBlock Configures
  cases BlockKind.ofName? declared with
  | some kind => simp only [Except.mapError_eq_ok_iff, Except.exists_map_eq_ok_iff]
  | none =>
    simp only [Except.mapError_eq_ok_iff, Except.exists_map_eq_ok_iff, exists_readOpaque_iff]

/-- A block is built under the name of its type exactly if its entries configure one. -/
theorem exists_readNamed?_iff {declared : String} {config : Entries} :
    (∃ b, Block.readNamed? (configName declared) (.mapping config) = some (.ok b)) ↔
      Configures declared config := by
  have hunknown : BlockKind.ofName? unknownName = none := by decide
  unfold configName Configures
  cases BlockKind.ofName? declared with
  | some kind =>
    simp only [Block.readNamed?, BlockKind.ofName?_name, Block.readKnown, Option.some.injEq,
      Except.exists_map_eq_ok_iff, Except.mapError_eq_ok_iff]
  | none =>
    simp only [Block.readNamed?, hunknown, if_true, Option.some.injEq, Except.mapError_eq_ok_iff,
      Except.exists_map_eq_ok_iff, exists_readOpaque_iff]

/-- What may stand under the configuration of a node is what gives entries that configure it. -/
theorem isConfig_iff {declared : String} {v : Value} :
    IsConfig declared v ↔ ∃ config, mappingOr? [] v = some config ∧ Configures declared config := by
  constructor
  · rintro (rfl | ⟨config, b, rfl, hb⟩)
    · exact ⟨[], rfl, configures_nil declared⟩
    · exact ⟨config, rfl, exists_readNamed?_iff.mp ⟨b, hb⟩⟩
  · rintro ⟨config, hconfig, hconfigures⟩
    rcases mappingOr?_eq_some_iff.mp hconfig with ⟨rfl, -⟩ | rfl
    · exact .inl rfl
    · obtain ⟨b, hb⟩ := exists_readNamed?_iff.mpr hconfigures
      exact .inr ⟨config, b, rfl, hb⟩

/-- What may stand under the position of a node is what gives a position under texts. -/
theorem isPosition_iff {v : Value} : IsPosition v ↔
    ∃ position, mappingOr? Node.origin v = some position ∧ Node.positionIssues position = [] := by
  constructor
  · rintro (rfl | ⟨position, rfl, hkeys⟩)
    · exact ⟨Node.origin, rfl, rfl⟩
    · exact ⟨position, rfl, Node.positionIssues_eq_nil_iff.mpr hkeys⟩
  · rintro ⟨position, hposition, hissues⟩
    rcases mappingOr?_eq_some_iff.mp hposition with ⟨rfl, -⟩ | rfl
    · exact .inl rfl
    · exact .inr ⟨position, rfl, Node.positionIssues_eq_nil_iff.mp hissues⟩

/-- The fields of an entry fit if a node is read from it. -/
theorem nodeFields_of_readFlatNode {index : Nat} {entry : Entries} {n : Node}
    (h : readFlatNode index entry = .ok n) : NodeFields entry := by
  obtain ⟨declared, config, hid, hdeclared, -, hconfig, hposition, hblock, hissues⟩ :=
    readFlatNode_eq_ok h
  obtain ⟨htype, hne⟩ := nonemptyText?_eq_some_iff.mp hdeclared
  have hconfigures : Configures declared config := exists_readBlock_iff.mp ⟨n.block, hblock⟩
  exact {
    id := exists_nonemptyText?_iff.mp ⟨n.id, hid⟩
    type := ⟨declared, htype, hne, isConfig_iff.mpr ⟨config, hconfig, hconfigures⟩⟩
    position := isPosition_iff.mpr ⟨n.position, hposition, hissues⟩ }

/-- An entry whose fields fit is read as a node. -/
theorem NodeFields.exists_readFlatNode {entry : Entries} (h : NodeFields entry) (index : Nat) :
    ∃ n, readFlatNode index entry = .ok n := by
  obtain ⟨id, hid⟩ := exists_nonemptyText?_iff.mpr h.id
  obtain ⟨declared, htype, hne, hconfigFits⟩ := h.type
  have hdeclared := nonemptyText?_eq_some_iff.mpr ⟨htype, hne⟩
  obtain ⟨config, hconfig, hconfigures⟩ := isConfig_iff.mp hconfigFits
  obtain ⟨position, hposition, hkeys⟩ := isPosition_iff.mp h.position
  obtain ⟨block, hblock⟩ : ∃ b, readBlock id declared config = .ok b :=
    exists_readBlock_iff.mpr hconfigures
  simp only [readFlatNode, hid, hdeclared, hconfig, hposition, Except.bind_eq_ok_iff,
    Except.mapError_eq_ok_iff]
  exact ⟨_, block, hblock, Node.checked_eq_ok_iff.mpr ⟨hkeys, rfl⟩⟩

/-- The entries for nodes that are read are nodes, and give the ids of what is read. -/
theorem readNodes_eq_ok : ∀ {index : Nat} {vs : List Value} {ns : List Node},
    readNodes index vs = .ok ns → (∀ v ∈ vs, IsNode v) ∧ vs.filterMap nodeId? = ns.map Node.id
  | _, [], ns, h => by
    obtain rfl := Except.ok.inj h
    exact ⟨fun _ hv => absurd hv List.not_mem_nil, rfl⟩
  | index, v :: rest, ns, h => by
    obtain ⟨n, ns', hnode, hrest, rfl⟩ := readNodes_cons_eq_ok h
    obtain ⟨hnodes, hids⟩ := readNodes_eq_ok hrest
    unfold readNode at hnode
    split at hnode
    · rename_i entry
      obtain ⟨_, _, hid, -⟩ := readFlatNode_eq_ok hnode
      have hnodeId : nodeId? (.mapping entry) = some n.id := hid
      refine ⟨List.forall_mem_cons.mpr ⟨⟨entry, rfl, ?_⟩, hnodes⟩, ?_⟩
      · exact nodeFields_of_readFlatNode hnode
      · rw [List.filterMap_cons_some hnodeId, hids, List.map_cons]
    · cases hnode

/-- Entries for nodes are read. -/
theorem exists_readNodes : ∀ {vs : List Value}, (∀ v ∈ vs, IsNode v) → ∀ index : Nat,
    ∃ ns, readNodes index vs = .ok ns
  | [], _, _ => ⟨[], rfl⟩
  | v :: rest, h, index => by
    obtain ⟨⟨entry, rfl, hfields⟩, hrest⟩ := List.forall_mem_cons.mp h
    obtain ⟨n, hn⟩ := hfields.exists_readFlatNode index
    obtain ⟨ns, hns⟩ := exists_readNodes hrest (index + 1)
    exact ⟨n :: ns, Except.bind_eq_ok_iff.mpr ⟨n, hn, Except.bind_eq_ok_iff.mpr ⟨ns, hns, rfl⟩⟩⟩

/-! ## Edges -/

/-- The ids that the entries of a list give are found exactly if each may be given and no two are
the same, nor any the same as one that was given before. -/
theorem exists_explicitIds_iff : ∀ {vs : List Value} {index : Nat} {seen : List String},
    (∃ ids, explicitIds index seen vs = .ok ids) ↔ (∀ v ∈ vs, GivesId v) ∧
      (vs.filterMap explicitId?).Nodup ∧ ∀ id ∈ vs.filterMap explicitId?, id ∉ seen
  | [], _, seen => by
    simp [explicitIds]
  | v :: rest, index, seen => by
    simp only [explicitIds_cons_eq_ok_iff, exists_and_left, exists_explicitIds_iff,
      List.forall_mem_cons]
    cases hname : explicitId? v with
    | none =>
      rw [List.filterMap_cons_none hname]
      simp [and_assoc]
    | some id =>
      rw [List.filterMap_cons_some hname, List.nodup_cons, List.forall_mem_cons]
      constructor
      · rintro ⟨hv, hnew, hrest, hnodup, hlater⟩
        refine ⟨⟨hv, hrest⟩, ⟨fun hmem => hlater id hmem List.mem_cons_self, hnodup⟩, hnew id rfl,
          fun id' hmem hseen => hlater id' hmem (List.mem_cons_of_mem _ hseen)⟩
      · rintro ⟨⟨hv, hrest⟩, ⟨hfirst, hnodup⟩, hnew, hlater⟩
        refine ⟨hv, ?_, hrest, hnodup, ?_⟩
        · rintro _ ⟨⟩
          exact hnew
        · intro id' hmem hseen
          rcases List.mem_cons.mp hseen with rfl | hseen
          · exact hfirst hmem
          · exact hlater id' hmem hseen

/-- Where an entry may give the id it gives, an edge is read from it exactly if it is an entry for
an edge. -/
theorem exists_readEdge_iff {index : Nat} {taken : List String} {v : Value} (hid : GivesId v) :
    (∃ e, readEdge index taken v = .ok e) ↔ IsEdge v := by
  constructor
  · rintro ⟨e, h⟩
    obtain ⟨entry, rfl, hsource, htarget, hhandle, -⟩ := readEdge_eq_ok h
    refine ⟨entry, rfl, ?_⟩
    exact {
      source := exists_nonemptyText?_iff.mp ⟨_, hsource⟩
      target := exists_nonemptyText?_iff.mp ⟨_, htarget⟩
      id := hid entry rfl
      handle := exists_readHandle_iff.mp ⟨_, hhandle⟩ }
  · rintro ⟨entry, rfl, hfields⟩
    obtain ⟨source, hsource⟩ := exists_nonemptyText?_iff.mpr hfields.source
    obtain ⟨target, htarget⟩ := exists_nonemptyText?_iff.mpr hfields.target
    obtain ⟨handle, hhandle⟩ := exists_readHandle_iff.mpr hfields.handle
    exact ⟨_, readEdge_of_fields hsource htarget hhandle⟩

/-- So edges are read from a list exactly if all are entries for edges, whatever ids are taken. -/
theorem exists_readEdges_iff : ∀ {vs : List Value} {index : Nat} {taken : List String},
    (∀ v ∈ vs, GivesId v) →
      ((∃ es, readEdges index taken vs = .ok es) ↔ ∀ v ∈ vs, IsEdge v)
  | [], _, _, _ => by simp [readEdges]
  | v :: rest, index, taken, h => by
    obtain ⟨hid, hids⟩ := List.forall_mem_cons.mp h
    rw [List.forall_mem_cons]
    constructor
    · rintro ⟨es, hes⟩
      obtain ⟨e, es', hedge, hrest, -⟩ := readEdges_cons_eq_ok hes
      exact ⟨(exists_readEdge_iff hid).mp ⟨e, hedge⟩, (exists_readEdges_iff hids).mp ⟨es', hrest⟩⟩
    · rintro ⟨hv, hrest⟩
      obtain ⟨e, hedge⟩ := (exists_readEdge_iff hid).mpr hv
      obtain ⟨es, hes⟩ := (exists_readEdges_iff hids).mpr hrest
      exact ⟨e :: es, Except.bind_eq_ok_iff.mpr ⟨e, hedge,
        Except.bind_eq_ok_iff.mpr ⟨es, hes, rfl⟩⟩⟩

/-- An entry that is read as an edge has an id that is a text, or none. -/
theorem IsEdge.givesId {v : Value} (h : IsEdge v) : GivesId v := by
  obtain ⟨entry, rfl, hfields⟩ := h
  rintro _ ⟨⟩
  exact hfields.id

/-! ## Documents -/

/-- The reader accepts the format, where any value that does not hold may stand in the place of an
empty list. -/
theorem exists_toFlow_iff {document : Value} :
    (∃ f, toFlow document = .ok f) ↔ InFormat IsTaken document := by
  constructor
  · rintro ⟨f, h⟩
    obtain ⟨entries, rawNodes, rawEdges, taken, rfl, hrawNodes, hrawEdges, hstart, hnodes, htaken,
      hedges⟩ := toFlow_eq_ok_iff.mp h
    obtain ⟨hnodesFit, hids⟩ := readNodes_eq_ok hnodes
    obtain ⟨hgive, hedgeIds, -⟩ := exists_explicitIds_iff.mp ⟨taken, htaken⟩
    refine ⟨entries, rawNodes, rawEdges, rfl, listOrEmpty?_eq_some_iff.mp hrawNodes,
      listOrEmpty?_eq_some_iff.mp hrawEdges, ?_⟩
    exact {
      start := exists_readStart_iff.mp ⟨f.start, hstart⟩
      nodes := hnodesFit
      nodeIds := hids ▸ f.distinct
      edges := (exists_readEdges_iff hgive).mp ⟨f.edges, hedges⟩
      edgeIds := hedgeIds }
  · rintro ⟨entries, rawNodes, rawEdges, rfl, hrawNodes, hrawEdges, hfields⟩
    obtain ⟨start, hstart⟩ := exists_readStart_iff.mpr hfields.start
    obtain ⟨nodes, hnodes⟩ := exists_readNodes hfields.nodes 0
    have hdistinct : (nodes.map Node.id).Nodup := (readNodes_eq_ok hnodes).2 ▸ hfields.nodeIds
    -- the ids that are given are found first, and then the edges are read beside them
    have hgive : ∀ v ∈ rawEdges, GivesId v := fun v hv => (hfields.edges v hv).givesId
    obtain ⟨taken, htaken⟩ : ∃ taken, explicitIds 0 [] rawEdges = .ok taken :=
      exists_explicitIds_iff.mpr ⟨hgive, hfields.edgeIds, fun _ _ => List.not_mem_nil⟩
    obtain ⟨edges, hedges⟩ : ∃ edges, readEdges 0 taken rawEdges = .ok edges :=
      (exists_readEdges_iff hgive).mpr hfields.edges
    exact ⟨⟨nodes, edges, start, hdistinct⟩, toFlow_eq_ok_iff.mpr ⟨entries, rawNodes, rawEdges,
      taken, rfl, listOrEmpty?_eq_some_iff.mpr hrawNodes, listOrEmpty?_eq_some_iff.mpr hrawEdges,
      hstart, hnodes, htaken, hedges⟩⟩

/-- A list or nothing is taken for a list, and nothing else that is taken for one is a list or
nothing. -/
theorem isListed_iff {v : Value} {items : List Value} :
    IsListed v items ↔ IsTaken v items ∧ (v = .null ∨ ∃ items', v = .list items') := by
  constructor
  · rintro (rfl | ⟨rfl, rfl⟩)
    · exact ⟨.inl rfl, .inr ⟨items, rfl⟩⟩
    · exact ⟨.inr ⟨rfl, rfl⟩, .inl rfl⟩
  · rintro ⟨rfl | ⟨hblank, rfl⟩, hplace⟩
    · exact .inl rfl
    · rcases hplace with rfl | ⟨items', rfl⟩
      · exact .inr ⟨rfl, rfl⟩
      · cases items' with
        | nil => exact .inl rfl
        | cons v rest => cases hblank

/-- The format proper is what is accepted where nothing but lists stands in the places of lists. -/
theorem inFormat_isListed_iff {document : Value} :
    InFormat IsListed document ↔ InFormat IsTaken document ∧ ListsInPlace document := by
  constructor
  · rintro ⟨entries, rawNodes, rawEdges, rfl, hnodes, hedges, hfields⟩
    obtain ⟨hnodesTaken, hnodesPlace⟩ := isListed_iff.mp hnodes
    obtain ⟨hedgesTaken, hedgesPlace⟩ := isListed_iff.mp hedges
    refine ⟨⟨entries, rawNodes, rawEdges, rfl, hnodesTaken, hedgesTaken, hfields⟩, ?_⟩
    rintro _ ⟨⟩ place hplace
    rcases List.mem_pair.mp hplace with rfl | rfl
    · exact hnodesPlace
    · exact hedgesPlace
  · rintro ⟨⟨entries, rawNodes, rawEdges, rfl, hnodes, hedges, hfields⟩, hplaces⟩
    have hnodesPlace := hplaces entries rfl "nodes" (List.mem_pair.mpr (.inl rfl))
    have hedgesPlace := hplaces entries rfl "edges" (List.mem_pair.mpr (.inr rfl))
    exact ⟨entries, rawNodes, rawEdges, rfl, isListed_iff.mpr ⟨hnodes, hnodesPlace⟩,
      isListed_iff.mpr ⟨hedges, hedgesPlace⟩, hfields⟩

/-- **Accepted documents.** A flow is read from a value in the format, where any value that does not
hold may stand in the place of an empty list, and from any other value there is an error. The format
proper is this one with nothing but lists in the places of lists. -/
theorem toFlow_accepts (document : Value) :
    (InFormat IsTaken document → ∃ f, toFlow document = .ok f) ∧
      (¬ InFormat IsTaken document → ∃ fault, toFlow document = .error fault) ∧
        (InFormat IsListed document ↔ InFormat IsTaken document ∧ ListsInPlace document) := by
  refine ⟨exists_toFlow_iff.mpr, fun hnot => ?_, inFormat_isListed_iff⟩
  cases hread : toFlow document with
  | ok f => exact absurd (exists_toFlow_iff.mp ⟨f, hread⟩) hnot
  | error fault => exact ⟨fault, rfl⟩

/-- A document with an empty mapping in the place of its nodes is accepted, though it is not in the
format proper. -/
theorem toFlow_accepts_emptyMapping :
    let document : Value := .mapping [(.text "nodes", .mapping []), (.text "edges", .list [])]
    (∃ f, toFlow document = .ok f) ∧ ¬ InFormat IsListed document := by
  intro document
  refine ⟨⟨Flow.empty, rfl⟩, ?_⟩
  intro h
  have hplaces := (inFormat_isListed_iff.mp h).2
  rcases hplaces _ rfl "nodes" (List.mem_pair.mpr (.inl rfl)) with hnull | ⟨items, hlist⟩
  · cases hnull
  · cases hlist

end Document

end CallFlow
