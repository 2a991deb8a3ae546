import CallFlow.Proofs.ConfigUpdates
import CallFlow.Proofs.Positions
import CallFlow.Proofs.UnknownBlocks

/-!
# Canvas entries

An editor keeps a node in an entry of its own shape: the fields of the node stand in a mapping under
`data`, among fields of the editor. The configuration stands there too, or in a mapping at the top
of the entry, or one part here and the other there, and what stands at the top wins.

A node of a known kind is read from such an entry as from the flat one that it is written to. The
reason is that the same values are found in both (`Document.Split.find?_setAll`), and nothing else
matters to a configuration (`Config.read_eq_of_find?`).

* `Document.Split`: some entries, in two parts.
* `Document.Canvas`: the canvas entry of a node.
* `Document.readNode_canvas`: what is read from it.
-/

namespace CallFlow

/-- Where the name of a field in documents is the own name of a field, it is that of the same
field. -/
theorem Field.eq_of_documentName_eq_name {f g : Field} (h : g.documentName = f.name) : g = f := by
  revert h; cases f <;> cases g <;> decide

/-! ## Configurations -/

namespace Config

variable {kind : BlockKind} {f : Field} {entries entries' : Entries} {c : Config}

/-- Entries under field names are read alike where the same is found under the names of all
fields. -/
theorem readNormalized_congr
    (h : ∀ f ∈ kind.fields, entries.find? (.text f.name) = entries'.find? (.text f.name)) :
    readNormalized kind entries = readNormalized kind entries' := by
  have hread : ∀ f ∈ kind.fields, readEntry entries f = readEntry entries' f := by
    intro f hf
    unfold readEntry
    rw [h f hf]
  have hissues : kind.fields.filterMap (issueOf entries) =
      kind.fields.filterMap (issueOf entries') := by
    refine List.filterMap_congr fun f hf => ?_
    unfold issueOf
    rw [hread f hf]
  have hsettings : ofSettings kind (settingOf entries) = ofSettings kind (settingOf entries') := by
    refine ofSettings_congr fun f hf => ?_
    unfold settingOf
    rw [hread f hf]
  unfold readNormalized
  rw [hissues, hsettings]

/-- What is given for a field by its name in documents is found under its own name, if it is not
given by that name as well. -/
theorem find?_normalizeKeys (hf : f ∈ kind.fields)
    (hdistinct : Association.Distinct Scalar.same entries)
    (hown : f.documentName ≠ f.name → entries.find? (.text f.name) = none) :
    (normalizeKeys kind entries).find? (.text f.name) = entries.find? (.text f.documentName) := by
  have hkey : ∀ e ∈ entries, fieldKey kind e.1 = .text f.name ↔ e.1 = .text f.documentName := by
    intro e he
    refine (fieldKey_eq_name_iff hf).trans (or_iff_left_of_imp fun hname => ?_)
    by_contra hdocument
    have hne : f.documentName ≠ f.name := fun heq => hdocument (heq ▸ hname)
    exact Entries.find?_eq_none_iff.mp (hown hne) e he hname
  exact (Entries.find?_setAll_map f.documentName f.name [] hdistinct hkey).trans (Option.or_none ..)

/-- A mapping in which the same is found as in the document of a configuration is read as that. -/
theorem read_eq_of_find? (hdistinct : Association.Distinct Scalar.same entries)
    (h : ∀ name, entries.find? (.text name) = c.toEntries.find? (.text name)) :
    read c.kind entries = read c.kind c.toEntries := by
  refine readNormalized_congr fun f hf => ?_
  have hown : f.documentName ≠ f.name → c.toEntries.find? (.text f.name) = none := by
    refine fun hne => find?_toEntries_eq_none fun g _ heq => hne ?_
    rwa [Field.eq_of_documentName_eq_name heq] at heq
  rw [find?_normalizeKeys hf hdistinct fun hne => (h _).trans (hown hne),
    find?_normalizeKeys hf c.distinct_toEntries hown, h]

end Config

namespace Document

/-! ## Entries in two parts -/

/-- The entries of the data that are not the editor's own. -/
def configPart (data : Entries) : Entries := data.filter fun e => !isEditorKey e.1

/-- Some entries are given in two mappings: one part in the data, among fields of the editor, and
one part at the top. None is missing. What stands at the top is right, and what stands in the data
is right or stands at the top as well. -/
structure Split (whole data outer : Entries) : Prop where
  distinctData : Association.Distinct Scalar.same data
  distinctOuter : Association.Distinct Scalar.same outer
  complete : ∀ e ∈ whole, e ∈ data ∨ e ∈ outer
  right : ∀ e ∈ outer, e ∈ whole
  rightOrOuter : ∀ e ∈ data, isEditorKey e.1 ∨ e ∈ whole ∨ e.1 ∈ outer.map Prod.fst

namespace Split

variable {whole data outer : Entries}

/-- The parts together are a mapping. -/
theorem distinct (h : Split whole data outer) :
    Association.Distinct Scalar.same ((configPart data).setAll outer) :=
  Association.Distinct.insertAll (h.distinctData.sublist List.filter_sublist) outer

/-- In the parts together the same is found as in the whole. -/
theorem find?_setAll (h : Split whole data outer)
    (hwhole : Association.Distinct Scalar.same whole)
    (hkeys : ∀ e ∈ whole, isEditorKey e.1 = false) (name : String) :
    ((configPart data).setAll outer).find? (.text name) = whole.find? (.text name) := by
  rw [Entries.find?_setAll name _ h.distinctOuter]
  cases houter : outer.find? (.text name) with
  | some v => exact (Entries.find?_of_mem hwhole (h.right _ (Entries.mem_of_find? houter))).symm
  | none =>
    rw [Option.none_or]
    rw [Entries.find?_eq_none_iff] at houter
    cases hdata : (configPart data).find? (.text name) with
    | some v =>
      obtain ⟨hmem, hkey⟩ := List.mem_filter.mp (Entries.mem_of_find? hdata)
      rcases h.rightOrOuter _ hmem with heditor | hright | htop
      · simp [heditor] at hkey
      · exact (Entries.find?_of_mem hwhole hright).symm
      · obtain ⟨e, he, heq⟩ := List.mem_map.mp htop
        exact absurd heq (houter e he)
    | none =>
      rw [Entries.find?_eq_none_iff] at hdata
      refine (Entries.find?_eq_none_iff.mpr fun e he heq => ?_).symm
      rcases h.complete e he with hmem | hmem
      · exact hdata e (List.mem_filter.mpr ⟨hmem, by rw [hkeys e he]; rfl⟩) heq
      · exact houter e hmem heq

end Split

/-! ## Canvas entries -/

/-- A canvas entry of a node, with its data and what it has of the configuration at the top. It has
the id and the position of the node, the data has its name and the name of its kind, and the
configuration is in two parts. Any other fields may be there. -/
structure Canvas (n : Node) (entry data outer : Entries) : Prop where
  id : entry.field "id" = .text n.id
  position : entry.find? (.text "position") = some (.mapping n.position)
  untyped : entry.has "blockType" = false
  fields : entry.field "data" = .mapping data
  config : entry.field "config" = .mapping outer ∨ entry.field "config" = .null ∧ outer = []
  type : data.field "blockType" = .text n.block.documentType
  name : data.field "name" = .text n.name
  split : Split n.block.toEntries data outer

/-- The flat entry for a node, with the given configuration. With that of its block, it is the entry
that the node is written to. -/
def nodeEntry (n : Node) (config : Entries) : Entries :=
  [(.text "id", .text n.id), (.text "blockType", .text n.block.documentType),
    (.text "name", .text n.name), (.text "config", .mapping config),
    (.text "position", .mapping n.position)]

/-- There is nothing to lift in an entry that is flat. -/
theorem lift_nodeEntry (n : Node) (config : Entries) :
    lift (nodeEntry n config) = nodeEntry n config :=
  lift_of_has (by simp [nodeEntry])

variable {n : Node} {entry data outer config config' : Entries}

/-- A canvas entry is read as the flat one with both parts of the configuration. -/
theorem Canvas.lift_eq (h : Canvas n entry data outer) :
    lift entry = nodeEntry n ((configPart data).setAll outer) := by
  rcases h.config with hmapping | ⟨hnull, rfl⟩
  · simp only [lift, flatten, h.untyped, h.fields, h.id, h.type, h.name, h.position, hmapping]
    rfl
  · simp only [lift, flatten, h.untyped, h.fields, h.id, h.type, h.name, h.position, hnull]
    rfl

/-- Flat entries for a node are read alike if their configurations are. -/
theorem readFlatNode_nodeEntry_congr
    (h : readBlock n.id n.block.documentType config = readBlock n.id n.block.documentType config')
    (index : Nat) :
    readFlatNode index (nodeEntry n config) = readFlatNode index (nodeEntry n config') := by
  unfold readFlatNode nodeEntry
  simp only [Entries.field_cons_text, String.reduceEq, reduceIte, mappingOr?]
  cases hid : nonemptyText? (.text n.id) with
  | none => rfl
  | some id =>
    cases htype : nonemptyText? (.text n.block.documentType) with
    | none => rfl
    | some declared =>
      cases (nonemptyText?_eq_some_iff.mp hid).1
      cases (nonemptyText?_eq_some_iff.mp htype).1
      dsimp only
      rw [h]

/-- The name of a field in documents is not one of the editor's own keys. -/
theorem isEditorKey_documentName (f : Field) : isEditorKey (.text f.documentName) = false := by
  cases f <;> decide

/-- The configuration of a block of a known kind is read from its two parts as from the whole. -/
theorem Split.readBlock_eq {c : Config} (h : Split c.toEntries data outer) (id : String) :
    readBlock id c.kind.name ((configPart data).setAll outer) =
      readBlock id c.kind.name c.toEntries := by
  have hkeys : ∀ e ∈ c.toEntries, isEditorKey e.1 = false := by
    intro e he
    obtain ⟨f, -, s, -, rfl⟩ := Config.exists_setting_of_mem_toEntries he
    exact isEditorKey_documentName f
  have hread := Config.read_eq_of_find? h.distinct (h.find?_setAll c.distinct_toEntries hkeys)
  unfold readBlock
  rw [BlockKind.ofName?_name]
  dsimp only
  rw [hread]

/-- **A canvas entry is read as the flat one.** A node of a known kind is read from any of its
canvas entries exactly as from the flat entry that it is written to. So where the flat entry of a
node of a flow that can be reached is read back, the canvas entry is read as the same node. -/
theorem readNode_canvas {c : Config} (hblock : n.block = .known c) (h : Canvas n entry data outer)
    (index : Nat) :
    readNode index (.mapping entry) = readNode index (ofNode n) ∧
    ∀ f : Flow, f.Reached → n ∈ f.nodes → n.Placed → readNode index (.mapping entry) = .ok n := by
  have heq : readNode index (.mapping entry) = readNode index (ofNode n) := by
    have hsplit := h.split
    rw [hblock] at hsplit
    show readFlatNode index (lift entry) =
      readFlatNode index (lift (nodeEntry n n.block.toEntries))
    rw [h.lift_eq, lift_nodeEntry]
    apply readFlatNode_nodeEntry_congr
    rw [hblock]
    exact hsplit.readBlock_eq n.id
  refine ⟨heq, fun f hf hn hplaced => ?_⟩
  rw [heq]
  exact readNode_ofNode (hf.normal.nodes n hn) (Node.placed_iff.mp hplaced) index

/-- A prompt with a message and a recording. -/
def opening : Node :=
  ⟨"a", "Opening", .known (.prompt ⟨some "Welcome", some "a.wav", none⟩), Node.origin⟩

/-- The data of a canvas entry for it, with an old message. -/
def openingData : Entries :=
  [(.text "label", .text "Start here"), (.text "message", .text "Hello"),
    (.text "blockType", .text "prompt"), (.text "onDelete", .null),
    (.text "audioUrl", .text "a.wav"), (.text "name", .text "Opening")]

/-- The new message, which stands at the top. -/
def openingConfig : Entries := [(.text "message", .text "Welcome")]

/-- The canvas entry. -/
def openingEntry : Entries :=
  [(.text "id", .text "a"), (.text "position", .mapping Node.origin),
    (.text "data", .mapping openingData), (.text "config", .mapping openingConfig)]

/-- A canvas entry of a prompt, with the name, the kind and a part of the configuration among its
data, and keys of the editor at the top. -/
theorem readNode_canvas_opening : Canvas opening openingEntry openingData openingConfig ∧
    readNode 0 (.mapping openingEntry) = .ok opening := by
  have hsplit : Split opening.block.toEntries openingData openingConfig := by
    show Split [(.text "message", .text "Welcome"), (.text "audioUrl", .text "a.wav")] _ _
    exact {
      distinctData := by simp [Association.Distinct, openingData, Scalar.same]
      distinctOuter := List.pairwise_singleton _ _
      complete := by simp [openingData, openingConfig]
      right := by simp [openingConfig]
      rightOrOuter := by simp [openingData, openingConfig, isEditorKey, editorKeys] }
  have hcanvas : Canvas opening openingEntry openingData openingConfig :=
    ⟨rfl, rfl, rfl, rfl, .inl rfl, rfl, rfl, hsplit⟩
  have hdocument : toFlow (.mapping [(.text "nodes", .list [ofNode opening])]) =
      .ok ⟨[opening], [], none, List.nodup_singleton "a"⟩ := rfl
  have hplaced : opening.Placed := Node.placed_iff.mpr rfl
  exact ⟨hcanvas, (readNode_canvas rfl hcanvas 0).2 _ (.loaded hdocument)
    (List.mem_singleton_self opening) hplaced⟩

end Document

end CallFlow
