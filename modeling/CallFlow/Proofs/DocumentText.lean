import CallFlow.Proofs.JsonRoundTrip
import CallFlow.Proofs.RoundTrip

/-!
# Flows as text

The document of a flow that was read has distinct keys in all its mappings, as the document had that
it was read from: the entries of positions and of unknown blocks are taken over from there, and what
else stands in it is written field by field (`Document.hasDistinctKeys_toFlow`). So its
text gives the document back and that gives the flow back, for every indent
(`Document.read_write_of_toFlow`).
-/

namespace CallFlow

/-! ## Values under names -/

namespace Entries

/-- Entries under texts that all differ have distinct keys. -/
theorem distinct_of_texts {names : List String} {entries : Entries}
    (hkeys : entries.map Prod.fst = names.map Scalar.text) (h : names.Nodup) :
    Association.Distinct Scalar.same entries := by
  rw [Association.distinct_iff_map_fst, hkeys, List.pairwise_map]
  exact h.imp fun hne => decide_eq_false hne

/-- Entries under texts that all differ have distinct keys throughout if their values have. -/
theorem hasDistinctKeys_of_texts {names : List String} {entries : Entries}
    (hkeys : entries.map Prod.fst = names.map Scalar.text) (h : names.Nodup)
    (hvalues : ∀ e ∈ entries, e.2.hasDistinctKeys = true) :
    (Value.mapping entries).hasDistinctKeys = true :=
  Value.hasDistinctKeys_mapping.mpr ⟨distinct_of_texts hkeys h, hvalues⟩

/-- What is found in a mapping with distinct keys throughout has them too. -/
theorem hasDistinctKeys_find? {entries : Entries} {key : Scalar} {v : Value}
    (h : (Value.mapping entries).hasDistinctKeys = true) (hfind : entries.find? key = some v) :
    v.hasDistinctKeys = true := by
  obtain ⟨k, -, hmem⟩ := Association.mem_of_lookup? hfind
  exact (Value.hasDistinctKeys_mapping.mp h).2 (k, v) hmem

/-- The values of a mapping have distinct keys if all of it has. -/
theorem hasDistinctKeys_field {entries : Entries}
    (h : (Value.mapping entries).hasDistinctKeys = true) (name : String) :
    (entries.field name).hasDistinctKeys = true := by
  unfold field
  cases hfind : entries.find? (.text name) with
  | none => exact Value.hasDistinctKeys_scalar _
  | some v => exact hasDistinctKeys_find? h hfind

/-- A mapping with the entries of another one set keeps distinct keys throughout. -/
theorem hasDistinctKeys_setAll {entries more : Entries}
    (h : (Value.mapping entries).hasDistinctKeys = true)
    (hmore : (Value.mapping more).hasDistinctKeys = true) :
    (Value.mapping (entries.setAll more)).hasDistinctKeys = true := by
  obtain ⟨hdistinct, hvalues⟩ := Value.hasDistinctKeys_mapping.mp h
  obtain ⟨-, hmore⟩ := Value.hasDistinctKeys_mapping.mp hmore
  refine Value.hasDistinctKeys_mapping.mpr ⟨hdistinct.insertAll more, fun e he => ?_⟩
  rcases Association.exists_or_mem_of_mem_insertAll he with ⟨p, hp, hvalue⟩ | he
  · exact hvalue ▸ hmore p hp
  · exact hvalues e he

/-- Entries that are left out do not make keys the same. -/
theorem hasDistinctKeys_filter {entries : Entries} (p : Scalar × Value → Bool)
    (h : (Value.mapping entries).hasDistinctKeys = true) :
    (Value.mapping (entries.filter p)).hasDistinctKeys = true := by
  obtain ⟨hdistinct, hvalues⟩ := Value.hasDistinctKeys_mapping.mp h
  exact Value.hasDistinctKeys_mapping.mpr ⟨hdistinct.sublist List.filter_sublist,
    fun e he => hvalues e (List.mem_filter.mp he).1⟩

end Entries

/-! ## Configurations -/

/-- A table is a mapping with distinct keys. -/
theorem TextTable.hasDistinctKeys_toValue {t : TextTable} (h : t.keys.Nodup) :
    t.toValue.hasDistinctKeys = true := by
  refine Entries.hasDistinctKeys_of_texts (by simp [TextTable.keys]) h fun e he => ?_
  obtain ⟨o, -, rfl⟩ := List.mem_map.mp he
  exact Value.hasDistinctKeys_scalar _

/-- The values of settings have distinct keys, if their tables do. -/
theorem Setting.hasDistinctKeys_toValue {f : Field} {s : Setting} (h : s.Fits f) :
    s.toValue.hasDistinctKeys = true := by
  cases s with
  | text t => exact Value.hasDistinctKeys_scalar _
  | number n => exact Value.hasDistinctKeys_scalar _
  | table t => exact TextTable.hasDistinctKeys_toValue h.2

/-- A configuration in normal form is written with distinct keys. -/
theorem Config.hasDistinctKeys_toEntries {c : Config} (h : c.Normal) :
    (Value.mapping c.toEntries).hasDistinctKeys = true := by
  refine Value.hasDistinctKeys_mapping.mpr ⟨c.distinct_toEntries, ?_⟩
  intro e he
  obtain ⟨f, -, s, hs, rfl⟩ := exists_setting_of_mem_toEntries he
  exact Setting.hasDistinctKeys_toValue (h f s hs)

/-! ## Flows -/

/-- A node whose configuration and position have distinct keys in all their mappings. -/
structure Node.HasDistinctKeys (n : Node) : Prop where
  config : (Value.mapping n.block.toEntries).hasDistinctKeys = true
  position : (Value.mapping n.position).hasDistinctKeys = true

namespace Document

/-- The entries of a block that is read have distinct keys if its configuration has. -/
theorem hasDistinctKeys_readBlock {id declared : String} {config : Entries} {b : Block}
    (h : readBlock id declared config = .ok b)
    (hconfig : (Value.mapping config).hasDistinctKeys = true) :
    (Value.mapping b.toEntries).hasDistinctKeys = true := by
  unfold readBlock at h
  split at h
  · obtain ⟨c, hc, rfl⟩ := Except.map_eq_ok_iff.mp (Except.mapError_eq_ok_iff.mp h)
    exact Config.hasDistinctKeys_toEntries (Config.normal_of_readNormalized hc).2
  · obtain ⟨entries, hentries, rfl⟩ := Except.map_eq_ok_iff.mp (Except.mapError_eq_ok_iff.mp h)
    obtain ⟨-, rfl⟩ := Block.readOpaque_eq_ok_iff.mp hentries
    exact hconfig

/-- A mapping that may be absent has distinct keys if what stands for it has. -/
theorem hasDistinctKeys_mappingOr? {default entries : Entries} {v : Value}
    (h : mappingOr? default v = some entries) (hv : v.hasDistinctKeys = true)
    (hdefault : (Value.mapping default).hasDistinctKeys = true) :
    (Value.mapping entries).hasDistinctKeys = true := by
  unfold mappingOr? at h
  split at h <;> cases h
  · exact hdefault
  · exact hv

/-- The configuration of a canvas entry has distinct keys throughout. -/
theorem exists_config_flatten {entry data : Entries}
    (hentry : (Value.mapping entry).hasDistinctKeys = true)
    (hdata : (Value.mapping data).hasDistinctKeys = true) :
    ∃ config : Entries, (Value.mapping config).hasDistinctKeys = true ∧
      flatten entry data = Entries.ofFields ([("id", entry.field "id"),
        ("blockType", data.field "blockType"), ("name", data.field "name"),
        ("config", .mapping config)] ++
          ((entry.find? (.text "position")).map fun p => ("position", p)).toList) := by
  have hinner := Entries.hasDistinctKeys_filter (fun e => !isEditorKey e.1) hdata
  refine ⟨_, ?_, rfl⟩
  split
  · rename_i outer houter
    exact Entries.hasDistinctKeys_setAll hinner (houter ▸ Entries.hasDistinctKeys_field hentry _)
  · exact hinner

/-- A canvas entry becomes a flat one with distinct keys throughout. -/
theorem hasDistinctKeys_flatten {entry data : Entries}
    (hentry : (Value.mapping entry).hasDistinctKeys = true)
    (hdata : (Value.mapping data).hasDistinctKeys = true) :
    (Value.mapping (flatten entry data)).hasDistinctKeys = true := by
  obtain ⟨config, hconfig, hflatten⟩ := exists_config_flatten hentry hdata
  have hid := Entries.hasDistinctKeys_field hentry "id"
  have htype := Entries.hasDistinctKeys_field hdata "blockType"
  have hname := Entries.hasDistinctKeys_field hdata "name"
  rw [hflatten]
  cases hposition : entry.find? (.text "position") with
  | none =>
    refine Entries.hasDistinctKeys_of_texts
      (show _ = ["id", "blockType", "name", "config"].map Scalar.text from rfl) (by decide) ?_
    simp only [Entries.ofFields, Option.map_none, Option.toList_none, List.append_nil,
      List.map_cons, List.map_nil, List.forall_mem_cons, hid, htype, hname, hconfig, true_and]
    exact fun _ he => absurd he List.not_mem_nil
  | some position =>
    have hvalue := Entries.hasDistinctKeys_find? hentry hposition
    refine Entries.hasDistinctKeys_of_texts
      (show _ = ["id", "blockType", "name", "config", "position"].map Scalar.text from rfl)
      (by decide) ?_
    simp only [Entries.ofFields, Option.map_some, Option.toList_some, List.cons_append,
      List.nil_append, List.map_cons, List.map_nil, List.forall_mem_cons, hid, htype, hname,
      hconfig, hvalue, true_and]
    exact fun _ he => absurd he List.not_mem_nil

/-- What is lifted from the data of a canvas entry keeps the keys of the entry distinct. -/
theorem hasDistinctKeys_lift {entry : Entries}
    (h : (Value.mapping entry).hasDistinctKeys = true) :
    (Value.mapping (lift entry)).hasDistinctKeys = true := by
  unfold lift
  split
  · rename_i data _ hdata
    exact hasDistinctKeys_flatten h (hdata ▸ Entries.hasDistinctKeys_field h "data")
  · exact h

/-- A node that is read has distinct keys if its entry has. -/
theorem hasDistinctKeys_readNode {index : Nat} {v : Value} {n : Node}
    (h : readNode index v = .ok n) (hv : v.hasDistinctKeys = true) :
    n.HasDistinctKeys ∧ Node.positionIssues n.position = [] := by
  unfold readNode at h
  split at h
  · rename_i entry
    have hentry := hasDistinctKeys_lift hv
    obtain ⟨declared, config, -, -, -, hconfig, hposition, hblock, hissues⟩ := readFlatNode_eq_ok h
    refine ⟨⟨hasDistinctKeys_readBlock hblock ?_, ?_⟩, hissues⟩
    · exact hasDistinctKeys_mappingOr? hconfig (Entries.hasDistinctKeys_field hentry _) (by decide)
    · exact hasDistinctKeys_mappingOr? hposition (Entries.hasDistinctKeys_field hentry _)
        (by decide)
  · cases h

/-- Nodes that are read from entries with distinct keys have distinct keys and positions that are
ones. -/
theorem hasDistinctKeys_readNodes {index : Nat} {vs : List Value} {ns : List Node}
    (h : readNodes index vs = .ok ns) (hvs : ∀ v ∈ vs, v.hasDistinctKeys = true) :
    ∀ n ∈ ns, n.HasDistinctKeys ∧ Node.positionIssues n.position = [] := by
  intro n hn
  obtain ⟨v, hv, i, hnode⟩ := exists_readNode_of_mem h n hn
  exact hasDistinctKeys_readNode hnode (hvs v hv)

/-- The nodes of a flow that is read have distinct keys, if the document has, and positions under
texts. -/
theorem hasDistinctKeys_toFlow {v : Value} {f : Flow} (h : toFlow v = .ok f)
    (hv : v.hasDistinctKeys = true) :
    ∀ n ∈ f.nodes, n.HasDistinctKeys ∧ Node.positionIssues n.position = [] := by
  obtain ⟨entries, rawNodes, _, _, rfl, hnodes, -, -, hread, -⟩ := toFlow_eq_ok_iff.mp h
  refine hasDistinctKeys_readNodes hread ?_
  have hfield := Entries.hasDistinctKeys_field hv "nodes"
  unfold listOrEmpty? at hnodes
  split at hnodes
  · split at hnodes
    · rename_i items heq
      cases hnodes
      rw [heq] at hfield
      exact Value.hasDistinctKeys_list.mp hfield
    · cases hnodes
  · cases hnodes
    exact fun _ hmem => absurd hmem List.not_mem_nil

/-- The entry of a node has distinct keys if the node has. -/
theorem hasDistinctKeys_ofNode {n : Node} (h : n.HasDistinctKeys) :
    (ofNode n).hasDistinctKeys = true := by
  refine Entries.hasDistinctKeys_of_texts
    (show _ = ["id", "blockType", "name", "config", "position"].map Scalar.text from rfl)
    (by decide) ?_
  simp [h.config, h.position]

/-- The entry of an edge has distinct keys. -/
theorem hasDistinctKeys_ofEdge (e : Edge) : (ofEdge e).hasDistinctKeys = true := by
  obtain ⟨id, source, target, handle⟩ := e
  cases handle with
  | none =>
    refine Entries.hasDistinctKeys_of_texts
      (show _ = ["id", "source", "target"].map Scalar.text from rfl) (by decide) ?_
    simp
  | some handle =>
    refine Entries.hasDistinctKeys_of_texts
      (show _ = ["id", "source", "target", "sourceHandle"].map Scalar.text from rfl) (by decide) ?_
    simp

/-- The document of a flow has distinct keys throughout if its nodes have. -/
theorem hasDistinctKeys_ofFlow {f : Flow} (h : ∀ n ∈ f.nodes, n.HasDistinctKeys) :
    (ofFlow f).hasDistinctKeys = true := by
  have hnodes : ∀ n ∈ f.nodes, (ofNode n).hasDistinctKeys = true := fun n hn =>
    hasDistinctKeys_ofNode (h n hn)
  unfold ofFlow
  cases f.start with
  | none =>
    refine Entries.hasDistinctKeys_of_texts
      (show _ = ["nodes", "edges"].map Scalar.text from rfl) (by decide) ?_
    simpa [hasDistinctKeys_ofEdge] using hnodes
  | some start =>
    refine Entries.hasDistinctKeys_of_texts
      (show _ = ["nodes", "edges", "start"].map Scalar.text from rfl) (by decide) ?_
    simpa [hasDistinctKeys_ofEdge] using hnodes

end Document

/-! ## Equality with itself -/

/-- A table with distinct keys is the same as itself. -/
theorem TextTable.same_self {t : TextTable} (h : t.keys.Nodup) : t.same t = true := by
  unfold TextTable.same
  rw [decide_eq_true rfl, Bool.true_and, List.all_eq_true]
  exact fun e he => decide_eq_true ((find?_eq_some_iff h).mpr he)

/-- A configuration in normal form is equal to itself. -/
theorem Config.same_self {c : Config} (h : c.Normal) : c.same c = true := by
  unfold Config.same
  rw [decide_eq_true rfl, Bool.true_and, List.all_eq_true]
  intro f _
  split
  · rename_i s t hs ht
    obtain rfl : s = t := by simpa using hs.symm.trans ht
    exact TextTable.same_self (h f _ hs).2
  · exact decide_eq_true rfl

/-- A node without `nan` is equal to itself. -/
theorem Node.same_self {n : Node} (hnormal : n.Normal) (hkeys : n.HasDistinctKeys)
    (hconfig : (Value.mapping n.block.toEntries).hasNoNan = true)
    (hposition : (Value.mapping n.position).hasNoNan = true) : n.same n = true := by
  have hblock : n.block.same n.block = true := by
    have hnormal := hnormal.block
    have hkeys := hkeys.config
    cases hb : n.block with
    | known c =>
      rw [hb] at hnormal
      exact Config.same_self hnormal
    | unknown declared entries =>
      rw [hb] at hkeys hconfig
      have hentries : entries.same entries = true := Value.same_self hkeys hconfig
      simp [Block.same, hentries]
  have hplace : n.position.same n.position = true := Value.same_self hkeys.position hposition
  simp [Node.same, hblock, hplace]

/-- Where no `nan` is in the document of a flow, none is in its nodes. -/
theorem Document.hasNoNan_of_mem_nodes {f : Flow} (h : (ofFlow f).hasNoNan = true) {n : Node}
    (hn : n ∈ f.nodes) : (Value.mapping n.block.toEntries).hasNoNan = true ∧
      (Value.mapping n.position).hasNoNan = true := by
  have hvalues := (Value.hasNoNan_mapping.mp h).2
  have hnodes := hvalues (.text "nodes", .list (f.nodes.map ofNode)) List.mem_cons_self
  have hnode := Value.hasNoNan_list.mp hnodes (ofNode n) (List.mem_map_of_mem hn)
  have hentries := (Value.hasNoNan_mapping.mp hnode).2
  simp only [List.forall_mem_cons] at hentries
  exact ⟨hentries.2.2.2.1, hentries.2.2.2.2.1⟩

/-- A flow without `nan` is equal to itself. -/
theorem Flow.same_self {f : Flow} (hnormal : f.Normal) (hkeys : ∀ n ∈ f.nodes, n.HasDistinctKeys)
    (hnan : (Document.ofFlow f).hasNoNan = true) : f.same f = true := by
  have hnodes : ∀ p ∈ f.nodes.zip f.nodes, p.1.same p.2 = true := by
    intro p hp
    rw [List.zip_eq_zipWith, List.zipWith_self] at hp
    obtain ⟨n, hn, rfl⟩ := List.mem_map.mp hp
    obtain ⟨hconfig, hposition⟩ := Document.hasNoNan_of_mem_nodes hnan hn
    exact Node.same_self (hnormal.nodes n hn) (hkeys n hn) hconfig hposition
  simpa [Flow.same] using hnodes

/-! ## The round trip -/

namespace Document

/-- **The text of a flow that was read gives the flow back**, whatever the indent, if all keys in
its document are texts and its whole numbers can be written. So its text is the same again, and the
flow that is read is equal to it unless it has a `nan`, which is not equal to itself. -/
theorem read_write_of_toFlow {v : Value} {f : Flow} (hv : v.hasDistinctKeys = true)
    (hf : toFlow v = .ok f) (hkeys : (ofFlow f).hasTextKeys = true)
    (hshort : Json.canWrite (ofFlow f) = true) (indent : Option Int) :
    read (write indent f) = .ok f ∧
      (read (write indent f)).map (write indent) = .ok (write indent f) ∧
      ((ofFlow f).hasNoNan = true → f.same f = true) := by
  have hnormal := normal_of_toFlow hf
  have hnodes := hasDistinctKeys_toFlow hf hv
  have hdistinct := hasDistinctKeys_ofFlow fun n hn => (hnodes n hn).1
  have hjson := Json.read_write (.document indent) hkeys hdistinct hshort
  have hflow := toFlow_ofFlow_of_normal hnormal fun n hn => (hnodes n hn).2
  have hread : read (write indent f) = .ok f := by
    unfold read write
    rw [hjson]
    exact congrArg (Except.mapError TextFault.document) hflow
  refine ⟨hread, ?_, Flow.same_self hnormal fun n hn => (hnodes n hn).1⟩
  rw [hread]
  rfl

/-- A canvas document with a block of an unknown kind whose configuration is nested, with characters
that are escaped, and with large, small and fractional numbers. -/
def smsDocument : Value :=
  .mapping [(.text "start", .text "sms"), (.text "nodes", .list [
    .mapping [(.text "id", .text "sms"), (.text "position", .mapping [
        (.text "x", .float (.ofDecimal true ⟨125, -7⟩)), (.text "y", .int (-10 ^ 30))]),
      (.text "data", .mapping [(.text "blockType", .text "sms"), (.text "onEdit", .null),
        (.text "text", .text "Hi \"😀\"\n"), (.text "retries", .list [.int 1, .mapping [],
          .mapping [(.text "é", .list []), (.text "after", .float (.ofDecimal false ⟨1, 22⟩))]])])],
    .mapping [(.text "id", .text "end"), (.text "blockType", .text "hangup")]]),
    (.text "edges", .list [.mapping [(.text "source", .text "sms"), (.text "target", .text "end"),
      (.text "sourceHandle", .int 1)]])]

/-- The flow of that document. -/
def smsFlow : Flow := (toFlow smsDocument).toOption.getD .empty

/-- The keys of the document are distinct. -/
theorem hasDistinctKeys_smsDocument : smsDocument.hasDistinctKeys = true := by decide +kernel

/-- What the document is read as. -/
theorem toFlow_smsDocument : toFlow smsDocument = .ok smsFlow := by
  have hsome : (toFlow smsDocument).toOption.isSome = true := by decide +kernel
  unfold smsFlow
  cases h : toFlow smsDocument with
  | error fault =>
    rw [h] at hsome
    cases hsome
  | ok f => rfl

/-- The keys of the flow are texts. -/
theorem hasTextKeys_smsFlow : (ofFlow smsFlow).hasTextKeys = true := by decide +kernel

/-- Its numbers can be written. -/
theorem canWrite_smsFlow : Json.canWrite (ofFlow smsFlow) = true := by decide +kernel

/-- All of its numbers are the same as themselves. -/
theorem hasNoNan_smsFlow : (ofFlow smsFlow).hasNoNan = true := by decide +kernel

/-- The flow is read back from a text with a negative indent. -/
theorem read_write_smsFlow :
    (smsDocument.hasDistinctKeys = true ∧ toFlow smsDocument = .ok smsFlow ∧
      (ofFlow smsFlow).hasTextKeys = true ∧ Json.canWrite (ofFlow smsFlow) = true) ∧
    read (write (some (-2)) smsFlow) = .ok smsFlow ∧
      (read (write (some (-2)) smsFlow)).map (write (some (-2))) = .ok (write (some (-2)) smsFlow) ∧
      smsFlow.same smsFlow = true := by
  obtain ⟨hback, hagain, hsame⟩ := read_write_of_toFlow hasDistinctKeys_smsDocument
    toFlow_smsDocument hasTextKeys_smsFlow canWrite_smsFlow (some (-2))
  exact ⟨⟨hasDistinctKeys_smsDocument, toFlow_smsDocument, hasTextKeys_smsFlow, canWrite_smsFlow⟩,
    hback, hagain, hsame hasNoNan_smsFlow⟩

example : smsFlow.ids = ["sms", "end"] ∧
    smsFlow.edges = [⟨"e-sms-1-end", "sms", "end", some "1"⟩] := by decide +kernel

end Document

end CallFlow
