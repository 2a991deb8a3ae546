import CallFlow.Proofs.FailedEdits

/-!
# Updates of configurations

An update names some entries of the configuration of one node. What it names gets the value that it
would have in a configuration of its own, and the rest of the flow is left alone: the other entries,
the other parts of the node, the other nodes, the edges and the start marker.

There is one exception. A block of an unknown kind keeps the entries that it was read with, also
those without a value, but an update drops the latter although it does not name them
(`Editor.updateConfig_fax`).

* `Config.get?_update`: the fields of a configuration after an update.
* `Block.updated_of_update`: the entries of a block.
* `Editor.updateConfig_keeps`: the flow.
-/

namespace CallFlow

namespace Entries

/-- A key is there if an entry has it. -/
theorem has_iff {entries : Entries} {name : String} :
    entries.has name ↔ ∃ e ∈ entries, e.1 = .text name := by
  rw [has, Option.isSome_iff_ne_none, ne_eq, find?_eq_none_iff]
  push Not
  rfl

end Entries

/-! ## Known kinds -/

namespace Config

/-- Some entry sets the field, under its name in documents or under its own. -/
def Sets (entries : Entries) (f : Field) : Prop :=
  entries.has f.documentName ∨ entries.has f.name

variable {kind : BlockKind} {f : Field} {entries more : Entries} {c c' : Config}

/-- An entry is taken for that of a field under either name of the field, and under no other key. -/
theorem fieldKey_eq_name_iff (hf : f ∈ kind.fields) {key : Scalar} :
    fieldKey kind key = .text f.name ↔ key = .text f.documentName ∨ key = .text f.name := by
  constructor
  · intro h
    cases key with
    | text s =>
      simp only [fieldKey] at h
      cases halias : kind.aliased? s with
      | none =>
        rw [halias] at h
        exact .inr h
      | some g =>
        rw [halias] at h
        obtain rfl : g = f := Field.name_injective (Scalar.text.inj h)
        have hname := List.find?_some halias
        rw [Bool.and_eq_true, decide_eq_true_eq] at hname
        exact .inl (congrArg Scalar.text hname.1.symm)
    | null | bool | int | float => cases h
  · rintro (rfl | rfl)
    · exact fieldKey_documentName hf
    · exact fieldKey_name hf

/-- Under the name of a field there is an entry exactly if some entry sets the field. -/
theorem find?_normalizeKeys_eq_none_iff (hf : f ∈ kind.fields) :
    (normalizeKeys kind entries).find? (.text f.name) = none ↔ ¬ Sets entries f := by
  refine (Entries.find?_setAll_eq_none_iff f.name [] _).trans ?_
  simp only [Sets, Entries.has_iff, List.mem_map, forall_exists_index, and_imp,
    forall_apply_eq_imp_iff₂, ne_eq, fieldKey_eq_name_iff hf, not_or, not_exists, not_and]
  constructor
  · rintro ⟨-, h⟩
    exact ⟨fun e he => (h e he).1, fun e he => (h e he).2⟩
  · rintro ⟨hdocument, hown⟩
    exact ⟨rfl, fun e he => ⟨hdocument e he, hown e he⟩⟩

/-- A configuration that is read has the settings that its fields are read as. -/
theorem get?_of_readEntry (h : readNormalized kind entries = .ok c) (hf : f ∈ kind.fields) :
    c.get? f = f.held (settingOf entries f) := by
  obtain ⟨-, rfl⟩ := readNormalized_eq_ok_iff.mp h
  rw [get?_ofSettings, if_pos hf]

/-- In an update, the fields that are set are read from the new entries, and the others from the
entries of the configuration. -/
theorem readEntry_update (hf : f ∈ c.kind.fields) :
    (Sets more f →
      readEntry ((c.entriesBy Field.name).setAll (normalizeKeys c.kind more)) f =
        readEntry (normalizeKeys c.kind more) f) ∧
    (¬ Sets more f →
      readEntry ((c.entriesBy Field.name).setAll (normalizeKeys c.kind more)) f =
        readEntry (c.entriesBy Field.name) f) := by
  have hdistinct : Association.Distinct Scalar.same (normalizeKeys c.kind more) :=
    Association.distinct_ofPairs _
  have hnone : (normalizeKeys c.kind more).find? (.text f.name) = none ↔ ¬ Sets more f :=
    find?_normalizeKeys_eq_none_iff hf
  unfold readEntry
  rw [Entries.find?_setAll f.name (c.entriesBy Field.name) hdistinct]
  constructor
  · intro hset
    obtain ⟨v, hv⟩ := Option.ne_none_iff_exists'.mp fun h => hnone.mp h hset
    rw [hv]
    rfl
  · intro hset
    rw [hnone.mpr hset]
    rfl

/-- After an update, a field that is set is as in the configuration that is read from the new
entries alone, and any other field is as it was. -/
theorem get?_update (hc : c.Normal) (h : c.update more = .ok c') :
    c'.kind = c.kind ∧ ∃ built, read c.kind more = .ok built ∧ ∀ f ∈ c.kind.fields,
      (Sets more f → c'.get? f = built.get? f) ∧ (¬ Sets more f → c'.get? f = c.get? f) := by
  have hfields := (readNormalized_eq_ok_iff.mp h).1
  obtain ⟨built, hbuilt⟩ : ∃ built, read c.kind more = .ok built := by
    refine ⟨_, readNormalized_eq_ok_iff.mpr ⟨fun f hf => ?_, rfl⟩⟩
    by_cases hset : Sets more f
    · obtain ⟨o, ho⟩ := hfields f hf
      exact ⟨o, ((readEntry_update hf).1 hset).symm.trans ho⟩
    · rw [readEntry, (find?_normalizeKeys_eq_none_iff hf).mpr hset]
      exact ⟨none, readField_none f⟩
  have hkept := readNormalized_entriesBy hc
  refine ⟨(normal_of_readNormalized h).1, built, hbuilt, fun f hf => ⟨?_, ?_⟩⟩
  · intro hset
    rw [get?_of_readEntry h hf, get?_of_readEntry hbuilt hf, settingOf, settingOf,
      (readEntry_update hf).1 hset]
  · intro hset
    rw [get?_of_readEntry h hf, get?_of_readEntry hkept hf, settingOf, settingOf,
      (readEntry_update hf).2 hset]

/-- The entry of a field in a document. -/
theorem find?_toEntries (hf : f ∈ c.kind.fields) :
    c.toEntries.find? (.text f.documentName) = (c.get? f).map Setting.toValue := by
  unfold toEntries entriesBy
  rw [find?_written (fun _ _ => Field.documentName_injective), if_pos hf]

/-- A document has no other entries. -/
theorem find?_toEntries_eq_none {key : String}
    (h : ∀ f ∈ c.kind.fields, f.documentName ≠ key) : c.toEntries.find? (.text key) = none := by
  refine Entries.find?_eq_none_iff.mpr fun e he heq => ?_
  obtain ⟨f, hf, s, -, rfl⟩ := exists_setting_of_mem_toEntries he
  exact h f hf (Scalar.text.inj heq)

/-- Two configurations of a kind have the same entry under a key if they agree on the field that is
written there. -/
theorem find?_toEntries_congr (hkind : c'.kind = c.kind) {key : String}
    (h : ∀ f ∈ c.kind.fields, f.documentName = key → c'.get? f = c.get? f) :
    c'.toEntries.find? (.text key) = c.toEntries.find? (.text key) := by
  by_cases hkey : ∃ f ∈ c.kind.fields, f.documentName = key
  · obtain ⟨f, hf, rfl⟩ := hkey
    rw [find?_toEntries hf, find?_toEntries (hkind ▸ hf), h f hf rfl]
  · push Not at hkey
    rw [find?_toEntries_eq_none hkey, find?_toEntries_eq_none (hkind ▸ hkey)]

/-- What is written has a value. -/
theorem find?_toEntries_ne_null (c : Config) (key : String) :
    c.toEntries.find? (.text key) ≠ some .null := by
  intro hnull
  obtain ⟨f, -, s, -, heq⟩ := exists_setting_of_mem_toEntries (Entries.mem_of_find? hnull)
  cases s <;> cases heq

end Config

/-! ## Blocks -/

namespace Block

/-- The new entries name the entry of the configuration that has the given key in a document. In a
block of a known kind that is the entry of a field, and either name of the field will do. -/
def Names (b : Block) (more : Entries) (key : String) : Prop :=
  match b with
  | known c => ∃ f ∈ c.kind.fields, f.documentName = key ∧ Config.Sets more f
  | unknown _ _ => more.has key

/-- How a block comes out of an update: its kind is the same, what is named is as in the block that
is built from the new entries alone, and what is not named is as it was. An entry that is not named
and has no value, which only a block of an unknown kind may have, is gone. -/
structure Updated (b : Block) (more : Entries) (built b' : Block) : Prop where
  typeName : b'.typeName = b.typeName
  declared : b'.declared? = b.declared?
  named : ∀ key, b.Names more key →
    b'.toEntries.find? (.text key) = built.toEntries.find? (.text key)
  kept : ∀ key, ¬ b.Names more key →
    b.isKnown ∨ b.toEntries.find? (.text key) ≠ some .null →
      b'.toEntries.find? (.text key) = b.toEntries.find? (.text key)
  dropped : ∀ key, ¬ b.Names more key → b'.toEntries.find? (.text key) ≠ some .null

/-- The entries that have a value. -/
def present (entries : Entries) : Entries :=
  entries.filter fun e => match e.2 with | .null => false | _ => true

/-- The entries that are present are those that are not null. -/
theorem mem_present_iff {entries : Entries} {e : Scalar × Value} :
    e ∈ present entries ↔ e ∈ entries ∧ e.2 ≠ .null := by
  unfold present
  rw [List.mem_filter]
  refine and_congr_right fun _ => ?_
  split <;> simp_all

/-- An entry that is null is left out, any other is kept. -/
theorem present_cons_cases (k : Scalar) (v : Value) (rest : Entries) :
    (v = .null ∧ present ((k, v) :: rest) = present rest) ∨
      present ((k, v) :: rest) = (k, v) :: present rest := by
  unfold present
  rw [List.filter_cons]
  split <;> simp_all

/-- Where there is a value or no entry, the same is found among the entries that have a value. -/
theorem find?_present (name : String) : ∀ {entries : Entries},
    entries.find? (.text name) ≠ some .null →
      (present entries).find? (.text name) = entries.find? (.text name)
  | [], _ => rfl
  | (k, v) :: rest, h => by
    rw [Entries.find?_cons] at h ⊢
    by_cases hk : k = .text name
    · rw [if_pos hk] at h ⊢
      rcases present_cons_cases k v rest with ⟨rfl, -⟩ | hcons
      · exact absurd rfl h
      · rw [hcons, Entries.find?_cons, if_pos hk]
    · rw [if_neg hk] at h ⊢
      rcases present_cons_cases k v rest with ⟨-, hcons⟩ | hcons
      · rw [hcons, find?_present name h]
      · rw [hcons, Entries.find?_cons, if_neg hk, find?_present name h]

/-- What is found among the entries that are present is not null. -/
theorem find?_present_ne_null (entries : Entries) (name : String) :
    (present entries).find? (.text name) ≠ some .null := by
  intro hnull
  exact (mem_present_iff.mp (Entries.mem_of_find? hnull)).2 rfl

/-- Nothing is wrong with keys that are texts. -/
theorem keyIssues_eq_nil_iff {entries : Entries} :
    keyIssues entries = [] ↔ ∀ e ∈ entries, ∃ s, e.1 = .text s := by
  unfold keyIssues
  rw [List.filterMap_eq_nil_iff]
  refine forall_congr' fun e => imp_congr_right fun _ => ?_
  cases e.1 <;> simp

/-- Among entries under texts, new ones are set under texts. -/
theorem keyIssues_of_setAll {entries more : Entries}
    (h : keyIssues (entries.setAll more) = []) : keyIssues more = [] := by
  rw [keyIssues_eq_nil_iff] at h ⊢
  intro e he
  have hkey : ∃ k ∈ (entries.setAll more).map Prod.fst, k = e.1 ∨ k.same e.1 :=
    Association.exists_key_insertAll entries he
  obtain ⟨k, hk, hsame⟩ := hkey
  obtain ⟨e', he', rfl⟩ := List.mem_map.mp hk
  obtain ⟨s, hs⟩ := h e' he'
  rw [hs, Entries.same_text_left, decide_eq_true_eq, or_self] at hsame
  exact ⟨s, hsame.symm⟩

variable {b b' : Block} {more : Entries}

/-- An update of a known block reads what is new as a configuration of its kind, and puts that over
the old one. -/
theorem updated_known {c c' : Config} (hc : c.Normal) (h : c.update more = .ok c') :
    ∃ built, readNamed? (known c).typeName (.mapping more) = some (.ok built) ∧
      (known c).Updated more built (known c') := by
  obtain ⟨hkind, built, hbuilt, hfields⟩ := Config.get?_update hc h
  have hbuiltKind : built.kind = c.kind := (Config.normal_of_readNormalized hbuilt).1
  have hread : readNamed? (known c).typeName (.mapping more) = some (.ok (known built)) :=
    readNamed?_of_read hbuilt
  refine ⟨known built, hread, congrArg BlockKind.name hkind, rfl, ?_, ?_, ?_⟩
  · rintro key ⟨f, hf, rfl, hset⟩
    show c'.toEntries.find? _ = built.toEntries.find? _
    rw [Config.find?_toEntries (hkind ▸ hf), Config.find?_toEntries (hbuiltKind ▸ hf),
      (hfields f hf).1 hset]
  · intro key hkey _
    refine Config.find?_toEntries_congr hkind fun f hf hname => (hfields f hf).2 fun hset => ?_
    exact hkey ⟨f, hf, hname, hset⟩
  · exact fun key _ => Config.find?_toEntries_ne_null c' key

/-- An update of an unknown block puts the new entries over those of the old ones that are not null.
-/
theorem updated_unknown {declared : String} {entries : Entries}
    (hmore : Association.Distinct Scalar.same more)
    (hkeys : keyIssues ((present entries).setAll more) = []) :
    ∃ built, readNamed? (unknown declared entries).typeName (.mapping more) = some (.ok built) ∧
      (unknown declared entries).Updated more built
        (unknown declared ((present entries).setAll more)) := by
  have hread : readNamed? (unknown declared entries).typeName (.mapping more) =
      some (.ok (unknown unknownName more)) := readNamed?_unknownName (keyIssues_of_setAll hkeys)
  have hfind : ∀ key, ((present entries).setAll more).find? (.text key) =
      (more.find? (.text key)).or ((present entries).find? (.text key)) := fun key =>
    Entries.find?_setAll key (present entries) hmore
  have hnew : ∀ {key}, ¬ (unknown declared entries).Names more key →
      more.find? (.text key) = none := fun hkey => by
    simpa [Names, Entries.has] using hkey
  refine ⟨_, hread, rfl, rfl, ?_, ?_, ?_⟩
  · intro key hkey
    obtain ⟨v, hv⟩ := Option.isSome_iff_exists.mp hkey
    show ((present entries).setAll more).find? _ = more.find? _
    rw [hfind, hv]
    rfl
  · intro key hkey hvalue
    show ((present entries).setAll more).find? _ = entries.find? _
    rw [hfind, hnew hkey, Option.none_or]
    exact find?_present key (hvalue.resolve_left (by simp [isKnown, kind?]))
  · intro key hkey
    show ((present entries).setAll more).find? _ ≠ _
    rw [hfind, hnew hkey, Option.none_or]
    exact find?_present_ne_null entries key

/-- Every update of a block in normal form comes out so. -/
theorem updated_of_update (hb : b.Normal) (hmore : Association.Distinct Scalar.same more)
    (h : b.update more = .ok b') :
    ∃ built, readNamed? b.typeName (.mapping more) = some (.ok built) ∧
      b.Updated more built b' := by
  cases b with
  | known c =>
    obtain ⟨c', hc', rfl⟩ := Except.map_eq_ok_iff.mp h
    exact updated_known hb hc'
  | unknown declared entries =>
    obtain ⟨entries', hentries, rfl⟩ := Except.map_eq_ok_iff.mp h
    obtain ⟨hkeys, rfl⟩ := readOpaque_eq_ok_iff.mp hentries
    exact updated_unknown hmore hkeys

end Block

/-! ## Flows -/

/-- A node is replaced in its place. -/
theorem Flow.nodes_replaceNode {f : Flow} {n n' : Node} {before after : List Node}
    (h : f.nodes = before ++ n :: after) (hid : n'.id = n.id) :
    (f.replaceNode n').nodes = before ++ n' :: after := by
  have hdistinct := f.distinct
  rw [h, List.map_append, List.map_cons, List.nodup_middle] at hdistinct
  have hother : ∀ m ∈ before ++ after, m.id ≠ n'.id := by
    intro m hm heq
    refine (List.nodup_cons.mp hdistinct).1 ?_
    rw [← List.map_append, ← hid, ← heq]
    exact List.mem_map.mpr ⟨m, hm, rfl⟩
  have hsame : ∀ ms : List Node, (∀ m ∈ ms, m.id ≠ n'.id) →
      ms.map (fun m => if m.id = n'.id then n' else m) = ms := fun ms hms => by
    rw [List.map_congr_left fun m hm => if_neg (hms m hm), List.map_id']
  show f.nodes.map (fun m => if m.id = n'.id then n' else m) = before ++ n' :: after
  rw [h, List.map_append, List.map_cons, if_pos hid.symm,
    hsame before fun m hm => hother m (List.mem_append_left _ hm),
    hsame after fun m hm => hother m (List.mem_append_right _ hm)]

namespace Editor

variable {e : Editor} {id : String} {more : Entries} {result : EditResult}

/-- An update that succeeds puts the node with its new block in the place of the node. -/
theorem updateConfig_eq_ok (h : (e.updateConfig id (.mapping more)).2 = .ok result) :
    ∃ n block, e.flow.node? id = some n ∧ n.block.update more = .ok block ∧
      e.updateConfig id (.mapping more) =
        e.change (e.flow.replaceNode { n with block }) (.node { n with block }) := by
  unfold updateConfig at h ⊢
  split at h
  · cases h
  · rename_i n hnode
    rw [hnode]
    dsimp only at h ⊢
    split at h
    · cases h
    · rename_i block hblock
      refine ⟨n, block, rfl, hblock, ?_⟩
      split at h
      · rename_i hkeys
        rw [if_pos hkeys]
      · cases h

/-- **An update changes what it names and nothing else.** Let an update of a node of a flow that can
be reached succeed. Then there is a block that can be built from the new entries alone, and the
entries that the update names are as they are in that block. The other entries are as they were,
except that a block of an unknown kind loses those without a value. The id, the name, the position
and the kind of the node stay, as do the other nodes and their order, the edges and the start
marker. -/
theorem updateConfig_keeps (hreached : e.flow.Reached)
    (hmore : Association.Distinct Scalar.same more)
    (h : (e.updateConfig id (.mapping more)).2 = .ok result) :
    ∃ before n after n' built, e.flow.nodes = before ++ n :: after ∧ n.id = id ∧
      result = .node n' ∧
      (e.updateConfig id (.mapping more)).1.flow.nodes = before ++ n' :: after ∧
      (e.updateConfig id (.mapping more)).1.flow.edges = e.flow.edges ∧
      (e.updateConfig id (.mapping more)).1.flow.start = e.flow.start ∧
      n'.id = n.id ∧ n'.name = n.name ∧ n'.position = n.position ∧
      Block.readNamed? n.block.typeName (.mapping more) = some (.ok built) ∧
      n.block.Updated more built n'.block := by
  obtain ⟨n, block, hnode, hblock, hchange⟩ := updateConfig_eq_ok h
  obtain ⟨hn, hid⟩ := Flow.node?_eq_some_iff.mp hnode
  obtain ⟨before, after, hnodes⟩ := List.append_of_mem hn
  obtain ⟨built, hbuilt, hupdated⟩ :=
    Block.updated_of_update (hreached.normal.nodes n hn).block hmore hblock
  rw [hchange] at h ⊢
  exact ⟨before, n, after, { n with block }, built, hnodes, hid, (Except.ok.inj h).symm,
    Flow.nodes_replaceNode hnodes rfl, rfl, rfl, rfl, rfl, rfl, hbuilt, hupdated⟩

/-- What is played, by the own name of the field. -/
def recording : Entries := [(.text "audio_url", .text "a.wav")]

/-- A prompt gets a recording beside its message. -/
theorem updateConfig_keeps_greeting : ∃ n n' built, greeting.flow.Reached ∧
    greeting.flow.nodes = [n] ∧ Association.Distinct Scalar.same recording ∧
    (greeting.updateConfig "a" (.mapping recording)).2 = .ok (.node n') ∧
    n.block.Updated recording built n'.block := by
  have hreached : greeting.flow.Reached := Flow.Reached.run .empty (by simp) (by simp)
  have hmore : Association.Distinct Scalar.same recording := List.pairwise_singleton _ _
  obtain ⟨n', h⟩ : ∃ n', (greeting.updateConfig "a" (.mapping recording)).2 = .ok (.node n') :=
    ⟨_, rfl⟩
  obtain ⟨before, n, after, n'', built, hnodes, -, hresult, -, -, -, -, -, -, -, hupdated⟩ :=
    updateConfig_keeps hreached hmore h
  obtain rfl := EditResult.node.inj hresult
  obtain ⟨rfl, rfl⟩ : before = [] ∧ after = [] := by
    have hlength : (before ++ n :: after).length = 1 := hnodes ▸ rfl
    rw [List.length_append, List.length_cons] at hlength
    exact ⟨List.length_eq_zero_iff.mp (by omega), List.length_eq_zero_iff.mp (by omega)⟩
  exact ⟨n, n', built, hreached, hnodes, hmore, h, hupdated⟩

/-- A fax block, of a kind that is not known, with an entry that has no value. -/
def fax : Editor :=
  .ofFlow ⟨[⟨"fax", "Fax", .unknown "fax" [(.text "retries", .null), (.text "number", .text "1")],
    Node.origin⟩], [], none, List.nodup_singleton "fax"⟩

/-- When its number is updated, the entry is gone. -/
theorem updateConfig_fax : fax.flow.Reached ∧ ∃ n n', fax.flow.nodes = [n] ∧
    (fax.updateConfig "fax" (.mapping [(.text "number", .text "2")])).2 = .ok (.node n') ∧
    ¬ n.block.Names [(.text "number", .text "2")] "retries" ∧
    n.block.toEntries.find? (.text "retries") = some .null ∧
    n'.block.toEntries.find? (.text "retries") = none := by
  have hdocument : Document.toFlow (.mapping [(.text "nodes", .list [.mapping [
      (.text "id", .text "fax"), (.text "blockType", .text "fax"), (.text "name", .text "Fax"),
      (.text "config", .mapping [(.text "retries", .null), (.text "number", .text "1")])]])]) =
        .ok fax.flow := rfl
  refine ⟨.loaded hdocument, _, _, rfl, rfl, ?_, rfl, rfl⟩
  show ¬ Entries.has _ "retries" = true
  decide

end Editor

end CallFlow
