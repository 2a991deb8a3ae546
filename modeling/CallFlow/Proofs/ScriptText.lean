import CallFlow.Proofs.Compilation
import CallFlow.Proofs.DocumentText
import CallFlow.Script.Reader

/-!
# Scripts as text

The text of a script gives the script back, with all its units, their kinds and their fields, for
every indent. It is enough that no table of the script has two entries under one key
(`Script.HasDistinctKeys`) and that its whole numbers are short enough to be written. The script of
a flow in normal form has such tables, because the options of its nodes are mappings and the
branches are made one (`Flow.hasDistinctKeys_compile`).

* `Script.action?_of_fields`: what a unit does is read from the fields that are written for it.
* `Script.ofValue_toValue`: the document value of a script is read as that script.
* `Script.read_write_of_compile`: so is the text of the script of a flow.
-/

namespace CallFlow

/-! ## Tables -/

/-- The tables that an action holds. -/
def Action.tables : Action → List TextTable
  | .collectDigit table .. | .language table _ => [table.options, table.branches]
  | .apiCall _ _ _ _ _ branches => [branches]
  | _ => []

/-- No table of the script has two entries under one key. -/
def Script.HasDistinctKeys (s : Script) : Prop :=
  ∀ u ∈ s.units, ∀ t ∈ u.action.tables, t.keys.Nodup

/-- The options of a configuration in normal form have distinct keys. -/
theorem Config.Normal.nodup_options {c : Config} (h : c.Normal) : c.options.keys.Nodup := by
  cases c with
  | key c => exact (h .options _ rfl).2
  | language c => exact (h .options _ rfl).2
  | _ => exact List.nodup_nil

namespace Compilation

variable {policy : Policy}

/-- The tables of a unit are the options of its block and tables of branches. -/
theorem nodup_keys_of_action? {edges : List Edge} {c : Config} {a : Action}
    (h : action? policy edges c = some a) (hoptions : c.options.keys.Nodup) :
    ∀ t ∈ a.tables, t.keys.Nodup := by
  have hbranches : (handledBranches edges).keys.Nodup := TextTable.nodup_keys_ofPairs _
  cases c with
  | key c | language c =>
    obtain ⟨table, htable, h⟩ := Option.bind_eq_some_iff.mp h
    obtain ⟨-, rfl⟩ := branchTable?_eq_some_iff.mp htable
    cases h
    exact List.forall_mem_cons.mpr ⟨hoptions, List.forall_mem_singleton.mpr hbranches⟩
  | api c =>
    cases h
    exact List.forall_mem_singleton.mpr hbranches
  | prompt c | record c | menu c | hangup =>
    cases h
    exact List.forall_mem_nil _
  | transfer c | queue c | voicemail c =>
    obtain ⟨place, -, h⟩ := Option.bind_eq_some_iff.mp h
    cases h
    exact List.forall_mem_nil _

end Compilation

/-- The script of a flow in normal form has distinct keys in its tables. -/
theorem Flow.hasDistinctKeys_compile {f : Flow} {policy : Policy} {s : Script} (hf : f.Normal)
    (h : f.compile policy = .ok s) : s.HasDistinctKeys := by
  intro u hu
  obtain ⟨n, hn, hunit⟩ := Compilation.exists_mem_nodes (compile_eq_ok h).2.2 u hu
  obtain ⟨c, action, hblock, haction, rfl⟩ := Compilation.unit_eq_ok hunit
  obtain ⟨id, -, hnode⟩ := List.mem_filterMap.mp hn
  have hnormal := (hf.nodes n (node?_eq_some_iff.mp hnode).1).block
  rw [hblock] at hnormal
  exact Compilation.nodup_keys_of_action? haction hnormal.nodup_options

/-! ## Fields -/

/-- A field with a name of its own is found with its value. -/
theorem Entries.find?_ofFields {fields : List (String × Value)} {name : String} {v : Value}
    (h : (fields.map Prod.fst).Nodup) (hmem : (name, v) ∈ fields) :
    (Entries.ofFields fields).find? (.text name) = some v := by
  have hdistinct : Association.Distinct Scalar.same (Entries.ofFields fields) :=
    Entries.distinct_of_texts (by simp [Entries.ofFields]) h
  exact Entries.find?_of_mem hdistinct (List.mem_map.mpr ⟨_, hmem, rfl⟩)

namespace ScriptUnit

/-- The fields of a unit, in the order in which they are written. -/
def fields (u : ScriptUnit) : List (String × Value) :=
  [("label", .text u.label), ("name", .text u.name)] ++ u.action.leadingFields ++
    [("kind", .text u.action.kindName)] ++ u.action.ownFields

/-- No two fields of a unit have the same name. -/
theorem nodup_map_fst_fields (u : ScriptUnit) : (u.fields.map Prod.fst).Nodup := by
  obtain ⟨label, name, action⟩ := u
  cases action <;> simp [fields, Action.leadingFields, Action.ownFields]

/-- A field of a unit is found in the entries of the unit. -/
theorem find?_toEntries {u : ScriptUnit} {name : String} {v : Value} (h : (name, v) ∈ u.fields) :
    u.toEntries.find? (.text name) = some v :=
  Entries.find?_ofFields u.nodup_map_fst_fields h

end ScriptUnit

namespace Action

/-- A text that may be unset is a scalar. -/
theorem exists_scalar (o : Option String) : ∃ s, (o.map Value.text).getD .null = .scalar s := by
  cases o <;> exact ⟨_, rfl⟩

/-- So is a number that may be unset. -/
theorem exists_scalar_int (o : Option Int) : ∃ s, (o.map Value.int).getD .null = .scalar s := by
  cases o <;> exact ⟨_, rfl⟩

/-- The fields of an action hold scalars and its tables. -/
theorem scalar_or_table (a : Action) : ∀ p ∈ a.leadingFields ++ a.ownFields,
    (∃ s, p.2 = .scalar s) ∨ ∃ t ∈ a.tables, p.2 = t.toValue := by
  cases a <;> simp only [leadingFields, ownFields, List.cons_append, List.nil_append,
    List.forall_mem_cons]
  case play next message url =>
    exact ⟨.inl (exists_scalar next), .inl (exists_scalar message), .inl (exists_scalar url),
      List.forall_mem_nil _⟩
  case collectDigit table message url =>
    exact ⟨.inr ⟨table.options, by simp [tables], rfl⟩,
      .inr ⟨table.branches, by simp [tables], rfl⟩, .inl ⟨_, rfl⟩, .inl (exists_scalar message),
      .inl (exists_scalar url), List.forall_mem_nil _⟩
  case language table summary =>
    exact ⟨.inr ⟨table.options, by simp [tables], rfl⟩,
      .inr ⟨table.branches, by simp [tables], rfl⟩, .inl ⟨_, rfl⟩, .inl (exists_scalar summary),
      List.forall_mem_nil _⟩
  case apiCall next endpoint method mock conditions branches =>
    exact ⟨.inl (exists_scalar next), .inl (exists_scalar endpoint), .inl (exists_scalar method),
      .inl (exists_scalar mock), .inl (exists_scalar conditions),
      .inr ⟨branches, by simp [tables], rfl⟩, List.forall_mem_nil _⟩
  case record next maxSeconds summary =>
    exact ⟨.inl (exists_scalar next), .inl (exists_scalar_int maxSeconds),
      .inl (exists_scalar summary), List.forall_mem_nil _⟩
  case menu next summary destination conditions =>
    exact ⟨.inl (exists_scalar next), .inl (exists_scalar summary),
      .inl (exists_scalar destination), .inl (exists_scalar conditions), List.forall_mem_nil _⟩
  case hangup => exact List.forall_mem_nil _
  case transfer place conditions | queue place conditions | voicemail place conditions =>
    exact ⟨.inl ⟨_, rfl⟩, .inl (exists_scalar conditions), List.forall_mem_nil _⟩

end Action

/-- The fields of a unit hold scalars and the tables of its action. -/
theorem ScriptUnit.scalar_or_table (u : ScriptUnit) : ∀ p ∈ u.fields,
    (∃ s, p.2 = .scalar s) ∨ ∃ t ∈ u.action.tables, p.2 = t.toValue := by
  intro p hp
  have haction := u.action.scalar_or_table p
  simp only [fields, List.cons_append, List.nil_append, List.mem_append, List.mem_cons,
    List.not_mem_nil, or_false] at hp haction
  rcases hp with rfl | rfl | (hp | rfl) | hp
  · exact .inl ⟨_, rfl⟩
  · exact .inl ⟨_, rfl⟩
  · exact haction (.inl hp)
  · exact .inl ⟨_, rfl⟩
  · exact haction (.inr hp)

/-! ## Writing -/

/-- The keys of a table are texts. -/
theorem TextTable.hasTextKeys_toValue (t : TextTable) : t.toValue.hasTextKeys = true := by
  refine Value.hasTextKeys_mapping.mpr ⟨fun e he => ?_, fun e he => ?_⟩
  all_goals obtain ⟨o, -, rfl⟩ := List.mem_map.mp he
  · rfl
  · exact Value.hasTextKeys_scalar _

namespace ScriptUnit

variable {u : ScriptUnit}

/-- All keys in the entries of a unit are texts. -/
theorem hasTextKeys_toEntries (u : ScriptUnit) :
    (Value.mapping u.toEntries).hasTextKeys = true := by
  refine Value.hasTextKeys_mapping.mpr ⟨fun e he => ?_, fun e he => ?_⟩
  all_goals obtain ⟨p, hp, rfl⟩ := List.mem_map.mp he
  · rfl
  · rcases u.scalar_or_table p hp with ⟨s, hs⟩ | ⟨t, -, ht⟩
    · exact hs ▸ Value.hasTextKeys_scalar s
    · exact ht ▸ t.hasTextKeys_toValue

/-- All keys in the entries of a unit are distinct, if those of its tables are. -/
theorem hasDistinctKeys_toEntries (h : ∀ t ∈ u.action.tables, t.keys.Nodup) :
    (Value.mapping u.toEntries).hasDistinctKeys = true := by
  refine Entries.hasDistinctKeys_of_texts ?_ u.nodup_map_fst_fields fun e he => ?_
  · unfold toEntries Entries.ofFields fields
    rw [List.map_map, List.map_map]
    rfl
  · obtain ⟨p, hp, rfl⟩ := List.mem_map.mp he
    rcases u.scalar_or_table p hp with ⟨s, hs⟩ | ⟨t, ht, hvalue⟩
    · exact hs ▸ Value.hasDistinctKeys_scalar s
    · exact hvalue ▸ TextTable.hasDistinctKeys_toValue (h t ht)

end ScriptUnit

namespace Script

variable {s : Script}

/-- All keys in the document value of a script are texts. -/
theorem hasTextKeys_toValue (s : Script) : s.toValue.hasTextKeys = true := by
  have hunits : (Value.list (s.units.map fun u => .mapping u.toEntries)).hasTextKeys = true := by
    refine Value.hasTextKeys_list.mpr fun v hv => ?_
    obtain ⟨u, -, rfl⟩ := List.mem_map.mp hv
    exact u.hasTextKeys_toEntries
  refine Value.hasTextKeys_mapping.mpr ⟨?_, ?_⟩
  · exact List.forall_mem_cons.mpr ⟨rfl, List.forall_mem_singleton.mpr rfl⟩
  · exact List.forall_mem_cons.mpr
      ⟨Value.hasTextKeys_scalar _, List.forall_mem_singleton.mpr hunits⟩

/-- All keys in the document value of a script are distinct, if those of its tables are. -/
theorem HasDistinctKeys.toValue (h : s.HasDistinctKeys) : s.toValue.hasDistinctKeys = true := by
  have hunits :
      (Value.list (s.units.map fun u => .mapping u.toEntries)).hasDistinctKeys = true := by
    refine Value.hasDistinctKeys_list.mpr fun v hv => ?_
    obtain ⟨u, hu, rfl⟩ := List.mem_map.mp hv
    exact ScriptUnit.hasDistinctKeys_toEntries (h u hu)
  refine Entries.hasDistinctKeys_of_texts
    (show _ = ["start", "units"].map Scalar.text from rfl) (by decide) ?_
  exact List.forall_mem_cons.mpr
    ⟨Value.hasDistinctKeys_scalar _, List.forall_mem_singleton.mpr hunits⟩

/-! ## Reading -/

section Reading

variable {e : Entries} {name : String}

/-- A text is read from the entry of its name. -/
theorem text_of_find? {t : String} (h : e.find? (.text name) = some (.text t)) :
    text name e = .ok t := by
  rw [text, required, h]
  rfl

/-- A text that may be unset is read from the entry of its name. -/
theorem text?_of_find? {o : Option String}
    (h : e.find? (.text name) = some ((o.map Value.text).getD .null)) : text? name e = .ok o := by
  rw [text?, optional, h]
  cases o <;> rfl

/-- A number that may be unset is read from the entry of its name. -/
theorem optionalWhole_of_find? {o : Option Int}
    (h : e.find? (.text name) = some ((o.map Value.int).getD .null)) :
    optional name Fitting.optionalWhole e = .ok o := by
  rw [optional, h]
  cases o <;> rfl

/-- The pairs of a table make the table. -/
theorem tableOf_map : ∀ t : TextTable,
    tableOf (t.map fun o => (.text o.1, .text o.2)) = t
  | [] => rfl
  | o :: rest => congrArg (o :: ·) (tableOf_map rest)

/-- A table is read from the entry of its name. -/
theorem table_of_find? {t : TextTable} (h : e.find? (.text name) = some t.toValue) :
    table name e = .ok t := by
  have hissues : (t.map fun o => (Scalar.text o.1, Value.text o.2)).flatMap
      (tableEntryIssues name) = [] := by
    rw [List.flatMap_map]
    exact List.flatMap_eq_nil_iff.mpr fun _ _ => rfl
  rw [table, h]
  simp only [TextTable.toValue, hissues, tableOf_map]

/-- A policy is read from its name. -/
theorem fallback_of_find? {policy : Policy}
    (h : e.find? (.text name) = some (.text policy.name)) :
    required name fitPolicy e = .ok policy := by
  rw [required, h]
  cases policy <;> rfl

/-- What the caller chooses from is read from its three entries. -/
theorem branchTable_of_find? {t : BranchTable}
    (hoptions : e.find? (.text "options") = some t.options.toValue)
    (hbranches : e.find? (.text "branches") = some t.branches.toValue)
    (hfallback : e.find? (.text "fallback") = some (.text t.fallback.name)) :
    branchTable e = .ok t := by
  rw [branchTable, fallback_of_find? hfallback, table_of_find? hbranches, table_of_find? hoptions]
  rfl

/-- What a unit does is read from the fields that are written for it. -/
theorem action?_of_fields {a : Action}
    (h : ∀ p ∈ a.leadingFields ++ a.ownFields, e.find? (.text p.1) = some p.2) :
    action? a.kindName e = some (.ok a) := by
  cases a <;> simp only [Action.leadingFields, Action.ownFields, List.cons_append,
    List.nil_append, List.forall_mem_cons] at h
  case play next message url =>
    obtain ⟨hnext, hmessage, hurl, -⟩ := h
    simp only [Action.kindName, action?, text?_of_find? hnext, text?_of_find? hmessage,
      text?_of_find? hurl, give]
  case collectDigit table message url =>
    obtain ⟨hoptions, hbranches, hfallback, hmessage, hurl, -⟩ := h
    simp only [Action.kindName, action?, branchTable_of_find? hoptions hbranches hfallback,
      text?_of_find? hmessage, text?_of_find? hurl, give]
  case language table summary =>
    obtain ⟨hoptions, hbranches, hfallback, hsummary, -⟩ := h
    simp only [Action.kindName, action?, branchTable_of_find? hoptions hbranches hfallback,
      text?_of_find? hsummary, give]
  case apiCall next endpoint method mock conditions branches =>
    obtain ⟨hnext, hendpoint, hmethod, hmock, hconditions, hbranches, -⟩ := h
    simp only [Action.kindName, action?, text?_of_find? hnext, text?_of_find? hendpoint,
      text?_of_find? hmethod, text?_of_find? hmock, text?_of_find? hconditions,
      table_of_find? hbranches, give]
  case record next maxSeconds summary =>
    obtain ⟨hnext, hseconds, hsummary, -⟩ := h
    simp only [Action.kindName, action?, text?_of_find? hnext, optionalWhole_of_find? hseconds,
      text?_of_find? hsummary, give]
  case menu next summary destination conditions =>
    obtain ⟨hnext, hsummary, hdestination, hconditions, -⟩ := h
    simp only [Action.kindName, action?, text?_of_find? hnext, text?_of_find? hsummary,
      text?_of_find? hdestination, text?_of_find? hconditions, give]
  case hangup => rfl
  case transfer place conditions | queue place conditions | voicemail place conditions =>
    obtain ⟨hplace, hconditions, -⟩ := h
    simp only [Action.kindName, action?, text_of_find? hplace, text?_of_find? hconditions, give]

/-- A unit is read from its entries: its kind decides on the fields, and all of them are there. -/
theorem readUnit_toEntries (u : ScriptUnit) : readUnit (.mapping u.toEntries) = .ok u := by
  have hlabel : text "label" u.toEntries = .ok u.label :=
    text_of_find? (ScriptUnit.find?_toEntries (by simp [ScriptUnit.fields]))
  have hname : text "name" u.toEntries = .ok u.name :=
    text_of_find? (ScriptUnit.find?_toEntries (by simp [ScriptUnit.fields]))
  have hkind : u.toEntries.find? (.text "kind") = some (.text u.action.kindName) :=
    ScriptUnit.find?_toEntries (by simp [ScriptUnit.fields])
  have haction : action? u.action.kindName u.toEntries = some (.ok u.action) := by
    refine action?_of_fields fun p hp => ScriptUnit.find?_toEntries ?_
    rcases List.mem_append.mp hp with hp | hp <;> simp [ScriptUnit.fields, hp]
  simp only [readUnit, hkind, haction, hname, hlabel, give, Except.mapError]

/-- The entries of units are read as the units, in their order. -/
theorem readUnits_map_toEntries : ∀ (index : Nat) (units : List ScriptUnit),
    readUnits index (units.map fun u => .mapping u.toEntries) = .ok units
  | _, [] => rfl
  | index, u :: rest => by
    rw [List.map_cons, readUnits, readUnits_map_toEntries (index + 1) rest, readUnit_toEntries]
    rfl

/-- The document value of a script is read as the script. -/
theorem ofValue_toValue (s : Script) : ofValue s.toValue = .ok s := by
  have hunits : readUnits 0 (s.units.map fun u => .mapping u.toEntries) = .ok s.units :=
    readUnits_map_toEntries 0 s.units
  have hstart : text "start" [(.text "start", .text s.start),
      (.text "units", .list (s.units.map fun u => .mapping u.toEntries))] = .ok s.start :=
    text_of_find? (by simp)
  rw [toValue, ofValue, hstart]
  simp [readUnitList, hunits, give]

end Reading

/-! ## Whole texts -/

/-- The text of a script gives it back, whatever the indent. -/
theorem read_write (h : s.HasDistinctKeys) (hshort : Json.canWrite s.toValue = true)
    (indent : Option Nat) : read (write indent s) = .ok s := by
  have hjson := Json.read_write (.script indent) s.hasTextKeys_toValue h.toValue hshort
  unfold read write
  rw [hjson]
  exact congrArg (Except.mapError TextFault.unfit) (ofValue_toValue s)

/-- An action whose tables have distinct keys is the same as itself. -/
theorem sameAction_self {a : Action} (h : ∀ t ∈ a.tables, t.keys.Nodup) :
    sameAction a a = true := by
  cases a <;> simp_all [sameAction, sameTable, Action.tables, TextTable.same_self]

/-- A script equals itself if no table has two entries under one key. -/
theorem HasDistinctKeys.same_self (h : s.HasDistinctKeys) : s.same s = true := by
  have hunits : ∀ p ∈ s.units.zip s.units, p.1.label = p.2.label ∧ p.1.name = p.2.name ∧
      sameAction p.1.action p.2.action = true := by
    intro p hp
    rw [List.zip_eq_zipWith, List.zipWith_self] at hp
    obtain ⟨u, hu, rfl⟩ := List.mem_map.mp hp
    exact ⟨rfl, rfl, sameAction_self (h u hu)⟩
  simpa [same, and_assoc] using hunits

/-- **The text of the script of a flow gives the script back**, whatever the indent, if the whole
numbers of the script can be written: the same start, and the same units in the same order, each of
its own kind with all of its fields and tables. The options of the nodes of a flow in normal form
are mappings, so that no table has two entries under one key. -/
theorem read_write_of_compile {f : Flow} {policy : Policy} {s : Script} (hf : f.Normal)
    (h : f.compile policy = .ok s) (hshort : Json.canWrite s.toValue = true)
    (indent : Option Nat) : read (write indent s) = .ok s ∧ s.same s = true := by
  have hkeys := Flow.hasDistinctKeys_compile hf h
  exact ⟨read_write hkeys hshort indent, hkeys.same_self⟩

end Script

end CallFlow
