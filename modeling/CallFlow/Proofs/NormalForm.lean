import CallFlow.Block
import CallFlow.Proofs.Association
import CallFlow.Proofs.Except

/-!
# Configurations in normal form

A configuration is in normal form if its settings fit their fields: texts are not blank, tables of
options have distinct keys, and lengths of time are positive. Whatever is read is in normal form
(`Config.normal_of_readNormalized`), and what is in normal form is read back from its entries as it
is (`Config.read_toEntries`). So writing a configuration and reading it again changes nothing.

* `Config.get?_ofSettings`: what a field of a configuration that is made from settings holds.
* `Config.find?_written`, `Config.normalizeKeys_entriesBy`: what is found in the entries that a
  configuration is written to.
* `Block.normal_of_update`: blocks stay in normal form when their configurations are updated.
-/

namespace CallFlow

/-! ## Settings -/

/-- A setting fits a field if it is of the type of the field and has some content: a text that is
not blank, a table with distinct keys, or a positive number. -/
def Setting.Fits (f : Field) : Setting → Prop
  | .text s => f ≠ .options ∧ f ≠ .maxSeconds ∧ Text.blank s = false
  | .table t => f = .options ∧ t.keys.Nodup
  | .number n => f = .maxSeconds ∧ 0 < n

/-- What a field holds where it is given a setting of any type or none. -/
def Field.held : Field → Option Setting → Option Setting
  | .options, o => some (.table (Setting.table? o))
  | .maxSeconds, o => (Setting.number? o).map .number
  | _, o => (Setting.text? o).map .text

/-- What a field holds fits it, if what it is given does. -/
theorem Setting.fits_of_held {f : Field} {o : Option Setting} {s : Setting}
    (ho : ∀ s', o = some s' → s'.Fits f) (h : f.held o = some s) : s.Fits f := by
  rcases o with _ | (t | t | n)
  · cases f <;> cases h
    exact ⟨rfl, List.nodup_nil⟩
  · obtain ⟨hoptions, hseconds, hblank⟩ := ho _ rfl
    cases f <;> cases h
    all_goals first | exact absurd rfl hoptions | exact ⟨hoptions, hseconds, hblank⟩
  · obtain ⟨rfl, hkeys⟩ := ho _ rfl
    cases h
    exact ⟨rfl, hkeys⟩
  · obtain ⟨rfl, hpos⟩ := ho _ rfl
    cases h
    exact ⟨rfl, hpos⟩

namespace Config

/-- Each field is unset or has a setting that fits it. -/
def Normal (c : Config) : Prop := ∀ f s, c.get? f = some s → s.Fits f

/-- A field of the kind holds what the settings give it, and any other field is unset. -/
theorem get?_ofSettings (kind : BlockKind) (s : Field → Option Setting) (f : Field) :
    (ofSettings kind s).get? f = if f ∈ kind.fields then f.held (s f) else none := by
  cases kind <;> cases f <;> rfl

/-- Only the fields of its kind matter to a configuration. -/
theorem ofSettings_congr {kind : BlockKind} {s s' : Field → Option Setting}
    (h : ∀ f ∈ kind.fields, s f = s' f) : ofSettings kind s = ofSettings kind s' := by
  cases kind <;> simp only [BlockKind.fields, List.mem_cons, List.not_mem_nil, or_false,
    forall_eq_or_imp, forall_eq, false_implies, implies_true] at h <;> simp [ofSettings, h]

/-! ## Reading gives the normal form -/

/-- A field that is not there is not set. -/
theorem readField_none (f : Field) : readField f none = .ok none := by
  cases f <;> rfl

/-- Options are set where they are a mapping, and blank ones are none. -/
theorem readField_options (v : Value) : readField .options (some v) =
    match Fitting.unsetBlank v with
    | .mapping entries => .ok (some (.table (optionTable entries)))
    | _ => .error .notMapping := by
  unfold readField
  rw [Option.map_some]
  cases Fitting.unsetBlank v <;> rfl

/-- A number of seconds is whole and positive. -/
theorem readField_maxSeconds (v : Value) : readField .maxSeconds (some v) =
    match Fitting.optionalWhole (Fitting.unsetBlank v) with
    | .ok (some n) => if 0 < n then .ok (some (.number n)) else .error .notPositive
    | .ok none => .ok none
    | .error e => .error e := by
  unfold readField
  rw [Option.map_some]
  cases Fitting.unsetBlank v <;> rfl

/-- A field that is neither the options nor a length of time is read as a text. -/
theorem readField_text {f : Field} (hoptions : f ≠ .options) (hseconds : f ≠ .maxSeconds)
    (v : Value) :
    readField f (some v) = (Fitting.optionalText (Fitting.unsetBlank v)).map (·.map .text) := by
  unfold readField
  rw [Option.map_some]
  cases f <;> first | exact absurd rfl hoptions | exact absurd rfl hseconds | skip
  all_goals cases Fitting.unsetBlank v <;> rfl

/-- A text that is read after blank texts are dropped is not blank. -/
theorem blank_of_optionalText {v : Value} {t : String}
    (h : Fitting.optionalText (Fitting.unsetBlank v) = .ok (some t)) : Text.blank t = false := by
  unfold Fitting.unsetBlank at h
  split at h
  · split at h
    · cases h
    · rename_i hblank
      cases h
      simpa using hblank
  · rename_i hv
    unfold Fitting.optionalText at h
    split at h
    · cases h
    · exact absurd rfl (hv _)
    · cases h

/-- The setting that is read from the value of a field fits the field. -/
theorem fits_of_readField {f : Field} {given : Option Value} {s : Setting}
    (h : readField f given = .ok (some s)) : s.Fits f := by
  cases given with
  | none =>
    rw [readField_none] at h
    cases h
  | some v =>
    by_cases hoptions : f = .options
    · subst hoptions
      rw [readField_options] at h
      split at h
      · cases h
        exact ⟨rfl, TextTable.nodup_keys_ofPairs _⟩
      · cases h
    by_cases hseconds : f = .maxSeconds
    · subst hseconds
      rw [readField_maxSeconds] at h
      split at h
      · split at h
        · rename_i hpos
          cases h
          exact ⟨rfl, hpos⟩
        · cases h
      · cases h
      · cases h
    rw [readField_text hoptions hseconds] at h
    obtain ⟨o, htext, ho⟩ := Except.map_eq_ok_iff.mp h
    obtain ⟨t, rfl, rfl⟩ := Option.map_eq_some_iff.mp ho
    exact ⟨hoptions, hseconds, blank_of_optionalText htext⟩

/-- What is read for a field fits it. -/
theorem fits_of_settingOf {entries : Entries} {f : Field} {s : Setting}
    (h : settingOf entries f = some s) : s.Fits f := by
  unfold settingOf readEntry at h
  cases hread : readField f (entries.find? (.text f.name)) with
  | error e =>
    rw [hread] at h
    cases h
  | ok o =>
    rw [hread] at h
    obtain rfl : o = some s := h
    exact fits_of_readField hread

/-- Entries are read exactly if each field can be read. -/
theorem readNormalized_eq_ok_iff {kind : BlockKind} {entries : Entries} {c : Config} :
    readNormalized kind entries = .ok c ↔
      (∀ f ∈ kind.fields, ∃ o, readEntry entries f = .ok o) ∧
        ofSettings kind (settingOf entries) = c := by
  have hissue : ∀ f, issueOf entries f = none ↔ ∃ o, readEntry entries f = .ok o := by
    intro f
    unfold issueOf
    cases readEntry entries f <;> simp
  have hissues : kind.fields.filterMap (issueOf entries) = [] ↔
      ∀ f ∈ kind.fields, ∃ o, readEntry entries f = .ok o := by
    simp only [List.filterMap_eq_nil_iff, hissue]
  rw [← hissues]
  unfold readNormalized
  split
  · rename_i hnone
    simp [hnone]
  · rename_i hsome
    simp only [reduceCtorEq, false_iff, not_and]
    exact fun hnone => absurd hnone hsome

/-- A configuration that is read is of the kind that is asked for and in normal form. -/
theorem normal_of_readNormalized {kind : BlockKind} {entries : Entries} {c : Config}
    (h : readNormalized kind entries = .ok c) : c.kind = kind ∧ c.Normal := by
  obtain ⟨-, rfl⟩ := readNormalized_eq_ok_iff.mp h
  refine ⟨kind_ofSettings _ _, fun f s hs => ?_⟩
  rw [get?_ofSettings] at hs
  split at hs
  · exact Setting.fits_of_held (fun _ => fits_of_settingOf) hs
  · cases hs

/-! ## The normal form is read back -/

/-- A setting that fits its field is read back from its value. -/
theorem readField_toValue {f : Field} {s : Setting} (h : s.Fits f) :
    readField f (some s.toValue) = .ok (some s) := by
  cases s with
  | text t =>
    obtain ⟨hoptions, hseconds, hblank⟩ := h
    have hset : Fitting.unsetBlank (.text t) = .text t := by simp [Fitting.unsetBlank, hblank]
    rw [readField_text hoptions hseconds, Setting.toValue, hset]
    rfl
  | table t =>
    obtain ⟨rfl, hkeys⟩ := h
    have htable : optionTable (t.map fun e => (.text e.1, .text e.2)) = t := by
      unfold optionTable
      rw [List.map_map]
      refine Eq.trans ?_ (TextTable.ofPairs_of_nodup_keys hkeys)
      congr 1
      exact List.map_id _
    exact congrArg (fun t => Except.ok (some (Setting.table t))) htable
  | number n =>
    obtain ⟨rfl, hpos⟩ := h
    exact if_pos hpos

section

variable {name : Field → String} (hname : ∀ f g, name f = name g → f = g)

include hname

/-- Among the entries that some fields are written to, the entries of these fields are found. -/
theorem find?_written (held : Field → Option Setting) (f : Field) :
    ∀ fields : List Field,
      Entries.find? (fields.filterMap fun f => (held f).map fun s => (.text (name f), s.toValue))
        (.text (name f)) = if f ∈ fields then (held f).map Setting.toValue else none
  | [] => rfl
  | g :: rest => by
    have ih := find?_written held f rest
    by_cases hfg : g = f
    · subst hfg
      rw [if_pos List.mem_cons_self]
      cases hheld : held g with
      | none =>
        rw [List.filterMap_cons_none (by rw [hheld]; rfl), ih, hheld, Option.map_none, ite_self]
      | some s =>
        rw [List.filterMap_cons_some (by rw [hheld]; rfl), Entries.find?_cons_text, if_pos rfl]
        rfl
    · have hmem : f ∈ g :: rest ↔ f ∈ rest := by simp [Ne.symm hfg]
      simp only [hmem]
      rw [← ih]
      cases hheld : held g with
      | none => rw [List.filterMap_cons_none (by rw [hheld]; rfl)]
      | some s =>
        rw [List.filterMap_cons_some (by rw [hheld]; rfl), Entries.find?_cons_text, if_neg]
        exact fun heq => hfg (hname g f heq)

/-- Different fields are written under different keys. -/
theorem distinct_written (held : Field → Option Setting) {fields : List Field}
    (h : fields.Nodup) : Association.Distinct Scalar.same
      (fields.filterMap fun f => (held f).map fun s => (.text (name f), s.toValue)) := by
  unfold Association.Distinct
  rw [List.pairwise_filterMap]
  refine h.imp fun {f g} hne => ?_
  intro a ha b hb
  obtain ⟨s, -, rfl⟩ := Option.map_eq_some_iff.mp ha
  obtain ⟨t, -, rfl⟩ := Option.map_eq_some_iff.mp hb
  exact decide_eq_false fun heq => hne (hname f g heq)

end

/-- A kind has each field once. -/
theorem nodup_fields (kind : BlockKind) : kind.fields.Nodup := by
  cases kind <;> decide

/-- The name of a field in documents is taken for the name of the field. -/
theorem fieldKey_documentName {kind : BlockKind} {f : Field} (h : f ∈ kind.fields) :
    fieldKey kind (.text f.documentName) = .text f.name := by
  revert h
  cases kind <;> cases f <;> decide

/-- The name of a field is taken for itself. -/
theorem fieldKey_name {kind : BlockKind} {f : Field} (h : f ∈ kind.fields) :
    fieldKey kind (.text f.name) = .text f.name := by
  revert h
  cases kind <;> cases f <;> decide

/-- Entries under names that are taken for those of the fields become entries under the names of the
fields. -/
theorem normalizeKeys_entriesBy {c : Config} {name : Field → String}
    (hname : ∀ f ∈ c.kind.fields, fieldKey c.kind (.text (name f)) = .text f.name) :
    normalizeKeys c.kind (c.entriesBy name) = c.entriesBy Field.name := by
  have hkeys : (c.entriesBy name).map (fun e => (fieldKey c.kind e.1, e.2)) =
      c.entriesBy Field.name := by
    unfold entriesBy
    rw [List.map_filterMap]
    refine List.filterMap_congr fun f hf => ?_
    rw [Option.map_map]
    congr 1
    funext s
    exact Prod.ext (hname f hf) rfl
  unfold normalizeKeys Entries.ofPairs
  rw [hkeys]
  exact Association.ofPairs_of_distinct
    (distinct_written (fun _ _ => Field.name_injective) c.get? (nodup_fields c.kind))

/-- In a document, the fields of a configuration stand under different keys. -/
theorem distinct_toEntries (c : Config) : Association.Distinct Scalar.same c.toEntries :=
  distinct_written (fun _ _ => Field.documentName_injective) c.get? (nodup_fields c.kind)

/-- Each entry in a document is that of a field which is set. -/
theorem exists_setting_of_mem_toEntries {c : Config} {e : Scalar × Value} (h : e ∈ c.toEntries) :
    ∃ f ∈ c.kind.fields, ∃ s, c.get? f = some s ∧ e = (.text f.documentName, s.toValue) := by
  obtain ⟨f, hf, he⟩ := List.mem_filterMap.mp h
  obtain ⟨s, hs, rfl⟩ := Option.map_eq_some_iff.mp he
  exact ⟨f, hf, s, hs, rfl⟩

/-- A field of a configuration in normal form is read back from entries under field names. -/
theorem readEntry_entriesBy {c : Config} (h : c.Normal) {f : Field} (hf : f ∈ c.kind.fields) :
    readEntry (c.entriesBy Field.name) f = .ok (c.get? f) := by
  unfold readEntry entriesBy
  rw [find?_written (fun _ _ => Field.name_injective), if_pos hf]
  cases hget : c.get? f with
  | none => exact readField_none f
  | some s => exact readField_toValue (h f s hget)

/-- A configuration in normal form is read back from entries under the names of its fields. -/
theorem readNormalized_entriesBy {c : Config} (h : c.Normal) :
    readNormalized c.kind (c.entriesBy Field.name) = .ok c := by
  have hsettings : ∀ f ∈ c.kind.fields, settingOf (c.entriesBy Field.name) f = c.get? f := by
    intro f hf
    unfold settingOf
    rw [readEntry_entriesBy h hf]
    rfl
  exact readNormalized_eq_ok_iff.mpr ⟨fun f hf => ⟨_, readEntry_entriesBy h hf⟩,
    (ofSettings_congr hsettings).trans (ofSettings_get? c)⟩

/-- A configuration in normal form is read back from entries under names that are taken for those of
its fields. -/
theorem read_entriesBy {c : Config} (h : c.Normal) {name : Field → String}
    (hname : ∀ f ∈ c.kind.fields, fieldKey c.kind (.text (name f)) = .text f.name) :
    read c.kind (c.entriesBy name) = .ok c := by
  unfold read
  rw [normalizeKeys_entriesBy hname]
  exact readNormalized_entriesBy h

/-- A configuration in normal form is read back from the entries that it is written to. -/
theorem read_toEntries {c : Config} (h : c.Normal) : read c.kind c.toEntries = .ok c :=
  read_entriesBy h fun _ hf => fieldKey_documentName hf

end Config

/-! ## Blocks -/

namespace Block

/-- A configuration in normal form, or entries under texts for a kind whose name is not that of a
known kind. -/
def Normal : Block → Prop
  | known c => c.Normal
  | unknown declared entries =>
    declared ≠ "" ∧ BlockKind.ofName? declared = none ∧ keyIssues entries = []

/-- The entries of an unknown block are kept as they are, if their keys are texts. -/
theorem readOpaque_eq_ok_iff {entries entries' : Entries} :
    readOpaque entries = .ok entries' ↔ keyIssues entries = [] ∧ entries = entries' := by
  unfold readOpaque
  split
  · rename_i hkeys
    simp [hkeys]
  · rename_i hkeys
    simp only [reduceCtorEq, false_iff, not_and]
    exact fun h => absurd h hkeys

/-- A block of a known kind is built from the entries that its configuration is read from. -/
theorem readNamed?_of_read {kind : BlockKind} {entries : Entries} {c : Config}
    (h : Config.read kind entries = .ok c) :
    readNamed? kind.name (.mapping entries) = some (.ok (known c)) := by
  simp only [readNamed?, BlockKind.ofName?_name, readKnown, Option.some.injEq,
    Except.map_eq_ok_iff, Except.mapError_eq_ok_iff]
  exact ⟨c, h, rfl⟩

/-- A block of an unknown kind is built from any entries under texts, and keeps them. -/
theorem readNamed?_unknownName {entries : Entries} (h : keyIssues entries = []) :
    readNamed? unknownName (.mapping entries) = some (.ok (unknown unknownName entries)) := by
  have hunknown : BlockKind.ofName? unknownName = none := by decide
  have hopaque : readOpaque entries = .ok entries := readOpaque_eq_ok_iff.mpr ⟨h, rfl⟩
  simp only [readNamed?, hunknown, hopaque]
  rfl

/-- A configuration of a known kind that is read is in normal form. -/
theorem normal_of_readKnown {kind : BlockKind} {v : Value} {c : Config}
    (h : readKnown kind v = .ok c) : c.Normal := by
  unfold readKnown at h
  split at h
  · exact (Config.normal_of_readNormalized (Except.mapError_eq_ok_iff.mp h)).2
  · exact (Config.normal_of_readNormalized (Except.mapError_eq_ok_iff.mp h)).2
  · cases h

/-- A block in normal form stays so when its configuration is updated. -/
theorem normal_of_update {b b' : Block} {more : Entries} (hb : b.Normal)
    (h : b.update more = .ok b') : b'.Normal := by
  cases b with
  | known c =>
    obtain ⟨c', hc', rfl⟩ := Except.map_eq_ok_iff.mp h
    exact (Config.normal_of_readNormalized hc').2
  | unknown declared entries =>
    obtain ⟨hdeclared, hunknown, -⟩ := hb
    obtain ⟨entries', hentries, rfl⟩ := Except.map_eq_ok_iff.mp h
    obtain ⟨hkeys, rfl⟩ := readOpaque_eq_ok_iff.mp hentries
    exact ⟨hdeclared, hunknown, hkeys⟩

end Block

end CallFlow
