import CallFlow.Proofs.Reached
import CallFlow.Value.Nested

/-!
# The form of configurations in a flow

However a node got its configuration, by a document, a request or an update, it has the form that
the rules on blocks and the documents of flows count on (`Config.InForm`): each field of its kind
has a value of its type with some content, or none, and no other field has a value. What is written
of it has no gaps, and the same configuration is built from it again, under the names of documents
as well as under the own names of the fields.

* `Config.get?_eq_held`, `Config.hasNoGaps_toEntries`: what is set, and what is written.
* `Config.Normal.inForm`: configurations in normal form have it.
* `Flow.Reached.configs_inForm`: so do all configurations in a flow that can be reached.
-/

namespace CallFlow

/-! ## Gaps -/

namespace Value

/-- The value is there. -/
def isGiven : Value → Bool
  | .null => false
  | _ => true

/-- No value is absent, at any depth. -/
def hasNoGaps (v : Value) : Bool := v.all isGiven

end Value

/-- What is written of a setting has no gaps: tables hold texts. -/
theorem Setting.hasNoGaps_toValue (s : Setting) : s.toValue.hasNoGaps = true := by
  cases s with
  | text t => rfl
  | number n => rfl
  | table t =>
    apply Value.all_mapping_iff.mpr
    refine ⟨rfl, ?_⟩
    intro e he
    obtain ⟨p, -, rfl⟩ := List.mem_map.mp he
    rfl

namespace Config

/-- Fields that are not set are not written. -/
theorem hasNoGaps_toEntries (c : Config) : (Value.mapping c.toEntries).hasNoGaps = true := by
  apply Value.all_mapping_iff.mpr
  refine ⟨rfl, ?_⟩
  intro e he
  obtain ⟨f, -, s, -, rfl⟩ := exists_setting_of_mem_toEntries he
  exact s.hasNoGaps_toValue

/-! ## Fields -/

variable {c : Config} {f : Field}

/-- A field of the kind holds what its type allows, and any other field is unset. -/
theorem get?_eq_held (c : Config) (f : Field) :
    c.get? f = if f ∈ c.kind.fields then f.held (c.get? f) else none := by
  have h := get?_ofSettings c.kind c.get? f
  rwa [ofSettings_get?] at h

/-- The options of a kind that has some are always a table, if only the empty one. -/
theorem exists_get?_options (h : .options ∈ c.kind.fields) :
    ∃ t, c.get? .options = some (.table t) := by
  have hheld := c.get?_eq_held .options
  rw [if_pos h] at hheld
  exact ⟨_, hheld⟩

namespace Normal

variable (hc : c.Normal)

include hc

/-- A text that is set is not blank. -/
theorem get?_text (hoptions : f ≠ .options) (hseconds : f ≠ .maxSeconds) : c.get? f = none ∨
    ∃ s, c.get? f = some (.text s) ∧ ∃ ch ∈ s.toList, Text.isBlank ch = false := by
  cases hget : c.get? f with
  | none => exact .inl rfl
  | some s =>
    have hfits := hc f s hget
    cases s with
    | text t =>
      obtain ⟨-, -, hblank⟩ := hfits
      unfold Text.blank at hblank
      simp only [List.all_eq_false, Bool.not_eq_true] at hblank
      exact .inr ⟨t, rfl, hblank⟩
    | table t => exact absurd hfits.1 hoptions
    | number n => exact absurd hfits.1 hseconds

/-- A length of time that is set is positive. -/
theorem get?_maxSeconds : c.get? .maxSeconds = none ∨
    ∃ n, c.get? .maxSeconds = some (.number n) ∧ 1 ≤ n := by
  cases hget : c.get? .maxSeconds with
  | none => exact .inl rfl
  | some s =>
    have hfits := hc .maxSeconds s hget
    cases s with
    | text t => exact absurd rfl hfits.2.1
    | table t => cases hfits.1
    | number n => exact .inr ⟨n, rfl, hfits.2⟩

/-- The options of a kind that has some are a table with one label for each key. -/
theorem get?_options (h : .options ∈ c.kind.fields) :
    ∃ t, c.get? .options = some (.table t) ∧ t.keys.Nodup := by
  obtain ⟨t, ht⟩ := exists_get?_options h
  exact ⟨t, ht, (hc .options _ ht).2⟩

end Normal

/-! ## The form -/

/-- The form of a configuration: which fields are set, to what, and what it is written as. -/
structure InForm (c : Config) : Prop where
  /-- Only fields of the kind are set. -/
  fields : ∀ f s, c.get? f = some s → f ∈ c.kind.fields
  /-- A text has some character that is not blank. -/
  texts : ∀ f ∈ c.kind.fields, f ≠ .options → f ≠ .maxSeconds → c.get? f = none ∨
    ∃ s, c.get? f = some (.text s) ∧ ∃ ch ∈ s.toList, Text.isBlank ch = false
  /-- A length of time is at least one second. -/
  seconds : .maxSeconds ∈ c.kind.fields → c.get? .maxSeconds = none ∨
    ∃ n, c.get? .maxSeconds = some (.number n) ∧ 1 ≤ n
  /-- Options are a table of texts by texts. -/
  options : .options ∈ c.kind.fields →
    ∃ t, c.get? .options = some (.table t) ∧ t.keys.Nodup
  /-- What stands in a document has no gaps. -/
  noGaps : (Value.mapping c.toEntries).hasNoGaps = true
  /-- The configuration is built again from what stands in a document. -/
  rebuilt : Block.readNamed? c.kind.name (.mapping c.toEntries) = some (.ok (.known c))
  /-- It is also built from the same entries under the own names of the fields. -/
  rebuiltByName : Block.readNamed? c.kind.name (.mapping (c.entriesBy Field.name)) =
    some (.ok (.known c))

/-- A configuration in normal form has the form. -/
theorem Normal.inForm (hc : c.Normal) : c.InForm where
  fields f s hget := by
    rw [get?_eq_held] at hget
    split at hget
    · assumption
    · cases hget
  texts _ _ hoptions hseconds := hc.get?_text hoptions hseconds
  seconds _ := hc.get?_maxSeconds
  options h := hc.get?_options h
  noGaps := c.hasNoGaps_toEntries
  rebuilt := Block.readNamed?_of_read (read_toEntries hc)
  rebuiltByName := Block.readNamed?_of_read (read_entriesBy hc fun _ hf => fieldKey_name hf)

end Config

/-! ## Flows -/

/-- The type that stands in a document for a block names the kind of its configuration. -/
theorem Block.Normal.ofName?_documentType {b : Block} (h : b.Normal) :
    BlockKind.ofName? b.documentType = b.kind? := by
  cases b with
  | known c => exact BlockKind.ofName?_name c.kind
  | unknown declared entries => exact h.2.1

/-- **Configurations keep their form.** In every flow that can be reached, each node has a
configuration of the kind that its type names, or entries kept as they are if it names none. A
configuration of a known kind has the form above, so that it is built again from what is written of
it; and the entries of an unknown kind are built again too. -/
theorem Flow.Reached.configs_inForm {f : Flow} (h : f.Reached) {n : Node} (hn : n ∈ f.nodes) :
    BlockKind.ofName? n.block.documentType = n.block.kind? ∧
    (∀ c, n.block = .known c → c.InForm) ∧
    ∀ declared entries, n.block = .unknown declared entries →
      Block.readNamed? n.block.typeName (.mapping n.block.toEntries) =
        some (.ok (.unknown unknownName entries)) := by
  have hblock := (h.normal.nodes n hn).block
  refine ⟨hblock.ofName?_documentType, ?_, ?_⟩
  · intro c hc
    rw [hc] at hblock
    exact Config.Normal.inForm hblock
  · intro declared entries hunknown
    rw [hunknown] at hblock ⊢
    exact Block.readNamed?_unknownName hblock.2.2

/-- A recording whose length is given as a text, under the own name of the field, and whose summary
is blank. The blank summary is given once more in an update. -/
def recorder : Flow :=
  .ofEdits [.addNode ⟨.text "record", .mapping [(.text "max_seconds", .text " 1_0.0 "),
      (.text "summary", .text " ")], none, .null, some "r", "r"⟩,
    .updateConfig "r" (.mapping [(.text "summary", .text "\t")])]

/-- The configuration of that recording. -/
def tenSeconds : Config := .record ⟨none, some 10⟩

/-- A recorder that was given a number of seconds. -/
theorem configs_inForm_recorder : recorder.Reached ∧
    (∃ n ∈ recorder.nodes, n.block = .known tenSeconds) ∧ tenSeconds.InForm ∧
    tenSeconds.toEntries = [(.text "maxSeconds", .int 10)] := by
  have hreached : recorder.Reached := Flow.Reached.run .empty (by simp) (by simp)
  obtain ⟨n, hnodes⟩ : ∃ n, recorder.nodes = [n] := ⟨_, rfl⟩
  have hn : n ∈ recorder.nodes := by simp [hnodes]
  have hblock : n.block = .known tenSeconds := by
    obtain rfl := (List.singleton_inj.mp hnodes).symm
    rfl
  exact ⟨hreached, ⟨n, hn, hblock⟩, (hreached.configs_inForm hn).2.1 _ hblock, rfl⟩

end CallFlow
