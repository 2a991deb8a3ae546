import CallFlow.Proofs.DocumentText
import CallFlow.Proofs.StoreFiles

/-!
# A store as a map

A store that starts empty behaves as a map from names to revisions and flows (`Shelf`):
`Shelf.Answers` says what the map answers to a call and which map it leaves. Each call of a store
that shows a map is answered as the map answers it, and the store shows the map that is left
(`Store.Shows.perform`), so whole sequences of calls are answered as from the empty map
(`Store.runs_as_shelf`).

The names are those that are allowed, and the flows those that were read from documents and can be
written and compared: their keys are texts, their numbers are short enough and none is `nan`
(`Flow.Storable`). Only a revision that is too long itself is then refused, and it takes as many
calls to get there as there are numbers that can be written (`Shelf.Runs.not_mem_tooLong`).
-/

namespace CallFlow

/-! ## Order of names -/

namespace Text

/-- Of two different texts one comes before the other. -/
theorem lt_of_not_lt_of_ne {s t : String} (h : ¬ t < s) (hne : s ≠ t) : s < t := by
  by_contra hlt
  exact hne (String.le_antisymm (String.not_lt.mp h) (String.not_lt.mp hlt))

/-- A text that is put among sorted ones in its place keeps them sorted, if it is a new one. -/
theorem pairwise_insertSorted {s : String} : ∀ {texts : List String}, texts.Pairwise (· < ·) →
    s ∉ texts → (insertSorted s texts).Pairwise (· < ·)
  | [], _, _ => List.pairwise_singleton _ _
  | t :: rest, h, hnew => by
    obtain ⟨ht, hrest⟩ := List.pairwise_cons.mp h
    rw [insertSorted]
    split
    · rename_i hlt
      have hinsert := pairwise_insertSorted hrest fun hmem => hnew (List.mem_cons_of_mem _ hmem)
      refine List.pairwise_cons.mpr ⟨fun u hu => ?_, hinsert⟩
      rcases List.mem_cons.mp ((insertSorted_perm s rest).mem_iff.mp hu) with rfl | hu
      · exact hlt
      · exact ht u hu
    · rename_i hge
      have hlt : s < t := lt_of_not_lt_of_ne hge fun heq => hnew (heq ▸ List.mem_cons_self)
      refine List.pairwise_cons.mpr ⟨fun u hu => ?_, h⟩
      rcases List.mem_cons.mp hu with rfl | hu
      · exact hlt
      · exact String.lt_trans hlt (ht u hu)

/-- Different texts are in strict order when they are sorted. -/
theorem pairwise_sorted : ∀ {texts : List String}, texts.Nodup → (sorted texts).Pairwise (· < ·)
  | [], _ => List.Pairwise.nil
  | s :: rest, h => by
    obtain ⟨hnew, hrest⟩ := List.nodup_cons.mp h
    exact pairwise_insertSorted (pairwise_sorted hrest) fun hmem =>
      hnew ((sorted_perm rest).mem_iff.mp hmem)

end Text

/-! ## The map -/

/-- A map from names to flows, each with the number of its revision. -/
abbrev Shelf := String → Option (Int × Flow)

namespace Shelf

/-- The map without flows. -/
def empty : Shelf := fun _ => none

/-- The map with another entry, or none, under a name. -/
def set (m : Shelf) (name : String) (entry : Option (Int × Flow)) : Shelf :=
  fun other => if other = name then entry else m other

/-- The revision under a name. -/
def revision? (m : Shelf) (name : String) : Option Scalar := (m name).map fun e => .int e.1

/-- Whether the current revision is the one that is expected; the absent value expects none. -/
def agrees (m : Shelf) (name : String) (expected : Value) : Bool :=
  (Value.scalar ((m.revision? name).getD .null)).same expected

/-- The revision that a flow is saved under: 1, or the one after the current one. -/
def next (m : Shelf) (name : String) : Int := ((m name).map fun e => e.1 + 1).getD 1

/-- What a map answers to a call, and the map that the call leaves. -/
inductive Answers (m : Shelf) : StoreCall → Except StoreFault StoreAnswer → Shelf → Prop where
  | revision (name : String) : Answers m (.revision name) (.ok (.revision (m.revision? name))) m
  /-- The flow that was saved last is loaded, and it is equal to the one that was saved. -/
  | loaded {name : String} {revision : Int} {f : Flow} (h : m name = some (revision, f))
      (hsame : f.same f = true) : Answers m (.load name) (.ok (.loaded f (.int revision))) m
  | missing {name : String} (h : m name = none) :
      Answers m (.load name) (.error (.missing name)) m
  | saved {name : String} {f : Flow} {expected : Value} (h : m.agrees name expected = true)
      (hshort : Text.isTooLong (m.next name) = false) :
      Answers m (.save name f expected) (.ok (.saved (m.next name)))
        (m.set name (some (m.next name, f)))
  | stale {name : String} {f : Flow} {expected : Value} (h : m.agrees name expected = false) :
      Answers m (.save name f expected) (.error (.stale name expected (m.revision? name))) m
  /-- The next revision has too many digits to be written. -/
  | tooLong {name path : String} {f : Flow} {expected : Value} (h : m.agrees name expected = true)
      (hlong : Text.isTooLong (m.next name) = true) :
      Answers m (.save name f expected) (.error (.numberTooLong path)) m
  | deleted {name : String} {entry : Int × Flow} {expected : Value} (hentry : m name = some entry)
      (h : expected = .null ∨ m.agrees name expected = true) :
      Answers m (.delete name expected) (.ok .deleted) (m.set name none)
  | absent {name : String} {expected : Value} (h : m name = none) :
      Answers m (.delete name expected) (.ok .deleted) m
  | kept {name : String} {entry : Int × Flow} {expected : Value} (hentry : m name = some entry)
      (hgiven : expected ≠ .null) (h : m.agrees name expected = false) :
      Answers m (.delete name expected) (.error (.stale name expected (m.revision? name))) m
  | listed {names : List String} (hsorted : names.Pairwise (· < ·))
      (hnames : ∀ name, name ∈ names ↔ (m name).isSome) : Answers m .list (.ok (.names names)) m

/-- What a map answers to calls, made one after the other, and the map that they leave. -/
inductive Runs : Shelf → List StoreCall → List (Except StoreFault StoreAnswer) → Shelf → Prop where
  | nil (m : Shelf) : Runs m [] [] m
  | cons {m m' m'' : Shelf} {call : StoreCall} {answer : Except StoreFault StoreAnswer}
      {calls : List StoreCall} {answers : List (Except StoreFault StoreAnswer)}
      (h : Answers m call answer m') (hrest : Runs m' calls answers m'') :
      Runs m (call :: calls) (answer :: answers) m''

/-- What is set is there. -/
theorem set_self (m : Shelf) (name : String) (entry : Option (Int × Flow)) :
    m.set name entry name = entry := if_pos rfl

/-- Nothing else changes. -/
theorem set_of_ne (m : Shelf) {name other : String} (entry : Option (Int × Flow))
    (h : other ≠ name) : m.set name entry other = m other := if_neg h

/-- A call that fails changes nothing. -/
theorem Answers.eq_of_error {m m' : Shelf} {call : StoreCall} {fault : StoreFault}
    (h : Answers m call (.error fault) m') : m' = m := by
  cases h <;> rfl

/-! ### Revisions count calls -/

/-- All revisions of a map are natural numbers up to a bound. -/
def UpTo (m : Shelf) (k : Nat) : Prop := ∀ name entry, m name = some entry → 0 ≤ entry.1 ∧ entry.1 ≤ k

section

variable {m m' : Shelf} {k : Nat} {call : StoreCall} {answer : Except StoreFault StoreAnswer}

/-- A bound on the revisions may be raised. -/
theorem UpTo.mono (h : m.UpTo k) : m.UpTo (k + 1) := by
  intro name entry hentry
  have hbounds := h name entry hentry
  omega

/-- An entry within the bound may be set. -/
theorem UpTo.set (h : m.UpTo k) {name : String} {entry : Option (Int × Flow)}
    (hentry : ∀ e, entry = some e → 0 ≤ e.1 ∧ e.1 ≤ k) : (m.set name entry).UpTo k := by
  intro other e he
  by_cases hname : other = name
  · rw [hname, set_self] at he
    exact hentry e he
  · rw [set_of_ne _ _ hname] at he
    exact h other e he

/-- The next revision is at most one above the bound. -/
theorem UpTo.next (h : m.UpTo k) (name : String) : 0 ≤ m.next name ∧ m.next name ≤ k + 1 := by
  unfold Shelf.next
  cases hentry : m name with
  | none => simp
  | some entry =>
    have hbounds := h name entry hentry
    simp only [Option.map_some, Option.getD_some]
    omega

/-- A call raises the bound of the revisions by one at most. -/
theorem Answers.upTo (h : Answers m call answer m') (hk : m.UpTo k) : m'.UpTo (k + 1) := by
  cases h with
  | saved =>
    refine hk.mono.set fun e he => ?_
    obtain rfl := Option.some.inj he
    exact_mod_cast hk.next _
  | deleted => exact hk.mono.set fun e he => by cases he
  | _ => exact hk.mono

/-- As long as the revisions are small, no save is refused for the length of its revision. -/
theorem Answers.ne_tooLong (h : Answers m call answer m') (hk : m.UpTo k)
    (hsmall : k + 1 < 10 ^ Text.digitLimit) (path : String) :
    answer ≠ .error (.numberTooLong path) := by
  rintro rfl
  cases h with
  | @tooLong name _ _ _ _ hlong =>
    have hbounds := hk.next name
    have hlarge := (Text.isTooLong_iff _).mp hlong
    omega

/-- It takes as many calls as there are short numbers until a revision is too long. -/
theorem Runs.not_mem_tooLong {calls : List StoreCall}
    {answers : List (Except StoreFault StoreAnswer)} (h : Runs m calls answers m') :
    ∀ {k : Nat}, m.UpTo k → k + calls.length < 10 ^ Text.digitLimit →
      ∀ path, .error (.numberTooLong path) ∉ answers := by
  induction h with
  | nil m => exact fun _ _ _ => List.not_mem_nil
  | cons h _ ih =>
    intro k hk hcalls path hmem
    rw [List.length_cons] at hcalls
    rcases List.mem_cons.mp hmem with heq | hmem
    · exact h.ne_tooLong hk (by omega) path heq.symm
    · exact ih (h.upTo hk) (by omega) path hmem

/-- There are no revisions in the empty map. -/
theorem upTo_empty : empty.UpTo 0 := by
  intro name entry h
  cases h

end

end Shelf

/-- The name that a call is about. -/
def StoreCall.name? : StoreCall → Option String
  | .revision name | .load name | .save name _ _ | .delete name _ => some name
  | .list => none

/-- A call on one name changes nothing under another. -/
theorem Shelf.Answers.eq_of_name_ne {m m' : Shelf} {call : StoreCall}
    {answer : Except StoreFault StoreAnswer} (h : Shelf.Answers m call answer m') {other : String}
    (hother : call.name? ≠ some other) : m' other = m other := by
  cases h with
  | saved => exact set_of_ne _ _ fun heq => hother (congrArg some heq.symm)
  | deleted => exact set_of_ne _ _ fun heq => hother (congrArg some heq.symm)
  | _ => rfl

/-! ## Flows that can be stored -/

/-- A flow that was read from a document whose mappings have distinct keys, with texts for keys,
without `nan` and with numbers that can be written. -/
structure Flow.Storable (f : Flow) : Prop where
  document : ∃ v : Value, v.hasDistinctKeys = true ∧ Document.toFlow v = .ok f
  textKeys : (Document.ofFlow f).hasTextKeys = true
  noNan : (Document.ofFlow f).hasNoNan = true
  short : Json.canWrite (Document.ofFlow f) = true

/-- A flow that can be stored is read back from what is read of its document. -/
theorem Flow.Storable.toFlow_reread {f : Flow} (h : f.Storable) :
    Document.toFlow (Json.reread (Document.ofFlow f)) = .ok f := by
  obtain ⟨v, hv, hf⟩ := h.document
  have hnodes := Document.hasDistinctKeys_toFlow hf hv
  have hdistinct := Document.hasDistinctKeys_ofFlow fun n hn => (hnodes n hn).1
  rw [Json.reread_eq_self h.textKeys hdistinct]
  exact Document.toFlow_ofFlow_of_normal (Document.normal_of_toFlow hf) fun n hn => (hnodes n hn).2

/-- A flow that can be stored is equal to itself. -/
theorem Flow.Storable.same_self {f : Flow} (h : f.Storable) : f.same f = true := by
  obtain ⟨v, hv, hf⟩ := h.document
  exact Flow.same_self (Document.normal_of_toFlow hf)
    (fun n hn => (Document.hasDistinctKeys_toFlow hf hv n hn).1) h.noNan

/-- The flow can be stored. -/
theorem Document.storable_smsFlow : smsFlow.Storable where
  document := ⟨smsDocument, hasDistinctKeys_smsDocument, toFlow_smsDocument⟩
  textKeys := hasTextKeys_smsFlow
  noNan := hasNoNan_smsFlow
  short := canWrite_smsFlow

/-- Calls on names that are allowed, with flows that can be stored. -/
def StoreCall.Valid : StoreCall → Prop
  | .revision name | .load name | .delete name _ => Store.isName name = true
  | .save name f _ => Store.isName name = true ∧ f.Storable
  | .list => True

namespace Store

/-- The envelope of a flow that can be stored can be written if its revision is short enough. -/
theorem canWrite_ofEnvelope {revision : Int} {f : Flow} (h : f.Storable) :
    Json.canWrite (ofEnvelope revision f) = !Text.isTooLong revision := by
  rw [Bool.eq_iff_iff]
  unfold ofEnvelope
  rw [Json.canWrite_mapping]
  simp [Json.canWrite_scalar, Json.isShort, h.short]

/-! ## The map that a store shows -/

/-- A store shows a map if its files are the envelopes of the entries of the map. -/
structure Shows (s : Store) (m : Shelf) : Prop where
  nodup : s.files.keys.Nodup
  files : ∀ file text, s.files.find? file = some text ↔
    ∃ name entry, m name = some entry ∧ file = fileOf name ∧ text = envelopeText entry.1 entry.2
  entries : ∀ name entry, m name = some entry →
    isName name = true ∧ entry.2.Storable ∧ Text.isTooLong entry.1 = false

section

variable {s : Store} {m : Shelf} {name : String}

/-- The store keeps what the map has. -/
theorem Shows.keeps (h : s.Shows m) {entry : Int × Flow} (hentry : m name = some entry) :
    s.Keeps name entry.1 entry.2 := by
  obtain ⟨hname, hstorable, hshort⟩ := h.entries name entry hentry
  refine ⟨hname, ?_, (h.files _ _).mpr ⟨name, entry, hentry, rfl, rfl⟩⟩
  rw [canWrite_ofEnvelope hstorable, hshort]
  rfl

/-- What the map does not have has no file. -/
theorem Shows.find?_of_none (h : s.Shows m) (hnone : m name = none) :
    s.files.find? (fileOf name) = none := by
  cases hfile : s.files.find? (fileOf name) with
  | none => rfl
  | some text =>
    obtain ⟨other, entry, hentry, hname, -⟩ := (h.files _ _).mp hfile
    rw [← fileOf_injective hname, hnone] at hentry
    cases hentry

/-- The revision of a flow is the one under its name. -/
theorem Shows.revision? (h : s.Shows m) (hname : isName name = true) :
    s.revision? name = .ok (m.revision? name) := by
  unfold Shelf.revision?
  cases hentry : m name with
  | none => exact revision?_of_missing hname (h.find?_of_none hentry)
  | some entry => exact (h.keeps hentry).revision?

/-- The revision that comes next is the one that the map says. -/
theorem nextRevision_revision? (m : Shelf) (name : String) :
    nextRevision (m.revision? name) = m.next name := by
  unfold nextRevision Shelf.revision? Shelf.next
  cases m name <;> rfl

/-- Only flows have files. -/
theorem Shows.find?_draft (h : s.Shows m) (name : String) :
    s.files.find? (draftOf name) = none := by
  cases hfile : s.files.find? (draftOf name) with
  | none => rfl
  | some text =>
    obtain ⟨other, -, -, hdraft, -⟩ := (h.files _ _).mp hfile
    exact absurd hdraft (draftOf_ne_fileOf name other)

/-- A store whose files are those of another one, but for the file of one flow, shows the map of the
other with another entry for that flow. -/
theorem Shows.of_files {s' : Store} {entry : Option (Int × Flow)} (h : s.Shows m)
    (hnodup : s'.files.keys.Nodup)
    (hself : s'.files.find? (fileOf name) = entry.map fun e => envelopeText e.1 e.2)
    (hother : ∀ file, file ≠ fileOf name → s'.files.find? file = s.files.find? file)
    (hentry : ∀ e, entry = some e →
      isName name = true ∧ e.2.Storable ∧ Text.isTooLong e.1 = false) :
    s'.Shows (m.set name entry) := by
  refine ⟨hnodup, fun file text => ?_, fun other e he => ?_⟩
  · by_cases hfile : file = fileOf name
    · rw [hfile, hself, Option.map_eq_some_iff]
      constructor
      · rintro ⟨e, he, htext⟩
        exact ⟨name, e, (m.set_self name entry).trans he, rfl, htext.symm⟩
      · rintro ⟨other, e, he, hname, htext⟩
        obtain rfl := fileOf_injective hname
        exact ⟨e, (m.set_self name entry).symm.trans he, htext.symm⟩
    · rw [hother file hfile, h.files]
      constructor
      all_goals
        rintro ⟨other, e, he, rfl, htext⟩
        have hne : other ≠ name := fun heq => hfile (congrArg fileOf heq)
      · exact ⟨other, e, (m.set_of_ne entry hne).trans he, rfl, htext⟩
      · exact ⟨other, e, (m.set_of_ne entry hne).symm.trans he, rfl, htext⟩
  · by_cases hname : other = name
    · rw [hname, Shelf.set_self] at he
      exact hname ▸ hentry e he
    · rw [Shelf.set_of_ne _ _ hname] at he
      exact h.entries other e he

/-- After a flow was saved, the store shows the map with the flow under its name. -/
theorem Shows.placed (h : s.Shows m) (hname : isName name = true) {revision : Int} {f : Flow}
    (hstorable : f.Storable) (hshort : Text.isTooLong revision = false) :
    (s.placed name (envelopeText revision f)).Shows (m.set name (some (revision, f))) := by
  refine h.of_files (nodup_keys_placed h.nodup _ _) (find?_placed_self s name _)
    (fun file hfile => ?_) ?_
  · by_cases hdraft : file = draftOf name
    · rw [hdraft, find?_placed_draft, h.find?_draft]
    · exact find?_placed_of_ne s name _ hfile hdraft
  · intro e he
    obtain rfl := Option.some.inj he
    exact ⟨hname, hstorable, hshort⟩

/-- After a flow was deleted, the store shows the map without it. -/
theorem Shows.without (h : s.Shows m) (name : String) :
    (s.without name).Shows (m.set name none) :=
  h.of_files (nodup_keys_removeFile h.nodup _) (find?_without_self s name)
    (fun _ hfile => find?_without_of_ne s hfile) fun e he => by cases he

/-- The names of the flows are the names that have an entry, in order. -/
theorem Shows.list (h : s.Shows m) :
    s.list.Pairwise (· < ·) ∧ ∀ name, name ∈ s.list ↔ (m name).isSome := by
  have hfile : ∀ {file}, file ∈ s.files.keys →
      ∃ name entry, m name = some entry ∧ file = fileOf name := by
    intro file hmem
    obtain ⟨text, htext⟩ := mem_keys_iff.mp hmem
    obtain ⟨name, entry, hentry, heq, -⟩ := (h.files _ _).mp htext
    exact ⟨name, entry, hentry, heq⟩
  have hstem : ∀ {name entry}, m name = some entry → FileName.stem (fileOf name) = name :=
    fun hentry => stem_fileOf (ne_empty_of_isName (h.entries _ _ hentry).1)
  constructor
  · refine Text.pairwise_sorted (List.Nodup.map_on ?_ (h.nodup.filter _))
    intro a ha b hb heq
    obtain ⟨name, entry, hentry, rfl⟩ := hfile (List.mem_filter.mp ha).1
    obtain ⟨name', entry', hentry', rfl⟩ := hfile (List.mem_filter.mp hb).1
    rw [hstem hentry, hstem hentry'] at heq
    rw [heq]
  · intro name
    unfold Store.list
    rw [(Text.sorted_perm _).mem_iff, List.mem_map]
    constructor
    · rintro ⟨file, hmem, rfl⟩
      obtain ⟨name, entry, hentry, rfl⟩ := hfile (List.mem_filter.mp hmem).1
      rw [hstem hentry, hentry]
      rfl
    · intro hsome
      obtain ⟨entry, hentry⟩ := Option.isSome_iff_exists.mp hsome
      exact ⟨fileOf name, List.mem_filter.mpr
        ⟨mem_keys_iff.mpr ⟨_, (h.keeps hentry).file⟩, isFlowFile_fileOf name⟩, hstem hentry⟩

/-- A flow is saved as the map saves it. -/
theorem Shows.save {f : Flow} {expected : Value} (h : s.Shows m) (hname : isName name = true)
    (hstorable : f.Storable) : ∃ m', m.Answers (.save name f expected)
      (s.perform (.save name f expected)).2 m' ∧
        (s.perform (.save name f expected)).1.Shows m' := by
  have hsave := save_of_revision (h.revision? hname) f expected
  have hagrees : isExpected (m.revision? name) expected = m.agrees name expected := rfl
  rw [nextRevision_revision?, canWrite_ofEnvelope hstorable, hagrees] at hsave
  cases hexpected : m.agrees name expected with
  | false =>
    rw [hexpected, if_neg Bool.false_ne_true] at hsave
    rw [perform_save_of_error hsave]
    exact ⟨m, .stale hexpected, h⟩
  | true =>
    rw [hexpected, if_pos rfl] at hsave
    cases hlong : Text.isTooLong (m.next name) with
    | false =>
      rw [hlong] at hsave
      rw [perform_save_of_ok hsave]
      exact ⟨_, .saved hexpected hlong, h.placed hname hstorable hlong⟩
    | true =>
      rw [hlong] at hsave
      rw [perform_save_of_error hsave]
      exact ⟨m, .tooLong hexpected hlong, h⟩

/-- A flow is deleted as the map deletes it. -/
theorem Shows.delete {expected : Value} (h : s.Shows m) (hname : isName name = true) :
    ∃ m', m.Answers (.delete name expected) (s.perform (.delete name expected)).2 m' ∧
      (s.perform (.delete name expected)).1.Shows m' := by
  cases hentry : m name with
  | none =>
    have hrevision := revision?_of_missing hname (h.find?_of_none hentry)
    rw [perform_delete_of_ok (delete_of_missing hrevision expected)]
    exact ⟨m, .absent hentry, h⟩
  | some entry =>
    have hdelete := delete_of_revision (h.keeps hentry).revision? expected
    have hrevision : m.revision? name = some (.int entry.1) := by
      unfold Shelf.revision?
      rw [hentry]
      rfl
    have hagrees : isExpected (some (.int entry.1)) expected = m.agrees name expected := by
      unfold Shelf.agrees
      rw [hrevision]
      rfl
    by_cases hmay : mayDelete (.int entry.1) expected = true
    · rw [if_pos hmay] at hdelete
      rw [perform_delete_of_ok hdelete]
      exact ⟨_, .deleted hentry (hagrees ▸ mayDelete_iff.mp hmay), h.without name⟩
    · rw [if_neg hmay] at hdelete
      rw [perform_delete_of_error hdelete, ← hrevision]
      rw [mayDelete_iff, not_or, Bool.not_eq_true, hagrees] at hmay
      exact ⟨m, .kept hentry hmay.1 hmay.2, h⟩

/-- A flow is loaded as the map has it. -/
theorem Shows.load (h : s.Shows m) (hname : isName name = true) :
    m.Answers (.load name) (s.perform (.load name)).2 m := by
  rw [perform_load]
  cases hentry : m name with
  | none =>
    rw [load_of_missing hname (h.find?_of_none hentry)]
    exact .missing hentry
  | some entry =>
    obtain ⟨-, hstorable, -⟩ := h.entries name entry hentry
    have hload := (h.keeps hentry).load hstorable.toFlow_reread
    rw [hload]
    exact .loaded hentry hstorable.same_self

end

/-- **A call is answered as the map answers it**, and the store shows the map that is left. -/
theorem Shows.perform {s : Store} {m : Shelf} {call : StoreCall} (h : s.Shows m)
    (hvalid : call.Valid) :
    ∃ m', m.Answers call (s.perform call).2 m' ∧ (s.perform call).1.Shows m' := by
  cases call with
  | revision name =>
    refine ⟨m, ?_, h⟩
    rw [perform_revision, h.revision? hvalid]
    exact .revision name
  | load name => exact ⟨m, h.load hvalid, h⟩
  | save name f expected => exact h.save hvalid.1 hvalid.2
  | delete name expected => exact h.delete hvalid
  | list => exact ⟨m, .listed h.list.1 h.list.2, h⟩

/-- An empty store shows the empty map. -/
theorem shows_empty (root : String) : (⟨root, []⟩ : Store).Shows .empty := by
  refine ⟨List.nodup_nil, fun file text => ⟨fun h => ?_, ?_⟩, fun name entry h => ?_⟩
  · cases h
  · rintro ⟨name, entry, h, -⟩
    cases h
  · cases h

/-- A sequence of calls is answered as the map answers it. -/
theorem Shows.run : ∀ {calls : List StoreCall} {s : Store} {m : Shelf}, s.Shows m →
    (∀ call ∈ calls, call.Valid) → ∃ m', m.Runs calls (s.answers calls) m' ∧ (s.run calls).Shows m'
  | [], s, m, h, _ => ⟨m, .nil m, h⟩
  | call :: rest, s, m, h, hvalid => by
    obtain ⟨m', hanswer, hshows⟩ := h.perform (hvalid call List.mem_cons_self)
    obtain ⟨m'', hruns, hshows⟩ := hshows.run fun c hc => hvalid c (List.mem_cons_of_mem _ hc)
    exact ⟨m'', .cons hanswer hruns, hshows⟩

/-- Calls are made one after the other, so a sequence may be cut anywhere. -/
theorem run_append (s : Store) (before after : List StoreCall) :
    s.run (before ++ after) = (s.run before).run after := List.foldl_append

/-- Each call of a sequence takes the store from one map to the next as the map answers it. A call
that fails leaves the store and the map as they were, and a call on one name changes nothing under
another. -/
theorem Shows.step {s : Store} {m : Shelf} {before : List StoreCall} {call : StoreCall}
    (h : s.Shows m) (hbefore : ∀ c ∈ before, c.Valid) (hcall : call.Valid) :
    ∃ m₁ m₂, (s.run before).Shows m₁ ∧ (s.run (before ++ [call])).Shows m₂ ∧
      m₁.Answers call ((s.run before).perform call).2 m₂ ∧
      (∀ fault, ((s.run before).perform call).2 = .error fault →
        s.run (before ++ [call]) = s.run before ∧ m₂ = m₁) ∧
      ∀ other, call.name? ≠ some other → m₂ other = m₁ other := by
  obtain ⟨m₁, -, hshows⟩ := h.run hbefore
  obtain ⟨m₂, hanswers, hleft⟩ := hshows.perform hcall
  have hrun : s.run (before ++ [call]) = ((s.run before).perform call).1 := by
    rw [run_append, run_cons, run_nil]
  refine ⟨m₁, m₂, hshows, hrun ▸ hleft, hanswers, fun fault hfault => ⟨?_, ?_⟩, fun other hother =>
    hanswers.eq_of_name_ne hother⟩
  · rw [hrun, perform_of_error hfault]
  · exact (hfault ▸ hanswers).eq_of_error

/-- **A store is a map.** Calls of a store that starts empty are answered as the map answers them,
one after the other, and the store shows the map that they leave. Only a save can fail although the
expected revision is the current one, when its revision is too long to be written, and no sequence
of less than `10 ^ digitLimit` calls gets there. A call that fails changes nothing, and a call on
one name changes nothing under another. -/
theorem runs_as_shelf (root : String) {calls : List StoreCall}
    (hvalid : ∀ call ∈ calls, call.Valid) :
    ∃ m, Shelf.Runs .empty calls ((⟨root, []⟩ : Store).answers calls) m ∧
      ((⟨root, []⟩ : Store).run calls).Shows m ∧
      (calls.length < 10 ^ Text.digitLimit →
        ∀ path, .error (.numberTooLong path) ∉ (⟨root, []⟩ : Store).answers calls) ∧
      ∀ before call after, calls = before ++ call :: after →
        ∃ m₁ m₂, ((⟨root, []⟩ : Store).run before).Shows m₁ ∧
          ((⟨root, []⟩ : Store).run (before ++ [call])).Shows m₂ ∧
          m₁.Answers call (((⟨root, []⟩ : Store).run before).perform call).2 m₂ ∧
          (∀ fault, (((⟨root, []⟩ : Store).run before).perform call).2 = .error fault →
            (⟨root, []⟩ : Store).run (before ++ [call]) = (⟨root, []⟩ : Store).run before ∧
              m₂ = m₁) ∧
          ∀ other, call.name? ≠ some other → m₂ other = m₁ other := by
  obtain ⟨m, hruns, hshows⟩ := (shows_empty root).run hvalid
  refine ⟨m, hruns, hshows, fun hcalls => ?_, ?_⟩
  · exact hruns.not_mem_tooLong Shelf.upTo_empty (by omega)
  · rintro before call after rfl
    obtain ⟨hbefore, hrest⟩ := List.forall_mem_append.mp hvalid
    exact (shows_empty root).step hbefore (hrest call List.mem_cons_self)

/-- A flow is saved and loaded, another save and a delete are refused, and the names are listed. -/
def smsCalls : List StoreCall :=
  [.save "sms" Document.smsFlow .null, .load "sms", .save "sms" Document.smsFlow .null,
    .delete "sms" (.int 7), .list]

/-- The calls are valid and few, so each is answered as the map says. -/
theorem runs_as_shelf_smsCalls : (∀ call ∈ smsCalls, call.Valid) ∧
    smsCalls.length < 10 ^ Text.digitLimit ∧
    ∃ m, Shelf.Runs .empty smsCalls ((⟨"flows", []⟩ : Store).answers smsCalls) m ∧
      ((⟨"flows", []⟩ : Store).run smsCalls).Shows m ∧
      ∀ path, .error (.numberTooLong path) ∉ (⟨"flows", []⟩ : Store).answers smsCalls := by
  have hname : isName "sms" = true := by decide
  have hvalid : ∀ call ∈ smsCalls, call.Valid := by
    simp only [smsCalls, List.forall_mem_cons]
    exact ⟨⟨hname, Document.storable_smsFlow⟩, hname, ⟨hname, Document.storable_smsFlow⟩, hname, trivial,
      fun _ hmem => absurd hmem List.not_mem_nil⟩
  have hfew : smsCalls.length < 10 ^ Text.digitLimit :=
    calc smsCalls.length < 10 ^ 1 := by decide
      _ ≤ 10 ^ Text.digitLimit := Nat.pow_le_pow_right (by decide) (by decide)
  obtain ⟨m, hruns, hshows, hshort, -⟩ := runs_as_shelf "flows" hvalid
  exact ⟨hvalid, hfew, m, hruns, hshows, hshort hfew⟩

end Store

end CallFlow
