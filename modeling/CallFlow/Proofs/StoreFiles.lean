import CallFlow.Proofs.Except
import CallFlow.Proofs.JsonRoundTrip
import CallFlow.Store.Call

/-!
# The files of a store

What the operations of a store do to its directory. Different names have different files, and no
draft is the file of a flow (`Store.fileOf_injective`, `Store.draftOf_ne_fileOf`), so saving a flow
changes its own file only, and its draft is gone afterwards (`Store.find?_placed_of_ne`,
`Store.find?_placed_draft`). The revision in an envelope is read back whatever the flow is
(`Store.readEnvelope_envelopeText`).
-/

namespace CallFlow.Store

/-! ## Names of files -/

/-- Flows with different names are in different files. -/
theorem fileOf_injective {a b : String} (h : fileOf a = fileOf b) : a = b := by
  have hchars := congrArg String.toList h
  unfold fileOf at hchars
  rw [String.toList_append, String.toList_append] at hchars
  exact String.toList_inj.mp (List.append_cancel_right hchars)

/-- A draft is not the file of a flow: its name ends in another letter. -/
theorem draftOf_ne_fileOf (a b : String) : draftOf a ≠ fileOf b := by
  intro h
  have hlast := congrArg (fun s => s.toList.getLast?) h
  simp [draftOf, fileOf, String.toList_append] at hlast

/-- The file of a flow is taken for one when flows are listed. -/
theorem isFlowFile_fileOf (name : String) : isFlowFile (fileOf name) = true := by
  unfold isFlowFile fileOf
  rw [String.toList_append]
  simp

/-- The name of a flow is the stem of its file. -/
theorem stem_fileOf {name : String} (h : name ≠ "") : FileName.stem (fileOf name) = name := by
  have hchars : (fileOf name).toList.reverse =
      'n' :: 'o' :: 's' :: 'j' :: '.' :: name.toList.reverse := by
    simp [fileOf, String.toList_append]
  unfold FileName.stem FileName.split
  simp [hchars, h]

/-- The empty text is no name. -/
theorem ne_empty_of_isName {name : String} (h : isName name = true) : name ≠ "" := by
  rintro rfl
  exact absurd h (by decide)

/-! ## Directories -/

/-- A file is in a directory if a text is found under its name. -/
theorem mem_keys_iff {d : Directory} {file : String} :
    file ∈ d.keys ↔ ∃ text, d.find? file = some text := by
  have hsome := Association.lookup?_isSome (fun a b : String => decide (a = b)) file d
  rw [← Option.isSome_iff_exists]
  unfold TextTable.find? TextTable.keys
  rw [hsome]
  simp

/-- A file has the text that was written to it. -/
theorem find?_writeFile_self (d : Directory) (file text : String) :
    TextTable.find? (writeFile d file text) file = some text :=
  Association.lookup?_insert_self _ (by simp) text d

/-- The other files have the texts that they had. -/
theorem find?_writeFile_of_ne (d : Directory) {file other : String} (text : String)
    (h : other ≠ file) : TextTable.find? (writeFile d file text) other = d.find? other := by
  refine Association.lookup?_insert_of_ne text (fun k hk => ?_) (decide_eq_false h.symm) d
  obtain rfl : k = file := of_decide_eq_true hk
  exact decide_eq_false h.symm

/-- A file that was removed is not there. -/
theorem find?_removeFile_self (d : Directory) (file : String) :
    TextTable.find? (removeFile d file) file = none := by
  induction d with
  | nil => rfl
  | cons e rest ih =>
    unfold removeFile
    rw [List.filter_cons]
    split
    · rename_i hne
      have hdiffer : e.1 ≠ file := of_decide_eq_true hne
      exact (if_neg (by simpa using hdiffer)).trans ih
    · exact ih

/-- The other files are there as before. -/
theorem find?_removeFile_of_ne (d : Directory) {file other : String} (h : other ≠ file) :
    TextTable.find? (removeFile d file) other = d.find? other := by
  induction d with
  | nil => rfl
  | cons e rest ih =>
    unfold removeFile at ih ⊢
    rw [List.filter_cons]
    split
    · unfold TextTable.find? at ih ⊢
      rw [Association.lookup?, Association.lookup?, ih]
    · rename_i heq
      have hsame : e.1 = file := by simpa using heq
      rw [ih]
      exact (if_neg (by simp [hsame, h.symm])).symm

/-- Writing a file leaves one file under each name. -/
theorem nodup_keys_writeFile {d : Directory} (h : d.keys.Nodup) (file text : String) :
    (TextTable.keys (writeFile d file text)).Nodup :=
  TextTable.distinct_iff_nodup_keys.mp ((TextTable.distinct_iff_nodup_keys.mpr h).insert file text)

/-- Removing a file leaves one file under each name. -/
theorem nodup_keys_removeFile {d : Directory} (h : d.keys.Nodup) (file : String) :
    (TextTable.keys (removeFile d file)).Nodup :=
  h.sublist (List.filter_sublist.map _)

/-! ## Envelopes -/

/-- The revision and the flow that are read back from a written envelope. The flow is read back as a
value, whatever it holds. -/
theorem readEnvelope_envelopeText (path : String) {revision : Int} {f : Flow}
    (h : Json.canWrite (ofEnvelope revision f) = true) :
    readEnvelope path (envelopeText revision f) =
      .ok ⟨.int revision, Json.reread (Document.ofFlow f)⟩ := by
  have hread : Json.read (envelopeText revision f) = .ok (.mapping
      [(.text "revision", .int revision), (.text "flow", Json.reread (Document.ofFlow f))]) :=
    Json.read_write_eq_reread _ h
  unfold readEnvelope
  rw [hread]
  rfl

/-- The file of a flow is an envelope as it is written, with a revision and a flow. -/
structure Keeps (s : Store) (name : String) (revision : Int) (f : Flow) : Prop where
  isName : isName name = true
  canWrite : Json.canWrite (ofEnvelope revision f) = true
  file : s.files.find? (fileOf name) = some (envelopeText revision f)

section

variable {s : Store} {name : String} {revision : Int} {f g : Flow}

/-- What a store keeps is read from its envelope. -/
theorem Keeps.envelope? (h : s.Keeps name revision f) :
    s.envelope? name = .ok (some ⟨.int revision, Json.reread (Document.ofFlow f)⟩) := by
  unfold Store.envelope?
  rw [if_pos h.isName, h.file]
  dsimp only
  rw [readEnvelope_envelopeText _ h.canWrite]
  rfl

/-- Its revision is the one in the envelope. -/
theorem Keeps.revision? (h : s.Keeps name revision f) :
    s.revision? name = .ok (some (.int revision)) := by
  unfold Store.revision?
  rw [h.envelope?]
  rfl

/-- The flow that is loaded is the one of the document in the envelope. -/
theorem Keeps.load (h : s.Keeps name revision f)
    (hflow : Document.toFlow (Json.reread (Document.ofFlow f)) = .ok g) :
    s.load name = .ok (g, .int revision) := by
  unfold Store.load
  rw [h.envelope?]
  simp only [bind, Except.bind, hflow, Except.mapError]

/-- A flow without a file has no envelope. -/
theorem envelope?_of_missing (hname : isName name = true)
    (hfile : s.files.find? (fileOf name) = none) : s.envelope? name = .ok none := by
  unfold Store.envelope?
  rw [if_pos hname, hfile]

/-- A flow without a file is missing. -/
theorem load_of_missing (hname : isName name = true)
    (hfile : s.files.find? (fileOf name) = none) : s.load name = .error (.missing name) := by
  unfold Store.load
  rw [envelope?_of_missing hname hfile]
  rfl

/-- It has no revision. -/
theorem revision?_of_missing (hname : isName name = true)
    (hfile : s.files.find? (fileOf name) = none) : s.revision? name = .ok none := by
  unfold Store.revision?
  rw [envelope?_of_missing hname hfile]
  rfl

end

/-- Only the file of a flow matters to its envelope. -/
theorem envelope?_congr {s t : Store} {name : String} (hroot : s.root = t.root)
    (h : s.files.find? (fileOf name) = t.files.find? (fileOf name)) :
    s.envelope? name = t.envelope? name := by
  unfold envelope? pathOf
  rw [h, hroot]

/-- A flow that has a revision has a name that is allowed, and a file. -/
theorem isName_and_file_of_revision? {s : Store} {name : String} {r : Scalar}
    (h : s.revision? name = .ok (some r)) :
    isName name = true ∧ ∃ text, s.files.find? (fileOf name) = some text := by
  unfold revision? envelope? at h
  split at h
  · rename_i hname
    refine ⟨hname, ?_⟩
    cases hfile : s.files.find? (fileOf name) with
    | none =>
      rw [hfile] at h
      cases h
    | some text => exact ⟨text, rfl⟩
  · cases h

/-- A flow without a revision has no file. -/
theorem find?_of_revision?_none {s : Store} {name : String} (h : s.revision? name = .ok none) :
    s.files.find? (fileOf name) = none := by
  unfold revision? envelope? at h
  split at h
  · split at h
    · assumption
    · obtain ⟨o, ho, hnone⟩ := Except.map_eq_ok_iff.mp h
      obtain ⟨e, -, rfl⟩ := Except.map_eq_ok_iff.mp ho
      cases hnone
  · cases h

/-- A flow that is loaded has the revision that is given with it. -/
theorem revision?_of_load {s : Store} {name : String} {f : Flow} {r : Scalar}
    (h : s.load name = .ok (f, r)) : s.revision? name = .ok (some r) := by
  unfold load at h
  obtain ⟨envelope, henvelope, h⟩ := Except.bind_eq_ok_iff.mp h
  unfold revision?
  rw [henvelope]
  cases envelope with
  | none => cases h
  | some e =>
    obtain ⟨g, -, h⟩ := Except.bind_eq_ok_iff.mp h
    obtain ⟨-, rfl⟩ := Prod.mk.inj (Except.ok.inj h)
    rfl

/-- The revision in an envelope is a number. -/
theorem exists_revisionNumber_of_readEnvelope {path text : String} {e : Envelope}
    (h : readEnvelope path text = .ok e) : ∃ n, revisionNumber? e.revision = some n := by
  unfold readEnvelope at h
  split at h
  · cases h
  · cases h
  · cases h
  · split at h
    · split at h
      · rename_i hnumber
        obtain rfl := Except.ok.inj h
        exact Option.isSome_iff_exists.mp hnumber
      · cases h
    · cases h
  · cases h

/-- A revision that is found is a number. -/
theorem exists_revisionNumber {s : Store} {name : String} {r : Scalar}
    (h : s.revision? name = .ok (some r)) : ∃ n, revisionNumber? r = some n := by
  obtain ⟨hname, text, hfile⟩ := isName_and_file_of_revision? h
  unfold revision? envelope? at h
  rw [if_pos hname, hfile] at h
  obtain ⟨o, ho, hr⟩ := Except.map_eq_ok_iff.mp h
  obtain ⟨e, he, rfl⟩ := Except.map_eq_ok_iff.mp ho
  obtain rfl := Option.some.inj hr
  exact exists_revisionNumber_of_readEnvelope he

/-! ## Saving -/

/-- The revision that a flow is saved under. -/
def nextRevision (current : Option Scalar) : Int := (current.bind revisionNumber?).getD 0 + 1

/-- The store after a text was written to the draft of a flow and the draft took the place of its
file. -/
def placed (s : Store) (name text : String) : Store :=
  let moved := removeFile (writeFile s.files (draftOf name) text) (draftOf name)
  { s with files := writeFile moved (fileOf name) text }

/-- What was placed is in the file of the flow. -/
theorem find?_placed_self (s : Store) (name text : String) :
    (s.placed name text).files.find? (fileOf name) = some text :=
  find?_writeFile_self _ _ _

/-- No draft is left. -/
theorem find?_placed_draft (s : Store) (name text : String) :
    (s.placed name text).files.find? (draftOf name) = none := by
  unfold placed
  rw [find?_writeFile_of_ne _ _ (draftOf_ne_fileOf name name), find?_removeFile_self]

/-- All other files are as they were. -/
theorem find?_placed_of_ne (s : Store) (name text : String) {file : String}
    (hfile : file ≠ fileOf name) (hdraft : file ≠ draftOf name) :
    (s.placed name text).files.find? file = s.files.find? file := by
  unfold placed
  rw [find?_writeFile_of_ne _ _ hfile, find?_removeFile_of_ne _ hdraft,
    find?_writeFile_of_ne _ _ hdraft]

/-- Saving a flow leaves the files of other flows as they were. -/
theorem find?_placed_other (s : Store) {name other : String} (text : String) (h : other ≠ name) :
    (s.placed name text).files.find? (fileOf other) = s.files.find? (fileOf other) :=
  find?_placed_of_ne s name text (fun heq => h (fileOf_injective heq))
    (draftOf_ne_fileOf name other).symm

/-- Placing an envelope leaves one file under each name. -/
theorem nodup_keys_placed {s : Store} (h : s.files.keys.Nodup) (name text : String) :
    (s.placed name text).files.keys.Nodup :=
  nodup_keys_writeFile (nodup_keys_removeFile (nodup_keys_writeFile h _ _) _) _ _

/-- What saving does, once the revision of the flow is known. -/
theorem save_of_revision {s : Store} {name : String} {current : Option Scalar}
    (h : s.revision? name = .ok current) (f : Flow) (expected : Value) :
    s.save name f expected =
      if isExpected current expected then
        if Json.canWrite (ofEnvelope (nextRevision current) f) then
          .ok (s.placed name (envelopeText (nextRevision current) f), nextRevision current)
        else .error (.numberTooLong (s.pathOf name))
      else .error (.stale name expected current) := by
  have hdraft := find?_writeFile_self s.files (draftOf name)
  unfold save
  rw [h]
  simp only [bind, Except.bind, writeEnvelope]
  by_cases hexpected : isExpected current expected = true
  · rw [if_pos hexpected, if_pos hexpected]
    by_cases hwrite : Json.canWrite (ofEnvelope (nextRevision current) f) = true
    · unfold nextRevision at hwrite ⊢
      rw [if_pos hwrite, if_pos hwrite]
      simp only [hdraft, Option.getD_some]
      rfl
    · unfold nextRevision at hwrite ⊢
      rw [if_neg hwrite, if_neg hwrite]
  · rw [if_neg hexpected, if_neg hexpected]

/-- What was saved is kept. -/
theorem keeps_placed {s : Store} {name : String} {revision : Int} {f : Flow}
    (hname : isName name = true) (hwrite : Json.canWrite (ofEnvelope revision f) = true) :
    (s.placed name (envelopeText revision f)).Keeps name revision f :=
  ⟨hname, hwrite, find?_placed_self s name _⟩

/-- A flow that is not there is saved under revision 1, where none is expected. -/
theorem save_of_missing {s : Store} {name : String} {f : Flow} (hname : isName name = true)
    (hfile : s.files.find? (fileOf name) = none) (hwrite : Json.canWrite (ofEnvelope 1 f) = true) :
    s.save name f .null = .ok (s.placed name (envelopeText 1 f), 1) := by
  have hrevision := revision?_of_missing hname hfile
  have hexpected : isExpected none .null = true := rfl
  have hnext : nextRevision none = 1 := rfl
  rw [save_of_revision hrevision, if_pos hexpected, hnext, if_pos hwrite]

/-- A flow that is kept is saved under the next revision, where its own is expected. -/
theorem Keeps.save {s : Store} {name : String} {f g : Flow} {n : Int} (h : s.Keeps name n f)
    (hwrite : Json.canWrite (ofEnvelope (n + 1) g) = true) :
    s.save name g (.int n) = .ok (s.placed name (envelopeText (n + 1) g), n + 1) := by
  have hexpected : isExpected (some (.int n)) (.int n) = true := by
    simp [isExpected, Value.same, Scalar.same, Scalar.toInt?]
  have hnext : nextRevision (some (.int n)) = n + 1 := rfl
  rw [save_of_revision h.revision?, if_pos hexpected, hnext, if_pos hwrite]

/-- A save that succeeds found the expected revision and placed the envelope of the next one. -/
theorem save_eq_ok_iff {s s' : Store} {name : String} {f : Flow} {expected : Value} {next : Int} :
    s.save name f expected = .ok (s', next) ↔ ∃ current, s.revision? name = .ok current ∧
      isExpected current expected = true ∧ Json.canWrite (ofEnvelope (nextRevision current) f) = true ∧
        s' = s.placed name (envelopeText (nextRevision current) f) ∧ next = nextRevision current := by
  constructor
  · intro h
    cases hrevision : s.revision? name with
    | error e =>
      unfold save at h
      rw [hrevision] at h
      cases h
    | ok current =>
      rw [save_of_revision hrevision] at h
      split at h
      · split at h
        · cases h
          exact ⟨current, rfl, ‹_›, ‹_›, rfl, rfl⟩
        · cases h
      · cases h
  · rintro ⟨current, hrevision, hexpected, hwrite, rfl, rfl⟩
    rw [save_of_revision hrevision, if_pos hexpected, if_pos hwrite]

/-! ## Deleting -/

/-- The store without the file of a flow. -/
def without (s : Store) (name : String) : Store :=
  { s with files := removeFile s.files (fileOf name) }

/-- Whether a flow at a revision may be deleted: the absent value expects no revision in particular.
-/
def mayDelete (current : Scalar) : Value → Bool
  | .null => true
  | expected => isExpected (some current) expected

/-- To delete a flow that is not there changes nothing, whatever revision is expected. -/
theorem delete_of_missing {s : Store} {name : String} (h : s.revision? name = .ok none)
    (expected : Value) : s.delete name expected = .ok s := by
  unfold delete
  rw [h]
  rfl

/-- What deleting a flow does that is there. -/
theorem delete_of_revision {s : Store} {name : String} {current : Scalar}
    (h : s.revision? name = .ok (some current)) (expected : Value) :
    s.delete name expected =
      if mayDelete current expected then .ok (s.without name)
      else .error (.stale name expected (some current)) := by
  unfold delete
  rw [h]
  simp only [bind, Except.bind]
  split
  · rfl
  · rename_i hgiven
    have hmay : mayDelete current expected = isExpected (some current) expected := by
      unfold mayDelete
      split
      · exact absurd rfl hgiven
      · rfl
    rw [hmay]
    rfl

/-- A delete that succeeds found no flow, or removed the file of one that may be deleted. -/
theorem delete_eq_ok {s left : Store} {name : String} {expected : Value}
    (h : s.delete name expected = .ok left) :
    (s.revision? name = .ok none ∧ left = s) ∨ ∃ current, s.revision? name = .ok (some current) ∧
      mayDelete current expected = true ∧ left = s.without name := by
  cases hrevision : s.revision? name with
  | error e =>
    unfold delete at h
    rw [hrevision] at h
    cases h
  | ok current =>
    cases current with
    | none =>
      rw [delete_of_missing hrevision] at h
      exact .inl ⟨rfl, (Except.ok.inj h).symm⟩
    | some current =>
      rw [delete_of_revision hrevision] at h
      split at h
      · exact .inr ⟨current, rfl, ‹_›, (Except.ok.inj h).symm⟩
      · cases h

/-- A flow may be deleted if no revision is expected, or the current one is. -/
theorem mayDelete_iff {current : Scalar} {expected : Value} : mayDelete current expected = true ↔
    expected = .null ∨ isExpected (some current) expected = true := by
  unfold mayDelete
  split
  · simp
  · rename_i hgiven
    exact ⟨.inr, fun h => h.resolve_left hgiven⟩

/-- What was deleted has no file. -/
theorem find?_without_self (s : Store) (name : String) :
    (s.without name).files.find? (fileOf name) = none :=
  find?_removeFile_self _ _

/-- Deleting a flow leaves the files of other flows as they were. -/
theorem find?_without_of_ne (s : Store) {name file : String} (h : file ≠ fileOf name) :
    (s.without name).files.find? file = s.files.find? file :=
  find?_removeFile_of_ne _ h

/-! ## Calls -/

/-- What a call leaves of the files: all as they were, or a flow that was saved with its next
revision, or the others after one was deleted. -/
theorem perform_cases (s : Store) (call : StoreCall) :
    (s.perform call).1 = s ∨
    (∃ name f expected current, call = .save name f expected ∧ s.revision? name = .ok current ∧
      isExpected current expected = true ∧ Json.canWrite (ofEnvelope (nextRevision current) f) = true ∧
      (s.perform call).1 = s.placed name (envelopeText (nextRevision current) f)) ∨
    ∃ name expected current, call = .delete name expected ∧
      s.revision? name = .ok (some current) ∧ mayDelete current expected = true ∧
      (s.perform call).1 = s.without name := by
  cases call with
  | save name f expected =>
    cases hsave : s.save name f expected with
    | error e =>
      rw [perform_save_of_error hsave]
      exact .inl rfl
    | ok p =>
      obtain ⟨current, hrevision, hexpected, hwrite, hplaced, -⟩ := save_eq_ok_iff.mp hsave
      rw [perform_save_of_ok hsave]
      exact .inr (.inl ⟨name, f, expected, current, rfl, hrevision, hexpected, hwrite, hplaced⟩)
  | delete name expected =>
    cases hdelete : s.delete name expected with
    | error e =>
      rw [perform_delete_of_error hdelete]
      exact .inl rfl
    | ok left =>
      rw [perform_delete_of_ok hdelete]
      rcases delete_eq_ok hdelete with ⟨-, rfl⟩ | ⟨current, hrevision, hmay, rfl⟩
      · exact .inl rfl
      · exact .inr (.inr ⟨name, expected, current, rfl, hrevision, hmay, rfl⟩)
  | _ => exact .inl rfl

end CallFlow.Store
