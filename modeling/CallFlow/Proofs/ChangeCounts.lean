import CallFlow.Proofs.FailedEdits

/-!
# The count of changes

An editor counts its changes, so that whoever has seen the flow before can tell from the count
whether it may be another one by now. That needs two things of every operation, whether it fails or
not: a change is counted once, and what is not counted is no change. The first follows from the
rules for changes, `Flow.Change`; an operation that fails after its change is one of them, and is
counted too.

* `Editor.apply_change_or_same`: one operation.
* `Editor.version_le_run`, `Editor.run_eq_of_version_eq`: a run of them.
* `Editor.version_tells_changes`: any two moments of a run.
-/

namespace CallFlow.Editor

variable {e : Editor}

/-- An operation makes a change and counts it, or there is no change for it to make and the editor
stays as it is. -/
theorem apply_change_or_same (e : Editor) (op : Edit) :
    (e.flow.Change op (e.apply op).1.flow ∧ (e.apply op).1.version = e.version + 1) ∨
      ((∀ g, ¬ e.flow.Change op g) ∧ (e.apply op).1 = e) := by
  by_cases h : ∃ g, e.flow.Change op g
  · obtain ⟨g, hg⟩ := h
    left
    rw [e.apply_of_change hg]
    exact ⟨hg, rfl⟩
  · right
    refine ⟨fun g hg => h ⟨g, hg⟩, ?_⟩
    rcases e.apply_cases op with hsame | ⟨g, -, hg⟩
    · exact hsame
    · exact absurd ⟨g, hg⟩ h

/-! ## Runs -/

/-- Edits are made one after the other, so a run may be cut anywhere. -/
theorem run_append (e : Editor) (first rest : List Edit) :
    e.run (first ++ rest) = (e.run first).run rest := List.foldl_append

/-- The count never goes down. -/
theorem version_le_run (edits : List Edit) (e : Editor) : e.version ≤ (e.run edits).version := by
  induction edits generalizing e with
  | nil => exact Nat.le_refl _
  | cons op rest ih =>
    have hrest := ih (e.apply op).1
    rw [run_cons]
    rcases e.apply_change_or_same op with ⟨-, hcount⟩ | ⟨-, hsame⟩
    · omega
    · rwa [hsame] at hrest ⊢

/-- A run after which the count is the same has left the editor as it was, at each of its steps. -/
theorem run_eq_of_version_eq (edits : List Edit) (e : Editor)
    (h : (e.run edits).version = e.version) : e.run edits = e := by
  induction edits generalizing e with
  | nil => rfl
  | cons op rest ih =>
    rw [run_cons] at h ⊢
    rcases e.apply_change_or_same op with ⟨-, hcount⟩ | ⟨-, hsame⟩
    · -- a count that went up does not come back
      have hle := version_le_run rest (e.apply op).1
      omega
    · rw [hsame] at h ⊢
      exact ih e h

/-- An earlier and a later moment of a run. -/
theorem run_take_eq_of_le {edits : List Edit} {i j : Nat} (hij : i ≤ j)
    (h : (e.run (edits.take i)).version = (e.run (edits.take j)).version) :
    e.run (edits.take i) = e.run (edits.take j) := by
  obtain ⟨between, hbetween⟩ := List.take_prefix_take_left (l := edits) hij
  rw [← hbetween, run_append] at h ⊢
  exact (run_eq_of_version_eq between _ h.symm).symm

/-- **The count tells whether the flow has changed.** Whatever the operation, whatever it is given,
and whether it fails or not, either the count and the flow are what they were, and then there was
nothing for the operation to change, or it has made its change and the count is one more. So
whenever the count is the same at two moments of a run, the flow is the same: the nodes, the edges
and the start marker. -/
theorem version_tells_changes (e : Editor) :
    (∀ op, (e.apply op).1.version = e.version ∧ (e.apply op).1.flow = e.flow ∧
          (∀ g, ¬ e.flow.Change op g) ∨
        (e.apply op).1.version = e.version + 1 ∧ e.flow.Change op (e.apply op).1.flow) ∧
      ∀ (edits : List Edit) (i j : Nat),
        (e.run (edits.take i)).version = (e.run (edits.take j)).version →
          (e.run (edits.take i)).flow = (e.run (edits.take j)).flow := by
  constructor
  · intro op
    rcases e.apply_change_or_same op with ⟨hchange, hcount⟩ | ⟨hnone, hsame⟩
    · exact .inr ⟨hcount, hchange⟩
    · exact .inl ⟨congrArg Editor.version hsame, congrArg Editor.flow hsame, hnone⟩
  · intro edits i j h
    apply congrArg Editor.flow
    rcases Nat.le_total i j with hij | hji
    · exact run_take_eq_of_le hij h
    · exact (run_take_eq_of_le hji h.symm).symm

/-- An update that fails after its change, two operations that fail before any, two that find
nothing to do, and a new name. -/
def busyEdits : List Edit :=
  [mixedUpdate, .connect "a" "b" (.int 2), .importDocument .null, .remove "b", .clearStart,
    .rename "a" "Goodbye"]

/-- Only the first and the last of them are counted. -/
theorem version_tells_changes_greeting :
    ((greeting.run (busyEdits.take 1)).version = 2 ∧
      (greeting.run (busyEdits.take 5)).version = 2 ∧ (greeting.run busyEdits).version = 3) ∧
    (greeting.run (busyEdits.take 1)).flow = (greeting.run (busyEdits.take 5)).flow := by
  refine ⟨⟨rfl, rfl, rfl⟩, ?_⟩
  apply (version_tells_changes greeting).2
  rfl

end CallFlow.Editor
