import CallFlow.Proofs.RoundTrip

/-!
# Operations that fail

An operation that fails leaves the flow, its start marker and the count of changes as they were,
with one exception: an update of a configuration puts the keys that it was given in order only
after its change, so where they cannot be put in order the update fails and the change stays
(`Editor.unchanged_of_error`, `Editor.changed_of_error`).
-/

namespace CallFlow

/-- An operation whose keys can be put in order. Only an update of a configuration has keys. -/
def Edit.hasOrder : Edit → Bool
  | .updateConfig _ (.mapping entries) => Editor.comparable entries
  | _ => true

namespace Editor

variable {e : Editor} {op : Edit} {fault : EditFault}

/-- What comes of an operation that fails: nothing, or the change of an update whose keys cannot be
put in order. -/
theorem apply_of_error (h : (e.apply op).2 = .error fault) : (e.apply op).1 = e ∨
    op.hasOrder = false ∧ fault = .keysNotComparable := by
  have hdoes := e.does_apply op
  generalize e.apply op = outcome at hdoes h
  cases hdoes with
  | failed fault' => exact .inl rfl
  | kept => cases h
  | changed hchange result => cases h
  | changedLate hchange hop hkeys =>
    obtain rfl := Except.error.inj h
    refine .inr ⟨?_, rfl⟩
    rw [hop]
    exact hkeys

/-- **Operations that fail change nothing.** Whatever operation fails, and for whatever reason, it
leaves the flow and the count of changes as they were, unless it is an update whose keys cannot be
put in order and which fails for that reason. -/
theorem unchanged_of_error (h : (e.apply op).2 = .error fault) :
    (op.hasOrder → (e.apply op).1 = e) ∧ (fault ≠ .keysNotComparable → (e.apply op).1 = e) := by
  rcases apply_of_error h with hsame | ⟨horder, hfault⟩
  · exact ⟨fun _ => hsame, fun _ => hsame⟩
  · refine ⟨fun hop => ?_, fun hne => absurd hfault hne⟩
    rw [horder] at hop
    cases hop

/-- A prompt that was added to the empty flow. -/
def greeting : Editor :=
  (Editor.ofFlow .empty).run [.addNode ⟨.text "prompt",
    .mapping [(.text "message", .text "Hello")], none, .null, some "a", "a"⟩]

/-- An update with a value that does not fit, and a handle to a node that is missing. -/
theorem unchanged_of_error_greeting :
    (greeting.apply (.updateConfig "a" (.mapping [(.text "message", .int 1)]))).2 =
        .error (.config "a" (.unfit [⟨[.name "message"], .notText⟩])) ∧
      (greeting.apply (.updateConfig "a" (.mapping [(.text "message", .int 1)]))).1 = greeting ∧
    (greeting.apply (.connect "a" "b" (.int 2))).2 = .error (.nodeMissing "b") ∧
      (greeting.apply (.connect "a" "b" (.int 2))).1 = greeting := by
  have hupdate : (greeting.apply (.updateConfig "a" (.mapping [(.text "message", .int 1)]))).2 =
      .error (.config "a" (.unfit [⟨[.name "message"], .notText⟩])) := rfl
  have hconnect : (greeting.apply (.connect "a" "b" (.int 2))).2 = .error (.nodeMissing "b") := rfl
  exact ⟨hupdate, (unchanged_of_error hupdate).2 (by decide), hconnect,
    (unchanged_of_error hconnect).1 rfl⟩

/-- An update under a number and a text, which cannot be put in order. -/
def mixedUpdate : Edit :=
  .updateConfig "a" (.mapping [(.int 1, .text "x"), (.text "message", .text "Bye")])

/-- The update fails, and the node has the new message. -/
theorem changed_of_error : greeting.flow.Reached ∧
    (greeting.apply mixedUpdate).2 = .error .keysNotComparable ∧
    greeting.version = 1 ∧ (greeting.apply mixedUpdate).1.version = 2 ∧
    greeting.flow.nodes.map (fun n => n.block.same (.known (.prompt ⟨some "Hello", none, none⟩))) =
      [true] ∧
    (greeting.apply mixedUpdate).1.flow.nodes.map
      (fun n => n.block.same (.known (.prompt ⟨some "Bye", none, none⟩))) = [true] := by
  refine ⟨Flow.Reached.run .empty ?_ ?_, rfl, rfl, rfl, by decide +kernel, by decide +kernel⟩
  · simp
  · simp

end Editor

end CallFlow
