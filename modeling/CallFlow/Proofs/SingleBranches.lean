import CallFlow.Proofs.Compilable
import CallFlow.Proofs.Integrity
import CallFlow.Proofs.Numerals

/-!
# Branches of flows that are edited

An edge is only made where no edge leaves the same node by the same handle. The handle is compared
as it is given, while an empty one becomes none on the edge that is made. So the edges that have a
handle are told apart by their source and handle in every flow that is built by editing
(`Flow.single_ofEdits`), and all edges are if no empty handle was ever given; but an empty handle
puts a second edge without a handle beside the first (`Flow.twice_ofEdits`).
-/

namespace CallFlow

/-! ## Handles as they are given -/

/-- Only an empty text is shown as one. -/
theorem Value.display_eq_empty_iff {v : Value} : v.display = "" ↔ v = .text "" := by
  cases v with
  | scalar s =>
    cases s with
    | null => simp [display, Scalar.display, Scalar.literal]
    | bool b => cases b <;> simp [display, Scalar.display, Scalar.literal]
    | int n => simp [display, Scalar.display, Scalar.literal, Text.ofInt_ne_empty]
    | float x => simp [display, Scalar.display, Scalar.literal, Binary64.text_ne_empty]
    | text s => simp [display, Scalar.display]
  | list items => simp [display, literal, String.append_eq_empty_iff]
  | mapping entries => simp [display, literal, String.append_eq_empty_iff]

/-- A handle that is given is empty only as an empty text. -/
theorem Editor.handleText_eq_some_empty_iff {v : Value} :
    handleText v = some "" ↔ v = .text "" := by
  unfold handleText
  split
  · simp
  · rw [Option.some.injEq, Value.display_eq_empty_iff]

/-- What an edge is told apart by: the node it leaves, and the handle it leaves by. -/
def Edge.branch (e : Edge) : String × Option String := (e.source, e.handle)

namespace Flow

variable {f g : Flow} {op : Edit}

/-! ## The edges after a change -/

/-- A change leaves out some edges, or it connects two nodes by a handle that is not in use. -/
theorem Change.edges_cases (h : f.Change op g) (hop : op.isLocal) : g.edges.Sublist f.edges ∨
    ∃ source target handle id, op = .connect source target handle ∧
      (∀ e ∈ f.edges, e.source = source → e.handle ≠ Editor.handleText handle) ∧
      g.edges = f.edges ++
        [⟨id, source, target, (Editor.handleText handle).filter (· ≠ "")⟩] := by
  cases h with
  | addNode | updateConfig | rename | move | markStart | clearStart =>
    exact .inl (List.Sublist.refl _)
  | remove | disconnect => exact .inl List.filter_sublist
  | connect hsource htarget _ hfree => exact .inr ⟨_, _, _, _, rfl, hfree, rfl⟩
  | importDocument hread => cases hop
  | replaceWith => cases hop

/-- A handle that is not in use makes a new branch, unless it is empty. -/
theorem branch_not_mem {source : String} {handle : Option String}
    (hfree : ∀ e ∈ f.edges, e.source = source → e.handle ≠ handle) (hhandle : handle ≠ some "") :
    (source, handle.filter (· ≠ "")) ∉ f.edges.map Edge.branch := by
  have hkept : handle.filter (· ≠ "") = handle := by
    cases handle with
    | none => rfl
    | some h => exact Option.filter_some_pos (by simpa using hhandle)
  intro hmem
  obtain ⟨e, he, heq⟩ := List.mem_map.mp hmem
  obtain ⟨hsource, hsame⟩ := Prod.mk.inj heq
  exact hfree e he hsource (hsame.trans hkept)

/-- A change keeps some edges on different branches, if an edge made by an empty handle is not one
of them. -/
theorem Change.nodup_branches {p : Edge → Bool} (h : f.Change op g) (hop : op.isLocal)
    (hp : ∀ {source target handle id}, op = .connect source target handle →
      p ⟨id, source, target, (Editor.handleText handle).filter (· ≠ "")⟩ → handle ≠ .text "")
    (hf : ((f.edges.filter p).map Edge.branch).Nodup) :
    ((g.edges.filter p).map Edge.branch).Nodup := by
  rcases h.edges_cases hop with hsub | ⟨source, target, handle, id, hconnect, hfree, hedges⟩
  · exact hf.sublist ((hsub.filter p).map Edge.branch)
  · rw [hedges, List.filter_append]
    by_cases hnew : p ⟨id, source, target, (Editor.handleText handle).filter (· ≠ "")⟩
    · have hhandle : Editor.handleText handle ≠ some "" := fun hempty =>
        hp hconnect hnew (Editor.handleText_eq_some_empty_iff.mp hempty)
      rw [List.filter_singleton, hnew]
      refine Association.nodup_map_append hf fun hmem => branch_not_mem hfree hhandle ?_
      exact (List.filter_sublist.map Edge.branch).subset hmem
    · rw [List.filter_singleton, Bool.eq_false_iff.mpr hnew]
      simpa using hf

/-- **Branches of a flow that is built by editing.** After any run of operations on nodes, edges and
the marker, failing or not, no two edges leave a node by the same handle. If no operation connects
nodes by an empty handle, at most one edge leaves each node without a handle too, and the checks
report no second edge for a branch. -/
theorem single_ofEdits {edits : List Edit} (h : ∀ op ∈ edits, op.isLocal) :
    (((ofEdits edits).edges.filter (·.handle.isSome)).map Edge.branch).Nodup ∧
    ((∀ source target, .connect source target (.text "") ∉ edits) →
      ((ofEdits edits).edges.map Edge.branch).Nodup ∧
        (ofEdits edits).validate.byCode .duplicateBranch = []) := by
  constructor
  · refine ofEdits_keeps (P := fun f => ((f.edges.filter (·.handle.isSome)).map Edge.branch).Nodup)
      List.nodup_nil fun op hop _ _ hchange => hchange.nodup_branches (h op hop) ?_
    rintro source target _ id - hsome rfl
    cases hsome
  · intro hempty
    have hnodup : (((ofEdits edits).edges.filter fun _ => true).map Edge.branch).Nodup := by
      refine ofEdits_keeps (P := fun f => ((f.edges.filter fun _ => true).map Edge.branch).Nodup)
        List.nodup_nil fun op hop _ _ hchange => hchange.nodup_branches (h op hop) ?_
      rintro source target _ id rfl - rfl
      exact hempty source target hop
    rw [List.filter_true] at hnodup
    refine ⟨hnodup, ?_⟩
    rw [Validation.byCode_duplicateBranch, Validation.repeatedBranches_eq_nil_iff]
    exact ⟨hnodup, fun _ _ => List.not_mem_nil⟩

/-- No branch is there twice after the edits, of which two ask for the same one. -/
theorem single_ofEdits_someEdits : (∀ op ∈ someEdits, op.isLocal) ∧
    (∀ source target, .connect source target (.text "") ∉ someEdits) ∧
    (ofEdits someEdits).validate.byCode .duplicateBranch = [] := by
  have hhandles : ∀ source target, .connect source target (.text "") ∉ someEdits := by
    simp [someEdits]
  obtain ⟨-, hsingle⟩ := single_ofEdits isLocal_someEdits
  exact ⟨isLocal_someEdits, hhandles, (hsingle hhandles).2⟩

/-- Two edges from one node, the second of them by an empty handle. -/
def emptyHandleEdits : List Edit :=
  [.addNode (nodeUnder "a" "prompt"), .addNode (nodeUnder "b" "hangup"),
    .addNode (nodeUnder "c" "hangup"), .connect "a" "b" .null, .connect "a" "c" (.text "")]

/-- The edge by an empty handle is made, and it is the second one without a handle. -/
theorem twice_ofEdits : (∀ op ∈ emptyHandleEdits, op.isLocal) ∧
    (ofEdits emptyHandleEdits).edges = [⟨"e-a-b", "a", "b", none⟩, ⟨"e-a--c", "a", "c", none⟩] ∧
    (ofEdits emptyHandleEdits).validate.byCode .duplicateBranch =
      [.duplicateBranch "e-a--c" "a" none] := by
  have hlocal : ∀ op ∈ emptyHandleEdits, op.isLocal := by simp [emptyHandleEdits, Edit.isLocal]
  have hedges : (ofEdits emptyHandleEdits).edges =
      [⟨"e-a-b", "a", "b", none⟩, ⟨"e-a--c", "a", "c", none⟩] := by decide +kernel
  refine ⟨hlocal, hedges, ?_⟩
  rw [Validation.byCode_duplicateBranch, hedges]
  rfl

end Flow

end CallFlow
