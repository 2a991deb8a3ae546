import CallFlow.Proofs.Integrity
import Mathlib.Data.List.Flatten

/-!
# What deletions do to the errors

To remove a node or to disconnect an edge leaves a part of the flow: some nodes and edges are gone,
and the edges that are left have their ends where they had them (`Flow.PartOf`). What the checks
find wrong in a part they find wrong in the whole, though some of them look at more than one edge at
a time. Only the check on the start may find something new, since a node that lost its last edge may
be where a call could begin.

* `Validation.danglingEdges_sublist`, `configFindings_sublist`, `repeatedBranches_sublist`,
  `outgoingFindings_sublist`: this for each check.
* `Validation.errors_sublist`: so the errors of a part, those on the start aside, are some of the
  errors of the whole, in the same order.
* `Editor.errors_of_deletion`: deletions add no errors, except on the start.
-/

namespace CallFlow

/-! ## Parts of a flow -/

/-- What is left of a flow when some nodes and edges are taken away, and with a node its edges. -/
structure Flow.PartOf (g f : Flow) : Prop where
  nodes : g.nodes.Sublist f.nodes
  edges : g.edges.Sublist f.edges
  /-- An edge that is left lacks a source or a target only if it did before. -/
  ends : ∀ e ∈ g.edges, ∀ id ∈ [e.source, e.target], g.hasNode id = f.hasNode id

namespace Flow

variable {f g : Flow}

/-- A flow is part of itself. -/
theorem partOf_self (f : Flow) : f.PartOf f :=
  ⟨List.Sublist.refl _, List.Sublist.refl _, fun _ _ _ _ => rfl⟩

/-- So it is without some of its edges. -/
theorem partOf_filterEdges (f : Flow) (p : Edge → Bool) :
    (f.withEdges (f.edges.filter p)).PartOf f :=
  ⟨List.Sublist.refl _, List.filter_sublist, fun _ _ _ _ => rfl⟩

/-- And without a node and the edges of that node. -/
theorem partOf_removeNode (f : Flow) (id : String) : (f.removeNode id).PartOf f where
  nodes := List.filter_sublist
  edges := List.filter_sublist
  ends e he id' hid' := by
    have hends := (List.mem_filter.mp he).2
    simp only [Bool.and_eq_true, decide_eq_true_eq] at hends
    have hne : id' ≠ id := by
      rcases List.mem_pair.mp hid' with rfl | rfl
      · exact hends.1
      · exact hends.2
    rw [Bool.eq_iff_iff, hasNode_iff, hasNode_iff, mem_ids_removeNode]
    exact and_iff_left hne

/-- Of the edges that leave a node, those of a part are some. -/
theorem PartOf.outgoing (h : g.PartOf f) (id : String) :
    (g.outgoing id).Sublist (f.outgoing id) := h.edges.filter _

end Flow

/-! ## What is found in a part -/

namespace Validation

variable {f g : Flow}

/-- What is made of fewer items, and less of each, is less. -/
theorem flatMap_sublist {α β : Type} {xs ys : List α} {p q : α → List β} (h : xs.Sublist ys)
    (hpq : ∀ x ∈ xs, (p x).Sublist (q x)) : (xs.flatMap p).Sublist (ys.flatMap q) :=
  (List.Sublist.flatMap_right xs hpq).trans (h.flatMap q)

/-- Fewer items, each of which contributes no more, contribute no more in all. -/
theorem filterMap_sublist {α β : Type} {xs ys : List α} {p q : α → Option β} (h : xs.Sublist ys)
    (hpq : ∀ x ∈ xs, (p x).toList.Sublist (q x).toList) :
    (xs.filterMap p).Sublist (ys.filterMap q) := by
  rw [List.filterMap_eq_flatMap_toList, List.filterMap_eq_flatMap_toList]
  exact flatMap_sublist h hpq

/-- A part has no dangling edges but those of the whole. -/
theorem danglingEdges_sublist (h : g.PartOf f) : (danglingEdges g).Sublist (danglingEdges f) := by
  refine filterMap_sublist h.edges fun e he => ?_
  have hmissing : ([e.source, e.target].filter fun id => !g.hasNode id) =
      [e.source, e.target].filter fun id => !f.hasNode id :=
    List.filter_congr fun id hid => by rw [h.ends e he id hid]
  rw [hmissing]

/-- Nor findings on configurations that the whole does not have. -/
theorem configFindings_sublist (h : g.PartOf f) :
    (g.nodes.flatMap configFindings).Sublist (f.nodes.flatMap configFindings) :=
  h.nodes.flatMap _

/-- Where fewer edges came before, fewer branches are there for the second time. -/
theorem repeatedBranches_sublist {edges edges' : List Edge} (h : edges.Sublist edges') :
    ∀ {seen seen' : List (String × Option String)}, (∀ key ∈ seen, key ∈ seen') →
      (repeatedBranches seen edges).Sublist (repeatedBranches seen' edges') := by
  induction h with
  | slnil => exact fun _ => List.Sublist.refl _
  | @cons edges rest e _ ih =>
    intro seen seen' hseen
    have hrest : (repeatedBranches seen edges).Sublist
        (repeatedBranches ((e.source, e.handle) :: seen') rest) :=
      ih fun key hkey => List.mem_cons_of_mem _ (hseen key hkey)
    rw [repeatedBranches]
    split
    · exact hrest.cons _
    · exact hrest
  | @cons_cons edges rest e _ ih =>
    intro seen seen' hseen
    have hrest : (repeatedBranches ((e.source, e.handle) :: seen) edges).Sublist
        (repeatedBranches ((e.source, e.handle) :: seen') rest) := by
      refine ih fun key hkey => ?_
      rcases List.mem_cons.mp hkey with rfl | hkey
      · exact List.mem_cons_self
      · exact List.mem_cons_of_mem _ (hseen key hkey)
    rw [repeatedBranches, repeatedBranches]
    by_cases hkey : (e.source, e.handle) ∈ seen
    · rw [if_pos hkey, if_pos (hseen _ hkey)]
      exact hrest.cons_cons _
    · rw [if_neg hkey]
      split
      · exact hrest.cons _
      · exact hrest

/-- Fewer edges leave a node by a handle that does not fit. With one edge left, the block of an
interface may even be found to be in order. -/
theorem handleFindings_sublist (n : Node) (c : Config) {out out' : List Edge}
    (h : out.Sublist out') : (handleFindings n c out).Sublist (handleFindings n c out') := by
  have hmany : 1 < out.length → 1 < out'.length := fun hout => hout.trans_le h.length_le
  refine filterMap_sublist h fun e _ => ?_
  -- the number of edges counts for one kind of blocks only
  by_cases hbranching : c.kind.isBranching
  · simp only [if_pos hbranching]
    exact List.Sublist.refl _
  · by_cases hapi : c.kind = .api
    · simp only [if_neg hbranching, if_pos hapi]
      by_cases hlone : 1 < out.length
      · simp only [hlone, hmany hlone]
        exact List.Sublist.refl _
      · simp [hlone]
    · simp only [if_neg hbranching, if_neg hapi]
      exact List.Sublist.refl _

/-- Fewer edges have no more loops. -/
theorem selfLoops_sublist (n : Node) (c : Config) {out out' : List Edge} (h : out.Sublist out') :
    (selfLoops n c out).Sublist (selfLoops n c out') := by
  unfold selfLoops
  split
  · exact List.Sublist.refl _
  · exact (h.filter _).map _

/-- A part has no findings on the edges of a node but those of the whole. -/
theorem outgoingFindings_sublist (h : g.PartOf f) (n : Node) :
    (outgoingFindings g n).Sublist (outgoingFindings f n) := by
  unfold outgoingFindings
  split
  · exact List.Sublist.refl _
  · rename_i c _
    have hout := h.outgoing n.id
    dsimp only
    split
    · exact hout.map _
    · exact (selfLoops_sublist n c hout).append (handleFindings_sublist n c hout)

/-- The errors but for those on the start, check by check. -/
theorem filter_errors_validate (f : Flow) :
    (f.validate.errors.filter fun x => x.code ≠ .ambiguousStart) =
      (danglingEdges f ++ (f.nodes.flatMap configFindings).filter Finding.isError ++
        repeatedBranches [] f.edges ++ f.nodes.flatMap (outgoingFindings f)).filter
          fun x => x.code ≠ .ambiguousStart := by
  have hstart : ((startFindings f).filter fun x => x.code ≠ .ambiguousStart) = [] := by
    rw [List.filter_eq_nil_iff]
    intro x hx
    simp [code_of_mem_startFindings hx]
  rw [errors_validate, List.filter_append, hstart, List.append_nil]

/-- The errors of a part are errors of the whole, apart from those on the start. -/
theorem errors_sublist (h : g.PartOf f) :
    (g.validate.errors.filter fun x => x.code ≠ .ambiguousStart).Sublist
      (f.validate.errors.filter fun x => x.code ≠ .ambiguousStart) := by
  rw [filter_errors_validate, filter_errors_validate]
  refine List.Sublist.filter _ (((List.Sublist.append ?_ ?_).append ?_).append ?_)
  · exact danglingEdges_sublist h
  · exact (configFindings_sublist h).filter _
  · exact repeatedBranches_sublist h.edges fun _ hkey => hkey
  · exact flatMap_sublist h.nodes fun n _ => outgoingFindings_sublist h n

end Validation

/-! ## Deletions -/

/-- An operation that only takes something away from a flow. -/
inductive Edit.Deletes : Edit → Prop where
  | node (id : String) : Deletes (.remove id)
  | edge (id : String) : Deletes (.disconnect id)

namespace Editor

variable {op : Edit}

/-- A deletion leaves a part of the flow, or all of it where nothing has the id. -/
theorem partOf_of_deletes (e : Editor) (h : op.Deletes) : (e.apply op).1.flow.PartOf e.flow := by
  rcases e.apply_cases op with hsame | ⟨g, hg, hchange⟩
  · rw [hsame]
    exact e.flow.partOf_self
  · rw [hg]
    cases h with
    | node id =>
      cases hchange with
      | remove hnode => exact e.flow.partOf_removeNode id
    | edge id =>
      cases hchange with
      | disconnect hedge => exact e.flow.partOf_filterEdges _

/-- A deletion never fails. -/
theorem apply_snd_of_deletes (e : Editor) (h : op.Deletes) : (e.apply op).2 = .ok .done := by
  cases h with
  | node id =>
    change (e.remove id).2 = _
    unfold remove
    split <;> rfl
  | edge id =>
    change (e.disconnect id).2 = _
    unfold disconnect
    split <;> rfl

/-- **Deletions add no errors, except on the start.** Whatever the flow is, to remove a node or to
disconnect an edge never fails, and each error that is reported afterwards and is not about the
start was reported before. None of these errors comes more often than before, and they keep their
order. -/
theorem errors_of_deletion (e : Editor) (h : op.Deletes) :
    (e.apply op).2 = .ok .done ∧
    (∀ x ∈ (e.apply op).1.flow.validate.errors, x.code ≠ .ambiguousStart →
      x ∈ e.flow.validate.errors) ∧
    ((e.apply op).1.flow.validate.errors.filter fun x => x.code ≠ .ambiguousStart).Sublist
      (e.flow.validate.errors.filter fun x => x.code ≠ .ambiguousStart) := by
  have hsublist := Validation.errors_sublist (e.partOf_of_deletes h)
  refine ⟨e.apply_snd_of_deletes h, fun x hx hcode => ?_, hsublist⟩
  exact (List.mem_filter.mp (hsublist.subset (List.mem_filter.mpr ⟨hx, by simpa using hcode⟩))).1

/-- A greeting without a message that leads to the end of the call. -/
def mute : Editor :=
  .ofFlow ⟨[⟨"greet", "Greet", .known (.prompt ⟨none, none, none⟩), Node.origin⟩,
      ⟨"bye", "Bye", .known .hangup, Node.origin⟩], [⟨"e1", "greet", "bye", none⟩], none, by decide⟩

/-- Without the edge the message is still missing, and where a call begins is not clear any more. -/
theorem errors_of_deletion_mute : Edit.Deletes (.disconnect "e1") ∧
    (mute.apply (.disconnect "e1")).1.flow.validate.errors =
      [.incompleteConfig "greet" "Greet" .prompt "message or audioUrl", .startAmbiguous []] ∧
    .incompleteConfig "greet" "Greet" .prompt "message or audioUrl" ∈ mute.flow.validate.errors ∧
    .startAmbiguous [] ∉ mute.flow.validate.errors := by
  have hdeletes : Edit.Deletes (.disconnect "e1") := .edge "e1"
  have hafter : (mute.apply (.disconnect "e1")).1.flow.validate.errors =
      [.incompleteConfig "greet" "Greet" .prompt "message or audioUrl", .startAmbiguous []] := by
    decide +kernel
  obtain ⟨-, hbefore, -⟩ := errors_of_deletion mute hdeletes
  refine ⟨hdeletes, hafter, hbefore _ ?_ (by decide), by decide +kernel⟩
  rw [hafter]
  exact List.mem_cons_self

end Editor

end CallFlow
