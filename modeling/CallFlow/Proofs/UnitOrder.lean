import CallFlow.Proofs.Compilation
import CallFlow.Proofs.KeypadOrder

/-!
# The order of the units

The units of a script stand in the order of the recursive depth-first search that takes the edges of
each node in keypad order. `Flow.InKeypadOrder` says what it is to take them in that order without
saying how they are sorted. A compilable flow leaves one way to do so
(`Flow.InKeypadOrder.eq_branchesOf`), because no two edges leave a node by one handle, so the search
has one result (`Flow.depthFirst_labels_iff`).
-/

namespace CallFlow

namespace Flow

variable {f : Flow} {policy : Policy} {s : Script}

/-- For each node the edges that leave it, in keypad order. -/
structure InKeypadOrder (f : Flow) (branches : String → List Edge) : Prop where
  perm : ∀ id, (branches id).Perm (f.outgoing id)
  sorted : ∀ id, (branches id).Pairwise fun a b => Keypad.le a.handle b.handle

/-- The branches of a node are its edges in keypad order. -/
theorem inKeypadOrder_branchesOf (f : Flow) : f.InKeypadOrder (Compilation.branchesOf f) where
  perm id := Keypad.sortBy_perm Edge.handle (f.outgoing id)
  sorted id := Keypad.pairwise_sortBy (f.outgoing id)

/-- The edges of a compilable flow have one keypad order. -/
theorem InKeypadOrder.eq_branchesOf {branches : String → List Edge}
    (h : f.InKeypadOrder branches) (hf : f.Compilable) :
    branches = Compilation.branchesOf f := by
  funext id
  exact Keypad.eq_sortBy_of_perm (hf.nodup_handles id) (h.perm id) (h.sorted id)

/-- The labels of a script are what the search along the sorted edges finds. -/
theorem depthFirst_labels (h : f.compile policy = .ok s) :
    Traversal.DepthFirst (Compilation.successors f) [] [s.start] s.labels := by
  obtain ⟨hcompilable, hstart, -⟩ := compile_eq_ok h
  rw [labels_compile h]
  exact Compilation.depthFirst_order hcompilable (mem_ids_of_resolveStart hstart)

/-- **The order of the units.** A script starts where a call begins, and its labels are the result
of the recursive search from there that takes the edges of each node in keypad order and passes over
nodes it has seen. So the first unit is the one at the start, no label occurs twice, and the labels
are exactly the nodes that a call can get to. -/
theorem depthFirst_labels_iff (h : f.compile policy = .ok s) :
    f.resolveStart = some s.start ∧
    (∃ branches, f.InKeypadOrder branches) ∧
    (∀ branches, f.InKeypadOrder branches → ∀ visited,
      Traversal.DepthFirst (fun id => (branches id).map Edge.target) [] [s.start] visited ↔
        visited = s.labels) ∧
    s.labels.head? = some s.start ∧ s.labels.Nodup ∧
    ∀ id, id ∈ s.labels ↔ f.Reaches s.start id := by
  obtain ⟨hcompilable, hstart, -⟩ := compile_eq_ok h
  have hsearch := depthFirst_labels h
  refine ⟨hstart, ⟨_, inKeypadOrder_branchesOf f⟩, fun branches hbranches visited => ?_,
    hsearch.head?_eq List.not_mem_nil, hsearch.nodup, fun id => mem_labels_compile_iff h⟩
  rw [hbranches.eq_branchesOf hcompilable]
  constructor
  · exact fun hvisited => hvisited.unique hsearch
  · rintro rfl
    exact hsearch

/-- A flow with a way back: from the menu to the hours and to the end, and from the hours to the
menu again. The edges are not listed in keypad order. -/
def wayBack : Flow where
  nodes := [⟨"bye", "Bye", .known .hangup, Node.origin⟩,
    ⟨"menu", "Menu", .known (.key ⟨[("1", "Hours"), ("2", "Leave"), ("0", "Again")],
      some "Press 1.", none, none⟩), Node.origin⟩,
    ⟨"hours", "Hours", .known (.prompt ⟨some "Nine to five.", none, none⟩), Node.origin⟩]
  edges := [⟨"e1", "menu", "menu", some "0"⟩, ⟨"e2", "menu", "bye", some "2"⟩,
    ⟨"e3", "hours", "menu", none⟩, ⟨"e4", "menu", "hours", some "1"⟩]
  start := some "menu"
  distinct := by decide

/-- The hours are searched before the end, and what leads back to the menu adds nothing. -/
theorem depthFirst_labels_wayBack : ∃ s, wayBack.compile .hangup = .ok s ∧
    s.labels = ["menu", "hours", "bye"] ∧ wayBack.resolveStart = some "menu" ∧
    (∀ branches, wayBack.InKeypadOrder branches →
      Traversal.DepthFirst (fun id => (branches id).map Edge.target) [] ["menu"]
        ["menu", "hours", "bye"]) ∧
    wayBack.Reaches "menu" "bye" := by
  obtain ⟨s, hs⟩ : ∃ s, wayBack.compile .hangup = .ok s := ⟨_, rfl⟩
  have hstart : s.start = "menu" := by cases hs; rfl
  have hlabels : s.labels = ["menu", "hours", "bye"] := by cases hs; rfl
  obtain ⟨hresolve, -, hsearch, -, -, hreach⟩ := depthFirst_labels_iff hs
  rw [hstart, hlabels] at hsearch
  rw [hstart] at hresolve hreach
  exact ⟨s, hs, hlabels, hresolve, fun branches h => (hsearch branches h _).mpr rfl,
    (hreach "bye").mp (hlabels ▸ by decide)⟩

end Flow

end CallFlow
