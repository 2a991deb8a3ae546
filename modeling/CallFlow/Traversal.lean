/-!
# Depth-first traversal

The order in which a depth-first search visits the vertices of a finite graph that is given by the
list of successors of each vertex. `Traversal.preorder` keeps the vertices still to be looked at on
a stack, where one vertex may wait several times, and visits the first of them that has not been
visited.
-/

namespace CallFlow.Traversal

variable {α : Type} [DecidableEq α]

/-- Visits the vertices that wait on a stack, and what is found behind them. Only vertices of the
list `unvisited` are visited, each one once; the count bounds the number of visits, and the length
of `unvisited` is always enough. -/
def visit (successors : α → List α) : Nat → List α → List α → List α
  | 0, _, _ => []
  | count + 1, unvisited, stack =>
    match stack.dropWhile (· ∉ unvisited) with
    | [] => []
    | x :: rest => x :: visit successors count (unvisited.erase x) (successors x ++ rest)

/-- The vertices reached from a start, in the order of the search. -/
def preorder (successors : α → List α) (vertices : List α) (start : α) : List α :=
  visit successors vertices.length vertices [start]

/-- Whether a vertex is reached from a start. -/
def reaches (successors : α → List α) (vertices : List α) (start x : α) : Bool :=
  x ∈ preorder successors vertices start

/-- A visited vertex was waiting to be visited. -/
theorem mem_of_mem_visit {successors : α → List α} {count : Nat} {unvisited stack : List α} {x : α}
    (h : x ∈ visit successors count unvisited stack) : x ∈ unvisited := by
  induction count generalizing unvisited stack with
  | zero => simp [visit] at h
  | succ count ih =>
    simp only [visit] at h
    split at h
    · simp at h
    · rename_i y rest hd
      have hy : y ∈ unvisited := by
        have := List.head?_dropWhile_not (fun a => decide (a ∉ unvisited)) stack
        rw [hd] at this
        simpa using this
      rcases List.mem_cons.mp h with rfl | h
      · exact hy
      · exact List.mem_of_mem_erase (ih h)

end CallFlow.Traversal
