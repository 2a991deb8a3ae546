import CallFlow.Traversal
import Mathlib.Data.List.TakeWhile
import Mathlib.Logic.Relation
import Mathlib.Tactic.Tauto

/-!
# The stack and the recursive depth-first search

`Traversal.visit` goes through a graph with a stack on which one vertex may wait several times.
`DepthFirst` is the search as it is usually told: take the vertices that wait one after the other,
pass over those that have been seen, and go through everything behind a vertex before the next one
is taken. It is a relation, so it needs no bound on the number of visits.

* `depthFirst_visit`: the traversal with a stack finds what the recursive search finds, in the same
  order, as long as no successor lies outside the list of vertices.
* `DepthFirst.unique`: the recursive search has one result.
* `DepthFirst.nodup`, `DepthFirst.closed`: nothing is found twice, and what lies behind a vertex
  that was found has been found or was seen before.
* `mem_preorder_iff`: `preorder` lists exactly the vertices that can be reached from the start.
-/

namespace CallFlow.Traversal

variable {α : Type}

/-! ## The recursive search -/

/-- The recursive search that has seen the vertices of a first list and takes those of a second
list one after the other finds the vertices of a third list, in this order. -/
inductive DepthFirst (successors : α → List α) : List α → List α → List α → Prop
  /-- Nothing waits. -/
  | done (seen : List α) : DepthFirst successors seen [] []
  /-- A vertex that has been seen is passed over. -/
  | skip {seen rest found : List α} {x : α} :
      x ∈ seen → DepthFirst successors seen rest found →
        DepthFirst successors seen (x :: rest) found
  /-- A new vertex is found, then everything behind it, then the rest. -/
  | enter {seen rest inner found : List α} {x : α} :
      x ∉ seen → DepthFirst successors (x :: seen) (successors x) inner →
        DepthFirst successors (inner ++ x :: seen) rest found →
          DepthFirst successors seen (x :: rest) (x :: inner ++ found)

/-- One vertex is a successor of another. -/
def Follows (successors : α → List α) (x y : α) : Prop := y ∈ successors x

/-- A vertex can be reached from another by going from successor to successor. -/
def Reaches (successors : α → List α) : α → α → Prop :=
  Relation.ReflTransGen (Follows successors)

namespace DepthFirst

variable {successors : α → List α}

/-- Of the vertices seen it matters only which they are. -/
theorem congr_seen {seen seen' waiting found : List α}
    (h : DepthFirst successors seen waiting found) (hs : ∀ x, x ∈ seen ↔ x ∈ seen') :
    DepthFirst successors seen' waiting found := by
  induction h generalizing seen' with
  | done seen => exact .done _
  | skip hx _ ih => exact .skip ((hs _).mp hx) (ih hs)
  | @enter seen rest inner found x hx _ _ ihInner ihRest =>
    refine .enter (fun hx' => hx ((hs x).mpr hx')) (ihInner ?_) (ihRest ?_)
    · intro y
      simp only [List.mem_cons, hs y]
    · intro y
      simp only [List.mem_append, List.mem_cons, hs y]

/-- Vertices that have been seen may wait in front. -/
theorem skip_all {seen waiting found : List α} (h : DepthFirst successors seen waiting found) :
    ∀ ws : List α, (∀ x ∈ ws, x ∈ seen) → DepthFirst successors seen (ws ++ waiting) found
  | [], _ => h
  | w :: ws, hw =>
    .skip (hw w List.mem_cons_self) (skip_all h ws fun x hx => hw x (List.mem_cons_of_mem _ hx))

/-- Vertices that have been seen need not wait. -/
theorem filter_waiting {p : α → Bool} {seen waiting found : List α}
    (h : DepthFirst successors seen waiting found)
    (hp : ∀ x ∈ waiting, p x = false → x ∈ seen) :
    DepthFirst successors seen (waiting.filter p) found := by
  induction h with
  | done seen => exact .done seen
  | @skip seen rest found x hx _ ih =>
    have hrest := ih fun y hy => hp y (List.mem_cons_of_mem x hy)
    by_cases hpx : p x
    · rw [List.filter_cons_of_pos hpx]
      exact .skip hx hrest
    · rwa [List.filter_cons_of_neg hpx]
  | @enter seen rest inner found x hx hinner _ _ ih =>
    have hpx : p x := by
      by_contra hdropped
      exact hx (hp x List.mem_cons_self (by simpa using hdropped))
    rw [List.filter_cons_of_pos hpx]
    refine .enter hx hinner (ih fun y hy hdropped => ?_)
    have hseen := hp y (List.mem_cons_of_mem x hy) hdropped
    exact List.mem_append_right inner (List.mem_cons_of_mem x hseen)

/-- Successors may be given in another way from which the same is found. -/
theorem of_successors {successors' : α → List α} {seen waiting found : List α}
    (h : DepthFirst successors seen waiting found)
    (hs : ∀ x seen found, DepthFirst successors' seen (successors x) found →
      DepthFirst successors' seen (successors' x) found) :
    DepthFirst successors' seen waiting found := by
  induction h with
  | done seen => exact .done seen
  | skip hx _ ih => exact .skip hx ih
  | @enter _ _ _ _ x hx _ _ ihInner ihRest => exact .enter hx (hs x _ _ ihInner) ihRest

/-- A search through two lists is a search through the first and then one through the second,
which has also seen what the first one found. -/
theorem split_append {seen waiting found : List α}
    (h : DepthFirst successors seen waiting found) :
    ∀ xs ys : List α, waiting = xs ++ ys →
      ∃ found₁ found₂, found = found₁ ++ found₂ ∧ DepthFirst successors seen xs found₁ ∧
        DepthFirst successors (found₁ ++ seen) ys found₂ := by
  induction h with
  | done seen =>
    intro xs ys hw
    obtain ⟨rfl, rfl⟩ := List.append_eq_nil_iff.mp hw.symm
    exact ⟨[], [], rfl, .done _, .done _⟩
  | @skip seen rest found x hx hrest ih =>
    intro xs ys hw
    cases xs with
    | nil =>
      rw [List.nil_append] at hw
      subst hw
      exact ⟨[], found, rfl, .done _, .skip hx hrest⟩
    | cons z zs =>
      obtain ⟨rfl, rfl⟩ := List.cons.inj hw
      obtain ⟨found₁, found₂, rfl, h₁, h₂⟩ := ih zs ys rfl
      exact ⟨found₁, found₂, rfl, .skip hx h₁, h₂⟩
  | @enter seen rest inner found x hx hinner hrest _ ih =>
    intro xs ys hw
    cases xs with
    | nil =>
      rw [List.nil_append] at hw
      subst hw
      exact ⟨[], _, rfl, .done _, .enter hx hinner hrest⟩
    | cons z zs =>
      obtain ⟨rfl, rfl⟩ := List.cons.inj hw
      obtain ⟨found₁, found₂, rfl, h₁, h₂⟩ := ih zs ys rfl
      refine ⟨x :: inner ++ found₁, found₂, by simp, .enter hx hinner h₁, h₂.congr_seen ?_⟩
      intro y
      simp only [List.mem_append, List.mem_cons]
      tauto

/-- The search has one result. -/
theorem unique {seen waiting found found' : List α}
    (h : DepthFirst successors seen waiting found)
    (h' : DepthFirst successors seen waiting found') : found = found' := by
  induction h generalizing found' with
  | done seen =>
    cases h'
    rfl
  | skip hx _ ih =>
    cases h' with
    | skip _ hrest => exact ih hrest
    | enter hx' _ _ => exact absurd hx hx'
  | enter hx _ _ ihInner ihRest =>
    cases h' with
    | skip hx' _ => exact absurd hx' hx
    | enter _ hinner hrest =>
      obtain rfl := ihInner hinner
      rw [ihRest hrest]

/-- Nothing is found that has been seen before. -/
theorem not_mem_seen {seen waiting found : List α}
    (h : DepthFirst successors seen waiting found) : ∀ x ∈ found, x ∉ seen := by
  induction h with
  | done seen => exact fun x hx => absurd hx List.not_mem_nil
  | skip _ _ ih => exact ih
  | @enter seen rest inner found x hx _ _ ihInner ihRest =>
    intro y hy hseen
    rcases List.mem_append.mp hy with hy | hy
    · rcases List.mem_cons.mp hy with rfl | hy
      · exact hx hseen
      · exact ihInner y hy (List.mem_cons_of_mem _ hseen)
    · exact ihRest y hy (List.mem_append_right _ (List.mem_cons_of_mem _ hseen))

/-- Nothing is found twice. -/
theorem nodup {seen waiting found : List α}
    (h : DepthFirst successors seen waiting found) : found.Nodup := by
  induction h with
  | done seen => exact List.nodup_nil
  | skip _ _ ih => exact ih
  | @enter seen rest inner found x hx hinner hrest ihInner ihRest =>
    rw [List.nodup_append]
    refine ⟨List.nodup_cons.mpr ⟨fun hm => ?_, ihInner⟩, ihRest, ?_⟩
    · exact hinner.not_mem_seen x hm List.mem_cons_self
    · rintro y hy z hz rfl
      refine hrest.not_mem_seen y hz ?_
      rcases List.mem_cons.mp hy with rfl | hy
      · exact List.mem_append_right _ List.mem_cons_self
      · exact List.mem_append_left _ hy

/-- A search from one new vertex comes to that vertex first. -/
theorem head?_eq {seen found : List α} {x : α} (h : DepthFirst successors seen [x] found)
    (hx : x ∉ seen) : found.head? = some x := by
  cases h with
  | skip hseen _ => exact absurd hseen hx
  | enter _ _ _ => rfl

/-- What waited was found or had been seen. -/
theorem mem_of_mem_waiting {seen waiting found : List α}
    (h : DepthFirst successors seen waiting found) : ∀ x ∈ waiting, x ∈ seen ∨ x ∈ found := by
  induction h with
  | done seen => exact fun x hx => absurd hx List.not_mem_nil
  | skip hx _ ih =>
    intro y hy
    rcases List.mem_cons.mp hy with rfl | hy
    · exact .inl hx
    · exact ih y hy
  | enter _ _ _ _ ih =>
    intro y hy
    rcases List.mem_cons.mp hy with rfl | hy
    · exact .inr (by simp)
    · have := ih y hy
      simp only [List.mem_append, List.mem_cons] at this ⊢
      tauto

/-- What lies behind a vertex that was found was found or had been seen. -/
theorem closed {seen waiting found : List α} (h : DepthFirst successors seen waiting found) :
    ∀ x ∈ found, ∀ y ∈ successors x, y ∈ seen ∨ y ∈ found := by
  induction h with
  | done seen => exact fun x hx => absurd hx List.not_mem_nil
  | skip _ _ ih => exact ih
  | @enter seen rest inner found x _ hinner _ ihInner ihRest =>
    have hx := hinner.mem_of_mem_waiting
    intro y hy z hz
    simp only [List.mem_append, List.mem_cons] at hx ihInner ihRest hy ⊢
    rcases hy with (rfl | hy) | hy
    · have := hx z hz
      tauto
    · have := ihInner y hy z hz
      tauto
    · have := ihRest y hy z hz
      tauto

/-- What was found can be reached from something that waited. -/
theorem reaches_of_mem {seen waiting found : List α}
    (h : DepthFirst successors seen waiting found) :
    ∀ x ∈ found, ∃ w ∈ waiting, Reaches successors w x := by
  induction h with
  | done seen => exact fun x hx => absurd hx List.not_mem_nil
  | skip _ _ ih =>
    intro x hx
    obtain ⟨w, hw, hr⟩ := ih x hx
    exact ⟨w, List.mem_cons_of_mem _ hw, hr⟩
  | @enter seen rest inner found x _ _ _ ihInner ihRest =>
    intro y hy
    rcases List.mem_append.mp hy with hy | hy
    · refine ⟨x, List.mem_cons_self, ?_⟩
      rcases List.mem_cons.mp hy with rfl | hy
      · exact .refl
      · obtain ⟨w, hw, hr⟩ := ihInner y hy
        exact .head hw hr
    · obtain ⟨w, hw, hr⟩ := ihRest y hy
      exact ⟨w, List.mem_cons_of_mem _ hw, hr⟩

/-- A search that had seen nothing finds exactly what can be reached from what waited. -/
theorem mem_iff {waiting found : List α} (h : DepthFirst successors [] waiting found) {x : α} :
    x ∈ found ↔ ∃ w ∈ waiting, Reaches successors w x := by
  refine ⟨h.reaches_of_mem x, ?_⟩
  rintro ⟨w, hw, hr⟩
  have hstart : w ∈ found := by simpa using h.mem_of_mem_waiting w hw
  induction hr with
  | refl => exact hstart
  | tail _ hlast ih => simpa using h.closed _ ih _ hlast

end DepthFirst

/-! ## The search with a stack -/

variable [DecidableEq α] {successors : α → List α}

/-- The search with a stack is the recursive one. The vertices that may still be visited are those
that have not been seen, and there are no more of them than visits allowed. -/
theorem depthFirst_visit {vertices : List α}
    (hclosed : ∀ x ∈ vertices, ∀ y ∈ successors x, y ∈ vertices) :
    ∀ (count : Nat) (unvisited stack seen : List α), unvisited.Nodup →
      unvisited.length ≤ count → (∀ x ∈ vertices, x ∈ unvisited ↔ x ∉ seen) →
        (∀ x ∈ stack, x ∈ vertices) →
          DepthFirst successors seen stack (visit successors count unvisited stack)
  | 0, unvisited, stack, seen, _, hcount, hseen, hstack => by
    obtain rfl : unvisited = [] := List.eq_nil_of_length_eq_zero (Nat.le_zero.mp hcount)
    have hall : ∀ x ∈ stack, x ∈ seen := fun x hx => by
      simpa using hseen x (hstack x hx)
    simpa [visit] using (DepthFirst.done seen).skip_all stack hall
  | count + 1, unvisited, stack, seen, hnodup, hcount, hseen, hstack => by
    have hsplit := List.takeWhile_append_dropWhile (p := fun x => decide (x ∉ unvisited))
      (l := stack)
    have hfront : ∀ x ∈ stack.takeWhile (fun x => decide (x ∉ unvisited)), x ∈ seen := by
      intro x hx
      have hnew := List.mem_takeWhile_imp hx
      have hvertex := hstack x ((List.takeWhile_prefix _).subset hx)
      simpa [hseen x hvertex] using hnew
    rw [visit]
    generalize hdrop : stack.dropWhile (fun x => decide (x ∉ unvisited)) = behind at hsplit
    rw [← hsplit]
    refine DepthFirst.skip_all ?_ _ hfront
    cases behind with
    | nil => exact .done _
    | cons x rest =>
      have hx : x ∈ unvisited := by
        have := List.head?_dropWhile_not (fun x => decide (x ∉ unvisited)) stack
        rw [hdrop] at this
        simpa using this
      have hmem : ∀ y ∈ x :: rest, y ∈ vertices := fun y hy =>
        hstack y ((List.dropWhile_suffix _).subset (hdrop ▸ hy))
      have hvertex := hmem x List.mem_cons_self
      -- the stack under the successors of `x` is what waits beside them
      have ih := depthFirst_visit hclosed count (unvisited.erase x) (successors x ++ rest)
        (x :: seen) (hnodup.erase x)
        (by rw [List.length_erase_of_mem hx]; omega)
        (fun y hy => by
          rw [hnodup.mem_erase_iff, hseen y hy, List.mem_cons, not_or])
        (fun y hy => by
          rcases List.mem_append.mp hy with hy | hy
          · exact hclosed x hvertex y hy
          · exact hmem y (List.mem_cons_of_mem _ hy))
      obtain ⟨inner, found, hfound, hinner, hrest⟩ := ih.split_append _ _ rfl
      simp only [hfound]
      exact .enter ((hseen x hvertex).mp hx) hinner hrest

/-- The vertices reached from a start are what the recursive search finds from there. -/
theorem depthFirst_preorder {vertices : List α} {start : α} (hnodup : vertices.Nodup)
    (hclosed : ∀ x ∈ vertices, ∀ y ∈ successors x, y ∈ vertices) (hstart : start ∈ vertices) :
    DepthFirst successors [] [start] (preorder successors vertices start) := by
  unfold preorder
  refine depthFirst_visit hclosed _ vertices [start] [] hnodup le_rfl ?_ ?_
  · intro x hx
    simpa using hx
  · intro x hx
    rw [List.mem_singleton] at hx
    exact hx ▸ hstart

/-- Exactly the vertices that can be reached from the start are listed. -/
theorem mem_preorder_iff {vertices : List α} {start x : α} (hnodup : vertices.Nodup)
    (hclosed : ∀ x ∈ vertices, ∀ y ∈ successors x, y ∈ vertices) (hstart : start ∈ vertices) :
    x ∈ preorder successors vertices start ↔ Reaches successors start x := by
  rw [(depthFirst_preorder hnodup hclosed hstart).mem_iff]
  simp

end CallFlow.Traversal
