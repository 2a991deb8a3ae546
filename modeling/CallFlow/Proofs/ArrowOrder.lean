import CallFlow.Proofs.OutlineFaults

/-!
# The order of the arrows in an outline

The item of a node has one arrow for each edge that leads from it to a node. The edges are put in
keypad order first, but the arrows to one place are then moved together, to the first of them
(`Outline.gather`). So the arrows are in keypad order only as far as they lead to one place, and the
places are in the order of their first arrows. All arrows of a node are in keypad order exactly if
no edge to another place comes between two edges to one place (`Outline.Unmixed`).

* `Outline.filter_gather`, `Outline.targets_gather`: what gathering keeps.
* `Outline.gather_eq_self_iff`: when it changes nothing.
* `Outline.edges_item`: the edges of an item are those of its node in keypad order, gathered.
* `Flow.arrows_outline`: what this means for the items of an outline.
* `Flow.arrows_mixed`: a node whose arrows are not in keypad order.
-/

namespace CallFlow

namespace Outline

variable {f : Flow} {out : List Edge}

/-! ## Gathering -/

/-- Some edges, those to one target together and at the place of the first of them. -/
def gather (out : List Edge) : List Edge :=
  (targets out).flatMap fun t => out.filter fun e => e.target = t

/-- No edge to another target comes between two edges to one target. -/
def Unmixed (out : List Edge) : Prop :=
  ∀ a b c, [a, b, c].Sublist out → a.target = c.target → b.target = a.target

/-- Each target is listed once. -/
theorem nodup_targets : ∀ out : List Edge, (targets out).Nodup
  | [] => List.nodup_nil
  | e :: rest => by
    refine List.nodup_cons.mpr ⟨?_, (nodup_targets rest).filter _⟩
    simp

/-- The targets of some of the edges, where it goes by the target which ones. -/
theorem targets_filter (p : String → Bool) : ∀ out : List Edge,
    targets (out.filter fun e => p e.target) = (targets out).filter p
  | [] => rfl
  | e :: rest => by
    rw [List.filter_cons, targets, List.filter_cons, List.filter_filter]
    split
    · rw [targets, targets_filter p rest, List.filter_filter]
      simp only [Bool.and_comm]
    · rename_i hp
      rw [targets_filter p rest]
      refine List.filter_congr fun t _ => ?_
      by_cases ht : t = e.target
      · simp [ht, hp]
      · simp [ht]

/-- The first edge brings those to its target with it. -/
theorem gather_cons (e : Edge) (rest : List Edge) : gather (e :: rest) =
    (e :: rest.filter fun g => g.target = e.target) ++
      gather (rest.filter fun g => g.target ≠ e.target) := by
  have hothers : ∀ t ∈ (targets rest).filter (· ≠ e.target),
      ((e :: rest).filter fun g => g.target = t) =
        (rest.filter fun g => g.target ≠ e.target).filter fun g => g.target = t := by
    intro t ht
    have hne : t ≠ e.target := by simpa using (List.mem_filter.mp ht).2
    rw [List.filter_cons_of_neg (by simpa using hne.symm), List.filter_filter]
    refine List.filter_congr fun g _ => ?_
    by_cases hg : g.target = t
    · simp [hg, hne]
    · simp [hg]
  rw [gather, targets, List.flatMap_cons, List.filter_cons_of_pos (by simp), gather,
    targets_filter fun t => t ≠ e.target]
  congr 1
  rw [List.flatMap_def, List.map_congr_left hothers, ← List.flatMap_def]

/-- The edges to one target keep their order. -/
theorem filter_gather (t : String) (out : List Edge) :
    (gather out).filter (fun e => e.target = t) = out.filter fun e => e.target = t := by
  by_cases ht : t ∈ targets out
  · have htag : ∀ t', ∀ e ∈ out.filter (fun e => e.target = t'), some e.target = some (id t') := by
      intro t' e he
      simpa using (List.mem_filter.mp he).2
    have hkeys : ((targets out).map id).Nodup := by
      rw [List.map_id]
      exact nodup_targets out
    have hpart : (gather out).filter (fun e => some e.target = some t) = _ :=
      Validation.filter_flatMap_of_tag htag hkeys ht
    simpa only [Option.some.injEq] using hpart
  · have hnone : ∀ e ∈ out, e.target ≠ t := fun e he hsame =>
      ht (mem_targets_iff.mpr ⟨e, he, hsame⟩)
    have hgathered : ∀ e ∈ gather out, e.target ≠ t := by
      intro e he
      obtain ⟨_, -, he⟩ := List.mem_flatMap.mp he
      exact hnone e (List.mem_filter.mp he).1
    rw [List.filter_eq_nil_iff.mpr, List.filter_eq_nil_iff.mpr]
    · simpa using hnone
    · simpa using hgathered

/-- Gathering keeps the edges. -/
theorem gather_perm (out : List Edge) : (gather out).Perm out := by
  rw [List.perm_iff_count]
  intro e
  have hpart := congrArg (List.count e) (filter_gather e.target out)
  rwa [List.count_filter (by simp), List.count_filter (by simp)] at hpart

/-- The targets keep the order of their first edges. -/
theorem targets_gather : ∀ out : List Edge, targets (gather out) = targets out
  | [] => rfl
  | e :: rest => by
    have hothers : (gather (rest.filter fun g => g.target ≠ e.target)).filter
        (fun g => g.target ≠ e.target) = gather (rest.filter fun g => g.target ≠ e.target) := by
      rw [List.filter_eq_self]
      intro g hg
      exact (List.mem_filter.mp ((gather_perm _).mem_iff.mp hg)).2
    have hsame : (rest.filter fun g => g.target = e.target).filter
        (fun g => g.target ≠ e.target) = [] := by
      rw [List.filter_filter, List.filter_eq_nil_iff]
      intro g _
      simp
    rw [gather_cons, List.cons_append, targets, targets,
      ← targets_filter (fun t => t ≠ e.target), List.filter_append, hsame, hothers, List.nil_append,
      targets_gather, targets_filter fun t => t ≠ e.target]
termination_by out => out.length
decreasing_by
  simpa using Nat.lt_succ_of_le (List.length_filter_le _ rest)

/-- Where edges to one target come first and edges to others behind them, none comes between two to
one target if that is so for the others. -/
theorem Unmixed.append {front back : List Edge} {t : String} (hfront : ∀ e ∈ front, e.target = t)
    (hback : ∀ e ∈ back, e.target ≠ t) (h : Unmixed back) : Unmixed (front ++ back) := by
  intro a b c habc hac
  obtain ⟨first, last, hsplit, hfirst, hlast⟩ := List.sublist_append_iff.mp habc
  cases first with
  | nil =>
    obtain rfl : last = [a, b, c] := hsplit.symm
    exact h a b c hlast hac
  | cons x first =>
    -- the first of the three edges is one of those in front, so the last of them is as well
    rw [List.cons_append] at hsplit
    obtain ⟨rfl, hrest⟩ := List.cons.inj hsplit
    have ha : a.target = t := hfront a (hfirst.subset List.mem_cons_self)
    rcases List.eq_nil_or_concat last with rfl | ⟨init, z, hconcat⟩
    · rw [List.append_nil] at hrest
      have hb : b ∈ a :: first := by simp [← hrest]
      rw [ha, hfront b (hfirst.subset hb)]
    · rw [List.concat_eq_append] at hconcat
      subst hconcat
      have hlastEdge := congrArg List.getLast? hrest
      rw [← List.append_assoc, List.getLast?_concat] at hlastEdge
      obtain rfl : c = z := by simpa using hlastEdge
      have hc : c ∈ back := hlast.subset (by simp)
      exact absurd (hac.symm.trans ha) (hback c hc)

/-- Gathered edges are not mixed. -/
theorem unmixed_gather : ∀ out : List Edge, Unmixed (gather out)
  | [] => by
    intro a b c habc
    cases habc
  | e :: rest => by
    rw [gather_cons]
    refine Unmixed.append (t := e.target) ?_ ?_ (unmixed_gather _)
    · intro g hg
      rcases List.mem_cons.mp hg with rfl | hg
      · rfl
      · simpa using (List.mem_filter.mp hg).2
    · intro g hg
      simpa using (List.mem_filter.mp ((gather_perm _).mem_iff.mp hg)).2
termination_by out => out.length
decreasing_by
  simpa using Nat.lt_succ_of_le (List.length_filter_le _ rest)

/-- Edges that are left out do not mix the others. -/
theorem Unmixed.sublist {edges : List Edge} (h : Unmixed out) (hsub : edges.Sublist out) :
    Unmixed edges := fun a b c habc => h a b c (habc.trans hsub)

/-- Behind an edge, those to its target come first if the edges are not mixed. -/
theorem Unmixed.filter_append_filter {e : Edge} : ∀ {rest : List Edge}, Unmixed (e :: rest) →
    (rest.filter fun g => g.target = e.target) ++ (rest.filter fun g => g.target ≠ e.target) = rest
  | [], _ => rfl
  | g :: rest, h => by
    have hrest : Unmixed (e :: rest) := h.sublist ((List.sublist_cons_self g rest).cons_cons e)
    by_cases hg : g.target = e.target
    · rw [List.filter_cons_of_pos (by simpa using hg), List.filter_cons_of_neg (by simpa using hg),
        List.cons_append, hrest.filter_append_filter]
    · -- an edge to the target behind this one would be mixed with the first
      have hothers : ∀ x ∈ rest, x.target ≠ e.target := by
        intro x hx hsame
        refine hg (h e g x ?_ hsame.symm)
        exact ((List.singleton_sublist.mpr hx).cons_cons g).cons_cons e
      rw [List.filter_eq_nil_iff.mpr, List.filter_eq_self.mpr, List.nil_append]
      · simpa using ⟨hg, hothers⟩
      · simpa using ⟨hg, hothers⟩

/-- Where no edge comes between others, gathering changes nothing. -/
theorem gather_of_unmixed : ∀ {out : List Edge}, Unmixed out → gather out = out
  | [], _ => rfl
  | e :: rest, h => by
    have hothers : Unmixed (rest.filter fun g => g.target ≠ e.target) :=
      h.sublist (List.filter_sublist.cons e)
    rw [gather_cons, gather_of_unmixed hothers, List.cons_append, h.filter_append_filter]
termination_by out => out.length
decreasing_by
  simpa using Nat.lt_succ_of_le (List.length_filter_le _ rest)

/-- **When gathering changes nothing.** -/
theorem gather_eq_self_iff : gather out = out ↔ Unmixed out :=
  ⟨fun h => h ▸ unmixed_gather out, gather_of_unmixed⟩

/-! ## The arrows of a node -/

/-- The edges from a node to nodes, in keypad order. -/
def branches (f : Flow) (id : String) : List Edge :=
  Keypad.sortBy Edge.handle ((f.outgoing id).filter fun e => f.hasNode e.target)

/-- The branches of a node to other nodes are in keypad order, those with one handle as they are
listed. -/
theorem isSorting_branches (f : Flow) (id : String) : Keypad.IsSorting Edge.handle
    ((f.outgoing id).filter fun e => f.hasNode e.target) (branches f id) :=
  Keypad.isSorting_sortBy _

/-- Of all edges in keypad order, those that leave a node are its branches. -/
theorem filter_sortedEdges {id : String} (hid : id ∈ f.ids) :
    (sortedEdges f).filter (fun e => e.source = id) = branches f id := by
  unfold sortedEdges branches innerEdges Flow.outgoing
  rw [Keypad.filter_sortBy, List.filter_filter, List.filter_filter]
  congr 1
  refine List.filter_congr fun e _ => ?_
  by_cases hsource : e.source = id
  · simp [hsource, Flow.hasNode_iff.mpr hid]
  · simp [hsource]

/-- The edges of an item are the branches of its node, those to one target together. -/
theorem edges_item (number : Nat) {n : Node} (hn : n ∈ f.nodes) :
    (item (sortedEdges f) number n).edges = gather (branches f n.id) := by
  rw [← filter_sortedEdges (List.mem_map_of_mem hn)]
  rfl

end Outline

namespace Flow

variable {f : Flow} {text : String}

/-- **The order of the arrows.** An outline is the page of its items, one for each node that is
listed. The branches of a node are the edges that lead from it to a node, in keypad order and with
those by one handle in the order of the flow, and the item of the node has one arrow for each of
them. The arrows to any one place are in the order of the branches, and so are the places by their
first arrows. All arrows are in this order exactly if no branch to another place comes between two
to one place. -/
theorem arrows_outline (h : f.outline = .ok text) :
    text = Outline.page f (Outline.items f) (Outline.leftOver f) ∧
    (Outline.items f).map Outline.Item.node = Outline.listed f ∧
    ∀ i ∈ Outline.items f,
      Keypad.IsSorting Edge.handle ((f.outgoing i.node.id).filter fun e => f.hasNode e.target)
        (Outline.branches f i.node.id) ∧
      i.edges.Perm (Outline.branches f i.node.id) ∧
      (∀ target, i.edges.filter (fun e => e.target = target) =
        (Outline.branches f i.node.id).filter fun e => e.target = target) ∧
      Outline.targets i.edges = Outline.targets (Outline.branches f i.node.id) ∧
      (i.edges = Outline.branches f i.node.id ↔
        Outline.Unmixed (Outline.branches f i.node.id)) := by
  obtain ⟨-, -, htext⟩ := outline_eq_ok_iff.mp h
  refine ⟨htext, ?_, fun i hi => ?_⟩
  · rw [Outline.items, List.map_map]
    exact List.zipIdx_map_fst 1 (Outline.listed f)
  · obtain ⟨⟨n, number⟩, hmem, rfl⟩ := List.mem_map.mp hi
    have hn : n ∈ f.nodes := (Outline.mem_listed_iff.mp (List.fst_mem_of_mem_zipIdx hmem)).1
    have hnode : (Outline.item (Outline.sortedEdges f) number n).node = n := rfl
    rw [hnode, Outline.edges_item number hn]
    exact ⟨Outline.isSorting_branches f n.id, Outline.gather_perm _,
      fun target => Outline.filter_gather target _, Outline.targets_gather _,
      Outline.gather_eq_self_iff⟩

/-- A menu where the first and the last of three options lead to one place. -/
def crossed : Flow where
  nodes := [⟨"menu", "Menu", .known (.key ⟨[("1", "A"), ("2", "B"), ("3", "A")], none, none, none⟩),
      Node.origin⟩,
    ⟨"a", "A", .known .hangup, Node.origin⟩, ⟨"b", "B", .known .hangup, Node.origin⟩]
  edges := [⟨"e3", "menu", "a", some "3"⟩, ⟨"e2", "menu", "b", some "2"⟩,
    ⟨"e1", "menu", "a", some "1"⟩]
  start := none
  distinct := by decide

/-- The arrows to the first place are in keypad order, and stand before the one to the second. -/
theorem arrows_outline_crossed : ∃ text, crossed.outline = .ok text ∧
    ∃ i ∈ Outline.items crossed, i.node.id = "menu" ∧
      i.edges.filter (fun e => e.target = "a") =
        [⟨"e1", "menu", "a", some "1"⟩, ⟨"e3", "menu", "a", some "3"⟩] ∧
      Outline.targets i.edges = ["a", "b"] ∧ i.edges ≠ Outline.branches crossed "menu" := by
  obtain ⟨text, htext⟩ : ∃ text, crossed.outline = .ok text := ⟨_, rfl⟩
  obtain ⟨-, -, hitems⟩ := arrows_outline htext
  have hbranches : Outline.branches crossed "menu" = [⟨"e1", "menu", "a", some "1"⟩,
      ⟨"e2", "menu", "b", some "2"⟩, ⟨"e3", "menu", "a", some "3"⟩] := by decide +kernel
  obtain ⟨i, hi, hmenu⟩ : ∃ i ∈ Outline.items crossed, i.node.id = "menu" :=
    ⟨_, List.mem_cons_self, rfl⟩
  obtain ⟨-, -, hsame, htargets, hiff⟩ := hitems i hi
  rw [hmenu, hbranches] at htargets hiff
  refine ⟨text, htext, i, hi, hmenu, ?_, htargets, fun heq => ?_⟩
  · rw [hsame, hmenu, hbranches]
    rfl
  · -- the branch to the second place comes between the two to the first
    have hunmixed := hiff.mp (heq.trans hbranches)
    exact absurd (hunmixed _ _ _ (List.Sublist.refl _) rfl) (by decide)

/-- The second option is shown behind the third one. -/
theorem arrows_mixed : crossed.validate.compilable ∧
    (Outline.branches crossed "menu").map Edge.handle = [some "1", some "2", some "3"] ∧
    crossed.outline = .ok ("\n".intercalate ["# ASCII Plan (depth-first from 'Menu')",
      "01. Menu [key]  id=menu", "    └─▶ A  (on 1)", "    └─▶ A  (on 3)", "    └─▶ B  (on 2)",
      "02. A [hangup]  id=a", "03. B [hangup]  id=b"]) := by
  exact ⟨by decide +kernel, by decide +kernel, by decide +kernel⟩

end Flow

end CallFlow
