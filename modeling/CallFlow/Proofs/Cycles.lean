import CallFlow.Proofs.Compilation
import Mathlib.Data.List.Perm.Subperm

/-!
# The cycles of a flow

The check on cycles goes along `Flow.flowTargets`, the edges between nodes without those that only
ask the caller again. Two nodes are on a cycle together if each can be reached from the other
(`Flow.Together`), and `Flow.cycles` lists the nodes by this relation.

* `Flow.mem_component_iff`: the component of a node has the nodes that are together with it.
* `Flow.cycles_eq_filter`: the components are listed by their first members (`Flow.components`), and
  the cycles are those that lead back to themselves.
* `Flow.exists_cycle`: two different nodes that are together and can be reached from the start are
  in one of the cycles.
* `Flow.Compilable.exists_finding`: in a compilable flow that is so for the edges themselves, since
  what the check leaves out leads from a node to itself.
-/

namespace CallFlow

namespace Flow

variable {f : Flow} {start a b : String} {c : List String}

/-! ## Where the check goes -/

/-- The search for cycles follows the edges between nodes, except those by which a branching node
asks again. -/
theorem mem_flowTargets_iff : b ∈ f.flowTargets a ↔
    ∃ e ∈ f.edges, e.source = a ∧ e.target = b ∧ b ∈ f.ids ∧ ¬ f.isRepeat e := by
  unfold flowTargets
  simp only [List.mem_map, List.mem_filter, mem_outgoing_iff, Bool.and_eq_true, hasNode_iff,
    Bool.not_eq_true', Bool.not_eq_true]
  constructor
  · rintro ⟨e, ⟨⟨he, hsource⟩, htarget, hrepeat⟩, rfl⟩
    exact ⟨e, he, hsource, rfl, htarget, hrepeat⟩
  · rintro ⟨e, he, hsource, rfl, htarget, hrepeat⟩
    exact ⟨e, ⟨⟨he, hsource⟩, htarget, hrepeat⟩, rfl⟩

/-- The check does not leave the nodes. -/
theorem mem_ids_of_mem_flowTargets : ∀ a ∈ f.ids, ∀ b ∈ f.flowTargets a, b ∈ f.ids := by
  intro a _ b hb
  obtain ⟨-, -, -, -, hids, -⟩ := mem_flowTargets_iff.mp hb
  exact hids

/-- What is reached from a node is what its edges lead to, one after the other. -/
theorem mem_reachedFrom_iff (ha : a ∈ f.ids) :
    b ∈ f.reachedFrom a ↔ Traversal.Reaches f.flowTargets a b :=
  Traversal.mem_preorder_iff f.distinct mem_ids_of_mem_flowTargets ha

/-- Nothing is reached twice. -/
theorem nodup_reachedFrom (ha : a ∈ f.ids) : (f.reachedFrom a).Nodup :=
  (Traversal.depthFirst_preorder f.distinct mem_ids_of_mem_flowTargets ha).nodup

/-- Only nodes are reached. -/
theorem mem_ids_of_mem_reachedFrom (h : b ∈ f.reachedFrom a) : b ∈ f.ids :=
  Traversal.mem_of_mem_visit h

/-! ## Components -/

/-- Each of two nodes can be reached from the other. -/
def Together (f : Flow) (a b : String) : Prop :=
  Traversal.Reaches f.flowTargets a b ∧ Traversal.Reaches f.flowTargets b a

/-- Being together goes both ways. -/
theorem Together.symm (h : f.Together a b) : f.Together b a := ⟨h.2, h.1⟩

/-- What is together with one node is together. -/
theorem Together.trans {c : String} (hab : f.Together a b) (hbc : f.Together b c) :
    f.Together a c := ⟨hab.1.trans hbc.1, hbc.2.trans hab.2⟩

/-- The component of a node, in the order of the nodes. -/
theorem component_reach (f : Flow) (start a : String) :
    component (f.reach start) a (f.reachedFrom a) = f.ids.filter fun b =>
      (b ∈ f.reachedFrom a && a ∈ f.reachedFrom b) && b ∈ f.reachedFrom start := by
  unfold component reach
  rw [List.filter_map, List.map_map, List.filter_filter]
  exact List.map_id _

/-- The component of a node that is reached from the start has the nodes that are together with
it. -/
theorem mem_component_iff (hstart : start ∈ f.ids) (ha : a ∈ f.reachedFrom start) :
    b ∈ component (f.reach start) a (f.reachedFrom a) ↔ f.Together a b := by
  have hids := mem_ids_of_mem_reachedFrom ha
  rw [component_reach]
  simp only [List.mem_filter, Bool.and_eq_true, decide_eq_true_eq]
  constructor
  · rintro ⟨hb, ⟨hab, hba⟩, -⟩
    exact ⟨(mem_reachedFrom_iff hids).mp hab, (mem_reachedFrom_iff hb).mp hba⟩
  · rintro ⟨hab, hba⟩
    have hmem := (mem_reachedFrom_iff hids).mpr hab
    have hb := mem_ids_of_mem_reachedFrom hmem
    refine ⟨hb, ⟨hmem, (mem_reachedFrom_iff hb).mpr hba⟩, ?_⟩
    exact (mem_reachedFrom_iff hstart).mpr (((mem_reachedFrom_iff hstart).mp ha).trans hab)

/-- Nodes that are together have one component. -/
theorem component_congr (hstart : start ∈ f.ids) (ha : a ∈ f.reachedFrom start)
    (hab : f.Together a b) : component (f.reach start) a (f.reachedFrom a) =
      component (f.reach start) b (f.reachedFrom b) := by
  have hb : b ∈ f.reachedFrom start :=
    (mem_reachedFrom_iff hstart).mpr (((mem_reachedFrom_iff hstart).mp ha).trans hab.1)
  have hmem : ∀ c, c ∈ component (f.reach start) a (f.reachedFrom a) ↔
      c ∈ component (f.reach start) b (f.reachedFrom b) := by
    intro c
    rw [mem_component_iff hstart ha, mem_component_iff hstart hb]
    exact ⟨hab.symm.trans, hab.trans⟩
  -- both are filters of the nodes, and a filter is known by what it keeps
  rw [component_reach, component_reach] at hmem ⊢
  refine List.filter_congr fun c hc => ?_
  rw [Bool.eq_iff_iff]
  simpa only [List.mem_filter, hc, true_and] using hmem c

/-- The components of the part that is reached, each at its first member. -/
def components (f : Flow) (start : String) : List (List String) :=
  (f.reach start).filterMap fun r =>
    let c := component (f.reach start) r.1 r.2
    if c.head? = some r.1 then some c else none

/-- Whether a component leads back to itself, told by its first member. -/
def isCycle (f : Flow) (c : List String) : Bool :=
  1 < c.length || c.head?.any fun a => a ∈ f.flowTargets a

/-- The cycles are the components that lead back to themselves. -/
theorem cycles_eq_filter (f : Flow) (start : String) :
    f.cycles start = (f.components start).filter f.isCycle := by
  unfold cycles components
  rw [List.filter_filterMap]
  refine List.filterMap_congr fun r _ => ?_
  dsimp only
  by_cases hhead : (component (f.reach start) r.1 r.2).head? = some r.1
  · simp [hhead, isCycle, Option.filter]
  · simp [hhead]

/-- The components are those of the nodes that are reached, each under its first member. -/
theorem mem_components : c ∈ f.components start ↔ ∃ a ∈ f.reachedFrom start,
    c = component (f.reach start) a (f.reachedFrom a) ∧ c.head? = some a := by
  unfold components
  simp only [List.mem_filterMap, Option.ite_none_right_eq_some, Option.some.injEq]
  constructor
  · rintro ⟨r, hr, hhead, rfl⟩
    obtain ⟨a, ha, rfl⟩ := List.mem_map.mp hr
    exact ⟨a, of_decide_eq_true (List.mem_filter.mp ha).2, rfl, hhead⟩
  · rintro ⟨a, ha, rfl, hhead⟩
    have hids := mem_ids_of_mem_reachedFrom ha
    exact ⟨(a, f.reachedFrom a),
      List.mem_map.mpr ⟨a, List.mem_filter.mpr ⟨hids, decide_eq_true ha⟩, rfl⟩, hhead, rfl⟩

/-- The component of a node that is reached is listed, at the first of its members. -/
theorem exists_mem_components (hstart : start ∈ f.ids) (ha : a ∈ f.reachedFrom start) :
    ∃ c ∈ f.components start, ∀ b, b ∈ c ↔ f.Together a b := by
  have hmem : ∀ b, b ∈ component (f.reach start) a (f.reachedFrom a) ↔ f.Together a b :=
    fun b => mem_component_iff hstart ha
  have haa := (hmem a).mpr ⟨.refl, .refl⟩
  obtain ⟨first, hfirst⟩ := Option.ne_none_iff_exists'.mp
    (mt List.head?_eq_none_iff.mp (List.ne_nil_of_mem haa))
  have htogether := (hmem first).mp (List.mem_of_head? hfirst)
  have hsame := component_congr hstart ha htogether
  have hreached : first ∈ f.reachedFrom start :=
    (mem_reachedFrom_iff hstart).mpr (((mem_reachedFrom_iff hstart).mp ha).trans htogether.1)
  exact ⟨_, mem_components.mpr ⟨first, hreached, hsame, hfirst⟩, hmem⟩

/-! ## Cycles -/

/-- Two different nodes that are together are in one of the cycles. -/
theorem exists_cycle (hstart : start ∈ f.ids) (ha : a ∈ f.reachedFrom start)
    (hab : f.Together a b) (hne : a ≠ b) : ∃ c ∈ f.cycles start, a ∈ c ∧ b ∈ c := by
  obtain ⟨c, hc, hmem⟩ := exists_mem_components hstart ha
  have haa := (hmem a).mpr ⟨.refl, .refl⟩
  have hbb := (hmem b).mpr hab
  have hlength : [a, b].length ≤ c.length :=
    (List.Nodup.subperm (by simpa using hne) (by simpa using ⟨haa, hbb⟩)).length_le
  have hcycle : f.isCycle c := by
    rw [isCycle, Bool.or_eq_true, decide_eq_true_eq]
    exact .inl hlength
  exact ⟨c, cycles_eq_filter f start ▸ List.mem_filter.mpr ⟨hc, hcycle⟩, haa, hbb⟩

end Flow

/-! ## Findings -/

/-- The findings on cycles are those of the check for cycles, if a call begins at a node. -/
theorem Validation.byCode_cycleDetected (f : Flow) : f.validate.byCode .cycleDetected =
    (validStart f).elim [] (cycleFindings f) :=
  byCode_validate_of_forall fun _ hx => by
    obtain ⟨_, hcycle⟩ := exists_start_of_mem_elim hx
    exact code_of_mem_cycleFindings hcycle

namespace Flow

variable {f : Flow} {start a b : String}

/-- Each cycle is found, by its members. -/
theorem exists_finding_of_mem_cycles {c : List String} (hstart : f.validate.start = some start)
    (hc : c ∈ f.cycles start) : ∃ x ∈ f.validate.byCode .cycleDetected, x.members = c := by
  rw [Validation.byCode_cycleDetected, show Validation.validStart f = some start from hstart]
  refine ⟨_, List.mem_map_of_mem hc, ?_⟩
  rw [Finding.members, List.map_map]
  exact List.map_id c

namespace Compilable

/-- In a compilable flow all edges lead to nodes, and those that the check leaves out lead from a
node to itself, so the check gets as far as a call does. -/
theorem reaches_flowTargets (h : f.Compilable) : Traversal.Reaches f.flowTargets = f.Reaches := by
  funext a b
  refine propext ⟨Relation.ReflTransGen.mono (fun c d hcd => ?_) a b, fun hab => ?_⟩
  · obtain ⟨e, he, hsource, htarget, -, -⟩ := mem_flowTargets_iff.mp hcd
    exact ⟨e, he, hsource, htarget⟩
  · induction hab with
    | refl => exact .refl
    | @tail c d _ hcd ih =>
      obtain ⟨e, he, rfl, rfl⟩ := hcd
      by_cases hself : e.source = e.target
      · rwa [← hself]
      · refine ih.tail (mem_flowTargets_iff.mpr ⟨e, he, rfl, rfl, (h.connected e he).2, ?_⟩)
        simp [isRepeat, hself]

/-- What the check reaches from a node is what a call can get to from there. -/
theorem mem_reachedFrom_iff (h : f.Compilable) (ha : a ∈ f.ids) :
    b ∈ f.reachedFrom a ↔ f.Reaches a b := by
  rw [Flow.mem_reachedFrom_iff ha, h.reaches_flowTargets]

/-- In a compilable flow, two different nodes between which a call can go back and forth are members
of one of the cycles that are found. -/
theorem exists_finding (h : f.Compilable) (hstart : f.resolveStart = some start)
    (ha : f.Reaches start a) (hab : f.Reaches a b) (hba : f.Reaches b a) (hne : a ≠ b) :
    ∃ x ∈ f.validate.byCode .cycleDetected, a ∈ x.members ∧ b ∈ x.members := by
  obtain ⟨start', hmem, hresolve, hvalidate⟩ := h.exists_start
  obtain rfl : start' = start := Option.some.inj (hresolve.symm.trans hstart)
  have htogether : f.Together a b := by
    unfold Together
    rw [h.reaches_flowTargets]
    exact ⟨hab, hba⟩
  obtain ⟨c, hc, hac, hbc⟩ :=
    exists_cycle hmem ((h.mem_reachedFrom_iff hmem).mpr ha) htogether hne
  obtain ⟨x, hx, rfl⟩ := exists_finding_of_mem_cycles hvalidate hc
  exact ⟨x, hx, hac, hbc⟩

end Compilable

end Flow

end CallFlow
