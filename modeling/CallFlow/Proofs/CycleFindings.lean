import CallFlow.Proofs.Cycles

/-!
# The findings on cycles

The check on cycles is about the part of a flow that can be reached from the start along the edges
between nodes, without those by which a branching node only asks again (`Flow.LeadsOn`,
`Flow.InReach`, `Flow.Onward`). `Flow.IsComponent` says what a strongly connected component of this
part is, and `Flow.components` lists them by their first members; those with a way back to where
they are left make up `Flow.cycles`.

* `Flow.mem_components_iff`: the components are listed, each in the order of the nodes.
* `Flow.cycles_eq_nil_iff`: there are no cycles exactly if no node of the part leads back to itself.
* `Flow.cyclesAmong_eq_cycles`: components that are found in any order, each with its members in any
  order, give the same cycles once they are sorted.
* `Flow.cycle_findings`: so what is found are the components with a way back, in the order of their
  first members.
-/

namespace CallFlow

namespace Flow

variable {f : Flow} {start a b : String} {c : List String}

/-! ## The part that is reached -/

/-- An edge leads on from one node to another. An edge by which a branching node asks again does not
lead on. -/
def LeadsOn (f : Flow) (a b : String) : Prop :=
  a ∈ f.ids ∧ b ∈ f.ids ∧ (∃ e ∈ f.edges, e.source = a ∧ e.target = b) ∧
    ¬ (a = b ∧ ∃ n ∈ f.nodes, n.id = a ∧ n.block.isBranching)

/-- A node can be reached from the start along edges that lead on. -/
def InReach (f : Flow) (start : String) : String → Prop := Relation.ReflTransGen f.LeadsOn start

/-- An edge leads on from one of the nodes that can be reached to another one. -/
def Onward (f : Flow) (start a b : String) : Prop :=
  f.LeadsOn a b ∧ f.InReach start a ∧ f.InReach start b

/-- An edge repeats a node if it leads from a branching node to itself. -/
theorem isRepeat_iff {e : Edge} : f.isRepeat e ↔
    e.source = e.target ∧ ∃ n ∈ f.nodes, n.id = e.source ∧ n.block.isBranching := by
  unfold isRepeat
  simp only [Bool.and_eq_true, decide_eq_true_eq, Option.any_eq_true, node?_eq_some_iff, and_assoc]

/-- A node leads on to the targets of its edges, without those that repeat it. -/
theorem leadsOn_iff : f.LeadsOn a b ↔ a ∈ f.ids ∧ b ∈ f.flowTargets a := by
  unfold LeadsOn
  rw [mem_flowTargets_iff]
  constructor
  · rintro ⟨ha, hb, ⟨e, he, rfl, rfl⟩, hrepeat⟩
    exact ⟨ha, e, he, rfl, rfl, hb, mt isRepeat_iff.mp hrepeat⟩
  · rintro ⟨ha, e, he, rfl, rfl, hb, hrepeat⟩
    exact ⟨ha, hb, ⟨e, he, rfl, rfl⟩, mt isRepeat_iff.mpr hrepeat⟩

/-- From a node, the edges that lead on reach what the check reaches. -/
theorem reaches_iff (ha : a ∈ f.ids) :
    Traversal.Reaches f.flowTargets a b ↔ Relation.ReflTransGen f.LeadsOn a b := by
  constructor
  · intro h
    induction h with
    | refl => exact .refl
    | @tail x y hx hxy ih =>
      have hids : x ∈ f.ids := by
        cases hx with
        | refl => exact ha
        | tail _ hlast => exact (mem_flowTargets_iff.mp hlast).choose_spec.2.2.2.1
      exact ih.tail (leadsOn_iff.mpr ⟨hids, hxy⟩)
  · exact Relation.ReflTransGen.mono (fun x y hxy => (leadsOn_iff.mp hxy).2) a b

/-- What can be reached from the start is what the search of the checks finds. -/
theorem inReach_iff (hstart : start ∈ f.ids) : f.InReach start a ↔ a ∈ f.reachedFrom start := by
  rw [mem_reachedFrom_iff hstart, reaches_iff hstart, InReach]

/-- Only nodes can be reached. -/
theorem InReach.mem_ids (h : f.InReach start a) (hstart : start ∈ f.ids) : a ∈ f.ids :=
  mem_ids_of_mem_reachedFrom ((inReach_iff hstart).mp h)

/-- Among the nodes that are reached, the edges that lead on reach as far as in the whole flow. -/
theorem reflTransGen_onward_iff (ha : f.InReach start a) :
    Relation.ReflTransGen (f.Onward start) a b ↔ Relation.ReflTransGen f.LeadsOn a b := by
  constructor
  · exact Relation.ReflTransGen.mono (fun x y hxy => hxy.1) a b
  · intro h
    induction h with
    | refl => exact .refl
    | tail hx hxy ih => exact ih.tail ⟨hxy, ha.trans hx, (ha.trans hx).tail hxy⟩

/-! ## Components -/

/-- A strongly connected component of the part that is reached, as a list without repetitions: with
each of its members it has exactly the nodes that can be reached from the member and lead back to
it. -/
structure IsComponent (f : Flow) (start : String) (c : List String) : Prop where
  nonempty : c ≠ []
  nodup : c.Nodup
  reached : ∀ a ∈ c, f.InReach start a
  strong : ∀ a ∈ c, ∀ b, b ∈ c ↔ Relation.ReflTransGen (f.Onward start) a b ∧
    Relation.ReflTransGen (f.Onward start) b a

/-- A component that is left by an edge leads back to itself. -/
def IsCyclic (f : Flow) (start : String) (c : List String) : Prop :=
  1 < c.length ∨ ∃ a ∈ c, f.Onward start a a

/-- Two components with a common member have the same members. -/
theorem IsComponent.mem_iff_of_mem {c' : List String} (h : f.IsComponent start c)
    (h' : f.IsComponent start c') (ha : a ∈ c) (ha' : a ∈ c') (b : String) : b ∈ c ↔ b ∈ c' := by
  rw [h.strong a ha, h'.strong a ha']

/-- In one order, a component is known by any of its members. -/
theorem IsComponent.eq_of_mem {c' : List String} (h : f.IsComponent start c)
    (h' : f.IsComponent start c') (hc : c.Sublist f.ids) (hc' : c'.Sublist f.ids)
    (ha : a ∈ c) (ha' : a ∈ c') : c = c' := by
  refine (f.distinct.perm_iff_eq_of_sublist hc hc').mp ?_
  exact (List.perm_ext_iff_of_nodup h.nodup h'.nodup).mpr (h.mem_iff_of_mem h' ha ha')

/-- What is together with a node that is reached can be reached from it and leads back to it. -/
theorem together_iff (hstart : start ∈ f.ids) (ha : f.InReach start a) : f.Together a b ↔
    Relation.ReflTransGen (f.Onward start) a b ∧ Relation.ReflTransGen (f.Onward start) b a := by
  have hids := ha.mem_ids hstart
  unfold Together
  rw [reaches_iff hids, reflTransGen_onward_iff ha]
  refine and_congr_right fun hab => ?_
  have hb : f.InReach start b := ha.trans hab
  rw [reaches_iff (hb.mem_ids hstart), reflTransGen_onward_iff hb]

/-- A listed component is in the order of the nodes. -/
theorem sublist_ids_of_mem_components (hc : c ∈ f.components start) : c.Sublist f.ids := by
  obtain ⟨a, -, rfl, -⟩ := mem_components.mp hc
  rw [component_reach]
  exact List.filter_sublist

/-- What is listed as a component is one. -/
theorem isComponent_of_mem_components (hstart : start ∈ f.ids) (hc : c ∈ f.components start) :
    f.IsComponent start c := by
  have hnodup := (sublist_ids_of_mem_components hc).nodup f.distinct
  obtain ⟨a, ha, rfl, hhead⟩ := mem_components.mp hc
  have hmem : ∀ b, b ∈ component (f.reach start) a (f.reachedFrom a) ↔ f.Together a b :=
    fun b => mem_component_iff hstart ha
  have hreach : f.InReach start a := (inReach_iff hstart).mpr ha
  have hreached : ∀ b, f.Together a b → f.InReach start b := by
    intro b hab
    exact hreach.trans ((reaches_iff (hreach.mem_ids hstart)).mp hab.1)
  constructor
  · exact List.ne_nil_of_mem (List.mem_of_head? hhead)
  · exact hnodup
  · exact fun b hb => hreached b ((hmem b).mp hb)
  · intro b hb d
    have hab := (hmem b).mp hb
    rw [hmem d, ← together_iff hstart (hreached b hab)]
    exact ⟨hab.symm.trans, hab.trans⟩

/-- Each node that can be reached is in a component that is listed. -/
theorem exists_component (hstart : start ∈ f.ids) (ha : f.InReach start a) :
    ∃ c ∈ f.components start, a ∈ c := by
  obtain ⟨c, hc, hmem⟩ := exists_mem_components hstart ((inReach_iff hstart).mp ha)
  exact ⟨c, hc, (hmem a).mpr ⟨.refl, .refl⟩⟩

/-- The strongly connected components are listed, each in the order of the nodes. -/
theorem mem_components_iff (hstart : start ∈ f.ids) :
    c ∈ f.components start ↔ f.IsComponent start c ∧ c.Sublist f.ids := by
  constructor
  · intro hc
    exact ⟨isComponent_of_mem_components hstart hc, sublist_ids_of_mem_components hc⟩
  · rintro ⟨hc, hsublist⟩
    obtain ⟨a, ha⟩ := List.exists_mem_of_ne_nil c hc.nonempty
    obtain ⟨c', hmem, ha'⟩ := exists_component hstart (hc.reached a ha)
    rwa [hc.eq_of_mem (isComponent_of_mem_components hstart hmem) hsublist
      (sublist_ids_of_mem_components hmem) ha ha']

/-- What is kept of a list and known by the item it comes from is in the order of these items. -/
theorem sublist_map_filterMap {α β γ : Type} {g : α → Option β} {key : β → γ} {name : α → γ}
    (h : ∀ x y, g x = some y → key y = name x) :
    ∀ xs : List α, ((xs.filterMap g).map key).Sublist (xs.map name)
  | [] => .slnil
  | x :: xs => by
    cases hx : g x with
    | none =>
      rw [List.filterMap_cons_none hx]
      exact (sublist_map_filterMap h xs).cons _
    | some y =>
      rw [List.filterMap_cons_some hx, List.map_cons, List.map_cons, h x y hx]
      exact (sublist_map_filterMap h xs).cons_cons _

/-- The components are listed in the order of their first members. -/
theorem sublist_head?_components (f : Flow) (start : String) :
    ((f.components start).map List.head?).Sublist (f.ids.map some) := by
  have hheads : ((f.components start).map List.head?).Sublist
      ((f.reach start).map fun r => some r.1) := by
    refine sublist_map_filterMap (fun r c hc => ?_) _
    obtain ⟨hhead, hc⟩ := Option.ite_none_right_eq_some.mp hc
    exact Option.some.inj hc ▸ hhead
  refine hheads.trans ?_
  unfold reach
  rw [List.map_map]
  exact List.filter_sublist.map some

/-- No component is listed twice. -/
theorem nodup_components (f : Flow) (start : String) : (f.components start).Nodup :=
  ((sublist_head?_components f start).nodup
    (f.distinct.map fun _ _ => Option.some.inj)).of_map

/-- No node is a member of two of the components that are listed. -/
theorem pairwise_disjoint_components (hstart : start ∈ f.ids) :
    (f.components start).Pairwise List.Disjoint := by
  refine (nodup_components f start).pairwise_of_forall_ne fun c hc c' hc' hne a ha ha' => hne ?_
  obtain ⟨hcomponent, hsublist⟩ := (mem_components_iff hstart).mp hc
  obtain ⟨hcomponent', hsublist'⟩ := (mem_components_iff hstart).mp hc'
  exact hcomponent.eq_of_mem hcomponent' hsublist hsublist' ha ha'

/-! ## Cycles -/

/-- A node that can be reached leads on to itself exactly if an edge that is no repeat does. -/
theorem onward_self_iff (hstart : start ∈ f.ids) (ha : f.InReach start a) :
    f.Onward start a a ↔ a ∈ f.flowTargets a := by
  unfold Onward
  rw [leadsOn_iff]
  simp [ha, ha.mem_ids hstart]

/-- The first member of a component tells whether it leads back to itself. -/
theorem isCycle_iff (hstart : start ∈ f.ids) (hc : f.IsComponent start c) :
    f.isCycle c ↔ f.IsCyclic start c := by
  obtain ⟨a, rest, rfl⟩ := List.exists_cons_of_ne_nil hc.nonempty
  have ha := onward_self_iff hstart (hc.reached a List.mem_cons_self)
  unfold isCycle IsCyclic
  cases rest with
  | nil => simp [ha]
  | cons b rest => simp

/-- The cycles are the strongly connected components that lead back to themselves, each in the order
of the nodes. -/
theorem mem_cycles_iff_isComponent (hstart : start ∈ f.ids) : c ∈ f.cycles start ↔
    f.IsComponent start c ∧ c.Sublist f.ids ∧ f.IsCyclic start c := by
  rw [cycles_eq_filter, List.mem_filter, mem_components_iff hstart, and_assoc]
  refine and_congr_right fun hc => and_congr_right fun _ => ?_
  exact isCycle_iff hstart hc

/-- A component leads back to itself exactly if one of its members does. -/
theorem isCyclic_iff (hc : f.IsComponent start c) :
    f.IsCyclic start c ↔ ∃ a ∈ c, Relation.TransGen (f.Onward start) a a := by
  constructor
  · rintro (hlength | ⟨a, ha, haa⟩)
    · obtain ⟨a, ha, b, hb, hne⟩ : ∃ a ∈ c, ∃ b ∈ c, a ≠ b := by
        match c, hlength, hc.nodup with
        | a :: b :: rest, _, hnodup =>
          refine ⟨a, List.mem_cons_self, b, List.mem_cons_of_mem a List.mem_cons_self, ?_⟩
          rintro rfl
          exact (List.nodup_cons.mp hnodup).1 List.mem_cons_self
      obtain ⟨hab, hba⟩ := (hc.strong a ha b).mp hb
      have hstep := (Relation.reflTransGen_iff_eq_or_transGen.mp hab).resolve_left hne.symm
      exact ⟨a, ha, hstep.trans_left hba⟩
    · exact ⟨a, ha, .single haa⟩
  · rintro ⟨a, ha, haa⟩
    obtain ⟨b, hab, hba⟩ := Relation.TransGen.head'_iff.mp haa
    have hb : b ∈ c := (hc.strong a ha b).mpr ⟨.single hab, hba⟩
    by_cases hne : a = b
    · exact .inr ⟨a, ha, hne ▸ hab⟩
    · have hlength : [a, b].length ≤ c.length :=
        (List.Nodup.subperm (by simpa using hne) (by simpa using ⟨ha, hb⟩)).length_le
      exact .inl hlength

/-- There are no cycles exactly if the part that is reached is acyclic. -/
theorem cycles_eq_nil_iff (hstart : start ∈ f.ids) :
    f.cycles start = [] ↔ ∀ a, ¬ Relation.TransGen (f.Onward start) a a := by
  rw [List.eq_nil_iff_forall_not_mem]
  constructor
  · intro hnone a haa
    obtain ⟨b, hab, -⟩ := Relation.TransGen.head'_iff.mp haa
    obtain ⟨c, hc, ha⟩ := exists_component hstart hab.2.1
    obtain ⟨hcomponent, hsublist⟩ := (mem_components_iff hstart).mp hc
    refine hnone c ((mem_cycles_iff_isComponent hstart).mpr ⟨hcomponent, hsublist, ?_⟩)
    exact (isCyclic_iff hcomponent).mpr ⟨a, ha, haa⟩
  · intro hacyclic c hc
    obtain ⟨hcomponent, -, hcyclic⟩ := (mem_cycles_iff_isComponent hstart).mp hc
    obtain ⟨a, -, haa⟩ := (isCyclic_iff hcomponent).mp hcyclic
    exact hacyclic a haa

/-! ## Components in any order -/

/-- Items in the order of the nodes that they are known by. -/
def inNodeOrder {α : Type} (f : Flow) (key : α → String) (items : List α) : List α :=
  items.mergeSort fun x y => f.ids.idxOf (key x) ≤ f.ids.idxOf (key y)

/-- All strongly connected components of the part that is reached, in any order. -/
structure ListsComponents (f : Flow) (start : String) (cs : List (List String)) : Prop where
  sound : ∀ c ∈ cs, f.IsComponent start c
  complete : ∀ a, f.InReach start a → ∃ c ∈ cs, a ∈ c
  disjoint : cs.Pairwise List.Disjoint

/-- The cycles among some components: their members are put in the order of the nodes, those that
lead back to themselves are kept, and these are put in the order of their first members. -/
def cyclesAmong (f : Flow) (cs : List (List String)) : List (List String) :=
  f.inNodeOrder (fun c => c.head?.getD "") ((cs.map (f.inNodeOrder id)).filter f.isCycle)

/-- What is in the order of the nodes comes at rising places. -/
theorem pairwise_idxOf_of_sublist (h : c.Sublist f.ids) :
    c.Pairwise fun a b => f.ids.idxOf a < f.ids.idxOf b := by
  refine List.Pairwise.sublist h (List.pairwise_iff_getElem.mpr fun i j hi hj hij => ?_)
  have hdistinct : f.ids.Nodup := f.distinct
  rwa [hdistinct.idxOf_getElem i hi, hdistinct.idxOf_getElem j hj]

/-- Sorted items are in the order of the nodes that they are known by. -/
theorem pairwise_inNodeOrder {α : Type} (f : Flow) (key : α → String) (items : List α) :
    (f.inNodeOrder key items).Pairwise fun x y => f.ids.idxOf (key x) ≤ f.ids.idxOf (key y) := by
  have hsorted : (f.inNodeOrder key items).Pairwise fun x y =>
      decide (f.ids.idxOf (key x) ≤ f.ids.idxOf (key y)) = true := by
    apply List.pairwise_mergeSort
    · intro x y z hxy hyz
      exact decide_eq_true ((of_decide_eq_true hxy).trans (of_decide_eq_true hyz))
    · intro x y
      simpa using Nat.le_total (f.ids.idxOf (key x)) (f.ids.idxOf (key y))
  exact hsorted.imp of_decide_eq_true

/-- Items that are known by different nodes have one order. -/
theorem inNodeOrder_eq_of_perm {α : Type} {key : α → String} {items sorted : List α}
    (hperm : items.Perm sorted)
    (hsorted : sorted.Pairwise fun x y => f.ids.idxOf (key x) < f.ids.idxOf (key y)) :
    f.inNodeOrder key items = sorted := by
  have hplaces : (sorted.map fun x => f.ids.idxOf (key x)).Nodup :=
    (List.pairwise_map.mpr hsorted).imp Nat.ne_of_lt
  have hmerge : (f.inNodeOrder key items).Perm sorted := (List.mergeSort_perm _ _).trans hperm
  refine List.Perm.eq_of_pairwise ?_ (pairwise_inNodeOrder f key items)
    (hsorted.imp Nat.le_of_lt) hmerge
  intro x y hx hy hxy hyx
  exact List.inj_on_of_nodup_map hplaces (hmerge.mem_iff.mp hx) hy (Nat.le_antisymm hxy hyx)

/-- A component with its members in order is one of those that are listed. -/
theorem inNodeOrder_mem_components (hstart : start ∈ f.ids) (hc : f.IsComponent start c) :
    f.inNodeOrder id c ∈ f.components start := by
  obtain ⟨a, ha⟩ := List.exists_mem_of_ne_nil c hc.nonempty
  obtain ⟨c', hmem, ha'⟩ := exists_component hstart (hc.reached a ha)
  obtain ⟨hc', hsublist⟩ := (mem_components_iff hstart).mp hmem
  have hperm : c.Perm c' :=
    (List.perm_ext_iff_of_nodup hc.nodup hc'.nodup).mpr (hc.mem_iff_of_mem hc' ha ha')
  have hsorted : f.inNodeOrder id c = c' :=
    inNodeOrder_eq_of_perm hperm (pairwise_idxOf_of_sublist hsublist)
  rwa [hsorted]

/-- Components in any order are those that are listed, once their members are in order. -/
theorem ListsComponents.perm {cs : List (List String)} (h : f.ListsComponents start cs)
    (hstart : start ∈ f.ids) : (cs.map (f.inNodeOrder id)).Perm (f.components start) := by
  have hmem : ∀ (c : List String) a, a ∈ f.inNodeOrder id c ↔ a ∈ c :=
    fun c a => (List.mergeSort_perm c _).mem_iff
  have hnodup : (cs.map (f.inNodeOrder id)).Nodup := by
    refine List.pairwise_map.mpr (h.disjoint.imp_of_mem fun hc _ hdisjoint heq => ?_)
    obtain ⟨a, ha⟩ := List.exists_mem_of_ne_nil _ (h.sound _ hc).nonempty
    exact hdisjoint ha ((hmem _ a).mp (heq ▸ (hmem _ a).mpr ha))
  refine (List.perm_ext_iff_of_nodup hnodup (nodup_components f start)).mpr fun c => ?_
  constructor
  · intro hc
    obtain ⟨c', hc', rfl⟩ := List.mem_map.mp hc
    exact inNodeOrder_mem_components hstart (h.sound c' hc')
  · intro hc
    obtain ⟨hcomponent, hsublist⟩ := (mem_components_iff hstart).mp hc
    obtain ⟨a, ha⟩ := List.exists_mem_of_ne_nil c hcomponent.nonempty
    obtain ⟨c', hc', ha'⟩ := h.complete a (hcomponent.reached a ha)
    have hsorted := inNodeOrder_mem_components hstart (h.sound c' hc')
    obtain ⟨hcomponent', hsublist'⟩ := (mem_components_iff hstart).mp hsorted
    rw [hcomponent.eq_of_mem hcomponent' hsublist hsublist' ha ((hmem c' a).mpr ha')]
    exact List.mem_map_of_mem hc'

/-- The components come at rising places of their first members. -/
theorem pairwise_idxOf_components (f : Flow) (start : String) :
    (f.components start).Pairwise fun c c' =>
      f.ids.idxOf (c.head?.getD "") < f.ids.idxOf (c'.head?.getD "") := by
  have hsublist := (sublist_head?_components f start).map fun o => o.getD ""
  rw [List.map_map, List.map_map] at hsublist
  have hheads : ((f.components start).map fun c => c.head?.getD "").Sublist f.ids := by
    simpa [Function.comp_def] using hsublist
  have hplaces := pairwise_idxOf_of_sublist hheads
  rwa [List.pairwise_map] at hplaces

/-- **The order in which components are found does not matter**: the cycles among them are the same.
-/
theorem cyclesAmong_eq_cycles {cs : List (List String)} (h : f.ListsComponents start cs)
    (hstart : start ∈ f.ids) : f.cyclesAmong cs = f.cycles start := by
  rw [cycles_eq_filter]
  exact inNodeOrder_eq_of_perm ((h.perm hstart).filter _)
    ((pairwise_idxOf_components f start).filter _)

/-- There is such a list of components. -/
theorem listsComponents_components (hstart : start ∈ f.ids) :
    f.ListsComponents start (f.components start) where
  sound _ := isComponent_of_mem_components hstart
  complete _ := exists_component hstart
  disjoint := pairwise_disjoint_components hstart

/-! ## What is found -/

/-- The finding on a cycle. -/
def cycleFinding (f : Flow) (c : List String) : Finding :=
  .cycle (c.map fun id => (id, Validation.nameOf f id))

/-- The finding on a cycle names its members. -/
theorem members_cycleFinding (f : Flow) (c : List String) : (f.cycleFinding c).members = c := by
  rw [cycleFinding, Finding.members, List.map_map]
  exact List.map_id c

/-- It is shown at the first of them. -/
theorem node?_cycleFinding (f : Flow) (c : List String) : (f.cycleFinding c).node? = c.head? := by
  rw [cycleFinding, Finding.node?, List.map_map]
  exact congrArg List.head? (List.map_id c)

/-- Where a call begins at a node, the findings on cycles are one for each cycle that can be
reached. -/
theorem byCode_cycleDetected_eq (hstart : f.validate.start = some start) :
    f.validate.byCode .cycleDetected = (f.cycles start).map f.cycleFinding := by
  rw [Validation.byCode_cycleDetected, show Validation.validStart f = some start from hstart]
  rfl

/-- Where a call begins is a node. -/
theorem mem_ids_of_start_validate (hstart : f.validate.start = some start) : start ∈ f.ids := by
  have hvalid : Validation.validStart f = some start := hstart
  unfold Validation.validStart at hvalid
  split at hvalid
  · split at hvalid
    · rename_i hnode
      obtain rfl := Option.some.inj hvalid
      exact hasNode_iff.mp hnode
    · cases hvalid
  · exact mem_ids_of_resolveStart hvalid

/-- **What the check on cycles finds.** Where a call begins at a node, the findings are the strongly
connected components of what can be reached from there that lead back to themselves. Each is found
once, with its members in the order of the nodes and under the first of them, and the findings are
in the order of their first members and have no members in common. There are none exactly if what
can be reached is acyclic. In whatever order the components are found, the findings are the same. -/
theorem cycle_findings (f : Flow) {start : String} (hstart : f.validate.start = some start) :
    (∀ c, (∃ x ∈ f.validate.byCode .cycleDetected, x.members = c) ↔
      f.IsComponent start c ∧ c.Sublist f.ids ∧ f.IsCyclic start c) ∧
    (∀ x ∈ f.validate.byCode .cycleDetected, x.node? = x.members.head?) ∧
    ((f.validate.byCode .cycleDetected).map Finding.node?).Sublist (f.ids.map some) ∧
    (f.validate.byCode .cycleDetected).Pairwise (fun x y => x.members.Disjoint y.members) ∧
    (f.validate.byCode .cycleDetected = [] ↔
      ∀ a, ¬ Relation.TransGen (f.Onward start) a a) ∧
    (∃ cs, f.ListsComponents start cs) ∧
    ∀ cs, f.ListsComponents start cs →
      f.validate.byCode .cycleDetected = (f.cyclesAmong cs).map f.cycleFinding := by
  have hids := mem_ids_of_start_validate hstart
  have hcycles : (f.cycles start).Sublist (f.components start) :=
    cycles_eq_filter f start ▸ List.filter_sublist
  rw [byCode_cycleDetected_eq hstart]
  refine ⟨?_, ?_, ?_, ?_, ?_, ⟨_, listsComponents_components hids⟩, ?_⟩
  · intro c
    rw [← mem_cycles_iff_isComponent hids]
    simp only [List.mem_map, exists_exists_and_eq_and, members_cycleFinding, exists_eq_right]
  · intro x hx
    obtain ⟨c, -, rfl⟩ := List.mem_map.mp hx
    rw [node?_cycleFinding, members_cycleFinding]
  · rw [List.map_map, show Finding.node? ∘ f.cycleFinding = List.head? from
      funext (node?_cycleFinding f)]
    exact (hcycles.map List.head?).trans (sublist_head?_components f start)
  · rw [List.pairwise_map]
    simp only [members_cycleFinding]
    exact (pairwise_disjoint_components hids).sublist hcycles
  · rw [List.map_eq_nil_iff]
    exact cycles_eq_nil_iff hids
  · intro cs hcs
    rw [cyclesAmong_eq_cycles hcs hids]

/-- A flow with two rounds that a call can go: between the menu and the hours, and where the caller
is held. The menu also asks again, and a node that no call gets to leads back to itself. -/
def twoRounds : Flow where
  nodes := [⟨"spare", "Spare", .known (.prompt ⟨some "Later.", none, none⟩), Node.origin⟩,
    ⟨"hold", "Hold", .known (.prompt ⟨some "Please wait.", none, none⟩), Node.origin⟩,
    ⟨"hours", "Hours", .known (.prompt ⟨some "Nine to five.", none, none⟩), Node.origin⟩,
    ⟨"ask", "Ask", .known (.key ⟨[("1", "Hours"), ("2", "Hold"), ("0", "Again")], some "Press 1.",
      none, none⟩), Node.origin⟩]
  edges := [⟨"e1", "ask", "hours", some "1"⟩, ⟨"e2", "ask", "hold", some "2"⟩,
    ⟨"e3", "ask", "ask", some "0"⟩, ⟨"e4", "hours", "ask", none⟩, ⟨"e5", "hold", "hold", none⟩,
    ⟨"e6", "spare", "spare", none⟩]
  start := some "ask"
  distinct := by decide

/-- Both rounds are found, the one where the caller is held first, and nothing else. -/
theorem cycle_findings_twoRounds : twoRounds.validate.start = some "ask" ∧
    (twoRounds.validate.byCode .cycleDetected).map Finding.members = [["hold"], ["hours", "ask"]] ∧
    (∀ c, c ∈ [["hold"], ["hours", "ask"]] ↔ twoRounds.IsComponent "ask" c ∧
      c.Sublist twoRounds.ids ∧ twoRounds.IsCyclic "ask" c) := by
  have hstart : twoRounds.validate.start = some "ask" := rfl
  have hmembers : (twoRounds.validate.byCode .cycleDetected).map Finding.members =
      [["hold"], ["hours", "ask"]] := by decide +kernel
  refine ⟨hstart, hmembers, fun c => ?_⟩
  rw [← (cycle_findings twoRounds hstart).1 c, ← hmembers, List.mem_map]

end Flow

end CallFlow
