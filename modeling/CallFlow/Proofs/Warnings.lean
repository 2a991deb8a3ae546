import CallFlow.Simulation
import CallFlow.Proofs.OutlineContents

/-!
# Warnings and scripts

The checks and the compiler find out for themselves which nodes a call can get to and which options
lead on. For a flow that is compiled they agree.

* `Flow.labels_append_unreached_perm`: each node has a unit or is found to be out of reach.
* `Compilation.mem_keys_branches_iff`: where a unit offers a choice, its branches are the handles of
  the edges that leave its node.
* `Flow.warnings_compile`: so the options without a branch are those that are found to lead nowhere.
-/

namespace CallFlow

/-! ## What warnings name -/

namespace Finding

variable {x : Finding}

/-- A finding on reach names its node. -/
theorem isSome_node?_of_unreachable (h : x.code = .unreachableNode) : x.node?.isSome := by
  cases x with
  | unreachable => rfl
  | _ => cases h

/-- A finding on an option names the option. -/
theorem isSome_handle?_of_deadBranch (h : x.code = .deadBranch) : x.handle?.isSome := by
  cases x with
  | deadBranch => rfl
  | _ => cases h

end Finding

/-- Where something is given for each item, nothing is left out. -/
theorem map_eq_map_some_filterMap {α β : Type} {g : α → Option β} :
    ∀ {xs : List α}, (∀ x ∈ xs, (g x).isSome) → xs.map g = (xs.filterMap g).map some
  | [], _ => rfl
  | x :: xs, h => by
    obtain ⟨hx, hxs⟩ := List.forall_mem_cons.mp h
    obtain ⟨y, hy⟩ := Option.isSome_iff_exists.mp hx
    rw [List.map_cons, hy, List.filterMap_cons_some hy, List.map_cons,
      map_eq_map_some_filterMap hxs]

namespace Report

variable {r : Report}

/-- Findings that were asked for by a code have the code. -/
theorem code_of_mem_byCode {code : FindingCode} {x : Finding} (h : x ∈ r.byCode code) :
    x.code = code :=
  of_decide_eq_true (List.mem_filter.mp h).2

/-- Each finding on a node out of reach names the node. -/
theorem map_node?_byCode_unreachableNode (r : Report) :
    (r.byCode .unreachableNode).map Finding.node? = r.unreached.map some :=
  map_eq_map_some_filterMap fun _ hx =>
    Finding.isSome_node?_of_unreachable (code_of_mem_byCode hx)

/-- Each finding on an option that leads nowhere names the option. -/
theorem map_handle?_byCode_deadBranch (r : Report) (id : String) :
    ((r.byCode .deadBranch).filter fun x => x.node? = some id).map Finding.handle? =
      (r.openOptions id).map some :=
  map_eq_map_some_filterMap fun _ hx =>
    Finding.isSome_handle?_of_deadBranch (code_of_mem_byCode (List.mem_of_mem_filter hx))

end Report

/-! ## Branches -/

namespace Compilation

variable {f : Flow} {policy : Policy} {n : Node} {c : Config} {action : Action}
  {table : BranchTable}

/-- The table of branches has the handles of the edges for keys. -/
theorem mem_keys_handledBranches_iff {edges : List Edge} (h : (edges.map Edge.handle).Nodup)
    {key : String} : key ∈ (handledBranches edges).keys ↔ ∃ e ∈ edges, e.handle = some key := by
  have hkeys : (handledBranches edges).keys.Nodup := TextTable.nodup_keys_ofPairs _
  have hentry : key ∈ (handledBranches edges).keys ↔
      ∃ target, (handledBranches edges).find? key = some target := by
    simp only [TextTable.find?_eq_some_iff hkeys, TextTable.keys, List.mem_map, Prod.exists,
      exists_and_right, exists_eq_right]
  simp only [hentry, find?_handledBranches h]
  constructor
  · rintro ⟨target, e, he, hhandle, -⟩
    exact ⟨e, he, hhandle⟩
  · rintro ⟨e, he, hhandle⟩
    exact ⟨e.target, e, he, hhandle, rfl⟩

/-- A unit that offers a choice has the options of its block and a branch for each edge. -/
theorem table_of_choice? {edges : List Edge} (haction : action? policy edges c = some action)
    (htable : Simulation.choice? action = some table) :
    c.kind.isBranching ∧ table.options = c.options ∧ table.branches = handledBranches edges := by
  cases c with
  | key c | language c =>
    obtain ⟨branches, hbranches, h⟩ := Option.bind_eq_some_iff.mp haction
    cases h
    cases htable
    exact ⟨rfl, rfl, (branchTable?_eq_some_iff.mp hbranches).2⟩
  | prompt c | record c | menu c | api c | hangup =>
    cases haction
    cases htable
  | transfer c | queue c | voicemail c =>
    obtain ⟨place, -, h⟩ := Option.bind_eq_some_iff.mp haction
    cases h
    cases htable

/-- Where a unit offers a choice, its branches are the handles of the edges that leave its node. -/
theorem mem_keys_branches_iff (h : f.Compilable)
    (haction : action? policy (branchesOf f n.id) c = some action)
    (htable : Simulation.choice? action = some table) {key : String} :
    key ∈ table.branches.keys ↔ some key ∈ (f.outgoing n.id).map Edge.handle := by
  have hperm := (Keypad.sortBy_perm Edge.handle (f.outgoing n.id)).map Edge.handle
  have hnodup : ((branchesOf f n.id).map Edge.handle).Nodup :=
    hperm.nodup_iff.mpr (h.nodup_handles n.id)
  rw [(table_of_choice? haction htable).2.2, mem_keys_handledBranches_iff hnodup]
  simp only [mem_branchesOf_iff, List.mem_map, Flow.mem_outgoing_iff]

end Compilation

/-! ## Warnings -/

namespace Flow

variable {f : Flow} {policy : Policy} {s : Script}

/-- Each node has a unit or is found to be out of reach, and none is both. -/
theorem labels_append_unreached_perm (h : f.compile policy = .ok s) :
    (s.labels ++ f.validate.unreached).Perm f.ids := by
  have hlabels : s.labels.Perm (f.ids.filter fun id => id ∈ s.labels) := by
    refine (List.perm_ext_iff_of_nodup (nodup_labels_compile h) (f.distinct.filter _)).mpr ?_
    intro id
    have hids : id ∈ s.labels → id ∈ f.ids := fun hid =>
      mem_ids_of_reaches h ((mem_labels_compile_iff h).mp hid)
    rw [List.mem_filter, decide_eq_true_iff]
    exact (and_iff_right_of_imp hids).symm
  have hunreached : f.validate.unreached = f.ids.filter fun id => !decide (id ∈ s.labels) := by
    rw [unreached_compile h, ids, List.filter_map]
    simp [Function.comp_def]
  rw [hunreached]
  exact (hlabels.append_right _).trans (List.filter_append_perm _ _)

/-- The options of a unit without a branch are those that are found to lead nowhere. -/
theorem openOptions_compile (h : f.compile policy = .ok s) {u : ScriptUnit} (hu : u ∈ s.units)
    {table : BranchTable} (htable : Simulation.choice? u.action = some table) :
    (∀ key ∈ table.branches.keys, key ∈ table.options.keys) ∧
      f.validate.openOptions u.label =
        table.options.keys.filter fun key => key ∉ table.branches.keys := by
  obtain ⟨hcompilable, -, hunits⟩ := compile_eq_ok h
  obtain ⟨n, hn, hunit⟩ := Compilation.exists_mem_nodes hunits u hu
  obtain ⟨c, action, hblock, haction, rfl⟩ := Compilation.unit_eq_ok hunit
  obtain ⟨id, -, hnode⟩ := List.mem_filterMap.mp hn
  have hmem : n ∈ f.nodes := (node?_eq_some_iff.mp hnode).1
  obtain ⟨hbranching, hoptions, -⟩ := Compilation.table_of_choice? haction htable
  have hkeys : ∀ key, key ∈ table.branches.keys ↔ some key ∈ (f.outgoing n.id).map Edge.handle :=
    fun key => Compilation.mem_keys_branches_iff hcompilable haction htable
  constructor
  · -- an edge that leaves the node is for one of its options
    intro key hkey
    obtain ⟨e, he, hhandle⟩ := List.mem_map.mp ((hkeys key).mp hkey)
    obtain ⟨hedge, hsource⟩ := mem_outgoing_iff.mp he
    obtain ⟨option, hoption, heq⟩ :=
      (hcompilable.fits n hmem c hblock).declared hbranching e hedge hsource
    rw [hoptions, ← Option.some.inj (heq.symm.trans hhandle)]
    exact hoption
  · rw [Validation.openOptions_validate hmem hblock, hoptions]
    simp only [hkeys]

/-- **Warnings match what is compiled.** The nodes of a flow that is compiled are the labels of the
script and, apart from them, the nodes that are found to be out of reach. Where a unit offers a
choice, its branches are for some of its options, and the findings on options that lead nowhere name
for its node the other options, in their order. -/
theorem warnings_compile (h : f.compile policy = .ok s) :
    (s.labels.map some ++ (f.validate.byCode .unreachableNode).map Finding.node?).Perm
      (f.ids.map some) ∧
    ∀ u ∈ s.units, ∀ table, Simulation.choice? u.action = some table →
      (∀ key ∈ table.branches.keys, key ∈ table.options.keys) ∧
      ((f.validate.byCode .deadBranch).filter fun x => x.node? = some u.label).map
          Finding.handle? =
        (table.options.keys.filter fun key => key ∉ table.branches.keys).map some := by
  constructor
  · rw [Report.map_node?_byCode_unreachableNode, ← List.map_append]
    exact (labels_append_unreached_perm h).map some
  · intro u hu table htable
    obtain ⟨hbranches, hopen⟩ := openOptions_compile h hu htable
    rw [Report.map_handle?_byCode_deadBranch, hopen]
    exact ⟨hbranches, rfl⟩

/-- In the flow with an option that leads nowhere, all nodes but two have units. -/
theorem warnings_nightLine : ∃ s u table, nightLine.compile .reprompt = .ok s ∧ u ∈ s.units ∧
    Simulation.choice? u.action = some table ∧
    (["ask", "hours", "bye"].map some ++
      (nightLine.validate.byCode .unreachableNode).map Finding.node?).Perm
        (nightLine.ids.map some) ∧
    ((nightLine.validate.byCode .deadBranch).filter fun x => x.node? = some "ask").map
      Finding.handle? = [some "9"] := by
  obtain ⟨s, hs⟩ : ∃ s, nightLine.compile .reprompt = .ok s := ⟨_, rfl⟩
  obtain ⟨hnodes, hunits⟩ := warnings_compile hs
  obtain ⟨u, hu, table, htable, hlabel, hlabels, hopen⟩ : ∃ u ∈ s.units, ∃ table,
      Simulation.choice? u.action = some table ∧ u.label = "ask" ∧
      s.labels = ["ask", "hours", "bye"] ∧
      (table.options.keys.filter fun key => key ∉ table.branches.keys) = ["9"] := by
    cases hs
    exact ⟨_, List.mem_cons_self, _, rfl, rfl, rfl, by decide⟩
  obtain ⟨-, hfound⟩ := hunits u hu table htable
  rw [hlabel, hopen] at hfound
  rw [hlabels] at hnodes
  exact ⟨s, u, table, hs, hu, htable, hnodes, hfound⟩

end Flow

end CallFlow
