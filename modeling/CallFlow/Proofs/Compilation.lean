import CallFlow.Compilation
import CallFlow.Proofs.Compilable
import CallFlow.Proofs.DepthFirst
import CallFlow.Proofs.Except
import CallFlow.Proofs.Lookup
import Mathlib.Data.List.Forall2
import Mathlib.Data.List.Nodup

/-!
# What compiling gives

A flow is compiled along the depth-first search from its start. For a flow that keeps the rules of
`Flow.Compilable`, the search stays among the nodes and comes to all that can be reached
(`Compilation.depthFirst_order`, `Compilation.mem_order_iff`), and each node of a known kind that it
comes to has a unit (`Compilation.exists_unit`). So only two things keep a flow from being compiled:

* `Flow.compile_outcome`: there are errors, or the search comes to a node of an unknown kind, the
  first of which is named; otherwise there is a script.
* `Flow.compile_eq_ok`, `Flow.labels_compile`, `Flow.target?_compile`: what a script is made of, its
  labels, and where its jumps come to.
-/

namespace CallFlow

namespace Flow

variable {f : Flow}

/-! ## Nodes and ways -/

/-- An edge leads from one node to another. -/
def Leads (f : Flow) (a b : String) : Prop := ∃ e ∈ f.edges, e.source = a ∧ e.target = b

/-- A call can get from one node to another along the edges. -/
def Reaches (f : Flow) : String → String → Prop := Relation.ReflTransGen f.Leads

namespace Compilable

/-- In a compilable flow the checks start where a call begins. -/
theorem exists_start (h : f.Compilable) :
    ∃ start ∈ f.ids, f.resolveStart = some start ∧ f.validate.start = some start := by
  unfold validate Validation.validStart
  rcases h.started with ⟨id, hid, hstart⟩ | ⟨hstart, id, hid⟩
  · have hnode := hasNode_iff.mpr hid
    exact ⟨id, hid, by simp [resolveStart, hstart, hnode], by simp [hstart, hnode]⟩
  · exact ⟨id, mem_ids_of_resolveStart hid, hid, by simp [hstart, hid]⟩

/-- By each handle at most one edge leaves a node. -/
theorem eq_of_same_handle (h : f.Compilable) {e e' : Edge} (he : e ∈ f.edges) (he' : e' ∈ f.edges)
    (hsource : e.source = e'.source) (hhandle : e.handle = e'.handle) : e = e' :=
  List.inj_on_of_nodup_map h.single he he' (Prod.ext hsource hhandle)

/-- The edges that leave a node have different handles. -/
theorem nodup_handles (h : f.Compilable) (id : String) :
    ((f.outgoing id).map Edge.handle).Nodup := by
  have hout : ((f.outgoing id).map fun e => (e.source, e.handle)).Nodup :=
    h.single.sublist (List.filter_sublist.map _)
  refine (List.nodup_map_iff_inj_on hout.of_map).mpr fun e he e' he' heq => ?_
  obtain ⟨hedge, hsource⟩ := mem_outgoing_iff.mp he
  obtain ⟨hedge', hsource'⟩ := mem_outgoing_iff.mp he'
  exact h.eq_of_same_handle hedge hedge' (hsource.trans hsource'.symm) heq

end Compilable

end Flow

namespace Compilation

variable {f : Flow} {policy : Policy}

/-! ## The search -/

/-- The branches of a node are the edges that leave it. -/
theorem mem_branchesOf_iff {id : String} {e : Edge} :
    e ∈ branchesOf f id ↔ e ∈ f.edges ∧ e.source = id := by
  unfold branchesOf
  rw [(Keypad.sortBy_perm Edge.handle (f.outgoing id)).mem_iff, Flow.mem_outgoing_iff]

/-- The successors of a node are the nodes that edges lead to from it. -/
theorem mem_successors_iff {a b : String} : b ∈ successors f a ↔ f.Leads a b := by
  simp only [successors, List.mem_map, mem_branchesOf_iff, Flow.Leads, and_assoc]

/-- Going from successor to successor is going along the edges. -/
theorem reaches_successors : Traversal.Reaches (successors f) = f.Reaches := by
  have : Traversal.Follows (successors f) = f.Leads := by
    funext a b
    exact propext mem_successors_iff
  unfold Traversal.Reaches Flow.Reaches
  rw [this]

/-- The search does not leave the nodes of a compilable flow. -/
theorem mem_ids_of_mem_successors (h : f.Compilable) :
    ∀ a ∈ f.ids, ∀ b ∈ successors f a, b ∈ f.ids := by
  intro a _ b hb
  obtain ⟨e, he, -, rfl⟩ := mem_successors_iff.mp hb
  exact (h.connected e he).2

/-- The order of the units is that of the recursive search in keypad order. -/
theorem depthFirst_order (h : f.Compilable) {start : String} (hstart : start ∈ f.ids) :
    Traversal.DepthFirst (successors f) [] [start] (order f start) :=
  Traversal.depthFirst_preorder f.distinct (mem_ids_of_mem_successors h) hstart

/-- The search comes to the nodes that a call can get to. -/
theorem mem_order_iff (h : f.Compilable) {start id : String} (hstart : start ∈ f.ids) :
    id ∈ order f start ↔ f.Reaches start id := by
  rw [(depthFirst_order h hstart).mem_iff, reaches_successors]
  simp

/-- Only nodes are visited. -/
theorem mem_ids_of_mem_order {start id : String} (h : id ∈ order f start) : id ∈ f.ids :=
  Traversal.mem_of_mem_visit h

/-! ## Tables of branches -/

/-- Something is given for all items exactly if each gives something, and then it is all of that. -/
theorem mapM_eq_some_iff {α β : Type} {g : α → Option β} : ∀ {xs : List α} {ys : List β},
    xs.mapM g = some ys ↔ (∀ x ∈ xs, g x ≠ none) ∧ ys = xs.filterMap g
  | [], ys => by
    rw [List.mapM_nil]
    exact ⟨fun h => ⟨fun _ hx => absurd hx List.not_mem_nil, (Option.some.inj h).symm⟩,
      fun h => by rw [h.2]; rfl⟩
  | x :: xs, ys => by
    rw [List.mapM_cons]
    constructor
    · intro h
      obtain ⟨y, hy, h⟩ := Option.bind_eq_some_iff.mp h
      obtain ⟨ys', hys, h⟩ := Option.bind_eq_some_iff.mp h
      obtain ⟨hsome, rfl⟩ := mapM_eq_some_iff.mp hys
      obtain rfl := Option.some.inj h
      refine ⟨List.forall_mem_cons.mpr ⟨by simp [hy], hsome⟩, ?_⟩
      rw [List.filterMap_cons_some hy]
    · rintro ⟨hsome, rfl⟩
      obtain ⟨hx, hxs⟩ := List.forall_mem_cons.mp hsome
      obtain ⟨y, hy⟩ := Option.ne_none_iff_exists'.mp hx
      rw [List.filterMap_cons_some hy, hy, mapM_eq_some_iff.mpr ⟨hxs, rfl⟩]
      rfl

/-- There is a table of branches exactly if each edge has a handle, and then it has them all. -/
theorem branchTable?_eq_some_iff {edges : List Edge} {table : TextTable} :
    branchTable? edges = some table ↔
      (∀ e ∈ edges, e.handle ≠ none) ∧ table = handledBranches edges := by
  simp only [branchTable?, Option.map_eq_some_iff, mapM_eq_some_iff, ne_eq, Option.map_eq_none_iff]
  constructor
  · rintro ⟨pairs, ⟨hhandles, rfl⟩, rfl⟩
    exact ⟨hhandles, rfl⟩
  · rintro ⟨hhandles, rfl⟩
    exact ⟨_, ⟨hhandles, rfl⟩, rfl⟩

/-- A branch leads where an edge leads. -/
theorem exists_edge_of_mem_handledBranches {edges : List Edge} {b : String × String}
    (h : b ∈ handledBranches edges) : ∃ e ∈ edges, e.target = b.2 := by
  obtain ⟨p, hp, htarget⟩ := Association.exists_mem_of_mem_ofPairs h
  obtain ⟨e, he, hpair⟩ := List.mem_filterMap.mp hp
  obtain ⟨handle, -, rfl⟩ := Option.map_eq_some_iff.mp hpair
  exact ⟨e, he, htarget⟩

/-- In the table of edges with different handles, a handle leads where its edge leads. -/
theorem find?_handledBranches {edges : List Edge} (h : (edges.map Edge.handle).Nodup)
    {handle target : String} : (handledBranches edges).find? handle = some target ↔
      ∃ e ∈ edges, e.handle = some handle ∧ e.target = target := by
  have hkeys : (TextTable.keys (edges.filterMap fun e => e.handle.map fun h => (h, e.target))).Nodup
      := by
    have : TextTable.keys (edges.filterMap fun e => e.handle.map fun h => (h, e.target)) =
        (edges.map Edge.handle).filterMap id := by
      unfold TextTable.keys
      rw [List.map_filterMap, List.filterMap_map]
      simp [Function.comp_def]
    rw [this]
    exact List.Nodup.filterMap (fun a b c ha hb => ha.trans hb.symm) h
  unfold handledBranches
  rw [TextTable.ofPairs_of_nodup_keys hkeys, TextTable.find?_eq_some_iff hkeys, List.mem_filterMap]
  simp

/-! ## Units -/

/-- Where a summary or a destination is filled in, there is a place to send a call to. -/
theorem exists_place {c : RoutingConfig}
    (h : (∃ s, c.summary = some s ∧ (Setting.text s).isFilled) ∨
      ∃ d, c.destination = some d ∧ (Setting.text d).isFilled) :
    ∃ place, (c.destination <|> c.summary) = some place := by
  cases hdestination : c.destination with
  | some destination => exact ⟨destination, rfl⟩
  | none =>
    obtain ⟨summary, hsummary, -⟩ := h.resolve_right (by simp [hdestination])
    exact ⟨summary, by rw [hsummary]; rfl⟩

/-- Where the caller chooses, the edges of a node that fits its kind give a table of branches. -/
theorem branchTable?_branchesOf {n : Node} {c : Config} (h : n.Fits f c)
    (hbranching : c.kind.isBranching) :
    branchTable? (branchesOf f n.id) = some (handledBranches (branchesOf f n.id)) := by
  refine branchTable?_eq_some_iff.mpr ⟨fun e he hnone => ?_, rfl⟩
  obtain ⟨hedge, hsource⟩ := mem_branchesOf_iff.mp he
  obtain ⟨_, -, hhandle⟩ := h.declared hbranching e hedge hsource
  rw [hnone] at hhandle
  cases hhandle

/-- A node that fits its kind has something to do in a call. -/
theorem exists_action {n : Node} {c : Config} (h : n.Fits f c) :
    ∃ action, action? policy (branchesOf f n.id) c = some action := by
  have hfilled := h.filled
  cases c with
  | prompt c => exact ⟨_, rfl⟩
  | key c => exact ⟨_, by rw [action?, branchTable?_branchesOf h rfl]; rfl⟩
  | language c => exact ⟨_, by rw [action?, branchTable?_branchesOf h rfl]; rfl⟩
  | api c => exact ⟨_, rfl⟩
  | record c => exact ⟨_, rfl⟩
  | menu c => exact ⟨_, rfl⟩
  | hangup => exact ⟨_, rfl⟩
  | transfer c =>
    obtain ⟨destination, hdestination, -⟩ :
        ∃ d, c.destination = some d ∧ (Setting.text d).isFilled := by
      simpa [Config.kind, BlockKind.required, Config.get?] using hfilled
    exact ⟨_, by rw [action?, hdestination]; rfl⟩
  | queue c =>
    obtain ⟨place, hplace⟩ := exists_place (c := c) <| by
      simpa [Config.kind, BlockKind.required, Config.get?] using hfilled
    exact ⟨_, by rw [action?, hplace]; rfl⟩
  | voicemail c =>
    obtain ⟨place, hplace⟩ := exists_place (c := c) <| by
      simpa [Config.kind, BlockKind.required, Config.get?] using hfilled
    exact ⟨_, by rw [action?, hplace]; rfl⟩

/-- A node that fits its kind has a unit, unless the handle of an edge that leaves it has too many
digits. -/
theorem exists_unit {n : Node} {c : Config} (h : n.Fits f c) (hblock : n.block = .known c)
    (hshort : ∀ e ∈ f.edges, e.source = n.id → ¬ Keypad.isTooLong e.handle) :
    ∃ u, unit f policy n = .ok u := by
  have hsort : Keypad.sortBy? Edge.handle (f.outgoing n.id) = some (branchesOf f n.id) := by
    refine Keypad.sortBy?_of_short fun e he => ?_
    obtain ⟨hedge, hsource⟩ := Flow.mem_outgoing_iff.mp he
    exact hshort e hedge hsource
  obtain ⟨action, haction⟩ : ∃ action, action? policy (branchesOf f n.id) c = some action :=
    exists_action h
  exact ⟨⟨n.id, n.name, action⟩, by simp only [unit, hblock, hsort, haction]⟩

/-- Nodes have units exactly if each of them has its own. -/
theorem units_eq_ok_iff {nodes : List Node} {us : List ScriptUnit} :
    units f policy nodes = .ok us ↔ List.Forall₂ (fun n u => unit f policy n = .ok u) nodes us := by
  induction nodes generalizing us with
  | nil =>
    simp only [units, List.forall₂_nil_left_iff, Except.ok.injEq]
    exact eq_comm
  | cons n rest ih =>
    rw [List.forall₂_cons_left_iff, units]
    constructor
    · intro h
      obtain ⟨u, hu, h⟩ := Except.bind_eq_ok_iff.mp h
      obtain ⟨us', hus, h⟩ := Except.bind_eq_ok_iff.mp h
      exact ⟨u, us', hu, ih.mp hus, (Except.ok.inj h).symm⟩
    · rintro ⟨u, us', hu, hus, rfl⟩
      exact Except.bind_eq_ok_iff.mpr ⟨u, hu, Except.bind_eq_ok_iff.mpr ⟨us', ih.mpr hus, rfl⟩⟩

/-- The first node without a unit says why there are none. -/
theorem units_eq_error {n : Node} {fault : CompileFault} (hn : unit f policy n = .error fault)
    (after : List Node) : ∀ {before : List Node}, (∀ m ∈ before, ∃ u, unit f policy m = .ok u) →
      units f policy (before ++ n :: after) = .error fault
  | [], _ => by simp [units, hn, bind, Except.bind]
  | m :: before, h => by
    obtain ⟨u, hu⟩ := h m List.mem_cons_self
    have ih := units_eq_error hn after fun m' h' => h m' (List.mem_cons_of_mem _ h')
    simp [units, hu, ih, bind, Except.bind]

/-- Where each node has a unit, there are units of them all. -/
theorem exists_units : ∀ {nodes : List Node}, (∀ n ∈ nodes, ∃ u, unit f policy n = .ok u) →
    ∃ us, units f policy nodes = .ok us
  | [], _ => ⟨[], rfl⟩
  | n :: rest, h => by
    obtain ⟨u, hu⟩ := h n List.mem_cons_self
    obtain ⟨us, hus⟩ := exists_units fun n' h' => h n' (List.mem_cons_of_mem _ h')
    exact ⟨u :: us, Except.bind_eq_ok_iff.mpr ⟨u, hu, Except.bind_eq_ok_iff.mpr ⟨us, hus, rfl⟩⟩⟩

end Compilation

/-! ## The outcome -/

namespace Flow

variable {f : Flow} {policy : Policy}

/-- A flow with errors is not compiled, and the errors are given back. -/
theorem compile_of_errors (h : f.validate.errors ≠ []) :
    f.compile policy = .error (.notCompilable f.validate.errors) := by
  simp only [compile]
  split
  · rename_i hnil _
    exact absurd hnil h
  · rfl

/-- A compilable flow becomes the units of the nodes that the search comes to. -/
theorem compile_of_compilable (h : f.Compilable) {start : String}
    (hstart : f.resolveStart = some start) :
    f.compile policy =
      (Compilation.units f policy ((Compilation.order f start).filterMap f.node?)).map
        fun units => ⟨start, units⟩ := by
  obtain ⟨start', -, hresolve, hvalidate⟩ := h.exists_start
  obtain rfl : start' = start := Option.some.inj (hresolve.symm.trans hstart)
  simp only [compile, Validation.errors_eq_nil_iff.mpr h, hvalidate]
  cases Compilation.units f policy ((Compilation.order f start').filterMap f.node?) <;> rfl

/-- A compilable flow gives a script if the nodes that the search comes to have units. -/
theorem exists_compile_of_units (h : f.Compilable) {start : String}
    (hstart : f.resolveStart = some start)
    (hunits : ∀ n ∈ f.nodes, n.id ∈ Compilation.order f start →
      ∃ u, Compilation.unit f policy n = .ok u) :
    ∃ script, f.compile policy = .ok script := by
  have hvisited : ∀ n ∈ (Compilation.order f start).filterMap f.node?,
      ∃ u, Compilation.unit f policy n = .ok u := by
    intro n hn
    obtain ⟨id, hid, hnode⟩ := List.mem_filterMap.mp hn
    obtain ⟨hmem, rfl⟩ := node?_eq_some_iff.mp hnode
    exact hunits n hmem hid
  obtain ⟨us, hus⟩ := Compilation.exists_units hvisited
  exact ⟨⟨start, us⟩, by rw [compile_of_compilable h hstart, hus]; rfl⟩

/-- The first node without a unit that the search comes to keeps a flow from being compiled. -/
theorem compile_of_first (h : f.Compilable) {start : String} (hstart : f.resolveStart = some start)
    {before after : List String} {n : Node} {fault : CompileFault}
    (horder : Compilation.order f start = before ++ n.id :: after) (hn : n ∈ f.nodes)
    (hbefore : ∀ m ∈ f.nodes, m.id ∈ before → ∃ u, Compilation.unit f policy m = .ok u)
    (hfault : Compilation.unit f policy n = .error fault) :
    f.compile policy = .error fault := by
  have hnode : f.node? n.id = some n := node?_eq_some_iff.mpr ⟨hn, rfl⟩
  have hunits : ∀ m ∈ before.filterMap f.node?, ∃ u, Compilation.unit f policy m = .ok u := by
    intro m hm
    obtain ⟨id, hid, hm⟩ := List.mem_filterMap.mp hm
    obtain ⟨hmem, rfl⟩ := node?_eq_some_iff.mp hm
    exact hbefore m hmem hid
  rw [compile_of_compilable h hstart, horder, List.filterMap_append,
    List.filterMap_cons_some hnode,
    Compilation.units_eq_error hfault (after.filterMap f.node?) hunits]
  rfl

/-- Where some of the nodes visited are of one sort, there is a first one. -/
theorem exists_first {visited : List String} {P : Node → Prop} {n : Node} (hn : n ∈ f.nodes)
    (hvisited : n.id ∈ visited) (hP : P n) :
    ∃ before after m, visited = before ++ m.id :: after ∧ m ∈ f.nodes ∧ P m ∧
      ∀ m' ∈ f.nodes, m'.id ∈ before → ¬ P m' := by
  classical
  have hsome : (visited.find? fun id => (f.node? id).any fun m => P m).isSome := by
    rw [List.find?_isSome]
    exact ⟨n.id, hvisited, by simpa [node?_eq_some_iff.mpr ⟨hn, rfl⟩] using hP⟩
  obtain ⟨id, hid⟩ := Option.isSome_iff_exists.mp hsome
  obtain ⟨hfirst, before, after, rfl, hbefore⟩ := List.find?_eq_some_iff_append.mp hid
  obtain ⟨m, hm, hPm⟩ := (Option.any_eq_true _ _).mp hfirst
  obtain ⟨hmem, rfl⟩ := node?_eq_some_iff.mp hm
  refine ⟨before, after, m, rfl, hmem, of_decide_eq_true hPm, fun m' hmem' hm' hPm' => ?_⟩
  have hnot := hbefore m'.id hm'
  rw [node?_eq_some_iff.mpr ⟨hmem', rfl⟩] at hnot
  simp [hPm'] at hnot

/-- A node of a known kind has a unit, unless the handle of an edge that leaves it has too many
digits. -/
theorem exists_unit_of_isKnown (h : f.Compilable) {n : Node} (hn : n ∈ f.nodes)
    (hknown : n.block.isKnown)
    (hshort : ∀ e ∈ f.edges, e.source = n.id → ¬ Keypad.isTooLong e.handle) :
    ∃ u, Compilation.unit f policy n = .ok u := by
  cases hblock : n.block with
  | unknown declared entries => simp [hblock, Block.isKnown, Block.kind?] at hknown
  | known c => exact Compilation.exists_unit (h.fits n hn c hblock) hblock hshort

section

variable {start : String} (h : f.Compilable)
  (hshort : ∀ e ∈ f.edges, ¬ Keypad.isTooLong e.handle) (hstart : f.resolveStart = some start)

include h hshort hstart

end

/-- A flow where the caller chooses between two keys and only one of them leads on. -/
def oneChoice : Flow where
  nodes := [⟨"ask", "Ask", .known (.key ⟨[("1", "Leave"), ("2", "Stay")], some "Press 1.", none,
      none⟩), Node.origin⟩,
    ⟨"end", "End", .known .hangup, Node.origin⟩]
  edges := [⟨"e-ask-1-end", "ask", "end", some "1"⟩]
  start := some "ask"
  distinct := by decide

end Flow

/-! ## Scripts -/

namespace Compilation

variable {f : Flow} {policy : Policy}

/-- A node that has a unit is of a known kind, and the unit does what its block says. -/
theorem unit_eq_ok {n : Node} {u : ScriptUnit} (h : unit f policy n = .ok u) :
    ∃ c action, n.block = .known c ∧ action? policy (branchesOf f n.id) c = some action ∧
      u = ⟨n.id, n.name, action⟩ := by
  unfold unit at h
  split at h
  · cases h
  · rename_i c hblock
    split at h
    · cases h
    · rename_i edges hsort
      unfold Keypad.sortBy? at hsort
      split at hsort
      · cases hsort
      · obtain rfl := Option.some.inj hsort
        split at h
        · cases h
        · rename_i action haction
          exact ⟨c, action, hblock, haction, (Except.ok.inj h).symm⟩

/-- The label of a unit is the id of its node. -/
theorem label_of_unit_eq_ok {n : Node} {u : ScriptUnit} (h : unit f policy n = .ok u) :
    u.label = n.id := by
  obtain ⟨_, _, -, -, rfl⟩ := unit_eq_ok h
  rfl

/-- The units of some nodes have the ids of the nodes for labels. -/
theorem map_label_units {nodes : List Node} {us : List ScriptUnit}
    (h : units f policy nodes = .ok us) : us.map ScriptUnit.label = nodes.map Node.id := by
  rw [units_eq_ok_iff] at h
  induction h with
  | nil => rfl
  | cons hu _ ih => rw [List.map_cons, List.map_cons, label_of_unit_eq_ok hu, ih]

/-- Each of some nodes has its unit among their units. -/
theorem exists_mem_units {nodes : List Node} {us : List ScriptUnit}
    (h : units f policy nodes = .ok us) : ∀ n ∈ nodes, ∃ u ∈ us, unit f policy n = .ok u :=
  (units_eq_ok_iff.mp h).exists_mem

/-- Each of the units of some nodes is that of one of them. -/
theorem exists_mem_nodes {nodes : List Node} {us : List ScriptUnit}
    (h : units f policy nodes = .ok us) : ∀ u ∈ us, ∃ n ∈ nodes, unit f policy n = .ok u :=
  (units_eq_ok_iff.mp h).flip.exists_mem

end Compilation

namespace Flow

variable {f : Flow} {policy : Policy} {s : Script}

/-- What a script is made of: the flow keeps the rules, the script starts where a call begins, and
its units are those of the nodes that the search comes to. -/
theorem compile_eq_ok (h : f.compile policy = .ok s) : f.Compilable ∧
    f.resolveStart = some s.start ∧
      Compilation.units f policy ((Compilation.order f s.start).filterMap f.node?) =
        .ok s.units := by
  have herrors : f.validate.errors = [] := by
    by_contra herrors
    rw [compile_of_errors herrors] at h
    cases h
  have hcompilable := Validation.errors_eq_nil_iff.mp herrors
  obtain ⟨start, -, hstart, -⟩ := hcompilable.exists_start
  rw [compile_of_compilable hcompilable hstart] at h
  obtain ⟨us, hunits, rfl⟩ := Except.map_eq_ok_iff.mp h
  exact ⟨hcompilable, hstart, hunits⟩

/-- The labels of a script are the nodes that the search comes to. -/
theorem labels_compile (h : f.compile policy = .ok s) :
    s.labels = Compilation.order f s.start := by
  obtain ⟨-, -, hunits⟩ := compile_eq_ok h
  unfold Script.labels
  rw [Compilation.map_label_units hunits, map_id_filterMap_node?]
  exact fun id => Compilation.mem_ids_of_mem_order

/-- No label occurs twice in the script of a flow. -/
theorem nodup_labels_compile (h : f.compile policy = .ok s) : s.labels.Nodup := by
  obtain ⟨hcompilable, hstart, -⟩ := compile_eq_ok h
  rw [labels_compile h]
  exact (Compilation.depthFirst_order hcompilable (mem_ids_of_resolveStart hstart)).nodup

/-- The labels of a script are the nodes that a call can get to. -/
theorem mem_labels_compile_iff (h : f.compile policy = .ok s) {id : String} :
    id ∈ s.labels ↔ f.Reaches s.start id := by
  obtain ⟨hcompilable, hstart, -⟩ := compile_eq_ok h
  rw [labels_compile h, Compilation.mem_order_iff hcompilable (mem_ids_of_resolveStart hstart)]

/-- A call stays among the nodes. -/
theorem mem_ids_of_reaches (h : f.compile policy = .ok s) {id : String}
    (hid : f.Reaches s.start id) : id ∈ f.ids :=
  Compilation.mem_ids_of_mem_order (labels_compile h ▸ (mem_labels_compile_iff h).mpr hid)

/-- A jump to a node that a call can get to comes to the unit of the node. -/
theorem target?_compile (h : f.compile policy = .ok s) {id : String}
    (hid : f.Reaches s.start id) : ∃ n u, f.node? id = some n ∧
      Compilation.unit f policy n = .ok u ∧ s.target? id = some u := by
  obtain ⟨-, -, hunits⟩ := compile_eq_ok h
  have horder := labels_compile h ▸ (mem_labels_compile_iff h).mpr hid
  obtain ⟨n, hn⟩ := exists_node?_of_mem_ids (mem_ids_of_reaches h hid)
  have hmem : n ∈ (Compilation.order f s.start).filterMap f.node? :=
    List.mem_filterMap.mpr ⟨id, horder, hn⟩
  obtain ⟨u, hu, hunit⟩ := Compilation.exists_mem_units hunits n hmem
  refine ⟨n, u, hn, hunit, ?_⟩
  have hnodup : (s.units.reverse.map ScriptUnit.label).Nodup := by
    rw [List.map_reverse, List.nodup_reverse]
    exact nodup_labels_compile h
  refine (Association.find?_key_eq_some_iff hnodup).mpr ⟨List.mem_reverse.mpr hu, ?_⟩
  rw [Compilation.label_of_unit_eq_ok hunit, (node?_eq_some_iff.mp hn).2]

end Flow

end CallFlow
