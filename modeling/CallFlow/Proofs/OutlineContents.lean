import CallFlow.Outline
import CallFlow.Proofs.Cycles
import CallFlow.Proofs.OutlineReader
import CallFlow.Proofs.UnitOrder

/-!
# What an outline lists

An outline is a page of numbered items, one for each node that its walk comes to, with the nodes
that are left over behind them (`Outline.page`). The walk is a search of its own: it takes the edges
of all nodes from one sorted list, and the edges from a node to one place count as one. What a page
says is found again by a reader of its lines (`Outline.read?`), where the texts in it are plain
(`Flow.IsPlain`).

* `Outline.depthFirst_targets`: a search finds the same if what waits twice waits once.
* `Outline.order_eq_labels`: so for a flow that is compiled the walk comes to the units of the
  script, in their order.
* `Outline.map_fst_openOptions`: the options that an item shows as leading nowhere are those that
  the check on options finds.
* `Outline.read?_page`: the items and the nodes that are left over are read back from a page.
* `Flow.outline_eq_page`: outline, script and findings agree.
-/

namespace CallFlow

/-! ## Findings of one node -/

namespace Report

/-- The options of a node that are found to lead nowhere. -/
def openOptions (r : Report) (id : String) : List String :=
  ((r.byCode .deadBranch).filter fun x => x.node? = some id).filterMap Finding.handle?

/-- The nodes that are found to be out of reach. -/
def unreached (r : Report) : List String :=
  (r.byCode .unreachableNode).filterMap Finding.node?

end Report

namespace Validation

variable {f : Flow}

/-- Of what items with distinct keys contribute, the part with the key of an item is its own. -/
theorem filter_flatMap_of_tag {α β γ : Type} [DecidableEq γ] {key : α → γ} {tag : β → Option γ}
    {g : α → List β} (htag : ∀ x, ∀ y ∈ g x, tag y = some (key x)) :
    ∀ {items : List α}, (items.map key).Nodup → ∀ {x : α}, x ∈ items →
      (items.flatMap g).filter (fun y => tag y = some (key x)) = g x
  | [], _, _, hx => absurd hx List.not_mem_nil
  | z :: rest, hnodup, x, hx => by
    obtain ⟨hnew, hnodup⟩ := List.nodup_cons.mp hnodup
    have hother : ∀ w, key w ≠ key x →
        (g w).filter (fun y => tag y = some (key x)) = [] := by
      intro w hw
      apply List.filter_eq_nil_iff.mpr
      intro y hy
      simpa [htag w y hy] using hw
    rw [List.flatMap_cons, List.filter_append]
    rcases List.mem_cons.mp hx with rfl | hx
    · -- nothing behind the item has its key
      have hself : (g x).filter (fun y => tag y = some (key x)) = g x := by
        apply List.filter_eq_self.mpr
        intro y hy
        simpa using htag x y hy
      have hrest : (rest.flatMap g).filter (fun y => tag y = some (key x)) = [] := by
        rw [List.filter_flatMap, List.flatMap_eq_nil_iff]
        intro w hw
        exact hother w fun heq => hnew (List.mem_map.mpr ⟨w, hw, heq⟩)
      rw [hself, hrest, List.append_nil]
    · rw [hother z fun heq => hnew (List.mem_map.mpr ⟨x, hx, heq.symm⟩), List.nil_append]
      exact filter_flatMap_of_tag htag hnodup hx

/-- The findings on options that lead nowhere are those of the nodes, one after the other. -/
theorem byCode_deadBranch (f : Flow) :
    f.validate.byCode .deadBranch = f.nodes.flatMap (deadBranches f) := by
  apply byCode_validate_of_forall
  intro x hx
  obtain ⟨n, -, hn⟩ := List.mem_flatMap.mp hx
  exact code_of_mem_deadBranches hn

/-- The findings on reach are those of the check from where a call begins. -/
theorem byCode_unreachableNode (f : Flow) :
    f.validate.byCode .unreachableNode = (validStart f).elim [] (unreachableFindings f) := by
  apply byCode_validate_of_forall
  intro x hx
  obtain ⟨start, hstart⟩ := exists_start_of_mem_elim hx
  exact code_of_mem_unreachableFindings hstart

/-- A finding on an option names the node that has it. -/
theorem node?_of_mem_deadBranches {n : Node} : ∀ x ∈ deadBranches f n, x.node? = some n.id := by
  intro x hx
  unfold deadBranches at hx
  split at hx
  · exact absurd hx List.not_mem_nil
  · obtain ⟨o, -, rfl⟩ := List.mem_map.mp hx
    rfl

/-- The open options of a node are those of its options that no edge leaves by. -/
theorem openOptions_validate {n : Node} {c : Config} (hn : n ∈ f.nodes)
    (hblock : n.block = .known c) :
    f.validate.openOptions n.id =
      c.options.keys.filter fun o => some o ∉ (f.outgoing n.id).map Edge.handle := by
  unfold Report.openOptions
  rw [byCode_deadBranch, filter_flatMap_of_tag (fun _ => node?_of_mem_deadBranches) f.distinct hn]
  simp only [deadBranches, hblock, List.filterMap_map, Function.comp_def, Finding.handle?]
  exact List.filterMap_some

/-- Where a call begins at a node, the nodes out of reach are those that the check does not come
to. -/
theorem unreached_validate {start : String} (hstart : f.validate.start = some start) :
    f.validate.unreached = (f.nodes.filter fun n => n.id ∉ f.reachedFrom start).map Node.id := by
  unfold Report.unreached
  rw [byCode_unreachableNode, show validStart f = some start from hstart]
  simp only [Option.elim_some, unreachableFindings, List.filterMap_map, Function.comp_def,
    Finding.node?]
  exact congrFun List.filterMap_eq_map' _

end Validation

namespace Outline

/-! ## Pages -/

/-- What an outline says of a node: its number, the edges that leave it, and those of its options
that lead nowhere. -/
structure Item where
  number : Nat
  node : Node
  edges : List Edge
  openOptions : Entries

/-- The lines of an item: its node, an arrow for each edge and a cross for each option that leads
nowhere. -/
def Item.lines (f : Flow) (i : Item) : List String :=
  (Text.twoDigits i.number ++ ". " ++ i.node.name ++ " [" ++ i.node.block.typeName ++ "]  id=" ++
    i.node.id) ::
  (i.edges.map (fun e => "    └─▶ " ++ Validation.nameOf f e.target ++
      e.handle.elim "" fun h => "  (on " ++ h ++ ")") ++
    i.openOptions.map fun o =>
      "    └─✗ " ++ o.2.display ++ "  (on " ++ o.1.display ++ ", not connected)")

/-- The lines of the nodes that are left over. -/
def leftOverLines : List Node → List String
  | [] => []
  | rest =>
    "# Unreachable" :: rest.map fun n =>
      "  - " ++ n.name ++ " [" ++ n.block.typeName ++ "]  id=" ++ n.id

/-- The text of some items and of the nodes that are left over. -/
def page (f : Flow) (items : List Item) (leftOver : List Node) : String :=
  "\n".intercalate (title f :: (items.flatMap (Item.lines f) ++ leftOverLines leftOver))

variable {f : Flow} {policy : Policy} {s : Script}

/-- The lines at the end are those of the nodes that are not listed. -/
theorem restLines_eq (f : Flow) (listed : List String) :
    restLines f listed = leftOverLines (f.nodes.filter fun n => n.id ∉ listed) := by
  unfold restLines leftOverLines
  cases f.nodes.filter fun n => n.id ∉ listed <;> rfl

/-! ## The walk -/

/-- The targets of edges are where the edges lead. -/
theorem mem_targets_iff {edges : List Edge} {id : String} :
    id ∈ targets edges ↔ ∃ e ∈ edges, e.target = id := by
  induction edges with
  | nil => simp [targets]
  | cons e rest ih =>
    simp only [targets, List.mem_cons, List.mem_filter, ih, exists_eq_or_imp]
    by_cases h : e.target = id
    · simp [h]
    · simp [h, Ne.symm h]

/-- A search finds the same if each place that edges lead to waits once, where the first of them
is. -/
theorem depthFirst_targets {successors : String → List String} :
    ∀ {edges : List Edge} {seen found : List String},
      Traversal.DepthFirst successors seen (edges.map Edge.target) found →
        Traversal.DepthFirst successors seen (targets edges) found
  | [], _, _, h => h
  | e :: rest, seen, found, h => by
    have hdrop : ∀ x ∈ targets rest, decide (x ≠ e.target) = false → x = e.target := by
      intro x _ hx
      simpa using hx
    rw [List.map_cons] at h
    cases h with
    | skip hseen hrest =>
      refine .skip hseen ((depthFirst_targets hrest).filter_waiting fun x hx hx' => ?_)
      exact hdrop x hx hx' ▸ hseen
    | enter hnew hinner hrest =>
      refine .enter hnew hinner ((depthFirst_targets hrest).filter_waiting fun x hx hx' => ?_)
      rw [hdrop x hx hx']
      exact List.mem_append_right _ List.mem_cons_self

/-- All edges of a compilable flow are between nodes. -/
theorem innerEdges_eq (h : f.Compilable) : innerEdges f = f.edges := by
  apply List.filter_eq_self.mpr
  intro e he
  obtain ⟨hsource, htarget⟩ := h.connected e he
  simp [Flow.hasNode_iff, hsource, htarget]

/-- The edges of one node among all edges in keypad order are the edges of the node in keypad
order. -/
theorem filter_sortBy_edges (f : Flow) (id : String) :
    (Keypad.sortBy Edge.handle f.edges).filter (fun e => e.source = id) =
      Compilation.branchesOf f id := Keypad.filter_sortBy _ f.edges

/-- **One order.** The walk of an outline comes to the units of the script, in their order. -/
theorem order_eq_labels (h : f.compile policy = .ok s) :
    order f (Keypad.sortBy Edge.handle (innerEdges f)) = s.labels := by
  obtain ⟨hcompilable, hstart, -⟩ := Flow.compile_eq_ok h
  have hsuccessors : successors (Keypad.sortBy Edge.handle f.edges) =
      fun id => targets (Compilation.branchesOf f id) := by
    funext id
    rw [successors, filter_sortBy_edges]
  simp only [order, hstart, innerEdges_eq hcompilable, hsuccessors]
  have hclosed : ∀ x ∈ f.ids, ∀ y ∈ targets (Compilation.branchesOf f x), y ∈ f.ids := by
    intro x _ y hy
    obtain ⟨e, he, rfl⟩ := mem_targets_iff.mp hy
    exact (hcompilable.connected e (Compilation.mem_branchesOf_iff.mp he).1).2
  have hwalk :=
    Traversal.depthFirst_preorder f.distinct hclosed (Flow.mem_ids_of_resolveStart hstart)
  refine hwalk.unique ((Flow.depthFirst_labels h).of_successors ?_)
  intro _ _ _ hinner
  exact depthFirst_targets hinner

/-! ## Items -/

/-- The item of a node. -/
def item (sorted : List Edge) (number : Nat) (n : Node) : Item where
  number := number
  node := n
  edges := grouped sorted n.id
  openOptions := openOptions (grouped sorted n.id) (n.block.options.toOption.getD [])

/-- Grouping keeps the edges of a node. -/
theorem mem_grouped_iff {sorted : List Edge} {id : String} {e : Edge} :
    e ∈ grouped sorted id ↔ e ∈ sorted ∧ e.source = id := by
  simp only [grouped, List.mem_flatMap, List.mem_filter, mem_targets_iff, decide_eq_true_eq]
  constructor
  · rintro ⟨-, -, he, -⟩
    exact he
  · intro he
    exact ⟨e.target, ⟨e, he, rfl⟩, he, rfl⟩

/-- A handle is found under an option exactly if it is the option. -/
theorem same_handleKey (e : Edge) (option : String) :
    (handleKey e).same (.text option) = decide (e.handle = some option) := by
  unfold handleKey
  cases e.handle with
  | none => simp [Scalar.same, Scalar.toInt?]
  | some h => simp [Scalar.same]

/-- The options that an item shows are those that the check finds. -/
theorem map_fst_openOptions {n : Node} {c : Config} (hn : n ∈ f.nodes) (hblock : n.block = .known c)
    {out : List Edge} (hout : ∀ e, e ∈ out ↔ e ∈ f.outgoing n.id) :
    (openOptions out (c.options.map fun o => (.text o.1, .text o.2))).map Prod.fst =
      (f.validate.openOptions n.id).map Scalar.text := by
  have hused : ∀ o : String, (out.any fun e => decide (e.handle = some o)) =
      decide (some o ∈ (f.outgoing n.id).map Edge.handle) := by
    intro o
    rw [Bool.eq_iff_iff]
    simp [hout]
  rw [Validation.openOptions_validate hn hblock]
  unfold openOptions TextTable.keys
  simp only [List.filter_map, List.map_map, Function.comp_def, same_handleKey, hused, decide_not]

/-- What an item says of its node is so: it shows the edges that leave the node, and of its options
those that are found to lead nowhere. -/
structure Item.Agrees (f : Flow) (i : Item) : Prop where
  node : i.node ∈ f.nodes
  edges : ∀ e, e ∈ i.edges ↔ e ∈ f.outgoing i.node.id
  options : ∃ options, i.node.block.options = .ok options ∧ i.openOptions.Sublist options
  openOptions : i.openOptions.map Prod.fst = (f.validate.openOptions i.node.id).map Scalar.text

/-- The options of a known kind are those of its configuration. -/
theorem options_of_known {n : Node} {c : Config} (h : n.block = .known c) :
    n.block.options = .ok (c.options.map fun o => (.text o.1, .text o.2)) := by
  rw [h]
  rfl

/-- The item of a node of a known kind agrees with the node, whichever way the edges are sorted. -/
theorem agrees_item {sorted : List Edge} (hsorted : sorted.Perm f.edges) (number : Nat) {n : Node}
    {c : Config} (hn : n ∈ f.nodes) (hblock : n.block = .known c) :
    (item sorted number n).Agrees f := by
  have hedges : ∀ e, e ∈ grouped sorted n.id ↔ e ∈ f.outgoing n.id := by
    intro e
    rw [mem_grouped_iff, Flow.mem_outgoing_iff, hsorted.mem_iff]
  have hopen : (item sorted number n).openOptions = Outline.openOptions (grouped sorted n.id)
      (c.options.map fun o => (.text o.1, .text o.2)) := by
    rw [item, options_of_known hblock]
    rfl
  constructor
  · exact hn
  · exact hedges
  · exact ⟨_, options_of_known hblock, hopen ▸ List.filter_sublist⟩
  · rw [hopen]
    exact map_fst_openOptions hn hblock hedges

/-- The lines of a node can be written: its options are a mapping, and the line of each one that
leads nowhere can be written. -/
def HasLines (sorted : List Edge) (n : Node) : Prop :=
  ∃ options, n.block.options = .ok options ∧
    ∀ o ∈ openOptions (grouped sorted n.id) options, canWriteLine o

/-- The line of an edge is that of an arrow. -/
theorem edgeLine_eq (e : Edge) : edgeLine f e = "    └─▶ " ++ Validation.nameOf f e.target ++
    e.handle.elim "" fun h => "  (on " ++ h ++ ")" := by
  unfold edgeLine
  cases e.handle <;> rfl

/-- The lines of a node are those of its item. -/
theorem nodeLines_eq_ok_iff {sorted : List Edge} {number : Nat} {n : Node} {lines : List String} :
    nodeLines f sorted number n = .ok lines ↔
      HasLines sorted n ∧ lines = (item sorted number n).lines f := by
  unfold nodeLines HasLines item Item.lines
  rw [show edgeLine f = _ from funext edgeLine_eq]
  cases n.block.options with
  | error fault => simp [Except.mapError, bind, Except.bind]
  | ok options =>
    simp only [Except.mapError, bind, Except.bind, Except.ok.injEq, exists_eq_left',
      Except.toOption, Option.getD_some, ← List.all_eq_true]
    split
    · rename_i hall
      simp only [hall, true_and, Except.ok.injEq, eq_comm]
      rfl
    · rename_i hall
      simp [hall]

/-- Nodes whose lines can be written have the lines of their items. -/
theorem numberedLines_eq_ok_iff {sorted : List Edge} : ∀ {number : Nat} {nodes : List Node}
    {blocks : List (List String)}, numberedLines f sorted number nodes = .ok blocks ↔
      (∀ n ∈ nodes, HasLines sorted n) ∧
        blocks = (nodes.zipIdx number).map fun p => (item sorted p.2 p.1).lines f
  | _, [], blocks => by simp [numberedLines, eq_comm]
  | number, n :: rest, blocks => by
    rw [numberedLines]
    simp only [Except.bind_eq_ok_iff, nodeLines_eq_ok_iff, numberedLines_eq_ok_iff,
      Except.ok.injEq, List.forall_mem_cons, List.zipIdx_cons, List.map_cons]
    constructor
    · rintro ⟨lines, ⟨hn, rfl⟩, more, ⟨hrest, rfl⟩, rfl⟩
      exact ⟨⟨hn, hrest⟩, rfl⟩
    · rintro ⟨⟨hn, hrest⟩, rfl⟩
      exact ⟨_, ⟨hn, rfl⟩, _, ⟨hrest, rfl⟩, rfl⟩

/-- Known kinds have options that are texts, so their lines can always be written. -/
theorem hasLines_of_known (sorted : List Edge) {n : Node} {c : Config} (h : n.block = .known c) :
    HasLines sorted n := by
  refine ⟨_, options_of_known h, fun o ho => ?_⟩
  obtain ⟨option, -, rfl⟩ := List.mem_map.mp (List.mem_filter.mp ho).1
  rfl

/-- Nodes of known kinds have lines, which are those of their items. -/
theorem numberedLines_eq_ok (f : Flow) (sorted : List Edge) (number : Nat) {nodes : List Node}
    (h : ∀ n ∈ nodes, ∃ c, n.block = .known c) : numberedLines f sorted number nodes =
      .ok ((nodes.zipIdx number).map fun p => (item sorted p.2 p.1).lines f) := by
  refine numberedLines_eq_ok_iff.mpr ⟨fun n hn => ?_, rfl⟩
  obtain ⟨c, hblock⟩ := h n hn
  exact hasLines_of_known sorted hblock

/-! ## What pages say -/

/-- What the lines of an item say: the number and the id of its node, the edges that leave it, and
those of its options that are found to lead nowhere. -/
def Item.said (f : Flow) (i : Item) : List Line :=
  .item i.number i.node.id ::
    (i.edges.map (fun e => .arrow (Validation.nameOf f e.target) e.handle) ++
      (f.validate.openOptions i.node.id).map .unused)

/-- What the lines of the nodes that are left over say. -/
def saidOfRest : List String → List Line
  | [] => []
  | ids => .rest :: ids.map .leftOver

end Outline

/-- The texts of a flow are such that the lines of its outline can be read: none of them holds a
line break, no id holds an equals sign, no option and no handle holds an opening bracket, and names
do not hold what stands in front of a handle. -/
structure Flow.IsPlain (f : Flow) : Prop where
  ids : ∀ n ∈ f.nodes, '\n' ∉ n.id.toList ∧ '=' ∉ n.id.toList
  names : ∀ n ∈ f.nodes, '\n' ∉ n.name.toList ∧ ¬ "(on ".toList <:+: n.name.toList
  handles : ∀ e ∈ f.edges, ∀ h ∈ e.handle, '\n' ∉ h.toList ∧ '(' ∉ h.toList
  options : ∀ n ∈ f.nodes, ∀ o ∈ n.block.options.toOption.getD [],
    '\n' ∉ o.1.display.toList ∧ '(' ∉ o.1.display.toList ∧ '\n' ∉ o.2.display.toList

namespace Outline

variable {f : Flow}

/-- A number is written on one line. -/
theorem not_mem_twoDigits (n : Nat) : '\n' ∉ (Text.twoDigits n).toList := by
  intro h
  exact absurd ((Text.toList_twoDigits n).2.1 _ h) (by decide)

/-- Kinds have names without line breaks, whatever an unknown block calls its own. -/
theorem not_mem_typeName (b : Block) : '\n' ∉ b.typeName.toList := by
  have hunknown : '\n' ∉ unknownName.toList := by decide
  have hkind : ∀ k : BlockKind, '\n' ∉ k.name.toList := by
    intro k
    cases k <;> decide
  cases b with
  | known c => exact hkind c.kind
  | unknown => exact hunknown

section

variable (hplain : f.IsPlain)

include hplain

/-- The name of a node is plain where the node is found by its id. -/
theorem plain_nameOf {id : String} (h : id ∈ f.ids) :
    '\n' ∉ (Validation.nameOf f id).toList ∧
      ¬ "(on ".toList <:+: (Validation.nameOf f id).toList := by
  obtain ⟨n, hn⟩ := Flow.exists_node?_of_mem_ids h
  rw [Validation.nameOf, hn]
  exact hplain.names n (Flow.node?_eq_some_iff.mp hn).1

/-- The title says where the walk begins. -/
theorem says_title {start : String} (h : f.resolveStart = some start) :
    Line.Says (title f) (.title (Validation.nameOf f start)) := by
  have hname := (plain_nameOf hplain (Flow.mem_ids_of_resolveStart h)).1
  have htitle : title f = "# ASCII Plan (depth-first from '" ++ Validation.nameOf f start ++
      "')" := by rw [title, h]
  rw [htitle]
  exact ⟨by simp [hname], Line.read?_title _⟩

/-- The line of a node says its number and its id. -/
theorem says_node {n : Node} (hn : n ∈ f.nodes) (number : Nat) :
    Line.Says (Text.twoDigits number ++ ". " ++ n.name ++ " [" ++ n.block.typeName ++ "]  id=" ++
      n.id) (.item number n.id) := by
  obtain ⟨hline, hid⟩ := hplain.ids n hn
  refine ⟨?_, Line.read?_item _ _ _ hid⟩
  simp [hline, hplain.names n hn, not_mem_twoDigits, not_mem_typeName]

/-- The line of an edge says where it leads and by which handle. -/
theorem says_edge {e : Edge} (he : e ∈ f.edges) (htarget : e.target ∈ f.ids) :
    Line.Says ("    └─▶ " ++ Validation.nameOf f e.target ++
      e.handle.elim "" fun h => "  (on " ++ h ++ ")")
      (.arrow (Validation.nameOf f e.target) e.handle) := by
  obtain ⟨hname, hinfix⟩ := plain_nameOf hplain htarget
  have hhandle := hplain.handles e he
  refine ⟨?_, Line.read?_arrow hinfix fun h hh => (hhandle h hh).2⟩
  cases hcase : e.handle with
  | none => simp [hname]
  | some h => simp [hname, hhandle h hcase]

/-- The line of an option that leads nowhere says which option it is. -/
theorem says_option {n : Node} (hn : n ∈ f.nodes) {options : Entries}
    (hoptions : n.block.options = .ok options) {o : Scalar × Value} (ho : o ∈ options) :
    Line.Says ("    └─✗ " ++ o.2.display ++ "  (on " ++ o.1.display ++ ", not connected)")
      (.unused o.1.display) := by
  have hplainOptions := hplain.options n hn
  rw [hoptions] at hplainOptions
  obtain ⟨hline, hbracket, hlabel⟩ := hplainOptions o ho
  exact ⟨by simp [hline, hlabel], Line.read?_unused _ hbracket⟩

/-- The lines of an item say what its node, the edges and the findings are. -/
theorem says_lines {i : Item} (hagrees : i.Agrees f)
    (hconnected : ∀ e ∈ f.edges, e.target ∈ f.ids) :
    List.Forall₂ Line.Says (i.lines f) (i.said f) := by
  have hfound : (f.validate.openOptions i.node.id).map Line.unused =
      i.openOptions.map fun o => .unused o.1.display := by
    have hdisplay := congrArg (List.map fun s : Scalar => Line.unused s.display)
      hagrees.openOptions.symm
    rw [List.map_map, List.map_map] at hdisplay
    exact hdisplay
  rw [Item.lines, Item.said, hfound]
  refine .cons (says_node hplain hagrees.node i.number) (List.rel_append ?_ ?_)
  · rw [List.forall₂_map_left_iff, List.forall₂_map_right_iff, List.forall₂_same]
    intro e he
    have he : e ∈ f.edges := (Flow.mem_outgoing_iff.mp ((hagrees.edges e).mp he)).1
    exact says_edge hplain he (hconnected e he)
  · rw [List.forall₂_map_left_iff, List.forall₂_map_right_iff, List.forall₂_same]
    intro o ho
    obtain ⟨options, hoptions, hsub⟩ := hagrees.options
    exact says_option hplain hagrees.node hoptions (hsub.subset ho)

/-- The lines of the nodes that are left over say their ids. -/
theorem says_leftOverLines {leftOver : List Node} (hsub : leftOver.Sublist f.nodes) :
    List.Forall₂ Line.Says (leftOverLines leftOver) (saidOfRest (leftOver.map Node.id)) := by
  cases leftOver with
  | nil => exact .nil
  | cons n rest =>
    refine .cons ⟨by decide, by decide⟩ ?_
    rw [List.map_map, List.forall₂_map_left_iff, List.forall₂_map_right_iff, List.forall₂_same]
    intro m hm
    have hm := hsub.subset hm
    obtain ⟨hline, hid⟩ := hplain.ids m hm
    refine ⟨?_, Line.read?_leftOver _ _ hid⟩
    simp [hline, hplain.names m hm, not_mem_typeName]

/-- The items and the nodes that are left over are read back from their page. -/
theorem read?_page {start : String} {items : List Item} {leftOver : List Node}
    (hstart : f.resolveStart = some start) (hconnected : ∀ e ∈ f.edges, e.target ∈ f.ids)
    (hagrees : ∀ i ∈ items, i.Agrees f) (hsub : leftOver.Sublist f.nodes) :
    read? (page f items leftOver) = some (.title (Validation.nameOf f start) ::
      (items.flatMap (Item.said f) ++ saidOfRest (leftOver.map Node.id))) := by
  refine read?_joined (List.cons_ne_nil _ _) (.cons (says_title hplain hstart) ?_)
  refine List.rel_append ?_ (says_leftOverLines hplain hsub)
  induction items with
  | nil => exact .nil
  | cons i rest ih =>
    obtain ⟨hi, hrest⟩ := List.forall_mem_cons.mp hagrees
    rw [List.flatMap_cons, List.flatMap_cons]
    exact List.rel_append (says_lines hplain hi hconnected) (ih hrest)

end

end Outline

namespace Flow

variable {f : Flow} {policy : Policy} {s : Script}

/-- The labels of a script are the ids of nodes of known kinds. -/
theorem exists_nodes_of_labels (h : f.compile policy = .ok s) :
    ∃ nodes, s.labels.filterMap f.node? = nodes ∧ nodes.map Node.id = s.labels ∧
      ∀ n ∈ nodes, n ∈ f.nodes ∧ ∃ c, n.block = .known c := by
  obtain ⟨-, -, hunits⟩ := compile_eq_ok h
  rw [labels_compile h]
  refine ⟨_, rfl, map_id_filterMap_node? fun id => Compilation.mem_ids_of_mem_order, ?_⟩
  intro n hn
  obtain ⟨id, -, hnode⟩ := List.mem_filterMap.mp hn
  obtain ⟨u, -, hunit⟩ := Compilation.exists_mem_units hunits n hn
  obtain ⟨c, -, hblock, -⟩ := Compilation.unit_eq_ok hunit
  exact ⟨(node?_eq_some_iff.mp hnode).1, c, hblock⟩

/-- The nodes without a unit are those that are found to be out of reach. -/
theorem unreached_compile (h : f.compile policy = .ok s) :
    f.validate.unreached = (f.nodes.filter fun n => n.id ∉ s.labels).map Node.id := by
  obtain ⟨hcompilable, hstart, -⟩ := compile_eq_ok h
  obtain ⟨start, hids, hresolve, hvalidate⟩ := hcompilable.exists_start
  obtain rfl : start = s.start := Option.some.inj (hresolve.symm.trans hstart)
  have hreached : ∀ id, id ∈ s.labels ↔ id ∈ f.reachedFrom s.start := by
    intro id
    rw [mem_labels_compile_iff h, hcompilable.mem_reachedFrom_iff hids]
  simp only [Validation.unreached_validate hvalidate, hreached]

/-- **Outline, script and findings agree.** The outline of a flow that is compiled has one item for
each unit of the script, numbered in the order of the units. The options that an item shows as
leading nowhere are those that the findings name for its node, in the same order, and the nodes that
are left over are those that are found to be out of reach. Where the texts of the flow are plain, a
reader of the lines finds just this: the numbers with the labels, the edges and the options under
each, and the ids of the rest. -/
theorem outline_eq_page (h : f.compile policy = .ok s)
    (hshort : ∀ e ∈ f.edges, ¬ Keypad.isTooLong e.handle) :
    ∃ items leftOver, f.outline = .ok (Outline.page f items leftOver) ∧
      items.map (fun i => i.node.id) = s.labels ∧
      items.map Outline.Item.number = List.range' 1 s.labels.length ∧
      (∀ i ∈ items, i.Agrees f) ∧
      leftOver.Sublist f.nodes ∧ leftOver.map Node.id = f.validate.unreached ∧
      (f.IsPlain → Outline.read? (Outline.page f items leftOver) =
        some (.title (Validation.nameOf f s.start) ::
          (items.flatMap (Outline.Item.said f) ++ Outline.saidOfRest f.validate.unreached))) := by
  obtain ⟨hcompilable, hstart, -⟩ := compile_eq_ok h
  have hinner := Outline.innerEdges_eq hcompilable
  have horder := Outline.order_eq_labels h
  rw [hinner] at horder
  have hsort : Keypad.sortBy? Edge.handle f.edges = some (Keypad.sortBy Edge.handle f.edges) := by
    rw [Keypad.sortBy?, if_neg]
    simpa using hshort
  have hperm := Keypad.sortBy_perm Edge.handle f.edges
  generalize Keypad.sortBy Edge.handle f.edges = sorted at horder hsort hperm
  obtain ⟨nodes, hnodes, hids, hknown⟩ := exists_nodes_of_labels h
  have hlines := Outline.numberedLines_eq_ok f sorted 1 fun n hn => (hknown n hn).2
  have hagrees : ∀ i ∈ (nodes.zipIdx 1).map fun p => Outline.item sorted p.2 p.1, i.Agrees f := by
    intro i hi
    obtain ⟨⟨n, number⟩, hmem, rfl⟩ := List.mem_map.mp hi
    obtain ⟨hn, c, hblock⟩ := hknown n (List.fst_mem_of_mem_zipIdx hmem)
    exact Outline.agrees_item hperm number hn hblock
  refine ⟨(nodes.zipIdx 1).map fun p => Outline.item sorted p.2 p.1,
    f.nodes.filter fun n => n.id ∉ s.labels, ?_, ?_, ?_, hagrees, List.filter_sublist,
    (unreached_compile h).symm, ?_⟩
  · simp only [outline, hinner, hsort, horder, hnodes, hlines, Outline.page, Outline.restLines_eq,
      List.flatMap_def, List.map_map]
    rfl
  · calc ((nodes.zipIdx 1).map fun p => Outline.item sorted p.2 p.1).map (fun i => i.node.id)
      _ = ((nodes.zipIdx 1).map Prod.fst).map Node.id := by
        rw [List.map_map, List.map_map]
        rfl
      _ = s.labels := by rw [List.zipIdx_map_fst, hids]
  · calc ((nodes.zipIdx 1).map fun p => Outline.item sorted p.2 p.1).map Outline.Item.number
      _ = (nodes.zipIdx 1).map Prod.snd := by
        rw [List.map_map]
        rfl
      _ = List.range' 1 s.labels.length := by
        rw [List.zipIdx_map_snd, ← hids, List.length_map]
  · intro hplain
    rw [unreached_compile h]
    have hconnected : ∀ e ∈ f.edges, e.target ∈ f.ids := fun e he => (hcompilable.connected e he).2
    exact Outline.read?_page hplain hstart hconnected hagrees List.filter_sublist

/-- A flow with two ways from one node to another, an option that leads nowhere, and two nodes that
no call gets to. The edges are not listed in keypad order. -/
def nightLine : Flow where
  nodes := [⟨"spare", "Spare", .known (.prompt ⟨some "Later.", none, none⟩), Node.origin⟩,
    ⟨"ask", "Ask", .known (.key ⟨[("1", "Hours"), ("9", "Agent"), ("2", "Leave"), ("0", "Hours")],
      some "Press 1.", none, none⟩), Node.origin⟩,
    ⟨"bye", "Bye", .known .hangup, Node.origin⟩,
    ⟨"hours", "Hours", .known (.prompt ⟨some "Nine to five.", none, none⟩), Node.origin⟩,
    ⟨"fax", "Fax", .unknown "fax" [], Node.origin⟩]
  edges := [⟨"e1", "ask", "hours", some "0"⟩, ⟨"e2", "ask", "bye", some "2"⟩,
    ⟨"e3", "hours", "ask", none⟩, ⟨"e4", "ask", "hours", some "1"⟩]
  start := some "ask"
  distinct := by decide

/-- The texts of the flow can be told apart in its outline. -/
theorem isPlain_nightLine : nightLine.IsPlain :=
  ⟨by decide, by decide, by decide, by decide⟩

/-- The hours are listed before the end, once, and the two other nodes are left over. -/
theorem outline_nightLine : ∃ s items leftOver, nightLine.compile .reprompt = .ok s ∧
    (∀ e ∈ nightLine.edges, ¬ Keypad.isTooLong e.handle) ∧
    nightLine.outline = .ok (Outline.page nightLine items leftOver) ∧
    items.map (fun i => i.node.id) = ["ask", "hours", "bye"] ∧
    (∀ i ∈ items, i.openOptions.map Prod.fst = if i.node.id = "ask" then [.text "9"] else []) ∧
    leftOver.map Node.id = ["spare", "fax"] ∧ nightLine.IsPlain ∧
    Outline.read? (Outline.page nightLine items leftOver) = some (.title "Ask" ::
      (items.flatMap (Outline.Item.said nightLine) ++
        [.rest, .leftOver "spare", .leftOver "fax"])) := by
  obtain ⟨s, hs⟩ : ∃ s, nightLine.compile .reprompt = .ok s := ⟨_, rfl⟩
  have hlabels : s.labels = ["ask", "hours", "bye"] := by
    cases hs
    rfl
  have hstart : s.start = "ask" := by
    cases hs
    rfl
  have hname : Validation.nameOf nightLine "ask" = "Ask" := rfl
  have hunreached : nightLine.validate.unreached = ["spare", "fax"] := by decide +kernel
  have hshort : ∀ e ∈ nightLine.edges, ¬ Keypad.isTooLong e.handle := by decide
  obtain ⟨items, leftOver, houtline, hids, -, hagrees, -, hleft, hread⟩ := outline_eq_page hs hshort
  have hread := hread isPlain_nightLine
  rw [hstart, hname, hunreached] at hread
  rw [hlabels] at hids
  have hopen : ∀ id ∈ ["ask", "hours", "bye"],
      (nightLine.validate.openOptions id).map Scalar.text =
        if id = "ask" then [.text "9"] else [] := by decide +kernel
  refine ⟨s, items, leftOver, hs, hshort, houtline, hids, ?_, hleft.trans hunreached,
    isPlain_nightLine, hread⟩
  intro i hi
  rw [(hagrees i hi).openOptions]
  exact hopen i.node.id (hids ▸ List.mem_map.mpr ⟨i, hi, rfl⟩)

end Flow

end CallFlow
