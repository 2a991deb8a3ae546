import CallFlow.Proofs.UnitOrder

/-!
# Flows that compile alike

What a flow is compiled to depends on its nodes and on where its edges lead, and on nothing else of
how the flow is written down. `Flow.Rewired` relates two flows that differ in the order of their
edges, in the ids of the edges and in the places of the nodes on the canvas, and that compare their
tables of options by a given relation: by equality, or as tables with the same entries in any order.

* `Flow.Rewired.compilable_iff`: both flows keep the rules, or neither does.
* `Flow.Rewired.branchesOf`, `Flow.Rewired.order`: edges that leave a node by different handles have
  one keypad order, so both searches go the same way.
* `Flow.Rewired.unit`: nodes that are alike have units that are alike.
* `Flow.compile_rewired`: both flows have the same script, or neither has one for the same reason.
-/

namespace CallFlow

/-! ## What may differ -/

/-- An edge without its id. -/
def Edge.anonymous (e : Edge) : Edge := { e with id := "" }

/-- What does not look at the ids of edges holds of one of them in any order and under any ids. -/
theorem Edge.any_of_perm {es es' : List Edge}
    (h : (es.map Edge.anonymous).Perm (es'.map Edge.anonymous)) {p : Edge → Bool}
    (hp : ∀ e : Edge, p e.anonymous = p e) : es.any p = es'.any p := by
  have hmap : ∀ es : List Edge, (es.map Edge.anonymous).any p = es.any p := by
    intro es
    rw [List.any_map]
    exact congrArg es.any (funext hp)
  rw [← hmap, ← hmap es']
  exact h.any_eq

/-- A configuration with other options, where its kind has options. -/
def Config.withOptions (t : TextTable) : Config → Config
  | .key c => .key { c with options := t }
  | .language c => .language { c with options := t }
  | c => c

namespace Action

/-- The options that a unit offers. -/
def options : Action → TextTable
  | collectDigit table .. | language table _ => table.options
  | _ => []

/-- An action with other options, where it offers a choice. -/
def withOptions (t : TextTable) : Action → Action
  | collectDigit table message audioUrl =>
    collectDigit { table with options := t } message audioUrl
  | language table summary => language { table with options := t } summary
  | a => a

end Action

section

variable (same : TextTable → TextTable → Prop)

/-- Configurations that differ in their options at most, and have these alike. -/
structure Config.Alike (c d : Config) : Prop where
  options : same c.options d.options
  rest : c.withOptions [] = d.withOptions []

/-- Blocks of one kind: known ones with configurations that are alike, or unknown ones, whose
entries make no difference to a script. -/
inductive Block.Alike : Block → Block → Prop
  | known {c d : Config} (h : c.Alike same d) : Alike (.known c) (.known d)
  | unknown (declared : String) (entries entries' : Entries) :
    Alike (.unknown declared entries) (.unknown declared entries')

/-- Nodes that differ in their places at most, and have blocks that are alike. -/
structure Node.Alike (n m : Node) : Prop where
  id : n.id = m.id
  name : n.name = m.name
  block : n.block.Alike same m.block

/-- Flows with one start marker and with nodes that are alike, whose edges are the same in any order
and under any ids. -/
structure Flow.Rewired (f g : Flow) : Prop where
  start : f.start = g.start
  nodes : List.Forall₂ (Node.Alike same) f.nodes g.nodes
  edges : (f.edges.map Edge.anonymous).Perm (g.edges.map Edge.anonymous)

/-- Actions that differ in the options they offer at most, and have these alike. -/
structure Action.Alike (a b : Action) : Prop where
  options : same a.options b.options
  rest : a.withOptions [] = b.withOptions []

/-- Units that are the same but for options that are alike. -/
structure ScriptUnit.Alike (u v : ScriptUnit) : Prop where
  label : u.label = v.label
  name : u.name = v.name
  action : u.action.Alike same v.action

/-- Scripts with the same units in the same order, but for options that are alike. -/
structure Script.Alike (s t : Script) : Prop where
  start : s.start = t.start
  units : List.Forall₂ (ScriptUnit.Alike same) s.units t.units

end

/-- Faults of one class. Errors among the findings are one class, whatever the findings; a node of
an unknown kind is the same node. -/
inductive CompileFault.SameClass : CompileFault → CompileFault → Prop
  | notCompilable (errors errors' : List Finding) :
    SameClass (.notCompilable errors) (.notCompilable errors')
  | refl (fault : CompileFault) : SameClass fault fault

/-- Two results that are related, or two faults of one class. -/
inductive SameOutcome {α : Type} (R : α → α → Prop) :
    Except CompileFault α → Except CompileFault α → Prop
  | ok {a b : α} (h : R a b) : SameOutcome R (.ok a) (.ok b)
  | error {x y : CompileFault} (h : x.SameClass y) : SameOutcome R (.error x) (.error y)

namespace SameOutcome

variable {α β : Type} {R : α → α → Prop} {S : β → β → Prop}

/-- Steps with one outcome, followed by steps that take related results to one outcome. -/
theorem bind {x y : Except CompileFault α} (h : SameOutcome R x y)
    {k l : α → Except CompileFault β} (hkl : ∀ a b, R a b → SameOutcome S (k a) (l b)) :
    SameOutcome S (x >>= k) (y >>= l) := by
  cases h with
  | ok hab => exact hkl _ _ hab
  | error hxy => exact .error hxy

/-- Results that are related are related in any weaker way. -/
theorem imp {R' : α → α → Prop} {x y : Except CompileFault α} (h : SameOutcome R x y)
    (hR : ∀ a b, R a b → R' a b) : SameOutcome R' x y := by
  cases h with
  | ok hab => exact .ok (hR _ _ hab)
  | error hxy => exact .error hxy

/-- Results that are related stay so when the same is made of them. -/
theorem map {x y : Except CompileFault α} (h : SameOutcome R x y) {k l : α → β}
    (hkl : ∀ a b, R a b → S (k a) (l b)) : SameOutcome S (x.map k) (y.map l) := by
  cases h with
  | ok hab => exact .ok (hkl _ _ hab)
  | error hxy => exact .error hxy

end SameOutcome

/-! ## Options -/

section

variable {same : TextTable → TextTable → Prop}

namespace Config

variable {c d : Config}

/-- With its own options a configuration or an action is the same. -/
@[simp] theorem withOptions_options (c : Config) : c.withOptions c.options = c := by
  cases c <;> rfl

/-- Only the options that were set last count. -/
@[simp] theorem withOptions_withOptions (c : Config) (t t' : TextTable) :
    (c.withOptions t).withOptions t' = c.withOptions t' := by
  cases c <;> rfl

/-- Options do not change the kind. -/
@[simp] theorem kind_withOptions (c : Config) (t : TextTable) :
    (c.withOptions t).kind = c.kind := by
  cases c <;> rfl

/-- What is alike a configuration is the configuration with other options. -/
theorem Alike.eq_withOptions (h : c.Alike same d) : d = c.withOptions d.options := by
  have hrest := congrArg (Config.withOptions d.options) h.rest
  rw [withOptions_withOptions, withOptions_withOptions, withOptions_options] at hrest
  exact hrest.symm

/-- What is alike is of one kind. -/
theorem Alike.kind (h : c.Alike same d) : d.kind = c.kind := by
  rw [h.eq_withOptions, kind_withOptions]

/-- With the entries of its options in another order, a configuration has the same fields filled
in. -/
theorem Alike.isFilled (h : c.Alike List.Perm d) {field : Field}
    (hc : ∃ s, c.get? field = some s ∧ s.isFilled) :
    ∃ s, d.get? field = some s ∧ s.isFilled := by
  obtain ⟨s, hs, hfilled⟩ := hc
  have hperm := h.options
  rw [h.eq_withOptions]
  generalize d.options = t at hperm
  by_cases hfield : field = .options
  · subst hfield
    cases c with
    | key c | language c =>
      obtain rfl := Option.some.inj hs
      have hlength : c.options.length = t.length := hperm.length_eq
      refine ⟨.table t, rfl, ?_⟩
      simpa [Setting.isFilled, List.isEmpty_iff, ← List.length_eq_zero_iff, hlength] using hfilled
    | prompt | transfer | hangup | api | record | menu | queue | voicemail => cases hs
  · refine ⟨s, ?_, hfilled⟩
    rw [← hs]
    cases c <;> cases field <;> first | rfl | exact absurd rfl hfield

end Config

namespace Action

/-- Only the options that were set last count. -/
@[simp] theorem withOptions_withOptions (a : Action) (t t' : TextTable) :
    (a.withOptions t).withOptions t' = a.withOptions t' := by
  cases a <;> rfl

/-- With its own options a configuration or an action is the same. -/
@[simp] theorem withOptions_options (a : Action) : a.withOptions a.options = a := by
  cases a <;> rfl

/-- Actions that have equal options and are alike are equal. -/
theorem Alike.eq {a b : Action} (h : a.Alike Eq b) : a = b := by
  have hrest := congrArg (Action.withOptions b.options) h.rest
  rw [withOptions_withOptions, withOptions_withOptions, withOptions_options, ← h.options,
    withOptions_options] at hrest
  exact hrest

end Action

/-- Units that are alike with equal tables are equal. -/
theorem ScriptUnit.Alike.eq {u v : ScriptUnit} (h : u.Alike Eq v) : u = v := by
  obtain ⟨label, name, action⟩ := u
  obtain ⟨rfl, rfl, haction⟩ := h
  exact congrArg (ScriptUnit.mk v.label v.name) haction.eq

/-- Scripts that have equal options and are alike are equal. -/
theorem Script.Alike.eq {s t : Script} (h : s.Alike Eq t) : s = t := by
  obtain ⟨start, us⟩ := s
  obtain ⟨start', vs⟩ := t
  have hunits : us = vs := List.forall₂_eq_eq_eq ▸ h.units.imp fun _ _ huv => huv.eq
  exact congrArg₂ Script.mk h.start hunits

end

namespace Block.Alike

variable {same : TextTable → TextTable → Prop}

/-- Being alike up to the order of tables goes both ways. -/
theorem symm {b b' : Block} (h : b.Alike List.Perm b') : b'.Alike List.Perm b := by
  cases h with
  | known hcd => exact .known ⟨hcd.options.symm, hcd.rest.symm⟩
  | unknown declared entries entries' => exact .unknown declared entries' entries

/-- What is alike is alike with tables compared in any weaker way. -/
theorem mono {same' : TextTable → TextTable → Prop} {b b' : Block} (h : b.Alike same b')
    (hsame : ∀ s t, same s t → same' s t) : b.Alike same' b' := by
  cases h with
  | known hcd => exact .known ⟨hsame _ _ hcd.options, hcd.rest⟩
  | unknown declared entries entries' => exact .unknown declared entries entries'

/-- What is alike a known block is known and has a configuration that is alike. -/
theorem exists_known {b : Block} {d : Config} (h : b.Alike same (.known d)) :
    ∃ c, b = .known c ∧ c.Alike same d := by
  cases h with
  | known hcd => exact ⟨_, rfl, hcd⟩

end Block.Alike

/-! ## Nodes and edges -/

namespace Flow.Rewired

variable {same : TextTable → TextTable → Prop} {f g : Flow}

/-- Being alike up to the order of tables goes both ways. -/
theorem symm (h : f.Rewired List.Perm g) : g.Rewired List.Perm f where
  start := h.start.symm
  nodes := h.nodes.flip.imp fun _ _ hnm => ⟨hnm.id.symm, hnm.name.symm, hnm.block.symm⟩
  edges := h.edges.symm

/-- What is alike is alike with tables compared in any weaker way. -/
theorem mono {same' : TextTable → TextTable → Prop} (h : f.Rewired same g)
    (hsame : ∀ s t, same s t → same' s t) : f.Rewired same' g where
  start := h.start
  nodes := h.nodes.imp fun _ _ hnm => ⟨hnm.id, hnm.name, hnm.block.mono hsame⟩
  edges := h.edges

section

variable (h : f.Rewired same g)

include h

/-- The nodes are the same. -/
theorem ids : f.ids = g.ids := by
  have hnodes := h.nodes
  unfold Flow.ids
  generalize f.nodes = ns at hnodes
  generalize g.nodes = ms at hnodes
  induction hnodes with
  | nil => rfl
  | cons hnm _ ih => rw [List.map_cons, List.map_cons, hnm.id, ih]

/-- Whether a node is there is the same. -/
theorem hasNode (id : String) : f.hasNode id = g.hasNode id := by
  rw [Bool.eq_iff_iff, hasNode_iff, hasNode_iff, h.ids]

/-- The nodes under an id are alike, if there are any. -/
theorem node? (id : String) : Option.Rel (Node.Alike same) (f.node? id) (g.node? id) := by
  have hnodes := h.nodes
  unfold Flow.node?
  generalize f.nodes = ns at hnodes
  generalize g.nodes = ms at hnodes
  induction hnodes with
  | nil => exact .none
  | @cons n m _ _ hnm _ ih =>
    rw [List.find?_cons, List.find?_cons, hnm.id]
    split
    · exact .some hnm
    · exact ih

/-- Each edge of one flow is there in the other, under some id. -/
theorem exists_edge {e : Edge} (he : e ∈ g.edges) :
    ∃ e' ∈ f.edges, e'.source = e.source ∧ e'.target = e.target ∧ e'.handle = e.handle := by
  obtain ⟨e', he', heq⟩ := List.mem_map.mp (h.edges.mem_iff.mpr (List.mem_map_of_mem he))
  simp only [Edge.anonymous, Edge.mk.injEq, true_and] at heq
  exact ⟨e', he', heq⟩

/-- The edges that leave a node are the same in any order and under any ids. -/
theorem outgoing (id : String) :
    ((f.outgoing id).map Edge.anonymous).Perm ((g.outgoing id).map Edge.anonymous) := by
  have hfilter : ∀ edges : List Edge, (edges.filter (·.source = id)).map Edge.anonymous =
      (edges.map Edge.anonymous).filter (·.source = id) := by
    intro edges
    rw [List.filter_map]
    rfl
  unfold Flow.outgoing
  rw [hfilter, hfilter]
  exact h.edges.filter _

/-! ## The start -/

/-- The start that can be inferred is the same. -/
theorem inferredStart : f.inferredStart = g.inferredStart := by
  have hentered : f.isEntered = g.isEntered :=
    funext fun _ => Edge.any_of_perm h.edges fun _ => rfl
  have hleft : f.isLeft = g.isLeft := funext fun _ => Edge.any_of_perm h.edges fun _ => rfl
  have hlength : f.nodes.length = g.nodes.length := h.nodes.length_eq
  unfold Flow.inferredStart startCandidates
  rw [h.ids, hentered, hleft, hlength]

/-- A call begins at the same node. -/
theorem resolveStart : f.resolveStart = g.resolveStart := by
  have hnode : f.hasNode = g.hasNode := funext h.hasNode
  unfold Flow.resolveStart
  rw [h.start, h.inferredStart, hnode]

end

/-! ## The rules -/

/-- A node that fits its kind does so with its options in another order and in a flow that is wired
in another way. -/
theorem fits (h : f.Rewired same g) {n m : Node} {c d : Config} (hid : n.id = m.id)
    (hcd : c.Alike List.Perm d) (hfits : n.Fits f c) : m.Fits g d := by
  have hkind := hcd.kind
  refine ⟨?_, ?_, ?_, ?_, ?_, ?_⟩ <;> rw [hkind]
  · intro group hgroup
    obtain ⟨field, hfield, hfilled⟩ := hfits.filled group hgroup
    exact ⟨field, hfield, hcd.isFilled hfilled⟩
  · intro hterminal e he
    obtain ⟨e', he', hsource, -, -⟩ := h.exists_edge he
    rw [← hsource, ← hid]
    exact hfits.final hterminal e' he'
  · intro hbranching e he hm
    obtain ⟨e', he', hsource, htarget, -⟩ := h.exists_edge he
    rw [← htarget, ← hid]
    exact hfits.onward hbranching e' he' (hsource.trans (hm.trans hid.symm))
  · intro hbranching e he hm
    obtain ⟨e', he', hsource, -, hhandle⟩ := h.exists_edge he
    obtain ⟨key, hkey, hsome⟩ :=
      hfits.declared hbranching e' he' (hsource.trans (hm.trans hid.symm))
    exact ⟨key, (hcd.options.map Prod.fst).mem_iff.mp hkey, hhandle.symm.trans hsome⟩
  · intro hapi hmany e he hm
    obtain ⟨e', he', hsource, -, hhandle⟩ := h.exists_edge he
    have hlength : (f.outgoing m.id).length = (g.outgoing m.id).length := by
      simpa using (h.outgoing m.id).length_eq
    rw [← hhandle]
    refine hfits.answered hapi ?_ e' he' (hsource.trans (hm.trans hid.symm))
    rwa [hid, hlength]
  · intro hkinds e he hm
    obtain ⟨e', he', hsource, -, hhandle⟩ := h.exists_edge he
    rw [← hhandle]
    exact hfits.plain hkinds e' he' (hsource.trans (hm.trans hid.symm))

/-- A flow that is rewired may be compiled if the other one may. -/
theorem compilable (h : f.Rewired List.Perm g) (hf : f.Compilable) : g.Compilable := by
  refine ⟨fun e he => ?_, fun m hm d hd => ?_, ?_, ?_⟩
  · obtain ⟨e', he', hsource, htarget, -⟩ := h.exists_edge he
    rw [← hsource, ← htarget, ← h.ids]
    exact hf.connected e' he'
  · obtain ⟨n, hn, hmn⟩ := h.nodes.flip.exists_mem m hm
    obtain ⟨c, hc, hcd⟩ := (hd ▸ hmn.block).exists_known
    exact h.fits hmn.id hcd (hf.fits n hn c hc)
  · have hpairs : ∀ edges : List Edge, (edges.map fun e => (e.source, e.handle)) =
        (edges.map Edge.anonymous).map fun e => (e.source, e.handle) := by
      intro edges
      rw [List.map_map]
      rfl
    rw [hpairs, ← (h.edges.map _).nodup_iff, ← hpairs]
    exact hf.single
  · rw [← h.ids, ← h.start, ← h.resolveStart]
    exact hf.started

/-- Both flows keep the rules, or neither does. -/
theorem compilable_iff (h : f.Rewired List.Perm g) : f.Compilable ↔ g.Compilable :=
  ⟨h.compilable, h.symm.compilable⟩

/-! ## The search -/

/-- Where the handles of the edges that leave a node are different, keypad order leaves no choice
between edges that are given in another order. -/
theorem branchesOf (h : f.Rewired same g) (hf : f.Compilable) (id : String) :
    (Compilation.branchesOf f id).map Edge.anonymous =
      (Compilation.branchesOf g id).map Edge.anonymous := by
  have hhandle : ∀ e : Edge, e.anonymous.handle = e.handle := fun _ => rfl
  have hnodup : (((f.outgoing id).map Edge.anonymous).map Edge.handle).Nodup := by
    rw [List.map_map]
    exact hf.nodup_handles id
  unfold Compilation.branchesOf
  rw [Keypad.sortBy_map hhandle, Keypad.sortBy_map hhandle]
  symm
  refine Keypad.eq_sortBy_of_perm hnodup ?_ (Keypad.pairwise_sortBy _)
  exact (Keypad.sortBy_perm Edge.handle _).trans (h.outgoing id).symm

/-- Both searches go the same way. -/
theorem order (h : f.Rewired same g) (hf : f.Compilable) (start : String) :
    Compilation.order f start = Compilation.order g start := by
  have hsuccessors : Compilation.successors f = Compilation.successors g := by
    funext id
    have := congrArg (List.map Edge.target) (h.branchesOf hf id)
    rw [List.map_map, List.map_map] at this
    exact this
  unfold Compilation.order
  rw [hsuccessors, h.ids]

end Flow.Rewired

/-! ## Units -/

namespace Compilation

variable {same : TextTable → TextTable → Prop} {policy : Policy}

/-- The ids of the edges do not matter to a table of branches. -/
theorem branchTable?_anonymous (edges : List Edge) :
    branchTable? (edges.map Edge.anonymous) = branchTable? edges := by
  unfold branchTable?
  rw [List.mapM_map]
  rfl

/-- Nor to the branches by handles. -/
theorem handledBranches_anonymous (edges : List Edge) :
    handledBranches (edges.map Edge.anonymous) = handledBranches edges := by
  unfold handledBranches
  rw [List.filterMap_map]
  rfl

/-- What a unit does does not depend on the ids of the edges. -/
theorem action?_anonymous (edges : List Edge) (c : Config) :
    action? policy (edges.map Edge.anonymous) c = action? policy edges c := by
  have hfirst : (edges.map Edge.anonymous).head?.map Edge.target = edges.head?.map Edge.target := by
    rw [List.head?_map, Option.map_map]
    rfl
  have hall : (edges.map Edge.anonymous).all (·.handle.isNone) =
      edges.all (·.handle.isNone) := by
    rw [List.all_map]
    rfl
  cases c <;> simp only [action?, hfirst, hall, branchTable?_anonymous, handledBranches_anonymous]

/-- With other options in its block, a unit offers these and does the same otherwise. -/
theorem action?_withOptions (policy : Policy) (edges : List Edge) (c : Config) (t : TextTable) :
    action? policy edges (c.withOptions t) =
      (action? policy edges c).map (Action.withOptions t) := by
  cases c with
  | key c | language c =>
    simp only [Config.withOptions, action?]
    cases branchTable? edges <;> rfl
  | transfer c =>
    simp only [Config.withOptions, action?]
    cases c.destination <;> rfl
  | queue c | voicemail c =>
    simp only [Config.withOptions, action?]
    cases (c.destination <|> c.summary) <;> rfl
  | prompt | api | record | menu | hangup => rfl

/-- A unit offers the options of its block. -/
theorem options_of_action? {edges : List Edge} {c : Config} {a : Action}
    (h : action? policy edges c = some a) : a.options = c.options := by
  cases c with
  | key c | language c =>
    obtain ⟨branches, -, h⟩ := Option.bind_eq_some_iff.mp h
    cases h
    rfl
  | transfer c | queue c | voicemail c =>
    obtain ⟨place, -, h⟩ := Option.bind_eq_some_iff.mp h
    cases h
    rfl
  | prompt | api | record | menu | hangup =>
    cases h
    rfl

/-- Blocks that are alike have actions that are alike, if they have any. -/
theorem action?_alike (policy : Policy) (edges : List Edge) {c d : Config} (h : c.Alike same d) :
    Option.Rel (Action.Alike same) (action? policy edges c) (action? policy edges d) := by
  have hd := action?_withOptions policy edges c d.options
  rw [← h.eq_withOptions] at hd
  cases hc : action? policy edges c with
  | none =>
    rw [hc] at hd
    rw [hd]
    exact .none
  | some a =>
    rw [hc] at hd
    have hoptions := options_of_action? hd
    rw [hd]
    refine .some ⟨?_, (Action.withOptions_withOptions a _ _).symm⟩
    rw [options_of_action? hc, hoptions]
    exact h.options

end Compilation

namespace Flow.Rewired

variable {same : TextTable → TextTable → Prop} {f g : Flow} {policy : Policy}

/-- The edges that leave a node can be sorted in both flows, or in neither. -/
theorem sortBy? (h : f.Rewired same g) (id : String) :
    (Keypad.sortBy? Edge.handle (f.outgoing id) = none ∧
      Keypad.sortBy? Edge.handle (g.outgoing id) = none) ∨
    (Keypad.sortBy? Edge.handle (f.outgoing id) = some (Compilation.branchesOf f id) ∧
      Keypad.sortBy? Edge.handle (g.outgoing id) = some (Compilation.branchesOf g id)) := by
  have hlong : (f.outgoing id).any (fun e => Keypad.isTooLong e.handle) =
      (g.outgoing id).any fun e => Keypad.isTooLong e.handle :=
    Edge.any_of_perm (h.outgoing id) fun _ => rfl
  unfold Keypad.sortBy?
  rw [hlong]
  split
  · exact .inl ⟨rfl, rfl⟩
  · exact .inr ⟨rfl, rfl⟩

/-- Nodes that are alike have units that are alike, or none for one reason. -/
theorem unit (h : f.Rewired same g) (hf : f.Compilable) {n m : Node} (hnm : n.Alike same m) :
    SameOutcome (ScriptUnit.Alike same) (Compilation.unit f policy n)
      (Compilation.unit g policy m) := by
  obtain ⟨id, name, block, position⟩ := n
  obtain ⟨id', name', block', position'⟩ := m
  obtain ⟨hid, hname, hblock⟩ := hnm
  dsimp only at hid hname hblock
  subst hid hname
  cases hblock with
  | unknown declared entries entries' => exact .error (.refl _)
  | @known c d hcd =>
    unfold Compilation.unit
    dsimp only
    rcases h.sortBy? id with ⟨hf', hg'⟩ | ⟨hf', hg'⟩ <;> rw [hf', hg']
    · exact .error (.refl _)
    · dsimp only
      rw [← Compilation.action?_anonymous, h.branchesOf hf, Compilation.action?_anonymous]
      have hactions := Compilation.action?_alike policy (Compilation.branchesOf g id) hcd
      generalize Compilation.action? policy (Compilation.branchesOf g id) c = a at hactions ⊢
      generalize Compilation.action? policy (Compilation.branchesOf g id) d = b at hactions ⊢
      cases hactions with
      | none => exact .error (.refl _)
      | some hab => exact .ok ⟨rfl, rfl, hab⟩

/-- Nodes that are alike in pairs have units that are alike in pairs, or none for one reason. -/
theorem units (h : f.Rewired same g) (hf : f.Compilable) {ns ms : List Node}
    (hnms : List.Forall₂ (Node.Alike same) ns ms) :
    SameOutcome (List.Forall₂ (ScriptUnit.Alike same)) (Compilation.units f policy ns)
      (Compilation.units g policy ms) := by
  induction hnms with
  | nil => exact .ok .nil
  | cons hnm _ ih =>
    exact (h.unit hf hnm).bind fun u v huv => ih.bind fun us vs husvs => .ok (.cons huv husvs)

/-! ## Scripts -/

/-- Both flows have scripts that are alike, or neither has one for one reason. -/
theorem compile (h : f.Rewired same g) (hsame : ∀ s t, same s t → s.Perm t) (policy : Policy) :
    SameOutcome (Script.Alike same) (f.compile policy) (g.compile policy) := by
  have hiff := (h.mono hsame).compilable_iff
  by_cases hf : f.Compilable
  · obtain ⟨start, -, hstart, -⟩ := hf.exists_start
    have hnodes : List.Forall₂ (Node.Alike same)
        ((Compilation.order f start).filterMap f.node?)
        ((Compilation.order f start).filterMap g.node?) :=
      List.rel_filterMap (R := Eq) (fun id _ hid => hid ▸ h.node? id)
        (List.forall₂_same.mpr fun _ _ => rfl)
    rw [compile_of_compilable hf hstart,
      compile_of_compilable (hiff.mp hf) (h.resolveStart ▸ hstart), ← h.order hf]
    exact (h.units hf hnodes).map fun us vs husvs => ⟨rfl, husvs⟩
  · rw [compile_of_errors fun herrors => hf (Validation.errors_eq_nil_iff.mp herrors),
      compile_of_errors fun herrors => hf (hiff.mpr (Validation.errors_eq_nil_iff.mp herrors))]
    exact .error (.notCompilable _ _)

end Flow.Rewired

namespace Flow

variable {f g : Flow}

/-- **The script depends only on the flow.** Take two flows with one start marker and the same nodes
in the same order, up to their places, whose edges are the same in any order and under any ids. Both
have the same script, with the same units in the same order and the same branches in the same order,
or both fail for one reason: there are errors, or the same node of an unknown kind is named. If the
tables of options list the same entries in another order, so do the options of the scripts, and
nothing else differs. -/
theorem compile_rewired (h : f.Rewired List.Perm g) (policy : Policy) :
    SameOutcome (Script.Alike List.Perm) (f.compile policy) (g.compile policy) ∧
      (f.Rewired Eq g → SameOutcome Eq (f.compile policy) (g.compile policy)) := by
  refine ⟨h.compile (fun _ _ => id) policy, fun heq => ?_⟩
  exact (heq.compile (fun _ _ hst => hst ▸ .refl _) policy).imp fun _ _ halike => halike.eq

/-- The flow with a way back, drawn in another place and with its edges in another order and under
other ids. -/
def wayBackRedrawn : Flow where
  nodes := [⟨"bye", "Bye", .known .hangup, [(.text "x", .int 40), (.text "y", .int 8)]⟩,
    ⟨"menu", "Menu", .known (.key ⟨[("1", "Hours"), ("2", "Leave"), ("0", "Again")],
      some "Press 1.", none, none⟩), Node.origin⟩,
    ⟨"hours", "Hours", .known (.prompt ⟨some "Nine to five.", none, none⟩), []⟩]
  edges := [⟨"back", "hours", "menu", none⟩, ⟨"leave", "menu", "bye", some "2"⟩,
    ⟨"ask", "menu", "hours", some "1"⟩, ⟨"e1", "menu", "menu", some "0"⟩]
  start := some "menu"
  distinct := by decide

/-- The flow and the one that is drawn anew have one script. -/
theorem compile_wayBackRedrawn : wayBack.Rewired Eq wayBackRedrawn ∧
    ∃ s, wayBack.compile .hangup = .ok s ∧ wayBackRedrawn.compile .hangup = .ok s := by
  have h : wayBack.Rewired Eq wayBackRedrawn :=
    ⟨rfl, .cons ⟨rfl, rfl, .known ⟨rfl, rfl⟩⟩ (.cons ⟨rfl, rfl, .known ⟨rfl, rfl⟩⟩
      (.cons ⟨rfl, rfl, .known ⟨rfl, rfl⟩⟩ .nil)), by decide⟩
  have hsame := (compile_rewired (h.mono fun _ _ hst => hst ▸ .refl _) .hangup).2 h
  obtain ⟨s, hs⟩ : ∃ s, wayBack.compile .hangup = .ok s := ⟨_, rfl⟩
  rw [hs] at hsame
  refine ⟨h, s, hs, ?_⟩
  generalize wayBackRedrawn.compile .hangup = outcome at hsame ⊢
  cases hsame with
  | ok heq => rw [heq]

end Flow

end CallFlow
