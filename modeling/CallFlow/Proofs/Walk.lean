import CallFlow.Proofs.Compilation
import CallFlow.Simulation

/-!
# Walks along a flow

A call can be followed on the flow itself, without compiling it: `Flow.walk` goes from node to node
along the edges and looks at nothing but the nodes, their configurations and the edges that leave
them. What a call does at one node is `Walk.stop`, with one clause for each kind of block. Where a
flow that was not checked leaves open what happens (several edges for one input, a missing node, a
block of an unknown kind), there is no walk.

* `Walk.agrees_turn`: at each node that a call comes to, the unit of the node does what the walk
  does there.
* `Walk.run_eq_walkFrom`: so running the units and walking agree from each such node on.
* `Flow.simulate_eq_walk`: the script of a flow takes every caller the way that the flow does.
-/

namespace CallFlow

/-! ## Walks -/

/-- A node that a call came to, the input it took there, and whether it asked again. -/
structure Visit where
  node : String
  name : String
  input : Option String
  reprompt : Bool
  deriving DecidableEq, Repr

/-- How a call went along a flow: how it ended, the nodes it came to, the node where it ended, and
the inputs that were not taken. -/
structure Walk where
  outcome : Outcome
  visits : List Visit
  terminal : Option String
  remaining : List String
  deriving DecidableEq, Repr

namespace Walk

/-- A walk with one more visit in front. -/
def cons (v : Visit) (w : Walk) : Walk := { w with visits := v :: w.visits }

/-- Where a call goes from a node. -/
inductive Way where
  /-- It ends here. -/
  | ends (outcome : Outcome)
  /-- It follows an edge. -/
  | follow (e : Edge)
  /-- The caller is asked again. -/
  | again

/-- What a call does at a node: the input it takes, where it goes, and the inputs left. -/
structure Stop where
  input : Option String
  way : Way
  remaining : List String

/-- The edges that leave a node by a handle. -/
def edgesOn (f : Flow) (id handle : String) : List Edge :=
  (f.outgoing id).filter fun e => e.handle = some handle

/-- Where the caller chooses, an input leads along its edge. For an input without an edge the caller
is asked again while the policy says so and the misses at the node, this one included, stay below
the limit. -/
def choose (f : Flow) (policy : Policy) (limit : Int) (misses : Nat) (id : String) :
    List String → Option Stop
  | [] => some ⟨none, .ends .inputExhausted, []⟩
  | input :: rest =>
    match edgesOn f id input with
    | [e] => some ⟨some input, .follow e, rest⟩
    | [] =>
      if policy = .reprompt ∧ (misses + 1 : Int) < limit then some ⟨some input, .again, rest⟩
      else some ⟨some input, .ends .hangup, rest⟩
    | _ => none

/-- Where a service answers, the next input is its answer, or the one that stands in for it if there
is no input left, and it leads along its edge. -/
def answer (f : Flow) (mock : Option String) (id : String) (pending : List String) : Option Stop :=
  let code := pending.head? <|> mock
  match code.elim [] (edgesOn f id) with
  | [e] => some ⟨code, .follow e, pending.tail⟩
  | [] => some ⟨code, .ends .finished, pending.tail⟩
  | _ => none

/-- Where there is nothing to choose, the call follows the one edge, or ends if there is none. -/
def goOn (f : Flow) (id : String) (pending : List String) : Option Stop :=
  match f.outgoing id with
  | [e] => some ⟨none, .follow e, pending⟩
  | [] => some ⟨none, .ends .finished, pending⟩
  | _ => none

/-- What a call does at a node with the given configuration and the given misses before. -/
def stop (f : Flow) (policy : Policy) (limit : Int) (misses : Nat) (id : String)
    (pending : List String) : Config → Option Stop
  | .transfer _ => some ⟨none, .ends .transfer, pending⟩
  | .hangup => some ⟨none, .ends .hangup, pending⟩
  | .queue _ => some ⟨none, .ends .queue, pending⟩
  | .voicemail _ => some ⟨none, .ends .voicemail, pending⟩
  | .key _ | .language _ => choose f policy limit misses id pending
  | .api c =>
    if (f.outgoing id).any (·.handle.isSome) then answer f c.apiMock id pending
    else goOn f id pending
  | .prompt _ | .record _ | .menu _ => goOn f id pending

/-- Walks to at most the given number of nodes from a node on. The misses are counted for each node
over the whole call. -/
def walkFrom (f : Flow) (policy : Policy) (limit : Int) :
    Nat → String → (String → Nat) → List String → Option Walk
  | 0, _, _, pending => some ⟨.stepLimit, [], none, pending⟩
  | steps + 1, id, misses, pending =>
    match f.node? id with
    | none => none
    | some n =>
      match n.block with
      | .unknown _ _ => none
      | .known c =>
        match stop f policy limit (misses id) id pending c with
        | none => none
        | some s =>
          match s.way with
          | .ends outcome => some ⟨outcome, [⟨id, n.name, s.input, false⟩], some id, s.remaining⟩
          | .follow e =>
            (walkFrom f policy limit steps e.target misses s.remaining).map
              (cons ⟨id, n.name, s.input, false⟩)
          | .again =>
            (walkFrom f policy limit steps id (Function.update misses id (misses id + 1))
              s.remaining).map (cons ⟨id, n.name, s.input, true⟩)

end Walk

/-- Walks along a flow from where a call begins. -/
def Flow.walk (f : Flow) (policy : Policy) (inputs : List String) (limit maxSteps : Int) :
    Option Walk :=
  f.resolveStart.bind fun start =>
    Walk.walkFrom f policy limit maxSteps.toNat start (fun _ => 0) inputs

/-- The step of a script as a visit to the node of the unit. -/
def TraceStep.toVisit (s : TraceStep) : Visit := ⟨s.label, s.name, s.input, s.reprompt⟩

/-- The run of a script as a walk. -/
def CallResult.toWalk (r : CallResult) : Walk :=
  ⟨r.outcome, r.trace.map TraceStep.toVisit, r.terminal, r.remaining⟩

namespace Walk

variable {f : Flow} {policy : Policy}

/-! ## The edges of one node -/

/-- A list without repetitions whose items are all equal has at most one item. -/
theorem eq_nil_or_singleton {α : Type} {l : List α} (hnodup : l.Nodup)
    (heq : ∀ x ∈ l, ∀ y ∈ l, x = y) : l = [] ∨ ∃ x, l = [x] := by
  cases l with
  | nil => exact .inl rfl
  | cons x rest =>
    refine .inr ⟨x, ?_⟩
    cases rest with
    | nil => rfl
    | cons y rest =>
      obtain rfl := heq x List.mem_cons_self y (List.mem_cons_of_mem _ List.mem_cons_self)
      exact absurd List.mem_cons_self (List.nodup_cons.mp hnodup).1

/-- The edges on a handle are those that leave the node by it. -/
theorem mem_edgesOn_iff {id handle : String} {e : Edge} :
    e ∈ edgesOn f id handle ↔ e ∈ f.edges ∧ e.source = id ∧ e.handle = some handle := by
  simp [edgesOn, Flow.mem_outgoing_iff, and_assoc]

/-- By one handle at most one edge leaves a node, and the table of branches has its target. -/
theorem edgesOn_cases (h : f.Compilable) (id handle : String) :
    (edgesOn f id handle = [] ∧
      (Compilation.handledBranches (Compilation.branchesOf f id)).find? handle = none) ∨
    ∃ e, edgesOn f id handle = [e] ∧
      (Compilation.handledBranches (Compilation.branchesOf f id)).find? handle = some e.target := by
  have hhandles : ((Compilation.branchesOf f id).map Edge.handle).Nodup :=
    ((Keypad.sortBy_perm Edge.handle _).map _).nodup_iff.mpr (h.nodup_handles id)
  have htarget := @Compilation.find?_handledBranches _ hhandles handle
  have hnodup : (edgesOn f id handle).Nodup := ((h.nodup_handles id).of_map).filter _
  rcases eq_nil_or_singleton hnodup fun e he e' he' => by
    obtain ⟨hmem, hsource, hhandle⟩ := mem_edgesOn_iff.mp he
    obtain ⟨hmem', hsource', hhandle'⟩ := mem_edgesOn_iff.mp he'
    exact h.eq_of_same_handle hmem hmem' (hsource.trans hsource'.symm)
      (hhandle.trans hhandle'.symm) with hnone | ⟨e, hone⟩
  · refine .inl ⟨hnone, ?_⟩
    by_contra hfound
    obtain ⟨target, hfound⟩ := Option.ne_none_iff_exists'.mp hfound
    obtain ⟨e, he, hhandle, -⟩ := htarget.mp hfound
    obtain ⟨hmem, hsource⟩ := Compilation.mem_branchesOf_iff.mp he
    have : e ∈ edgesOn f id handle := mem_edgesOn_iff.mpr ⟨hmem, hsource, hhandle⟩
    rw [hnone] at this
    exact List.not_mem_nil this
  · refine .inr ⟨e, hone, htarget.mpr ⟨e, ?_, ?_, rfl⟩⟩
    all_goals
      obtain ⟨hmem, hsource, hhandle⟩ := mem_edgesOn_iff.mp (hone ▸ List.mem_singleton_self e)
    · exact Compilation.mem_branchesOf_iff.mpr ⟨hmem, hsource⟩
    · exact hhandle

/-- Where no edge has a handle, at most one edge leaves a node, and the first in keypad order is
that one. -/
theorem outgoing_cases (h : f.Compilable) {id : String}
    (hplain : ∀ e ∈ f.outgoing id, e.handle = none) :
    (f.outgoing id = [] ∧ Compilation.branchesOf f id = []) ∨
      ∃ e, f.outgoing id = [e] ∧ Compilation.branchesOf f id = [e] := by
  have hperm : (Compilation.branchesOf f id).Perm (f.outgoing id) :=
    Keypad.sortBy_perm Edge.handle (f.outgoing id)
  rcases eq_nil_or_singleton (h.nodup_handles id).of_map fun e he e' he' => by
    obtain ⟨hmem, hsource⟩ := Flow.mem_outgoing_iff.mp he
    obtain ⟨hmem', hsource'⟩ := Flow.mem_outgoing_iff.mp he'
    exact h.eq_of_same_handle hmem hmem' (hsource.trans hsource'.symm)
      ((hplain e he).trans (hplain e' he').symm) with hnone | ⟨e, hone⟩
  · exact .inl ⟨hnone, by rw [hnone] at hperm; exact hperm.eq_nil⟩
  · exact .inr ⟨e, hone, by rw [hone] at hperm; exact List.perm_singleton.mp hperm⟩

/-! ## One node -/

/-- The walk and the unit of a node do the same at the node. -/
structure Agrees (f : Flow) (id : String) (s : Stop) (t : Simulation.Turn) : Prop where
  input : t.input = s.input
  remaining : t.remaining = s.remaining
  way : match s.way with
    | .ends outcome => t.move = .finish outcome ∧ t.reprompt = false
    | .follow e => t.move = .goTo e.target ∧ t.reprompt = false ∧ t.missed = false ∧
        f.Leads id e.target
    | .again => t.move = .goTo id ∧ t.reprompt = true ∧ t.missed = true

/-- The one edge on a handle leads to its target. -/
theorem leads_of_edgesOn {id handle : String} {e : Edge} (h : edgesOn f id handle = [e]) :
    f.Leads id e.target := by
  obtain ⟨hmem, hsource, -⟩ := mem_edgesOn_iff.mp (h ▸ List.mem_singleton_self e)
  exact ⟨e, hmem, hsource, rfl⟩

/-- A unit that offers a choice does what the walk does where the caller chooses. -/
theorem agrees_choose (h : f.Compilable) (limit : Int) (misses : Nat) (id : String)
    (options : TextTable) (pending : List String) :
    ∃ s, choose f policy limit misses id pending = some s ∧
      Agrees f id s (Simulation.choose
        ⟨options, Compilation.handledBranches (Compilation.branchesOf f id), policy⟩
        id limit misses pending) := by
  cases pending with
  | nil => exact ⟨_, rfl, rfl, rfl, rfl, rfl⟩
  | cons input rest =>
    rcases edgesOn_cases h id input with ⟨hnone, hfind⟩ | ⟨e, hone, hfind⟩
    · simp only [choose, hnone, Simulation.choose, hfind]
      by_cases hagain : policy = .reprompt ∧ (misses + 1 : Int) < limit
      · simp only [hagain, and_self, if_true, decide_true, Bool.and_self]
        exact ⟨_, rfl, rfl, rfl, rfl, rfl, rfl⟩
      · rw [if_neg hagain, if_neg (by simpa using hagain)]
        exact ⟨_, rfl, rfl, rfl, rfl, rfl⟩
    · simp only [choose, hone, Simulation.choose, hfind]
      exact ⟨_, rfl, rfl, rfl, rfl, rfl, rfl, leads_of_edgesOn hone⟩

/-- The turn of a unit that takes the given response. -/
def branchOn (branches : TextTable) (code : Option String) (rest : List String) :
    Simulation.Turn :=
  match code.bind branches.find? with
  | some target => ⟨code, false, .goTo target, rest, false⟩
  | none => ⟨code, false, .finish .finished, rest, false⟩

/-- A unit takes the next input for the response, or else the one that stands in for it. -/
theorem respond_eq_branchOn (branches : TextTable) (mock : Option String)
    (pending : List String) : Simulation.respond branches mock pending =
      branchOn branches (pending.head? <|> mock) pending.tail := by
  cases pending <;> rfl

/-- A unit that branches on a response does what the walk does where a service answers. -/
theorem agrees_answer (h : f.Compilable) (mock : Option String) (id : String)
    (pending : List String) :
    ∃ s, answer f mock id pending = some s ∧
      Agrees f id s (Simulation.respond
        (Compilation.handledBranches (Compilation.branchesOf f id)) mock pending) := by
  rw [respond_eq_branchOn]
  unfold answer branchOn
  cases (pending.head? <|> mock) with
  | none => exact ⟨_, rfl, rfl, rfl, rfl, rfl⟩
  | some code =>
    rcases edgesOn_cases h id code with ⟨hnone, hfind⟩ | ⟨e, hone, hfind⟩
    · simp only [Option.elim_some, hnone, Option.bind_some, hfind]
      exact ⟨_, rfl, rfl, rfl, rfl, rfl⟩
    · simp only [Option.elim_some, hone, Option.bind_some, hfind]
      exact ⟨_, rfl, rfl, rfl, rfl, rfl, rfl, leads_of_edgesOn hone⟩

/-- A unit without branches goes to the target of the first edge, as the walk follows the one edge
that there is. -/
theorem agrees_goOn (h : f.Compilable) {id : String}
    (hplain : ∀ e ∈ f.outgoing id, e.handle = none) (pending : List String) :
    ∃ s, goOn f id pending = some s ∧
      Agrees f id s (match (Compilation.branchesOf f id).head?.map Edge.target with
        | some next => ⟨none, false, .goTo next, pending, false⟩
        | none => ⟨none, false, .finish .finished, pending, false⟩) := by
  unfold goOn
  rcases outgoing_cases h hplain with ⟨hnone, hbranches⟩ | ⟨e, hone, hbranches⟩
  · rw [hnone, hbranches]
    exact ⟨_, rfl, rfl, rfl, rfl, rfl⟩
  · have hmem : e ∈ f.outgoing id := hone ▸ List.mem_singleton_self e
    obtain ⟨hedge, hsource⟩ := Flow.mem_outgoing_iff.mp hmem
    rw [hone, hbranches]
    exact ⟨_, rfl, rfl, rfl, rfl, rfl, rfl, e, hedge, hsource, rfl⟩

/-- Where no edge of a node has a handle, its unit has no branches. -/
theorem handledBranches_eq_nil {id : String} (hplain : ∀ e ∈ f.outgoing id, e.handle = none) :
    Compilation.handledBranches (Compilation.branchesOf f id) = [] := by
  unfold Compilation.handledBranches
  rw [List.filterMap_eq_nil_iff.mpr]
  · rfl
  · intro e he
    rw [hplain e (Flow.mem_outgoing_iff.mpr (Compilation.mem_branchesOf_iff.mp he))]
    rfl

/-- Where an edge of a node has a handle, its unit has branches. -/
theorem handledBranches_ne_nil (h : f.Compilable) {id : String} {e : Edge}
    (he : e ∈ f.outgoing id) {handle : String} (hhandle : e.handle = some handle) :
    Compilation.handledBranches (Compilation.branchesOf f id) ≠ [] := by
  intro hnil
  obtain ⟨hedge, hsource⟩ := Flow.mem_outgoing_iff.mp he
  have hmem : e ∈ edgesOn f id handle := mem_edgesOn_iff.mpr ⟨hedge, hsource, hhandle⟩
  rcases edgesOn_cases h id handle with ⟨hnone, -⟩ | ⟨e', -, hfind⟩
  · rw [hnone] at hmem
    exact List.not_mem_nil hmem
  · rw [hnil] at hfind
    cases hfind

/-- The unit of a node that asks a service branches on the answer if an edge has a handle, and goes
to the target of the first edge otherwise, as the walk does. -/
theorem agrees_api (h : f.Compilable) (n : Node) (c : ApiConfig) (limit : Int) (misses : Nat)
    (pending : List String) {action : Action}
    (haction : Compilation.action? policy (Compilation.branchesOf f n.id) (.api c) = some action) :
    ∃ s, stop f policy limit misses n.id pending (.api c) = some s ∧
      Agrees f n.id s (Simulation.turn ⟨n.id, n.name, action⟩ limit misses pending) := by
  cases haction
  by_cases hhandled : (f.outgoing n.id).any (·.handle.isSome)
  · obtain ⟨e, he, hsome⟩ := List.any_eq_true.mp hhandled
    obtain ⟨handle, hhandle⟩ := Option.isSome_iff_exists.mp hsome
    have hbranches := handledBranches_ne_nil h he hhandle
    obtain ⟨s, hs, hagrees⟩ := agrees_answer h c.apiMock n.id pending
    refine ⟨s, (if_pos hhandled).trans hs, ?_⟩
    rw [← List.isEmpty_eq_false_iff] at hbranches
    simpa only [Simulation.turn, Simulation.terminalOutcome?, Simulation.choice?,
      Simulation.mockResponse?, Action.branches, hbranches, Bool.false_eq_true, if_false]
      using hagrees
  · have hplain : ∀ e ∈ f.outgoing n.id, e.handle = none := by simpa using hhandled
    have hall : (Compilation.branchesOf f n.id).all (·.handle.isNone) := by
      simpa [Compilation.mem_branchesOf_iff, Flow.mem_outgoing_iff] using hplain
    obtain ⟨s, hs, hagrees⟩ := agrees_goOn h hplain pending
    refine ⟨s, (if_neg hhandled).trans hs, ?_⟩
    simp only [Simulation.turn, Simulation.terminalOutcome?, Simulation.choice?, Action.branches,
      Action.next?, handledBranches_eq_nil hplain, hall, if_true, List.isEmpty_nil]
    exact hagrees

/-- The unit of a node does at the node what the walk does there. -/
theorem agrees_turn (h : f.Compilable) {n : Node} {c : Config} {action : Action}
    (hn : n ∈ f.nodes) (hblock : n.block = .known c)
    (haction : Compilation.action? policy (Compilation.branchesOf f n.id) c = some action)
    (limit : Int) (misses : Nat) (pending : List String) :
    ∃ s, stop f policy limit misses n.id pending c = some s ∧
      Agrees f n.id s (Simulation.turn ⟨n.id, n.name, action⟩ limit misses pending) := by
  have hfits := h.fits n hn c hblock
  have hplain : c.kind = .prompt ∨ c.kind = .record ∨ c.kind = .menu →
      ∀ e ∈ f.outgoing n.id, e.handle = none := fun hkind e he => by
    obtain ⟨hedge, hsource⟩ := Flow.mem_outgoing_iff.mp he
    exact hfits.plain hkind e hedge hsource
  cases c with
  | prompt c =>
    cases haction
    exact agrees_goOn h (hplain (.inl rfl)) pending
  | record c =>
    cases haction
    exact agrees_goOn h (hplain (.inr (.inl rfl))) pending
  | menu c =>
    cases haction
    exact agrees_goOn h (hplain (.inr (.inr rfl))) pending
  | key c =>
    rw [Compilation.action?, Compilation.branchTable?_branchesOf hfits rfl] at haction
    cases haction
    exact agrees_choose h limit misses n.id c.options pending
  | language c =>
    rw [Compilation.action?, Compilation.branchTable?_branchesOf hfits rfl] at haction
    cases haction
    exact agrees_choose h limit misses n.id c.options pending
  | api c => exact agrees_api h n c limit misses pending haction
  | hangup =>
    cases haction
    exact ⟨_, rfl, rfl, rfl, rfl, rfl⟩
  | transfer c =>
    obtain ⟨destination, -, haction⟩ := Option.bind_eq_some_iff.mp haction
    cases haction
    exact ⟨_, rfl, rfl, rfl, rfl, rfl⟩
  | queue c =>
    obtain ⟨queue, -, haction⟩ := Option.bind_eq_some_iff.mp haction
    cases haction
    exact ⟨_, rfl, rfl, rfl, rfl, rfl⟩
  | voicemail c =>
    obtain ⟨mailbox, -, haction⟩ := Option.bind_eq_some_iff.mp haction
    cases haction
    exact ⟨_, rfl, rfl, rfl, rfl, rfl⟩

/-! ## Runs -/

/-- After one more miss at a label, that label has one miss more and the others as many. -/
theorem at_add (misses : Simulation.Misses) (label : String) :
    (misses.add label).at = Function.update misses.at label (misses.at label + 1) := by
  funext label'
  unfold Simulation.Misses.add
  by_cases hlabel : label' = label
  · subst hlabel
    rw [Function.update_self]
    unfold Simulation.Misses.at
    rw [Association.lookup?_insert_self _ (by simp)]
    rfl
  · rw [Function.update_of_ne hlabel]
    unfold Simulation.Misses.at
    rw [Association.lookup?_insert_of_ne _ (by simp [Ne.symm hlabel]) (by simp [Ne.symm hlabel])]

/-- From each node that a call can get to, running the units is walking along the flow. -/
theorem run_eq_walkFrom {s : Script} (h : f.compile policy = .ok s) (limit : Int) :
    ∀ (steps : Nat) {id : String}, f.Reaches s.start id → ∀ (misses : Simulation.Misses)
      (pending : List String), ∃ r, Simulation.run s limit steps id misses pending = .ok r ∧
        walkFrom f policy limit steps id misses.at pending = some r.toWalk
  | 0, _, _, _, _ => ⟨_, rfl, rfl⟩
  | steps + 1, id, hid, misses, pending => by
    obtain ⟨n, u, hn, hunit, htarget⟩ := Flow.target?_compile h hid
    obtain ⟨c, action, hblock, haction, rfl⟩ := Compilation.unit_eq_ok hunit
    obtain ⟨hmem, rfl⟩ := Flow.node?_eq_some_iff.mp hn
    obtain ⟨⟨input, way, rest⟩, hstop, hagrees⟩ := agrees_turn (Flow.compile_eq_ok h).1 hmem hblock
      haction limit (misses.at n.id) pending
    simp only [Simulation.run, htarget, walkFrom, hn, hblock, hstop]
    generalize Simulation.turn ⟨n.id, n.name, action⟩ limit (misses.at n.id) pending = t at hagrees ⊢
    obtain ⟨tinput, treprompt, tmove, trest, tmissed⟩ := t
    obtain ⟨rfl, rfl, hway⟩ := hagrees
    cases way with
    | ends outcome =>
      obtain ⟨rfl, rfl⟩ := hway
      exact ⟨_, rfl, rfl⟩
    | follow e =>
      obtain ⟨rfl, rfl, rfl, hleads⟩ := hway
      obtain ⟨r, hrun, hwalk⟩ := run_eq_walkFrom h limit steps (hid.tail hleads) misses trest
      simp only [Bool.false_eq_true, if_false, hrun, hwalk]
      exact ⟨_, rfl, rfl⟩
    | again =>
      obtain ⟨rfl, rfl, rfl⟩ := hway
      obtain ⟨r, hrun, hwalk⟩ := run_eq_walkFrom h limit steps hid (misses.add n.id) trest
      simp only [if_true, hrun, ← at_add, hwalk]
      exact ⟨_, rfl, rfl⟩

end Walk

/-- A script takes every caller the way that the flow does: for all inputs and limits the run of
the script is there, and its steps, its outcome, the node where it ends and the inputs left are
those of the walk along the flow. -/
theorem Flow.simulate_eq_walk {f : Flow} {policy : Policy} {s : Script}
    (h : f.compile policy = .ok s) (inputs : List String) (limit maxSteps : Int) :
    ∃ r, s.simulate inputs limit maxSteps = .ok r ∧
      f.walk policy inputs limit maxSteps = some r.toWalk := by
  obtain ⟨r, hrun, hwalk⟩ :=
    Walk.run_eq_walkFrom h limit maxSteps.toNat Relation.ReflTransGen.refl [] inputs
  refine ⟨r, hrun, ?_⟩
  unfold Flow.walk
  rw [(compile_eq_ok h).2.1]
  exact hwalk

/-- A caller who first presses a key that is not on offer is asked again. -/
theorem Flow.simulate_oneChoice : ∃ s r, oneChoice.compile .reprompt = .ok s ∧
    s.simulate ["9", "1", "5"] 3 200 = .ok r ∧
      r.toWalk = ⟨.hangup, [⟨"ask", "Ask", some "9", true⟩, ⟨"ask", "Ask", some "1", false⟩,
        ⟨"end", "End", none, false⟩], some "end", ["5"]⟩ := by
  obtain ⟨s, hs⟩ : ∃ s, oneChoice.compile .reprompt = .ok s := ⟨_, rfl⟩
  obtain ⟨r, hrun, hwalk⟩ := simulate_eq_walk hs ["9", "1", "5"] 3 200
  have hway : oneChoice.walk .reprompt ["9", "1", "5"] 3 200 = some ⟨.hangup,
      [⟨"ask", "Ask", some "9", true⟩, ⟨"ask", "Ask", some "1", false⟩,
        ⟨"end", "End", none, false⟩], some "end", ["5"]⟩ := by decide +kernel
  exact ⟨s, r, hs, hrun, Option.some.inj (hwalk.symm.trans hway)⟩

end CallFlow
