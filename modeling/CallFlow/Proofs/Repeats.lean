import CallFlow.Proofs.Connecting
import CallFlow.Proofs.CycleFindings
import CallFlow.Proofs.SingleBranches

/-!
# Options that ask again

An option of a branching node that leads nowhere can be made to ask the caller again, by an edge
from the node to itself (`Flow.askAgain`). The check on cycles passes over such an edge, so a call
comes to the same nodes as before. The search for the start does not: it counts every edge that
enters a node, and this one as well.

* `Flow.reachedFrom_askAgain`: from every node the same nodes can be reached.
* `Flow.resolveStart_askAgain_iff`: a call begins where it did exactly if the node was entered
  before, or is the first of a flow in which all others are entered.
* `Flow.reached_askAgain`: so a call gets to the same nodes where it begins where it did.
* `Flow.Compilable.askAgain`: the rules on edges still hold, if the option is not the empty text.
* `Editor.connect_again`: what this means for an operation.
* `Editor.start_moved_or_lost`: where the start is another one afterwards, or there is none.
-/

namespace CallFlow

/-- The rules on a node are about the edges that leave it. -/
theorem Node.Fits.of_outgoing {f g : Flow} {n : Node} {c : Config} (h : n.Fits f c)
    (hout : g.outgoing n.id = f.outgoing n.id) : n.Fits g c := by
  have hmem : ∀ e, e ∈ g.edges ∧ e.source = n.id ↔ e ∈ f.edges ∧ e.source = n.id := by
    intro e
    rw [← Flow.mem_outgoing_iff, ← Flow.mem_outgoing_iff, hout]
  have hback : ∀ {e}, e ∈ g.edges → e.source = n.id → e ∈ f.edges :=
    fun he hs => ((hmem _).mp ⟨he, hs⟩).1
  refine ⟨h.filled, fun hk e he hs => ?_, fun hk e he hs => ?_, fun hk e he hs => ?_,
    fun hk hmany e he hs => ?_, fun hk e he hs => ?_⟩
  · exact h.final hk e (hback he hs) hs
  · exact h.onward hk e (hback he hs) hs
  · exact h.declared hk e (hback he hs) hs
  · exact h.answered hk (hout ▸ hmany) e (hback he hs) hs
  · exact h.plain hk e (hback he hs) hs

/-- A node where the caller chooses fits its kind if its fields are filled in and each edge that
leaves it is for one of the options. -/
theorem Node.fits_of_isBranching {f : Flow} {n : Node} {c : Config}
    (hbranching : c.kind.isBranching)
    (hfilled : ∀ group ∈ c.kind.required, ∃ field ∈ group, ∃ s, c.get? field = some s ∧ s.isFilled)
    (hdeclared : ∀ e ∈ f.edges, e.source = n.id → ∃ h ∈ c.options.keys, e.handle = some h) :
    n.Fits f c := by
  have hkind : ¬ c.kind.isTerminal ∧ c.kind ≠ .api ∧
      ¬ (c.kind = .prompt ∨ c.kind = .record ∨ c.kind = .menu) := by
    revert hbranching
    cases c.kind <;> decide
  obtain ⟨hterminal, hapi, hplain⟩ := hkind
  exact ⟨hfilled, fun h => absurd h hterminal, fun h => absurd hbranching h, fun _ => hdeclared,
    fun h => absurd h hapi, fun h => absurd h hplain⟩

namespace Flow

variable {f : Flow} {n : Node} {start option : String}

/-- An option of a branching node of the flow that no edge leaves by. -/
structure HasOpenOption (f : Flow) (n : Node) (option : String) : Prop where
  node : n ∈ f.nodes
  declared : ∃ c, n.block = .known c ∧ c.kind.isBranching ∧ option ∈ c.options.keys
  unused : ∀ e ∈ f.edges, e.source = n.id → e.handle ≠ some option

/-- A flow without a marker that may be compiled, where a call can get to a branching node with an
option that no edge leaves by. -/
structure CanAskAgain (f : Flow) (n : Node) (start option : String) : Prop where
  compilable : f.validate.compilable
  unmarked : f.start = none
  resolved : f.resolveStart = some start
  reached : n.id ∈ f.reachedFrom start
  isOpen : f.HasOpenOption n option

/-- The flow in which an option of a node leads back to the node. -/
def askAgain (f : Flow) (id option : String) : Flow :=
  f.withEdges (f.edges ++ [f.newEdge id id (some option)])

/-- An option that is no empty text is the handle of the new edge. -/
theorem handle_newEdge (f : Flow) (source target : String) (h : option ≠ "") :
    (f.newEdge source target (some option)).handle = some option :=
  Option.filter_some_pos (p := fun h => decide (h ≠ "")) (by simpa using h)

/-! ## What is reached -/

/-- Nothing else leaves the other nodes. -/
theorem outgoing_askAgain_of_ne {id other : String} (hne : id ≠ other) :
    (f.askAgain id option).outgoing other = f.outgoing other := by
  have hnew : [f.newEdge id id (some option)].filter (·.source = other) = [] := by
    simp [newEdge, hne]
  rw [outgoing, askAgain, withEdges, List.filter_append, hnew, List.append_nil, outgoing]

/-- The new edge only asks again. -/
theorem isRepeat_newEdge (h : f.HasOpenOption n option) :
    f.isRepeat (f.newEdge n.id n.id (some option)) := by
  obtain ⟨c, hblock, hbranching, -⟩ := h.declared
  refine isRepeat_iff.mpr ⟨rfl, n, h.node, rfl, ?_⟩
  rw [hblock]
  exact hbranching

/-- The check goes from each node where it went before. -/
theorem flowTargets_askAgain (h : f.HasOpenOption n option) :
    (f.askAgain n.id option).flowTargets = f.flowTargets := by
  funext id
  have hnew : [f.newEdge n.id n.id (some option)].filter
      (fun e => (f.hasNode e.target && !f.isRepeat e) && decide (e.source = id)) = [] := by
    simp [isRepeat_newEdge h]
  unfold flowTargets outgoing
  rw [List.filter_filter, List.filter_filter]
  change (((f.edges ++ [f.newEdge n.id n.id (some option)]).filter
    fun e => (f.hasNode e.target && !f.isRepeat e) && decide (e.source = id)).map Edge.target) = _
  rw [List.filter_append, hnew, List.append_nil]

/-- From each node the same nodes are reached, in the same order. -/
theorem reachedFrom_askAgain (h : f.HasOpenOption n option) :
    (f.askAgain n.id option).reachedFrom = f.reachedFrom := by
  funext id
  unfold reachedFrom
  rw [flowTargets_askAgain h]
  rfl

/-- A node that is reached from another one is entered. -/
theorem isEntered_of_mem_reachedFrom {id : String} (hstart : start ∈ f.ids)
    (h : id ∈ f.reachedFrom start) (hne : id ≠ start) : f.isEntered id := by
  rcases Relation.ReflTransGen.cases_tail ((mem_reachedFrom_iff hstart).mp h) with heq | hlast
  · exact absurd heq hne
  · obtain ⟨_, -, hstep⟩ := hlast
    obtain ⟨e, he, -, htarget, -, -⟩ := mem_flowTargets_iff.mp hstep
    exact List.any_eq_true.mpr ⟨e, he, by simpa using htarget⟩

/-! ## Where a call begins -/

/-- One more edge that enters the node does not change where a call begins: the node is entered
already, or it is the first one and all others are entered. -/
def MayBeEntered (f : Flow) (id : String) : Prop :=
  f.isEntered id ∨ f.ids.head? = some id ∧ ∀ other ∈ f.ids, other ≠ id → f.isEntered other

/-- The node is entered then, and the others are entered as before. -/
theorem isEntered_askAgain (id option other : String) :
    (f.askAgain id option).isEntered other = (f.isEntered other || decide (id = other)) := by
  simp [isEntered, askAgain, withEdges, newEdge, List.any_append]

/-- The node is left then, and the others are left as before. -/
theorem isLeft_askAgain (id option other : String) :
    (f.askAgain id option).isLeft other = (f.isLeft other || decide (id = other)) := by
  simp [isLeft, askAgain, withEdges, newEdge, List.any_append]

/-- The node is no candidate for the start any more, because it is entered. -/
theorem startCandidates_askAgain (id option : String) :
    (f.askAgain id option).startCandidates = f.startCandidates.filter (· ≠ id) := by
  unfold startCandidates
  rw [List.filter_filter]
  refine List.filter_congr fun other _ => ?_
  rw [isEntered_askAgain, isLeft_askAgain]
  by_cases hsame : id = other
  · simp [hsame]
  · simp [hsame, Ne.symm hsame]

/-- Where it is clear where a call begins, that node is the only candidate, or there is none. -/
theorem startCandidates_of_inferredStart (hstart : f.inferredStart = some start) :
    f.startCandidates = [start] ∨ f.startCandidates = [] := by
  unfold inferredStart at hstart
  split at hstart
  · rename_i id hids
    obtain rfl := Option.some.inj hstart
    exact .inl hids
  · cases hstart
  · rename_i hnone
    exact .inr hnone

/-- A node that is entered anyway can be entered by one more edge. -/
theorem inferredStart_askAgain_of_isEntered {id : String} (h : f.isEntered id) :
    (f.askAgain id option).inferredStart = f.inferredStart := by
  have hentered : (f.askAgain id option).isEntered = f.isEntered := by
    funext other
    rw [isEntered_askAgain]
    by_cases hsame : id = other
    · simp [← hsame, h]
    · simp [hsame]
  have hcandidates : (f.askAgain id option).startCandidates = f.startCandidates := by
    rw [startCandidates_askAgain, List.filter_eq_self]
    intro other hother
    have hfree := (List.mem_filter.mp hother).2
    rw [decide_eq_true_eq]
    rintro rfl
    simp [h] at hfree
  unfold inferredStart
  rw [hcandidates, hentered]
  rfl

/-- When the start itself is entered for the first time, no node is left that is not entered and
leads somewhere. So the call begins at the first node, if all others are entered. -/
theorem inferredStart_askAgain_start (hstart : f.inferredStart = some start) :
    (f.askAgain start option).inferredStart =
      if f.nodes.length = 1 ∨ ∀ id ∈ f.ids, id ≠ start → f.isEntered id then f.ids.head?
      else none := by
  have hcandidates : (f.askAgain start option).startCandidates = [] := by
    rw [startCandidates_askAgain]
    rcases startCandidates_of_inferredStart hstart with hone | hnone
    · simp [hone]
    · simp [hnone]
  have hall : f.ids.all (f.askAgain start option).isEntered = true ↔
      ∀ id ∈ f.ids, id ≠ start → f.isEntered id := by
    rw [List.all_eq_true]
    refine forall₂_congr fun id _ => ?_
    rw [isEntered_askAgain, Bool.or_eq_true, decide_eq_true_eq, or_comm, or_iff_not_imp_left]
    exact ⟨fun h hne => h hne.symm, fun h hne => h (Ne.symm hne)⟩
  unfold inferredStart
  rw [hcandidates]
  change (if (decide (f.nodes.length = 1) || f.ids.all (f.askAgain start option).isEntered) = true
    then f.ids.head? else none) = _
  simp only [Bool.or_eq_true, decide_eq_true_eq, hall]

/-- **The start after an option asks again.** In a flow without a marker where a call can get to a
node, an option that leads back to the node leaves the start where it is exactly if the node may be
entered by one more edge. -/
theorem resolveStart_askAgain_iff (option : String) {id : String} (hmark : f.start = none)
    (hresolve : f.resolveStart = some start) (hreached : id ∈ f.reachedFrom start) :
    (f.askAgain id option).resolveStart = some start ↔ f.MayBeEntered id := by
  have hinferred : f.inferredStart = some start := by
    simpa [resolveStart, hmark] using hresolve
  have hafter : (f.askAgain id option).resolveStart = (f.askAgain id option).inferredStart := by
    simp [resolveStart, askAgain, withEdges, hmark]
  rw [hafter]
  by_cases hentered : f.isEntered id
  · rw [inferredStart_askAgain_of_isEntered hentered]
    exact iff_of_true hinferred (.inl hentered)
  · -- a node that is reached and not entered is the start
    obtain rfl : id = start := by
      by_contra hne
      exact hentered (isEntered_of_mem_reachedFrom (mem_ids_of_resolveStart hresolve) hreached hne)
    rw [inferredStart_askAgain_start hinferred, MayBeEntered, Option.ite_none_right_eq_some]
    constructor
    · rintro ⟨hsingle | hothers, hfirst⟩
      · refine .inr ⟨hfirst, fun other hother hne => absurd ?_ hne⟩
        obtain ⟨only, honly⟩ := List.length_eq_one_iff.mp hsingle
        have hids : f.ids = [only.id] := by rw [ids, honly]; rfl
        rw [hids] at hother hfirst
        rw [List.mem_singleton.mp hother]
        exact Option.some.inj hfirst
      · exact .inr ⟨hfirst, hothers⟩
    · rintro (h | ⟨hfirst, hothers⟩)
      · exact absurd h hentered
      · exact ⟨.inr hothers, hfirst⟩

/-- The nodes that a call can get to from where it begins, if it is clear where that is. -/
def reached? (f : Flow) : Option (List String) := f.resolveStart.map f.reachedFrom

/-- Where a call begins at the same node, it gets to the same nodes. -/
theorem reached_askAgain (h : f.HasOpenOption n option)
    (hstart : (f.askAgain n.id option).resolveStart = f.resolveStart) :
    (f.askAgain n.id option).reached? = f.reached? := by
  rw [reached?, reached?, hstart, reachedFrom_askAgain h]

/-! ## The rules -/

/-- The rules still hold: the new edge is for an option that no other edge is for. -/
theorem Compilable.askAgain (hf : f.Compilable) (h : f.HasOpenOption n option)
    (hoption : option ≠ "") (hmark : f.start = none)
    (hresolve : (f.askAgain n.id option).resolveStart = some start) :
    (f.askAgain n.id option).Compilable := by
  have hids : n.id ∈ f.ids := List.mem_map_of_mem h.node
  have hedges : ∀ {e}, e ∈ (f.askAgain n.id option).edges →
      e ∈ f.edges ∨ e = f.newEdge n.id n.id (some option) := by
    intro e he
    exact (List.mem_append.mp he).imp_right List.mem_singleton.mp
  refine ⟨fun e he => ?_, fun m hm c hc => ?_, ?_, .inr ⟨hmark, start, hresolve⟩⟩
  · rcases hedges he with he | rfl
    · exact hf.connected e he
    · exact ⟨hids, hids⟩
  · by_cases hsame : n.id = m.id
    · obtain rfl : m = n := List.inj_on_of_nodup_map f.distinct hm h.node hsame.symm
      obtain ⟨c', hc', hbranching, hdeclared⟩ := h.declared
      obtain rfl : c = c' := Block.known.inj (hc.symm.trans hc')
      have hfit := hf.fits m hm c hc
      refine Node.fits_of_isBranching hbranching hfit.filled fun e he hs => ?_
      rcases hedges he with he | rfl
      · exact hfit.declared hbranching e he hs
      · exact ⟨option, hdeclared, handle_newEdge f _ _ hoption⟩
    · exact (hf.fits m hm c hc).of_outgoing (outgoing_askAgain_of_ne hsame)
  · have hnew := branch_not_mem (f := f) h.unused (by simpa using hoption)
    exact Association.nodup_map_append (x := f.newEdge n.id n.id (some option)) hf.single hnew

end Flow

namespace Editor

variable {e : Editor} {n : Node} {start option : String}

/-- An option that no edge leaves by can be made to ask again. -/
theorem connect_of_hasOpenOption (h : e.flow.HasOpenOption n option) :
    (e.connect n.id n.id (.text option)).2 =
      .ok (.edge (e.flow.newEdge n.id n.id (some option))) := by
  have hnode : e.flow.hasNode n.id := Flow.hasNode_iff.mpr (List.mem_map_of_mem h.node)
  exact connect_eq_ok_iff.mpr ⟨hnode, hnode, rfl, h.unused, rfl⟩

/-- **Asking again.** Take a flow without a marker that may be compiled, a branching node that a
call can get to, and an option of the node, not the empty text, that no edge leaves by. To connect
the node to itself by the option succeeds. A call begins where it did exactly if the node may be
entered by one more edge: if it is entered already, or is the first node while all others are
entered. Then a call gets to the same nodes from where it begins afterwards as before, and the flow
may still be compiled. From each single node the same nodes can be reached in any case. -/
theorem connect_again (h : e.flow.CanAskAgain n start option) (hoption : option ≠ "") :
    ∃ edge, (e.connect n.id n.id (.text option)).2 = .ok (.edge edge) ∧
      edge.source = n.id ∧ edge.target = n.id ∧ edge.handle = some option ∧
      (e.connect n.id n.id (.text option)).1.flow = e.flow.withEdges (e.flow.edges ++ [edge]) ∧
      ((e.connect n.id n.id (.text option)).1.flow.resolveStart = e.flow.resolveStart ↔
        e.flow.MayBeEntered n.id) ∧
      (e.flow.MayBeEntered n.id →
        (e.connect n.id n.id (.text option)).1.flow.reached? = e.flow.reached? ∧
        (e.connect n.id n.id (.text option)).1.flow.validate.compilable) ∧
      ∀ id, (e.connect n.id n.id (.text option)).1.flow.reachedFrom id = e.flow.reachedFrom id := by
  have hconnect := connect_of_hasOpenOption h.isOpen
  have hflow : (e.connect n.id n.id (.text option)).1.flow = e.flow.askAgain n.id option :=
    connect_fst hconnect
  have hstart := Flow.resolveStart_askAgain_iff option h.unmarked h.resolved h.reached
  have hcompilable := e.flow.compilable_validate_iff.mp h.compilable
  rw [hflow]
  refine ⟨_, hconnect, rfl, rfl, e.flow.handle_newEdge _ _ hoption, rfl, ?_, fun henter => ⟨?_, ?_⟩,
    congrFun (Flow.reachedFrom_askAgain h.isOpen)⟩
  · rw [h.resolved]
    exact hstart
  · exact Flow.reached_askAgain h.isOpen ((hstart.mpr henter).trans h.resolved.symm)
  · rw [Flow.compilable_validate_iff]
    exact hcompilable.askAgain h.isOpen hoption h.unmarked (hstart.mpr henter)

/-- A menu with an option that leaves and the given one. -/
def someMenu (again : String) : Node :=
  ⟨"menu", "Menu", .known (.key ⟨[("1", "Leave"), (again, "Again")], some "Press 1.", none, none⟩),
    Node.origin⟩

/-- The end of a call. -/
def someEnd (id : String) : Node := ⟨id, "Bye", .known .hangup, Node.origin⟩

/-- A greeting, the menu, and the end of the call. -/
def greeted (again : String) : Editor :=
  .ofFlow ⟨[⟨"greet", "Greet", .known (.prompt ⟨some "Hello.", none, none⟩), Node.origin⟩,
      someMenu again, someEnd "bye"],
    [⟨"e1", "greet", "menu", none⟩, ⟨"e2", "menu", "bye", some "1"⟩], none,
    by simp [someMenu, someEnd]⟩

/-- The menu behind the greeting may ask again by the option. -/
theorem canAskAgain_greeted {again : String} (h : again = "9" ∨ again = "") :
    (greeted again).flow.CanAskAgain (someMenu again) "greet" again := by
  rcases h with rfl | rfl
  all_goals
    exact ⟨by decide +kernel, rfl, by decide +kernel, by decide +kernel,
      ⟨by simp [greeted, ofFlow], ⟨_, rfl, rfl, by decide⟩, by decide⟩⟩

/-- Behind a greeting, the menu may ask again. -/
theorem connect_again_greeted : (greeted "9").flow.CanAskAgain (someMenu "9") "greet" "9" ∧
    "9" ≠ "" ∧
    ((greeted "9").connect "menu" "menu" (.text "9")).1.flow.resolveStart = some "greet" ∧
    ((greeted "9").connect "menu" "menu" (.text "9")).1.flow.reached? =
      some ["greet", "menu", "bye"] ∧
    ((greeted "9").connect "menu" "menu" (.text "9")).1.flow.validate.compilable := by
  have hagain := canAskAgain_greeted (.inl rfl)
  obtain ⟨_, -, -, -, -, -, hstart, hstays, -⟩ := connect_again hagain (by decide)
  have henter : (greeted "9").flow.MayBeEntered (someMenu "9").id := .inl (by decide)
  obtain ⟨hreached, hcompilable⟩ := hstays henter
  exact ⟨hagain, by decide, (hstart.mpr henter).trans hagain.resolved,
    hreached.trans (by decide +kernel), hcompilable⟩

/-- The menu, listed behind the end of the call. -/
def endFirst : Editor :=
  .ofFlow ⟨[someEnd "bye", someMenu "9"], [⟨"e1", "menu", "bye", some "1"⟩], none, by decide⟩

/-- The menu and the end of the call, and a node that no edge enters. -/
def withSpare : Editor :=
  .ofFlow ⟨[someMenu "9", someEnd "bye", someEnd "spare"], [⟨"e1", "menu", "bye", some "1"⟩], none,
    by decide⟩

/-- Where the menu is the start and asks again, calls begin at the end if that is listed first, and
get to no other node; they begin nowhere if there is a node that no edge enters. By the empty text,
an edge is made that is for none of the options. -/
theorem start_moved_or_lost :
    (endFirst.flow.CanAskAgain (someMenu "9") "menu" "9" ∧
      (endFirst.connect "menu" "menu" (.text "9")).1.flow.resolveStart = some "bye" ∧
      endFirst.flow.reached? = some ["menu", "bye"] ∧
      (endFirst.connect "menu" "menu" (.text "9")).1.flow.reached? = some ["bye"]) ∧
    (withSpare.flow.CanAskAgain (someMenu "9") "menu" "9" ∧
      (withSpare.connect "menu" "menu" (.text "9")).1.flow.resolveStart = none ∧
      (withSpare.connect "menu" "menu" (.text "9")).1.flow.validate.errors =
        [.startAmbiguous []]) ∧
    ((greeted "").flow.CanAskAgain (someMenu "") "greet" "" ∧
      ((greeted "").connect "menu" "menu" (.text "")).1.flow.validate.errors =
        [.optionWithheld "e-menu--menu" "menu" "Menu" .key]) := by
  refine ⟨⟨?_, by decide +kernel, by decide +kernel, by decide +kernel⟩,
    ⟨?_, by decide +kernel, by decide +kernel⟩,
    canAskAgain_greeted (.inr rfl), by decide +kernel⟩
  all_goals
    exact ⟨by decide +kernel, rfl, by decide +kernel, by decide +kernel,
      ⟨by simp [endFirst, withSpare, ofFlow], ⟨_, rfl, rfl, by decide⟩, by decide⟩⟩

end Editor

end CallFlow
