import CallFlow.Proofs.ClosedScript
import CallFlow.Proofs.Cycles
import CallFlow.Proofs.UnitOrder

/-!
# The path of a call

A call to the script of a flow passes from node to node along the edges, or asks again at the node
where it is (`Simulation.Passes`, `Simulation.run_cases`). So of two labels on its path the later
can be reached from the earlier (`Simulation.pairwise_path`), and a call that comes back to a node
after it was at another one has gone around a cycle that the checks warn about
(`Flow.exists_finding_of_revisit`).
-/

namespace CallFlow

namespace Simulation

variable {f : Flow} {policy : Policy} {s : Script}

/-- Where a call can be after one more unit, and with which misses: along an edge with the same
misses, or at the same node with one more, as long as the misses there stay below the limit. -/
inductive Passes (f : Flow) (limit : Int) (id : String) (misses : Misses) : String → Misses → Prop
  | follow {next : String} (h : f.Leads id next) : Passes f limit id misses next misses
  | again (h : (misses.at id + 1 : Int) < limit) : Passes f limit id misses id (misses.add id)

/-- A call passes to a node that it can get to. -/
theorem Passes.reaches {limit : Int} {id next : String} {misses misses' : Misses}
    (h : Passes f limit id misses next misses') : f.Reaches id next := by
  cases h with
  | follow hleads => exact .single hleads
  | again => exact .refl

/-- A call that is not cut off ends at the node where it is, or it passes on and all that follows is
a call from there. -/
theorem run_cases (h : f.compile policy = .ok s) (limit : Int) (steps : Nat) {id : String}
    (hid : f.Reaches s.start id) (misses : Misses) (pending : List String) :
    (∃ r, run s limit (steps + 1) id misses pending = .ok r ∧ r.outcome ≠ .stepLimit ∧
      r.path = [id]) ∨
    ∃ step next misses' pending', Passes f limit id misses next misses' ∧ step.label = id ∧
      run s limit (steps + 1) id misses pending =
        (run s limit steps next misses' pending').map fun r =>
          { r with trace := step :: r.trace } := by
  obtain ⟨n, u, hn, hunit, htarget⟩ := Flow.target?_compile h hid
  obtain rfl : u.label = id :=
    (Compilation.label_of_unit_eq_ok hunit).trans (Flow.node?_eq_some_iff.mp hn).2
  rcases turn_cases u limit (misses.at u.label) pending with
    ⟨outcome, hmove, hnot⟩ | ⟨next, hnext, hmove, hmissed⟩ | ⟨hmove, hmissed, hlimit⟩
  · simp only [run, htarget, hmove]
    exact .inl ⟨_, rfl, hnot, rfl⟩
  · have hleads : f.Leads u.label next :=
      Compilation.label_of_unit_eq_ok hunit ▸ Compilation.leads_of_mem_targets hunit hnext
    simp only [run, htarget, hmove, hmissed]
    exact .inr ⟨_, next, misses, _, .follow hleads, rfl, rfl⟩
  · simp only [run, htarget, hmove, hmissed, if_true]
    exact .inr ⟨_, u.label, misses.add u.label, _, .again hlimit, rfl, rfl⟩

/-- Each label on the path of a call can be reached from those before it. -/
theorem pairwise_path (h : f.compile policy = .ok s) (limit : Int) :
    ∀ (steps : Nat) {id : String}, f.Reaches s.start id → ∀ (misses : Misses)
      (pending : List String) {r : CallResult}, run s limit steps id misses pending = .ok r →
        (∀ label ∈ r.path, f.Reaches id label) ∧ r.path.Pairwise f.Reaches
  | 0, _, _, _, _, r, hr => by
    obtain rfl := Except.ok.inj hr
    exact ⟨fun _ hlabel => absurd hlabel List.not_mem_nil, List.Pairwise.nil⟩
  | steps + 1, id, hid, misses, pending, r, hr => by
    rcases run_cases h limit steps hid misses pending with
      ⟨r', hrun, -, hpath⟩ | ⟨step, next, misses', pending', hpasses, rfl, hrun⟩
    · obtain rfl := Except.ok.inj (hrun.symm.trans hr)
      rw [hpath]
      exact ⟨fun label hlabel => List.mem_singleton.mp hlabel ▸ .refl,
        List.pairwise_singleton _ _⟩
    · obtain ⟨r', hr', rfl⟩ := Except.map_eq_ok_iff.mp (hrun.symm.trans hr)
      obtain ⟨hfrom, hpairwise⟩ :=
        pairwise_path h limit steps (hid.trans hpasses.reaches) misses' pending' hr'
      have hlater : ∀ label ∈ r'.path, f.Reaches step.label label := fun label hlabel =>
        hpasses.reaches.trans (hfrom label hlabel)
      refine ⟨fun label hlabel => ?_, List.pairwise_cons.mpr ⟨hlater, hpairwise⟩⟩
      rcases List.mem_cons.mp hlabel with rfl | hlabel
      · exact .refl
      · exact hlater label hlabel

end Simulation

namespace Flow

variable {f : Flow} {policy : Policy} {s : Script}

/-- **Every loop a caller can go through was warned about.** If a call to the script of a flow is at
one node, then at another, and then at the first one again, both are members of one of the cycles
that the checks find. -/
theorem exists_finding_of_revisit {inputs : List String} {limit maxSteps : Int} {r : CallResult}
    {a b : String} (h : f.compile policy = .ok s) (hr : s.simulate inputs limit maxSteps = .ok r)
    (hne : a ≠ b) (hvisits : [a, b, a].Sublist r.path) :
    ∃ x ∈ f.validate.byCode .cycleDetected, a ∈ x.members ∧ b ∈ x.members := by
  obtain ⟨hcompilable, hstart, -⟩ := compile_eq_ok h
  obtain ⟨hreached, hpairwise⟩ :=
    Simulation.pairwise_path h limit maxSteps.toNat Relation.ReflTransGen.refl [] inputs hr
  have hfirst : f.Reaches s.start a := hreached a (hvisits.subset List.mem_cons_self)
  obtain ⟨hfromA, hrest⟩ := List.pairwise_cons.mp (hpairwise.sublist hvisits)
  have hthere : f.Reaches a b := hfromA b List.mem_cons_self
  have hback : f.Reaches b a := (List.pairwise_cons.mp hrest).1 a List.mem_cons_self
  exact hcompilable.exists_finding hstart hfirst hthere hback hne

/-- A caller who asks for the hours is back at the menu, and the way back was warned about. -/
theorem exists_finding_wayBack : ∃ s r, wayBack.compile .hangup = .ok s ∧
    s.simulate ["1"] 3 200 = .ok r ∧ "menu" ≠ "hours" ∧
      ["menu", "hours", "menu"].Sublist r.path ∧
        ∃ x ∈ wayBack.validate.byCode .cycleDetected, "menu" ∈ x.members ∧ "hours" ∈ x.members := by
  obtain ⟨s, hs⟩ : ∃ s, wayBack.compile .hangup = .ok s := ⟨_, rfl⟩
  obtain ⟨r, hr, hpath⟩ : ∃ r, s.simulate ["1"] 3 200 = .ok r ∧
      r.path = ["menu", "hours", "menu"] := by
    cases hs
    exact ⟨_, rfl, rfl⟩
  have hvisits : ["menu", "hours", "menu"].Sublist r.path := hpath ▸ .refl _
  exact ⟨s, r, hs, hr, by decide, hvisits, exists_finding_of_revisit hs hr (by decide) hvisits⟩

end Flow

end CallFlow
