import CallFlow.Proofs.CallPaths
import CallFlow.Proofs.Walk

/-!
# The length of a call

Where no way leads back (`Flow.OneWay`), every call ends. A call can get to fewer nodes with each
edge that it takes, and it asks at one node only as often as the limit allows. So the number of
nodes that it can get to, times the attempts at each of them, less the misses at the node where it
is (`Simulation.unitsLeft`), bounds the units that are still to be run:

* `Simulation.Fresh.passes`: it goes down with each unit, as long as the nodes ahead have no misses
  yet (`Simulation.Fresh`), which remains so.
* `Simulation.exists_run_ends`: so a call that may run that many units is not cut off.
* `Flow.simulate_ends`: a flow without warnings about cycles and without edges from a node to itself
  has no way back.
-/

namespace CallFlow

namespace Flow

variable {f : Flow} {start a b : String}

/-- What a call from the start gets to by an edge does not lead back to where the edge begins. -/
def OneWay (f : Flow) (start : String) : Prop :=
  ∀ a b, f.Reaches start a → f.Leads a b → ¬ f.Reaches b a

/-- A flow has no way back if no cycle is found and no edge leads from a node to itself. -/
theorem Compilable.oneWay (h : f.Compilable) (hstart : f.resolveStart = some start)
    (hcycles : f.validate.byCode .cycleDetected = [])
    (hself : ∀ e ∈ f.edges, e.source ≠ e.target) : f.OneWay start := by
  intro a b ha hab hba
  have hne : a ≠ b := by
    obtain ⟨e, he, rfl, rfl⟩ := hab
    exact hself e he
  obtain ⟨x, hx, -⟩ := h.exists_finding hstart ha (.single hab) hba hne
  rw [hcycles] at hx
  exact List.not_mem_nil hx

/-- From behind an edge without a way back, fewer nodes can be reached than from before it. -/
theorem Compilable.length_reachedFrom_lt (h : f.Compilable) (hab : f.Leads a b)
    (hback : ¬ f.Reaches b a) : (f.reachedFrom b).length < (f.reachedFrom a).length := by
  have hids : a ∈ f.ids ∧ b ∈ f.ids := by
    obtain ⟨e, he, rfl, rfl⟩ := hab
    exact h.connected e he
  have hnew : a ∉ f.reachedFrom b := mt (h.mem_reachedFrom_iff hids.2).mp hback
  have hsubset : a :: f.reachedFrom b ⊆ f.reachedFrom a := by
    refine List.cons_subset.mpr ⟨(h.mem_reachedFrom_iff hids.1).mpr .refl, fun c hc => ?_⟩
    exact (h.mem_reachedFrom_iff hids.1).mpr (.head hab ((h.mem_reachedFrom_iff hids.2).mp hc))
  exact ((List.nodup_cons.mpr ⟨hnew, nodup_reachedFrom hids.2⟩).subperm hsubset).length_le

end Flow

namespace Simulation

variable {f : Flow} {policy : Policy} {s : Script} {limit : Int} {attempts : Nat}

/-- A call has missed fewer times at the node where it is than there are attempts, and not yet at
the nodes ahead. -/
structure Fresh (f : Flow) (attempts : Nat) (id : String) (misses : Misses) : Prop where
  here : misses.at id < attempts
  ahead : ∀ next, f.Reaches id next → next ≠ id → misses.at next = 0

/-- A bound for the units that a call still runs from a node on. -/
def unitsLeft (f : Flow) (attempts : Nat) (id : String) (misses : Misses) : Nat :=
  (f.reachedFrom id).length * attempts - misses.at id

/-- There is at least the unit of the node where the call is. -/
theorem unitsLeft_pos {id : String} {misses : Misses} (hids : id ∈ f.ids)
    (hfresh : Fresh f attempts id misses) : 0 < unitsLeft f attempts id misses := by
  have hmem : id ∈ f.reachedFrom id := (Flow.mem_reachedFrom_iff hids).mpr .refl
  have hmany := Nat.mul_le_mul_right attempts (List.length_pos_of_mem hmem)
  have hfew := hfresh.here
  unfold unitsLeft
  omega

/-- With each unit a call comes nearer to its end. -/
theorem Fresh.passes {start id next : String} {misses misses' : Misses} (h : f.Compilable)
    (hway : f.OneWay start) (hlimit : limit ≤ attempts) (hid : f.Reaches start id)
    (hids : id ∈ f.ids) (hfresh : Fresh f attempts id misses)
    (hpasses : Passes f limit id misses next misses') :
    Fresh f attempts next misses' ∧
      unitsLeft f attempts next misses' < unitsLeft f attempts id misses := by
  have hhere := hfresh.here
  have hpos := unitsLeft_pos hids hfresh
  unfold unitsLeft at hpos ⊢
  cases hpasses with
  | follow hleads =>
    have hback := hway id next hid hleads
    have hnext : ∀ label, f.Reaches next label → misses.at label = 0 := fun label hlabel =>
      hfresh.ahead label (.head hleads hlabel) fun heq => hback (heq ▸ hlabel)
    have hnone := hnext next .refl
    refine ⟨⟨by omega, fun label hlabel _ => hnext label hlabel⟩, ?_⟩
    -- the attempts at the node that is left make up for the misses there
    have hfewer := Nat.mul_le_mul_right attempts (h.length_reachedFrom_lt hleads hback)
    rw [Nat.succ_mul] at hfewer
    omega
  | again hmisses =>
    refine ⟨⟨?_, fun label hlabel hne => ?_⟩, ?_⟩
    · rw [Walk.at_add, Function.update_self]
      omega
    · rw [Walk.at_add, Function.update_of_ne hne]
      exact hfresh.ahead label hlabel hne
    · rw [Walk.at_add, Function.update_self]
      omega

/-- A call that may run as many units as lie ahead is not cut off. -/
theorem exists_run_ends (h : f.compile policy = .ok s) (hway : f.OneWay s.start)
    (hlimit : limit ≤ attempts) : ∀ (steps : Nat) {id : String}, f.Reaches s.start id →
      ∀ (misses : Misses) (pending : List String), Fresh f attempts id misses →
        unitsLeft f attempts id misses ≤ steps →
          ∃ r, run s limit steps id misses pending = .ok r ∧ r.outcome ≠ .stepLimit
  | 0, id, hid, misses, _, hfresh, hsteps => by
    exact absurd (unitsLeft_pos (Flow.mem_ids_of_reaches h hid) hfresh) (by omega)
  | steps + 1, id, hid, misses, pending, hfresh, hsteps => by
    rcases run_cases h limit steps hid misses pending with
      ⟨r, hr, houtcome, -⟩ | ⟨step, next, misses', pending', hpasses, -, hrun⟩
    · exact ⟨r, hr, houtcome⟩
    · have hids := Flow.mem_ids_of_reaches h hid
      obtain ⟨hfresh', hless⟩ :=
        hfresh.passes (Flow.compile_eq_ok h).1 hway hlimit hid hids hpasses
      obtain ⟨r, hr, houtcome⟩ := exists_run_ends h hway hlimit steps
        (hid.trans hpasses.reaches) misses' pending' hfresh' (by omega)
      exact ⟨_, hrun.trans (Except.map_eq_ok_iff.mpr ⟨r, hr, rfl⟩), houtcome⟩

end Simulation

namespace Flow

variable {f : Flow} {policy : Policy} {s : Script}

/-- The check on cycles comes to no more nodes than a script has units. -/
theorem length_reachedFrom_le (h : f.compile policy = .ok s) :
    (f.reachedFrom s.start).length ≤ s.units.length := by
  obtain ⟨hcompilable, hstart, -⟩ := compile_eq_ok h
  have hids := mem_ids_of_resolveStart hstart
  have hsubset : f.reachedFrom s.start ⊆ s.labels := fun id hid =>
    (mem_labels_compile_iff h).mpr ((hcompilable.mem_reachedFrom_iff hids).mp hid)
  simpa [Script.labels] using ((nodup_reachedFrom hids).subperm hsubset).length_le

/-- **A flow without warnings about cycles always ends.** If no cycle is found and no edge leads
from a node to itself, then no call to the script is cut off, whatever the inputs are, as long as it
may run each unit as often as the limit allows attempts at it, and at least once. -/
theorem simulate_ends (h : f.compile policy = .ok s)
    (hcycles : f.validate.byCode .cycleDetected = [])
    (hself : ∀ e ∈ f.edges, e.source ≠ e.target) (inputs : List String) {limit maxSteps : Int}
    (hsteps : s.units.length * max 1 limit ≤ maxSteps) :
    ∃ r, s.simulate inputs limit maxSteps = .ok r ∧ r.outcome ≠ .stepLimit := by
  obtain ⟨hcompilable, hstart, -⟩ := compile_eq_ok h
  have hway := hcompilable.oneWay hstart hcycles hself
  obtain ⟨attempts, hattempts⟩ := Int.eq_ofNat_of_zero_le (a := max 1 limit) (by omega)
  have hfresh : Simulation.Fresh f attempts s.start [] :=
    ⟨show 0 < attempts by omega, fun _ _ _ => rfl⟩
  have hunits : Simulation.unitsLeft f attempts s.start [] ≤ maxSteps.toNat := by
    rw [hattempts, ← Int.natCast_mul] at hsteps
    calc (f.reachedFrom s.start).length * attempts - 0
      _ ≤ s.units.length * attempts := Nat.mul_le_mul_right attempts (length_reachedFrom_le h)
      _ ≤ maxSteps.toNat := by omega
  exact Simulation.exists_run_ends h hway (by omega) maxSteps.toNat .refl [] inputs hfresh hunits

/-- A caller who presses nothing but keys that are not on offer is hung up on in time. -/
theorem simulate_ends_oneChoice : ∃ s, oneChoice.compile .reprompt = .ok s ∧
    oneChoice.validate.byCode .cycleDetected = [] ∧
      (∀ e ∈ oneChoice.edges, e.source ≠ e.target) ∧ s.units.length * max 1 3 ≤ (6 : Int) ∧
        ∃ r, s.simulate ["7", "8", "9"] 3 6 = .ok r ∧ r.outcome ≠ .stepLimit := by
  obtain ⟨s, hs⟩ : ∃ s, oneChoice.compile .reprompt = .ok s := ⟨_, rfl⟩
  have hcycles : oneChoice.validate.byCode .cycleDetected = [] := by decide
  have hself : ∀ e ∈ oneChoice.edges, e.source ≠ e.target := by decide
  have hsteps : s.units.length * max 1 3 ≤ (6 : Int) := by
    cases hs
    decide
  exact ⟨s, hs, hcycles, hself, hsteps,
    simulate_ends hs hcycles hself ["7", "8", "9"] hsteps⟩

end Flow

end CallFlow
