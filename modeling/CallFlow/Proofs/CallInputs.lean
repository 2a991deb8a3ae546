import CallFlow.Proofs.Attempts

/-!
# The inputs of a call

A unit asks (`Simulation.asks`) if it offers a choice or branches on a response. Only units that ask
take inputs, and each of them takes the first one that is left, so the inputs of a call are those in
its trace, in order, followed by those that remain. When none is left, a response has a stand-in,
which is in the trace although it is not one of the inputs.

* `Simulation.turn_cons`, `Simulation.turn_nil`, `Simulation.turn_of_not_asks`: what becomes of the
  inputs in a turn.
* `Simulation.run_accounts`: what becomes of them in a call.
* `Simulation.run_ends`: a call ends at the last unit of its trace, or is cut off.
* `Simulation.run_append`: a call that never lacked an input goes the same way when there are more
  inputs and it may run more units.
* `Script.simulate_inputs`: no input is lost, taken twice or out of order.
* `Flow.simulate_extends`: calls to the script of a flow extend.
-/

namespace CallFlow

namespace Simulation

/-! ## Turns -/

/-- A unit takes an input: it offers a choice, or it branches on a response. -/
def asks (a : Action) : Bool := (choice? a).isSome || !a.branches.isEmpty

section

variable {u : ScriptUnit}

/-- A node where the caller chooses asks for an input. -/
theorem asks_of_choice? {a : Action} {table : BranchTable} (h : choice? a = some table) :
    asks a := by
  rw [asks, h]
  rfl

/-- A unit that asks and offers no choice branches on a response. -/
theorem turn_of_response (limit : Int) (misses : Nat) (pending : List String)
    (hchoice : choice? u.action = none) (hasks : asks u.action) :
    turn u limit misses pending = respond u.action.branches (mockResponse? u.action) pending := by
  have hbranches : u.action.branches.isEmpty = false := by
    simpa [asks, hchoice] using hasks
  have hterminal : terminalOutcome? u.action = none := by
    revert hbranches
    cases u.action <;> simp [terminalOutcome?, Action.branches]
  simp only [turn, hterminal, hchoice, hbranches, Bool.false_eq_true, if_false]

/-- A unit that asks takes the first of the inputs. The others do not matter to it. -/
theorem turn_cons (limit : Int) (misses : Nat) (input : String) (h : asks u.action) :
    ∃ reprompt move missed, ∀ rest,
      turn u limit misses (input :: rest) = ⟨some input, reprompt, move, rest, missed⟩ := by
  cases htable : choice? u.action with
  | some table =>
    simp only [turn_of_choice? htable, choose]
    split
    · exact ⟨_, _, _, fun _ => rfl⟩
    · split <;> exact ⟨_, _, _, fun _ => rfl⟩
  | none =>
    simp only [turn_of_response _ _ _ htable h, respond]
    split <;> exact ⟨_, _, _, fun _ => rfl⟩

/-- When no inputs are left, what stands in for a response is the input of a unit that asks. -/
theorem turn_nil (limit : Int) (misses : Nat) (h : asks u.action) :
    ∃ move, turn u limit misses [] = ⟨mockResponse? u.action, false, move, [], false⟩ := by
  cases htable : choice? u.action with
  | some table =>
    have hmock : mockResponse? u.action = none := by
      revert htable
      cases u.action <;> simp [choice?, mockResponse?]
    rw [turn_of_choice? htable, hmock]
    exact ⟨_, rfl⟩
  | none =>
    simp only [turn_of_response _ _ _ htable h, respond]
    split <;> exact ⟨_, rfl⟩

/-- A unit that does not ask leaves the inputs as they are, and they do not matter to it. -/
theorem turn_of_not_asks (limit : Int) (misses : Nat) (h : ¬ asks u.action) :
    ∃ move, ∀ pending, turn u limit misses pending = ⟨none, false, move, pending, false⟩ := by
  have hchoice : choice? u.action = none := by
    by_contra hchoice
    obtain ⟨table, htable⟩ := Option.ne_none_iff_exists'.mp hchoice
    exact h (asks_of_choice? htable)
  have hbranches : u.action.branches.isEmpty := by
    simpa [asks, hchoice] using h
  simp only [turn, hchoice, hbranches, if_true]
  split
  · exact ⟨_, fun _ => rfl⟩
  · split <;> exact ⟨_, fun _ => rfl⟩

/-- More inputs behind those that are left change nothing in a turn that does not lack one. -/
theorem turn_append {limit : Int} {misses : Nat} {pending : List String}
    (h : asks u.action → pending ≠ []) (extra : List String) :
    turn u limit misses (pending ++ extra) =
      { turn u limit misses pending with
        remaining := (turn u limit misses pending).remaining ++ extra } := by
  by_cases hasks : asks u.action
  · obtain ⟨input, rest, rfl⟩ := List.exists_cons_of_ne_nil (h hasks)
    obtain ⟨reprompt, move, missed, hturn⟩ := turn_cons limit misses input hasks
    rw [List.cons_append, hturn, hturn]
  · obtain ⟨move, hturn⟩ := turn_of_not_asks limit misses hasks
    rw [hturn, hturn]

end

end Simulation

/-- There is a unit with the label, and it takes an input. -/
def Script.asksAt (s : Script) (label : String) : Bool :=
  (s.target? label).any fun u => Simulation.asks u.action

/-- What stands in for the response at the unit with the label. -/
def Script.standInAt? (s : Script) (label : String) : Option String :=
  (s.target? label).bind fun u => Simulation.mockResponse? u.action

namespace Simulation

/-! ## What becomes of the inputs -/

/-- The inputs are those of the first steps of a trace, in order, and those that remain. The inputs
of the other steps stand in for responses, and then none remains. -/
structure Accounts (s : Script) (inputs : List String) (taken standIn : List TraceStep)
    (remaining : List String) : Prop where
  inputs : inputs = taken.filterMap TraceStep.input ++ remaining
  standIn : ∀ x ∈ standIn, ∀ input, x.input = some input →
    remaining = [] ∧ s.standInAt? x.label = some input

section

variable {s : Script} {limit : Int} {u : ScriptUnit} {misses : Nat} {pending : List String}

/-- A step that takes an input is at a unit that asks. -/
theorem asksAt_of_input (hu : s.target? u.label = some u)
    (h : (turn u limit misses pending).input ≠ none) : s.asksAt u.label := by
  by_contra hasks
  have hunit : ¬ asks u.action := by simpa [Script.asksAt, hu] using hasks
  obtain ⟨move, hturn⟩ := turn_of_not_asks limit misses hunit
  exact h (by rw [hturn])

/-- Where no step was made, no input was used. -/
theorem Accounts.nil (remaining : List String) : Accounts s remaining [] [] remaining :=
  ⟨rfl, fun _ hx => absurd hx List.not_mem_nil⟩

/-- A turn before a trace. -/
theorem Accounts.cons (hu : s.target? u.label = some u) {taken standIn : List TraceStep}
    {remaining : List String}
    (h : Accounts s (turn u limit misses pending).remaining taken standIn remaining) :
    ∃ taken' standIn',
      traceStep u (turn u limit misses pending) :: (taken ++ standIn) = taken' ++ standIn' ∧
        Accounts s pending taken' standIn' remaining := by
  by_cases hasks : asks u.action
  · cases pending with
    | nil =>
      -- from here on nothing is taken from the caller
      obtain ⟨move, hturn⟩ := turn_nil limit misses hasks
      rw [hturn] at h ⊢
      obtain ⟨hnone, hremaining⟩ := List.append_eq_nil_iff.mp h.inputs.symm
      refine ⟨[], _, rfl, by rw [hremaining]; rfl, fun x hx input hinput => ⟨hremaining, ?_⟩⟩
      rcases List.mem_cons.mp hx with rfl | hx
      · simpa [Script.standInAt?, traceStep, hu] using hinput
      · rcases List.mem_append.mp hx with hx | hx
        · rw [List.filterMap_eq_nil_iff.mp hnone x hx] at hinput
          cases hinput
        · exact (h.standIn x hx input hinput).2
    | cons input rest =>
      obtain ⟨reprompt, move, missed, hturn⟩ := turn_cons limit misses input hasks
      rw [hturn] at h ⊢
      exact ⟨_ :: taken, standIn, rfl, congrArg (input :: ·) h.inputs, h.standIn⟩
  · obtain ⟨move, hturn⟩ := turn_of_not_asks limit misses hasks
    rw [hturn] at h ⊢
    exact ⟨_ :: taken, standIn, rfl, h.inputs, h.standIn⟩

/-- In every call, the inputs are those taken by its steps, in order, and those that remain. -/
theorem run_accounts : ∀ (steps : Nat) {label : String} {misses : Misses} {pending : List String}
    {r : CallResult}, run s limit steps label misses pending = .ok r →
      ∃ taken standIn, r.trace = taken ++ standIn ∧ Accounts s pending taken standIn r.remaining
  | 0, _, _, _, r, h => by
    rw [← Except.ok.inj h]
    exact ⟨[], [], rfl, .nil _⟩
  | steps + 1, label, misses, pending, r, h => by
    obtain ⟨u, t, hu, rfl, hr⟩ := run_succ_eq_ok h
    obtain rfl := Script.label_of_target? hu
    rcases hr with ⟨outcome, -, rfl⟩ | ⟨next, r', -, hr', rfl⟩
    · exact (Accounts.nil _).cons hu
    · obtain ⟨taken, standIn, htrace, haccounts⟩ := run_accounts steps hr'
      rw [htrace]
      exact haccounts.cons hu

/-- Only units that ask take inputs. -/
theorem asksAt_of_mem_trace {steps : Nat} {label : String} {misses : Misses}
    {pending : List String} {r : CallResult} (h : run s limit steps label misses pending = .ok r)
    {x : TraceStep} (hx : x ∈ r.trace) (hinput : x.input ≠ none) : s.asksAt x.label := by
  obtain ⟨before, after, hsplit⟩ := List.append_of_mem hx
  obtain ⟨u, t, pending', hu, hstep, hturn, -⟩ := exists_turn_of_run steps h hsplit
  have hlabel : x.label = u.label := congrArg TraceStep.label hstep
  have htaken : x.input = t.input := congrArg TraceStep.input hstep
  rw [htaken, hturn] at hinput
  rw [hlabel] at hu ⊢
  exact asksAt_of_input hu hinput

/-! ## How a call ends -/

/-- A call is cut off after the units that it may run, or it ends at the last unit of its trace. -/
theorem run_ends : ∀ (steps : Nat) {label : String} {misses : Misses} {pending : List String}
    {r : CallResult}, run s limit steps label misses pending = .ok r →
      (r.outcome = .stepLimit ∧ r.terminal = none ∧ r.trace.length = steps) ∨
      (r.outcome ≠ .stepLimit ∧ r.trace.length ≤ steps ∧
        ∃ x, r.trace.getLast? = some x ∧ r.terminal = some x.label)
  | 0, _, _, _, r, h => by
    rw [← Except.ok.inj h]
    exact .inl ⟨rfl, rfl, rfl⟩
  | steps + 1, label, misses, pending, r, h => by
    obtain ⟨u, t, hu, rfl, ⟨outcome, hmove, rfl⟩ | ⟨next, r', -, hr', rfl⟩⟩ := run_succ_eq_ok h
    · exact .inr ⟨ne_stepLimit_of_finish hmove, by simp, _, rfl, rfl⟩
    · rcases run_ends steps hr' with ⟨hcut, hterminal, hlength⟩ | ⟨hend, hlength, x, hx, hterminal⟩
      · exact .inl ⟨hcut, hterminal, congrArg (· + 1) hlength⟩
      · refine .inr ⟨hend, Nat.succ_le_succ hlength, x, ?_, hterminal⟩
        rw [List.getLast?_cons, hx]
        rfl

end

end Simulation

/-! ## More inputs -/

/-- Each step at a unit that asks took the first input that was left then: the inputs of these
steps, none of which is missing, and those that remain are all inputs. -/
def Script.Supplied (s : Script) (inputs : List String) (trace : List TraceStep)
    (remaining : List String) : Prop :=
  (trace.filter fun x => s.asksAt x.label).map TraceStep.input ++ remaining.map some =
    inputs.map some

namespace Simulation

section

variable {s : Script} {limit : Int} {u : ScriptUnit}

/-- Behind a turn that did not lack an input, the steps have the inputs that it left. -/
theorem supplied_of_cons {misses : Nat} {pending remaining : List String} {trace : List TraceStep}
    (hu : s.target? u.label = some u)
    (h : s.Supplied pending (traceStep u (turn u limit misses pending) :: trace) remaining) :
    (asks u.action → pending ≠ []) ∧
      s.Supplied (turn u limit misses pending).remaining trace remaining := by
  have hasksAt : s.asksAt (traceStep u (turn u limit misses pending)).label = asks u.action := by
    simp [Script.asksAt, traceStep, hu]
  unfold Script.Supplied at h ⊢
  rw [List.filter_cons, hasksAt] at h
  by_cases hasks : asks u.action
  · rw [if_pos hasks] at h
    cases pending with
    | nil => cases h
    | cons input rest =>
      obtain ⟨reprompt, move, missed, hturn⟩ := turn_cons limit misses input hasks
      rw [hturn] at h ⊢
      exact ⟨fun _ => List.cons_ne_nil _ _, (List.cons.inj h).2⟩
  · rw [if_neg hasks] at h
    obtain ⟨move, hturn⟩ := turn_of_not_asks limit misses hasks
    rw [hturn]
    exact ⟨fun hasks' => absurd hasks' hasks, h⟩

/-- More inputs change nothing in the first turn of a call that did not lack one. -/
theorem turn_of_extra {misses : Nat} {pending remaining extra : List String}
    {trace : List TraceStep} (hu : s.target? u.label = some u)
    (h : extra = [] ∨
      s.Supplied pending (traceStep u (turn u limit misses pending) :: trace) remaining) :
    turn u limit misses (pending ++ extra) =
        { turn u limit misses pending with
          remaining := (turn u limit misses pending).remaining ++ extra } ∧
      (extra = [] ∨ s.Supplied (turn u limit misses pending).remaining trace remaining) := by
  rcases h with rfl | hsupplied
  · simp only [List.append_nil, true_or, and_true]
  · obtain ⟨hpending, hsupplied⟩ := supplied_of_cons hu hsupplied
    exact ⟨turn_append hpending extra, .inr hsupplied⟩

/-- When a call may run more units, and there are more inputs unless it lacked one, it goes the same
way: if it had ended, it ends in the same way, and if it was cut off, it begins in the same way. -/
theorem run_append (extra : List String) : ∀ {steps more : Nat} {label : String} {misses : Misses}
    {pending : List String} {r : CallResult}, steps ≤ more →
      run s limit steps label misses pending = .ok r →
      extra = [] ∨ s.Supplied pending r.trace r.remaining →
        (r.outcome ≠ .stepLimit ∧ run s limit more label misses (pending ++ extra) =
          .ok { r with remaining := r.remaining ++ extra }) ∨
        (r.outcome = .stepLimit ∧ ∀ r', run s limit more label misses (pending ++ extra) = .ok r' →
          r.trace <+: r'.trace)
  | 0, _, _, _, _, _, _, h, _ => by
    rw [← Except.ok.inj h]
    exact .inr ⟨rfl, fun _ _ => List.nil_prefix⟩
  | steps + 1, more + 1, label, misses, pending, r, hmore, h, hextra => by
    obtain ⟨u, t, hu, ht, hr⟩ := run_succ_eq_ok h
    obtain rfl := Script.label_of_target? hu
    rcases hr with ⟨outcome, hmove, rfl⟩ | ⟨next, r', hmove, hr', rfl⟩
    · obtain ⟨hturn, -⟩ := turn_of_extra hu (ht ▸ hextra)
      rw [← ht] at hturn
      refine .inl ⟨ne_stepLimit_of_finish (ht ▸ hmove), ?_⟩
      simp only [run, hu, hturn, hmove]
      rfl
    · obtain ⟨hturn, hextra⟩ := turn_of_extra hu (ht ▸ hextra)
      rw [← ht] at hturn hextra
      have hrun : run s limit (more + 1) u.label misses (pending ++ extra) =
          (run s limit more next (if t.missed then misses.add u.label else misses)
            (t.remaining ++ extra)).map fun r => { r with trace := traceStep u t :: r.trace } := by
        simp only [run, hu, hturn, hmove]
        rfl
      rw [hrun]
      rcases run_append extra (Nat.le_of_succ_le_succ hmore) hr' hextra with
        ⟨houtcome, hr'⟩ | ⟨houtcome, hbegins⟩
      · exact .inl ⟨houtcome, Except.map_eq_ok_iff.mpr ⟨_, hr', rfl⟩⟩
      · refine .inr ⟨houtcome, fun _ hlonger => ?_⟩
        obtain ⟨r'', hr'', rfl⟩ := Except.map_eq_ok_iff.mp hlonger
        exact (List.prefix_cons_inj _).mpr (hbegins r'' hr'')

end

end Simulation

namespace Script

variable {s : Script} {inputs : List String} {limit maxSteps : Int} {r : CallResult}

/-- A call is cut off exactly if it would go another way when it may run more units. -/
theorem outcome_eq_stepLimit_iff (h : s.simulate inputs limit maxSteps = .ok r) :
    r.outcome = .stepLimit ↔
      ∃ more, maxSteps ≤ more ∧ s.simulate inputs limit more ≠ .ok r := by
  constructor
  · intro hcut
    refine ⟨maxSteps.toNat + 1, by omega, fun hmore => ?_⟩
    -- a call that is cut off has run all the units that it may run
    rcases Simulation.run_ends _ h with ⟨-, -, hlength⟩ | ⟨hend, -⟩
    · rcases Simulation.run_ends _ hmore with ⟨-, -, hlonger⟩ | ⟨hend, -⟩
      · omega
      · exact hend hcut
    · exact hend hcut
  · rintro ⟨more, hmore, hother⟩
    by_contra hend
    rcases Simulation.run_append [] (Int.toNat_le_toNat hmore) h (.inl rfl) with
      ⟨-, hsame⟩ | ⟨hcut, -⟩
    · rw [List.append_nil, List.append_nil] at hsame
      exact hother hsame
    · exact hend hcut

/-- **Inputs are neither lost, taken twice nor taken out of order.** In every call, the inputs are
those of the first steps of the trace, in order, followed by those that remain. The inputs of the
other steps are stand-ins for the response at their unit, and then no input remains. Only units that
offer a choice or branch on a response take inputs. The trace has at most as many steps as the call
may run units. The call is cut off, which is when it would go on if it might run more units, exactly
if it ends at no unit, and then the trace has all the steps that it may have. Otherwise it ends at
the last unit of the trace. -/
theorem simulate_inputs (h : s.simulate inputs limit maxSteps = .ok r) :
    (∃ taken standIn, r.trace = taken ++ standIn ∧
      Simulation.Accounts s inputs taken standIn r.remaining) ∧
    (∀ x ∈ r.trace, x.input ≠ none → s.asksAt x.label) ∧
    (r.trace.length : Int) ≤ max 0 maxSteps ∧
    (r.outcome = .stepLimit ↔ ∃ more, maxSteps ≤ more ∧ s.simulate inputs limit more ≠ .ok r) ∧
    (r.outcome = .stepLimit ↔ r.terminal = none) ∧
    (r.outcome = .stepLimit → (r.trace.length : Int) = max 0 maxSteps) ∧
    (r.outcome ≠ .stepLimit →
      ∃ x, r.trace.getLast? = some x ∧ r.terminal = some x.label) := by
  refine ⟨Simulation.run_accounts _ h, fun x hx => Simulation.asksAt_of_mem_trace h hx, ?_,
    outcome_eq_stepLimit_iff h, ?_⟩
  · rcases Simulation.run_ends _ h with ⟨-, -, hlength⟩ | ⟨-, hlength, -⟩ <;> omega
  · rcases Simulation.run_ends _ h with ⟨hcut, hterminal, hlength⟩ | ⟨hend, -, x, hx, hterminal⟩
    · exact ⟨iff_of_true hcut hterminal, fun _ => by omega, fun hend => absurd hcut hend⟩
    · refine ⟨iff_of_false hend (by simp [hterminal]), fun hcut => absurd hcut hend, fun _ => ?_⟩
      exact ⟨x, hx, hterminal⟩

/-- A script that asks another service again as long as it answers that all is well, which it is
taken to do when nothing else is known. -/
def polling : Script :=
  ⟨"poll", [⟨"poll", "Poll", .apiCall none (some "/open") none (some "200") none
    [("200", "poll")]⟩]⟩

/-- The one input is taken by the first step, and the others have the stand-in. -/
theorem simulate_inputs_polling : ∃ r, polling.simulate ["200"] 3 3 = .ok r ∧
    r.trace.map TraceStep.input = [some "200", some "200", some "200"] ∧
    (∃ taken standIn, r.trace = taken ++ standIn ∧
      Simulation.Accounts polling ["200"] taken standIn r.remaining) ∧
    ∃ more, 3 ≤ more ∧ polling.simulate ["200"] 3 more ≠ .ok r := by
  obtain ⟨r, hr⟩ : ∃ r, polling.simulate ["200"] 3 3 = .ok r := ⟨_, rfl⟩
  obtain ⟨haccounts, -, -, hcut, -⟩ := simulate_inputs hr
  have hrun : r.outcome = .stepLimit ∧
      r.trace.map TraceStep.input = [some "200", some "200", some "200"] := by
    cases hr
    exact ⟨rfl, rfl⟩
  exact ⟨r, hr, hrun.2, haccounts, hcut.mp hrun.1⟩

end Script

namespace Flow

variable {f : Flow} {policy : Policy} {s : Script} {inputs : List String} {limit maxSteps : Int}
  {r : CallResult}

/-- **Calls extend.** Let each step of a call at a unit that offers a choice or branches on a
response have taken an input. Then with more inputs behind those of the call, and when it may run
more units, there is a call whose trace begins with that of the first. If the first was not cut off,
they are the same up to the inputs that remain, which have the new ones behind them. -/
theorem simulate_extends (h : f.compile policy = .ok s)
    (hr : s.simulate inputs limit maxSteps = .ok r)
    (hsupplied : s.Supplied inputs r.trace r.remaining) (extra : List String) {more : Int}
    (hmore : maxSteps ≤ more) :
    ∃ r', s.simulate (inputs ++ extra) limit more = .ok r' ∧ r.trace <+: r'.trace ∧
      (r.outcome ≠ .stepLimit → r' = { r with remaining := r.remaining ++ extra }) := by
  obtain ⟨r', hr'⟩ := (closed_compile h).exists_simulate (inputs ++ extra) limit more
  refine ⟨r', hr', ?_⟩
  rcases Simulation.run_append extra (Int.toNat_le_toNat hmore) hr (.inr hsupplied) with
    ⟨-, hsame⟩ | ⟨hcut, hbegins⟩
  · obtain rfl : r' = _ := Except.ok.inj (hr'.symm.trans hsame)
    exact ⟨List.prefix_rfl, fun _ => rfl⟩
  · exact ⟨hbegins r' hr', fun hend => absurd hcut hend⟩

/-- A call that went from the menu to the hours is cut off there, and goes back to the menu when it
may go on. A call that went to the end has nothing to do with more inputs. -/
theorem simulate_extends_wayBack : ∃ s r r₁ r₂, wayBack.compile .hangup = .ok s ∧
    s.simulate ["1"] 3 2 = .ok r ∧ s.Supplied ["1"] r.trace r.remaining ∧
    (∃ r', s.simulate ["1", "2"] 3 200 = .ok r' ∧ r.trace <+: r'.trace) ∧
    s.simulate ["2"] 3 200 = .ok r₁ ∧ s.Supplied ["2"] r₁.trace r₁.remaining ∧
    s.simulate ["2", "1"] 3 200 = .ok r₂ ∧ r₂ = { r₁ with remaining := ["1"] } := by
  obtain ⟨s, hs⟩ : ∃ s, wayBack.compile .hangup = .ok s := ⟨_, rfl⟩
  obtain ⟨r, hr, hsupplied⟩ : ∃ r, s.simulate ["1"] 3 2 = .ok r ∧
      s.Supplied ["1"] r.trace r.remaining := by
    cases hs
    exact ⟨_, rfl, rfl⟩
  obtain ⟨r', hr', hbegins, -⟩ :=
    simulate_extends hs hr hsupplied ["2"] (by decide : (2 : Int) ≤ 200)
  obtain ⟨r₁, hr₁, hsupplied₁, hend, hremaining⟩ : ∃ r, s.simulate ["2"] 3 200 = .ok r ∧
      s.Supplied ["2"] r.trace r.remaining ∧ r.outcome ≠ .stepLimit ∧ r.remaining = [] := by
    cases hs
    exact ⟨_, rfl, rfl, by decide, rfl⟩
  obtain ⟨r₂, hr₂, -, hsame⟩ := simulate_extends hs hr₁ hsupplied₁ ["1"] (le_refl 200)
  refine ⟨s, r, r₁, r₂, hs, hr, hsupplied, ⟨r', hr', hbegins⟩, hr₁, hsupplied₁, hr₂, ?_⟩
  rw [hsame hend, hremaining]
  rfl

end Flow

end CallFlow
