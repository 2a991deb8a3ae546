import CallFlow.Script

/-!
# Simulating calls

A script is run against the inputs of a caller. A unit with a table of branches takes one input;
one that is in no branch is a miss, and the caller is asked again while the policy says so and the
misses at that unit stay below a limit. A unit that asks another service takes an input as the
response if it branches on it, or its stand-in when there are no inputs left.
-/

namespace CallFlow

/-- How a call ends. -/
inductive Outcome where
  | transfer
  | hangup
  | queue
  | voicemail
  /-- A unit without a next one was done. -/
  | finished
  /-- A choice was to be made and there was no input for it. -/
  | inputExhausted
  /-- The call was cut off after the given number of units. -/
  | stepLimit
  deriving DecidableEq, Repr

/-- The word for how a call ends. -/
def Outcome.name : Outcome → String
  | transfer => "transfer"
  | hangup => "hangup"
  | queue => "queue"
  | voicemail => "voicemail"
  | finished => "end"
  | inputExhausted => "input_exhausted"
  | stepLimit => "step_limit"

/-- A unit that was run, the input it took, and whether it asked again. -/
structure TraceStep where
  label : String
  name : String
  kindName : String
  input : Option String
  reprompt : Bool
  deriving DecidableEq, Repr

/-- How a call went: how it ended, the units that were run, the label of the unit where it ended,
and the inputs that were not taken. -/
structure CallResult where
  outcome : Outcome
  trace : List TraceStep
  terminal : Option String
  remaining : List String
  deriving DecidableEq, Repr

/-- The labels of the units that were run. -/
def CallResult.path (r : CallResult) : List String := r.trace.map TraceStep.label

namespace Simulation

/-- The outcome of a unit that ends the call. -/
def terminalOutcome? : Action → Option Outcome
  | .transfer .. => some .transfer
  | .hangup => some .hangup
  | .queue .. => some .queue
  | .voicemail .. => some .voicemail
  | _ => none

/-- The choice that a unit leaves to the caller. -/
def choice? : Action → Option BranchTable
  | .collectDigit table .. | .language table _ => some table
  | _ => none

/-- The response that stands in for one from outside. -/
def mockResponse? : Action → Option String
  | .apiCall _ _ _ mock _ _ => mock
  | _ => none

/-- What happens at a unit. -/
inductive Move where
  /-- The call ends here. -/
  | finish (outcome : Outcome)
  /-- The call goes on at a label. -/
  | goTo (label : String)

/-- What a unit does with the inputs that are left: the step it leaves in the trace, where the
call goes, and the inputs left after it. The count is that of the misses at this unit before. -/
structure Turn where
  input : Option String
  reprompt : Bool
  move : Move
  remaining : List String
  missed : Bool

/-- The turn of a unit that offers a choice. -/
def choose (table : BranchTable) (label : String) (limit : Int) (misses : Nat) :
    List String → Turn
  | [] => ⟨none, false, .finish .inputExhausted, [], false⟩
  | input :: rest =>
    match table.branches.find? input with
    | some target => ⟨some input, false, .goTo target, rest, false⟩
    | none =>
      if table.fallback = .reprompt && (misses + 1 : Int) < limit then
        ⟨some input, true, .goTo label, rest, true⟩
      else ⟨some input, false, .finish .hangup, rest, true⟩

/-- The turn of a unit that branches on a response. -/
def respond (branches : TextTable) (mock : Option String) (pending : List String) : Turn :=
  let code := match pending with | input :: _ => some input | [] => mock
  match code.bind branches.find? with
  | some target => ⟨code, false, .goTo target, pending.tail, false⟩
  | none => ⟨code, false, .finish .finished, pending.tail, false⟩

/-- The turn of a unit. -/
def turn (u : ScriptUnit) (limit : Int) (misses : Nat) (pending : List String) : Turn :=
  match terminalOutcome? u.action with
  | some outcome => ⟨none, false, .finish outcome, pending, false⟩
  | none =>
    match choice? u.action with
    | some table => choose table u.label limit misses pending
    | none =>
      if u.action.branches.isEmpty then
        match u.action.next? with
        | some next => ⟨none, false, .goTo next, pending, false⟩
        | none => ⟨none, false, .finish .finished, pending, false⟩
      else respond u.action.branches (mockResponse? u.action) pending

/-- The misses at each unit. -/
abbrev Misses := List (String × Nat)

/-- The misses at a unit. -/
def Misses.at (m : Misses) (label : String) : Nat :=
  (Association.lookup? (· = ·) label m).getD 0

/-- The misses after one more at a unit. -/
def Misses.add (m : Misses) (label : String) : Misses :=
  Association.insert (· = ·) label (m.at label + 1) m

/-- Runs at most the given number of units from a label on. The error is a label without a unit. -/
def run (s : Script) (limit : Int) : Nat → String → Misses → List String →
    Except String CallResult
  | 0, _, _, pending => .ok ⟨.stepLimit, [], none, pending⟩
  | steps + 1, label, misses, pending =>
    match s.target? label with
    | none => .error label
    | some u =>
      let t := turn u limit (misses.at u.label) pending
      let step : TraceStep := ⟨u.label, u.name, u.action.kindName, t.input, t.reprompt⟩
      match t.move with
      | .finish outcome => .ok ⟨outcome, [step], some u.label, t.remaining⟩
      | .goTo next =>
        let misses := if t.missed then misses.add u.label else misses
        (run s limit steps next misses t.remaining).map fun r =>
          { r with trace := step :: r.trace }

end Simulation

/-- The number of units after which a call is cut off unless another is given. -/
def Script.defaultSteps : Int := 200

/-- Runs a script from its start. -/
def Script.simulate (s : Script) (inputs : List String) (limit maxSteps : Int) :
    Except String CallResult :=
  Simulation.run s limit maxSteps.toNat s.start [] inputs

end CallFlow
