import CallFlow.Proofs.Blocks
import CallFlow.Proofs.UnitOrder
import CallFlow.Proofs.Walk
import Mathlib.Computability.StateTransition

/-!
# Attempts at a choice

A caller whose input is in no branch is asked again until the attempts run out. The block of a unit
counts tries from zero each time it is entered, while a simulated call counts the misses at a unit
over the whole call.

* `Dialplan.hangsUpOn_iff`: a block hangs up on the input of the last attempt.
* `Simulation.exists_turn_of_run`: a step of a call is a turn of its unit, with the misses that are
  in the trace before it.
* `Flow.attempts`: the call is hung up exactly when the block would hang up if the caller had given
  all inputs that missed at the unit during one visit. So both allow the same attempts on a visit
  that no miss at the unit came before, and on others they need not (`Flow.attempts_differ`).
-/

namespace CallFlow

/-! ## Running a block -/

namespace Dialplan

/-- Where a caller is in a block: the steps from here on, the tries counted so far, the answers by
variable, and the inputs that are left. -/
structure Position where
  rest : List Step
  tries : Nat
  answers : String → Option String
  inputs : List String

/-- Does one step of a block. There is none if the call is hung up, if it leaves the block, or if
the block waits for an input and none is left. -/
def advance? (block : List Step) (c : Position) : Option Position :=
  match c.rest with
  | [] => none
  | x :: rest =>
    match x.operation with
    | .hangup | .goTo _ => none
    | .clearTries => some { c with rest, tries := 0 }
    | .countTry => some { c with rest, tries := c.tries + 1 }
    | .retry limit target =>
      if (c.tries : Int) < limit then
        some { c with rest := block.dropWhile fun x => x.label ≠ some target }
      else some { c with rest }
    | .ask var _ _ =>
      match c.inputs with
      | [] => none
      | input :: inputs =>
        some { c with rest, answers := Function.update c.answers var (some input), inputs }
    | .branch var value _ => if c.answers var = some value then none else some { c with rest }
    | _ => some { c with rest }

/-- The caller is at the end of the call. -/
def Position.isHangup (c : Position) : Prop := c.rest.head?.map Step.operation = some .hangup

/-- From a position on, the block hangs up on the last of the inputs. -/
def EndsFrom (block : List Step) (c : Position) : Prop :=
  ∃ d ∈ StateTransition.eval (advance? block) c, d.isHangup ∧ d.inputs = []

/-- A block that is entered, with whatever counts and answers from before, hangs up on the last of
the inputs. -/
def HangsUpOn (block : List Step) (inputs : List String) : Prop :=
  ∀ tries answers, EndsFrom block ⟨block, tries, answers, inputs⟩

section

variable {block more : List Step} {tries : Nat} {answers : String → Option String} {var : String}
  {input : String} {inputs : List String}

open StateTransition Relation

/-- A step first, then the others. -/
theorem reaches_of_advance? {c d e : Position} (h : advance? block c = some d)
    (hreach : Reaches (advance? block) d e) : Reaches (advance? block) c e :=
  ReflTransGen.head h hreach

/-- Where one position leads to another, the block ends from both or from neither. -/
theorem endsFrom_congr {c d : Position} (h : Reaches (advance? block) c d) :
    EndsFrom block c ↔ EndsFrom block d := by
  unfold EndsFrom
  rw [reaches_eval h]

/-- Where no step can be done, the block hangs up if that is what is left to do. -/
theorem endsFrom_of_stop {c : Position} (h : advance? block c = none) :
    EndsFrom block c ↔ c.isHangup ∧ c.inputs = [] := by
  have hself : c ∈ eval (advance? block) c := mem_eval.mpr ⟨.refl, h⟩
  constructor
  · rintro ⟨d, hd, hdone⟩
    rwa [Part.mem_unique hself hd]
  · exact fun hdone => ⟨c, hself, hdone⟩

/-- The branches let an input through that is in none of them. -/
theorem reaches_branchSteps {s : Script} {branches : TextTable} {bs : List Step}
    (h : branchSteps s var branches = .ok bs) (hanswer : answers var = some input)
    (hmiss : branches.find? input = none) :
    Reaches (advance? block) ⟨bs ++ more, tries, answers, inputs⟩
      ⟨more, tries, answers, inputs⟩ := by
  rw [branchSteps_eq_ok_iff] at h
  induction h with
  | nil => exact .refl
  | @cons b x _ _ hx _ ih =>
    obtain ⟨l, -, rfl⟩ := hx
    unfold TextTable.find? at hmiss
    rw [Association.lookup?] at hmiss
    split at hmiss
    · cases hmiss
    · rename_i hkey
      have hne : answers var ≠ some b.1 := by
        intro heq
        rw [hanswer] at heq
        exact hkey (decide_eq_true (Option.some.inj heq).symm)
      exact reaches_of_advance? (if_neg hne) (ih hmiss)

/-- A question takes an input for its answer. -/
theorem reaches_question (ask : Label) (digits : Nat) (url message : Option String) :
    Reaches (advance? block)
      ⟨question ask var digits url message ++ more, tries, answers, input :: inputs⟩
      ⟨more, tries, Function.update answers var (some input), inputs⟩ := by
  rcases question_cases ask var digits url message with ⟨text, heq⟩ | ⟨prompt, heq⟩
  · rw [heq]
    exact reaches_of_advance? rfl (reaches_of_advance? rfl .refl)
  · rw [heq]
    exact reaches_of_advance? rfl .refl

/-- Behind the branches a try is counted, and the caller is asked again while there are few. -/
theorem reaches_secondTry (block : List Step) (limit : Int) (l : Label) (tries : Nat)
    (answers : String → Option String) (inputs : List String) : Reaches (advance? block)
      ⟨[plain .countTry, plain (.retry limit l), plain .hangup], tries, answers, inputs⟩
      ⟨if (tries + 1 : Int) < limit then block.dropWhile (fun x => x.label ≠ some l)
        else [plain .hangup], tries + 1, answers, inputs⟩ := by
  refine reaches_of_advance? rfl ?_
  by_cases hlt : (tries + 1 : Int) < limit
  · rw [if_pos hlt]
    exact reaches_of_advance? (if_pos (by exact_mod_cast hlt)) .refl
  · rw [if_neg hlt]
    exact reaches_of_advance? (if_neg (by exact_mod_cast hlt)) .refl

/-- A question without an input does not come to an end. -/
theorem not_endsFrom_question (ask : Label) (digits : Nat) (url message : Option String) :
    ¬ EndsFrom block ⟨question ask var digits url message ++ more, tries, answers, []⟩ := by
  rcases question_cases ask var digits url message with ⟨text, heq⟩ | ⟨prompt, heq⟩
  · have hspoken : Reaches (advance? block)
        ⟨question ask var digits url message ++ more, tries, answers, []⟩
        ⟨plain (.ask var none digits) :: more, tries, answers, []⟩ := by
      rw [heq]
      exact reaches_of_advance? rfl .refl
    rw [endsFrom_congr hspoken, endsFrom_of_stop rfl]
    simp [Position.isHangup, plain]
  · rw [heq, endsFrom_of_stop rfl]
    simp [Position.isHangup]

end

/-! ## Attempts in a block -/

section

variable {s : Script} {limit : Int} {i : Nat} {table : BranchTable} {var : String}
  {url message : Option String} {bs : List Step}

open StateTransition Relation

/-- The steps of a unit that offers a choice and asks again, from where it asks. -/
def attempt (limit : Int) (i : Nat) (table : BranchTable) (var : String)
    (url message : Option String) (bs : List Step) : List Step :=
  question (.ask i) var (longestOption table.options) url message ++
    (bs ++ [plain .countTry, plain (.retry limit (.ask i)), plain .hangup])

/-- All steps of such a unit. -/
def choiceBlock (limit : Int) (i : Nat) (table : BranchTable) (var : String)
    (url message : Option String) (bs : List Step) : List Step :=
  ⟨some (.entry i), .clearTries⟩ :: attempt limit i table var url message bs

/-- The label where a unit asks is that of its question. -/
theorem dropWhile_choiceBlock (limit : Int) (i : Nat) (table : BranchTable) (var : String)
    (url message : Option String) (bs : List Step) :
    (choiceBlock limit i table var url message bs).dropWhile (fun x => x.label ≠ some (.ask i)) =
      attempt limit i table var url message bs := by
  unfold choiceBlock attempt
  rcases question_cases (.ask i) var (longestOption table.options) url message with
    ⟨text, heq⟩ | ⟨prompt, heq⟩ <;> rw [heq] <;> simp

variable (hbs : branchSteps s var table.branches = .ok bs)

include hbs

/-- An input that misses counts as a try, and the caller is asked again while there are few. -/
theorem reaches_attempt {tries : Nat} {answers : String → Option String} {input : String}
    {inputs : List String} (hmiss : table.branches.find? input = none) :
    Reaches (advance? (choiceBlock limit i table var url message bs))
      ⟨attempt limit i table var url message bs, tries, answers, input :: inputs⟩
      ⟨if (tries + 1 : Int) < limit then attempt limit i table var url message bs
        else [plain .hangup], tries + 1, Function.update answers var (some input), inputs⟩ := by
  have hsecond := reaches_secondTry (choiceBlock limit i table var url message bs) limit (.ask i)
    tries (Function.update answers var (some input)) inputs
  rw [dropWhile_choiceBlock] at hsecond
  exact ((reaches_question (.ask i) _ url message).trans
    (reaches_branchSteps hbs (Function.update_self ..) hmiss)).trans hsecond

/-- From the question on, a block hangs up on the last of some inputs that miss exactly if that uses
up the attempts. -/
theorem endsFrom_attempt_iff : ∀ {inputs : List String},
    (∀ input ∈ inputs, table.branches.find? input = none) → ∀ (tries : Nat) answers,
      EndsFrom (choiceBlock limit i table var url message bs)
        ⟨attempt limit i table var url message bs, tries, answers, inputs⟩ ↔
        inputs ≠ [] ∧ (tries : Int) + inputs.length = max ((tries : Int) + 1) limit
  | [], _, tries, answers => by
    refine iff_of_false ?_ fun h => h.1 rfl
    exact not_endsFrom_question _ _ _ _
  | input :: inputs, hmiss, tries, answers => by
    rw [endsFrom_congr (reaches_attempt hbs (hmiss input List.mem_cons_self))]
    by_cases hlt : (tries + 1 : Int) < limit
    · rw [if_pos hlt, endsFrom_attempt_iff (fun x hx => hmiss x (List.mem_cons_of_mem _ hx))]
      rw [← List.length_pos_iff, List.length_cons]
      simp only [ne_eq, reduceCtorEq, not_false_eq_true, true_and]
      push_cast
      omega
    · rw [if_neg hlt, endsFrom_of_stop rfl, ← List.length_eq_zero_iff, List.length_cons]
      simp only [Position.isHangup, ne_eq, reduceCtorEq, not_false_eq_true, true_and]
      push_cast
      constructor
      · rintro ⟨-, hnil⟩
        omega
      · intro h
        exact ⟨rfl, by omega⟩

end

/-- The block of a unit that asks again hangs up on the last of some inputs that miss exactly if
that is the last attempt; there is always one. -/
theorem hangsUpOn_iff {s : Script} {limit : Int} {i : Nat} {behind : Option String} {a : Action}
    {table : BranchTable} {ss : List Step} (h : steps s limit (.entry i) behind a = .ok ss)
    (htable : Simulation.choice? a = some table) (hfallback : table.fallback = .reprompt)
    {inputs : List String} (hmiss : ∀ input ∈ inputs, table.branches.find? input = none) :
    HangsUpOn ss inputs ↔ (inputs.length : Int) = max 1 limit := by
  rcases steps_cases h with
    ⟨rfl, -⟩ | ⟨table', var, url, message, htable', -, hchoice⟩ | ⟨_, _, _, -, -, -, hnone, -⟩
  · cases htable
  · obtain rfl : table = table' := Option.some.inj (htable.symm.trans htable')
    obtain ⟨bs, hbs, rfl⟩ := choiceSteps_eq_ok hchoice
    have hblock : (⟨some (.entry i), .clearTries⟩ ::
        (question (.ask i) var (longestOption table.options) url message ++ bs ++
          secondTry limit (.ask i) table.fallback ++ [plain .hangup]) : List Step) =
        choiceBlock limit i table var url message bs := by
      rw [hfallback]
      simp only [choiceBlock, attempt, secondTry, List.append_assoc, List.cons_append,
        List.nil_append]
    have hentered : ∀ tries answers, EndsFrom (choiceBlock limit i table var url message bs)
        ⟨choiceBlock limit i table var url message bs, tries, answers, inputs⟩ ↔
          (inputs.length : Int) = max 1 limit := by
      intro tries answers
      have hstep : advance? (choiceBlock limit i table var url message bs)
          ⟨choiceBlock limit i table var url message bs, tries, answers, inputs⟩ =
            some ⟨attempt limit i table var url message bs, 0, answers, inputs⟩ := rfl
      rw [endsFrom_congr (reaches_of_advance? hstep .refl), endsFrom_attempt_iff hbs hmiss,
        ← List.length_pos_iff]
      push_cast
      omega
    show HangsUpOn (⟨some (.entry i), .clearTries⟩ ::
      (question (.ask i) var (longestOption table.options) url message ++ bs ++
        secondTry limit (.ask i) table.fallback ++ [plain .hangup])) inputs ↔ _
    rw [hblock]
    constructor
    · intro hends
      exact (hentered 0 fun _ => none).mp (hends _ _)
    · intro hlength tries answers
      exact (hentered tries answers).mpr hlength
  · rw [htable] at hnone
    cases hnone

end Dialplan

namespace Simulation

/-! ## Turns -/

section

variable {u : ScriptUnit} {limit : Int} {misses : Nat} {pending : List String} {table : BranchTable}
  {input : String}

/-- A node where the caller chooses takes its turn by its table. -/
theorem turn_of_choice? (h : choice? u.action = some table) :
    turn u limit misses pending = choose table u.label limit misses pending := by
  have hterminal : terminalOutcome? u.action = none := by
    revert h
    cases u.action <;> simp [choice?, terminalOutcome?]
  simp only [turn, hterminal, h]

/-- Only a unit that offers a choice can be missed. -/
theorem turn_of_not_choice (h : choice? u.action = none) :
    (turn u limit misses pending).missed = false ∧
      (turn u limit misses pending).reprompt = false := by
  simp only [turn, h]
  split
  · exact ⟨rfl, rfl⟩
  · split
    · split <;> exact ⟨rfl, rfl⟩
    · unfold respond
      dsimp only
      split <;> exact ⟨rfl, rfl⟩

/-- What is done with an input that missed. -/
theorem choose_of_miss {label : String} {rest : List String}
    (hfallback : table.fallback = .reprompt) (hmiss : table.branches.find? input = none) :
    choose table label limit misses (input :: rest) =
      if (misses + 1 : Int) < limit then ⟨some input, true, .goTo label, rest, true⟩
      else ⟨some input, false, .finish .hangup, rest, true⟩ := by
  simp only [choose, hmiss, hfallback, decide_true, Bool.true_and, decide_eq_true_eq]

/-- The caller is asked again only by a unit that offers a choice, after an input that missed, and
while there are attempts left. -/
theorem of_reprompt_turn (h : (turn u limit misses pending).reprompt) :
    ∃ table input, choice? u.action = some table ∧
      (turn u limit misses pending).input = some input ∧ table.branches.find? input = none ∧
        (misses + 1 : Int) < limit := by
  cases htable : choice? u.action with
  | none =>
    rw [(turn_of_not_choice htable).2] at h
    cases h
  | some table =>
    rw [turn_of_choice? htable] at h ⊢
    cases pending with
    | nil => cases h
    | cons input rest =>
      cases hfind : table.branches.find? input with
      | some target =>
        simp only [choose, hfind] at h
        cases h
      | none =>
        simp only [choose, hfind] at h ⊢
        split at h
        · rename_i hagain
          rw [if_pos hagain]
          rw [Bool.and_eq_true, decide_eq_true_eq, decide_eq_true_eq] at hagain
          exact ⟨table, input, rfl, rfl, hfind, hagain.2⟩
        · cases h

/-- Where the call goes on, a miss is one after which the caller is asked again. -/
theorem missed_turn {next : String} (h : (turn u limit misses pending).move = .goTo next) :
    (turn u limit misses pending).missed = (turn u limit misses pending).reprompt := by
  cases htable : choice? u.action with
  | none => rw [(turn_of_not_choice htable).1, (turn_of_not_choice htable).2]
  | some table =>
    rw [turn_of_choice? htable] at h ⊢
    cases pending with
    | nil => rfl
    | cons input rest =>
      cases hfind : table.branches.find? input with
      | some target => simp only [choose, hfind]
      | none =>
        simp only [choose, hfind] at h ⊢
        split at h
        · rename_i hagain
          rw [if_pos hagain]
        · cases h

/-- After an input that missed, a unit that asks again hangs up exactly if there are no attempts
left. -/
theorem move_turn_eq_hangup_iff (htable : choice? u.action = some table)
    (hfallback : table.fallback = .reprompt)
    (hinput : (turn u limit misses pending).input = some input)
    (hmiss : table.branches.find? input = none) :
    (turn u limit misses pending).move = .finish .hangup ↔ limit ≤ misses + 1 := by
  rw [turn_of_choice? htable] at hinput ⊢
  cases pending with
  | nil => cases hinput
  | cons x rest =>
    obtain rfl : x = input := by
      cases hfind : table.branches.find? x with
      | some target =>
        simp only [choose, hfind] at hinput
        exact Option.some.inj hinput
      | none =>
        rw [choose_of_miss hfallback hfind] at hinput
        split at hinput <;> exact Option.some.inj hinput
    rw [choose_of_miss hfallback hmiss]
    split
    · simp; omega
    · simp; omega

end

/-! ## Steps of a call -/

/-- The inputs that missed at a unit and after which the caller was asked again. -/
def missed (label : String) (trace : List TraceStep) : List String :=
  (trace.filter fun x => x.label = label && x.reprompt).filterMap TraceStep.input

/-- The inputs that missed in a trace are those of its parts. -/
theorem missed_append (label : String) (xs ys : List TraceStep) :
    missed label (xs ++ ys) = missed label xs ++ missed label ys := by
  unfold missed
  rw [List.filter_append, List.filterMap_append]

/-- Where the caller was asked again in each step, and at one unit, all inputs missed there. -/
theorem missed_eq_map {label : String} {xs : List TraceStep}
    (h : ∀ x ∈ xs, x.label = label ∧ x.reprompt) :
    missed label xs = xs.filterMap TraceStep.input := by
  unfold missed
  rw [List.filter_eq_self.mpr]
  intro x hx
  simp [h x hx]

/-- The step that a turn of a unit leaves in the trace. -/
def traceStep (u : ScriptUnit) (t : Turn) : TraceStep :=
  ⟨u.label, u.name, u.action.kindName, t.input, t.reprompt⟩

variable {s : Script} {limit : Int}

/-- A run with a result takes a turn at a unit, and either ends there or goes on at the next one
with what was not used up. -/
theorem run_succ_eq_ok {steps : Nat} {label : String} {misses : Misses} {pending : List String}
    {r : CallResult} (h : run s limit (steps + 1) label misses pending = .ok r) :
    ∃ u t, s.target? label = some u ∧ t = turn u limit (misses.at u.label) pending ∧
      ((∃ outcome, t.move = .finish outcome ∧
        r = ⟨outcome, [traceStep u t], some u.label, t.remaining⟩) ∨
      ∃ next r', t.move = .goTo next ∧
        run s limit steps next (if t.missed then misses.add u.label else misses) t.remaining =
          .ok r' ∧ r = { r' with trace := traceStep u t :: r'.trace }) := by
  rw [run] at h
  split at h
  · cases h
  · rename_i u htarget
    refine ⟨u, _, htarget, rfl, ?_⟩
    dsimp only at h
    split at h
    · rename_i outcome hmove
      exact .inl ⟨outcome, hmove, (Except.ok.inj h).symm⟩
    · rename_i next hmove
      obtain ⟨r', hr', rfl⟩ := Except.map_eq_ok_iff.mp h
      exact .inr ⟨next, r', hmove, hr', rfl⟩

/-- Only a call that is cut off at once leaves no trace. -/
theorem outcome_of_trace_eq_nil {steps : Nat} {label : String} {misses : Misses}
    {pending : List String} {r : CallResult} (h : run s limit steps label misses pending = .ok r)
    (hnil : r.trace = []) : r.outcome = .stepLimit := by
  cases steps with
  | zero =>
    rw [← Except.ok.inj h]
  | succ steps =>
    obtain ⟨u, t, -, -, ⟨outcome, -, rfl⟩ | ⟨next, r', -, -, rfl⟩⟩ := run_succ_eq_ok h
    · cases hnil
    · cases hnil

/-- The misses that a call remembers and those in its trace are counted together. -/
theorem at_add_length_missed {u : ScriptUnit} {misses : Misses} {t : Turn} {pending : List String}
    (ht : t = turn u limit (misses.at u.label) pending) {next : String}
    (hmove : t.move = .goTo next) (label : String) (trace : List TraceStep) :
    (if t.missed then misses.add u.label else misses).at label + (missed label trace).length =
      misses.at label + (missed label (traceStep u t :: trace)).length := by
  have hmissed : t.missed = t.reprompt := by
    subst ht
    exact missed_turn hmove
  rw [← List.singleton_append, missed_append, List.length_append, hmissed]
  cases hreprompt : t.reprompt with
  | false => simp [missed, traceStep, hreprompt]
  | true =>
    obtain ⟨table, input, -, hinput, -, -⟩ := of_reprompt_turn (ht ▸ hreprompt)
    rw [← ht] at hinput
    rw [if_pos rfl, Walk.at_add]
    by_cases hlabel : u.label = label
    · subst hlabel
      simp [missed, traceStep, hreprompt, hinput]
      omega
    · rw [Function.update_of_ne (Ne.symm hlabel)]
      simp [missed, traceStep, hlabel]

/-- Each step of a call is a turn of its unit, after the misses at the unit so far. The call is hung
up there exactly if the turn does so. -/
theorem exists_turn_of_run : ∀ (steps : Nat) {label : String} {misses : Misses}
    {pending : List String} {r : CallResult} {before after : List TraceStep} {step : TraceStep},
    run s limit steps label misses pending = .ok r → r.trace = before ++ step :: after →
      ∃ u t pending', s.target? step.label = some u ∧ step = traceStep u t ∧
        t = turn u limit (misses.at step.label + (missed step.label before).length) pending' ∧
        (r.outcome = .hangup ∧ after = [] ↔ t.move = .finish .hangup)
  | 0, _, _, _, r, before, after, step, h, hsplit => by
    rw [← Except.ok.inj h] at hsplit
    simp at hsplit
  | steps + 1, label, misses, pending, r, before, after, step, h, hsplit => by
    obtain ⟨u, t, htarget, ht, hr⟩ := run_succ_eq_ok h
    obtain rfl := Script.label_of_target? htarget
    cases before with
    | nil =>
      -- the first step is this turn
      refine ⟨u, t, pending, ?_⟩
      rcases hr with ⟨outcome, hmove, rfl⟩ | ⟨next, r', hmove, hr', rfl⟩
      · obtain ⟨rfl, rfl⟩ := List.cons.inj hsplit
        exact ⟨htarget, rfl, ht, by simp [hmove]⟩
      · obtain ⟨rfl, rfl⟩ := List.cons.inj hsplit
        refine ⟨htarget, rfl, ht, iff_of_false ?_ (by simp [hmove])⟩
        rintro ⟨houtcome, hnil⟩
        rw [outcome_of_trace_eq_nil hr' hnil] at houtcome
        cases houtcome
    | cons x before =>
      rcases hr with ⟨outcome, hmove, rfl⟩ | ⟨next, r', hmove, hr', rfl⟩
      · simp at hsplit
      · obtain ⟨rfl, hrest⟩ := List.cons.inj hsplit
        obtain ⟨v, t', pending', hv, hstep, ht', hhangup⟩ := exists_turn_of_run steps hr' hrest
        rw [at_add_length_missed ht hmove] at ht'
        exact ⟨v, t', pending', hv, hstep, ht', hhangup⟩

/-- Where some inputs missed at a unit, one of them was the last. -/
theorem exists_last_missed {label : String} {trace : List TraceStep} (h : missed label trace ≠ []) :
    ∃ before x after, trace = before ++ x :: after ∧ x.label = label ∧ x.reprompt ∧
      missed label after = [] := by
  induction trace using List.reverseRecOn with
  | nil => exact absurd rfl h
  | append_singleton trace x ih =>
    by_cases hx : x.label = label ∧ x.reprompt
    · exact ⟨trace, x, [], rfl, hx.1, hx.2, rfl⟩
    · have hnone : missed label [x] = [] := by
        unfold missed
        rw [List.filter_cons_of_neg (by simpa using hx)]
        rfl
      rw [missed_append, hnone, List.append_nil] at h
      obtain ⟨before, y, after, rfl, hlabel, hreprompt, hafter⟩ := ih h
      refine ⟨before, y, after ++ [x], by simp, hlabel, hreprompt, ?_⟩
      rw [missed_append, hafter, hnone]
      rfl

section

variable {steps : Nat} {label : String} {misses : Misses} {pending : List String} {r : CallResult}
  (h : run s limit steps label misses pending = .ok r)

include h

/-- A step after which the caller is asked again took an input that missed, and there were attempts
left. -/
theorem of_reprompt {before after : List TraceStep} {x : TraceStep}
    (hsplit : r.trace = before ++ x :: after) (hreprompt : x.reprompt) :
    ∃ u table input, s.target? x.label = some u ∧ choice? u.action = some table ∧
      x.input = some input ∧ table.branches.find? input = none ∧
        (misses.at x.label + (missed x.label before).length + 1 : Int) < limit := by
  obtain ⟨u, t, pending', hu, hx, rfl, -⟩ := exists_turn_of_run steps h hsplit
  have hturn : (traceStep u (turn u limit (misses.at x.label + (missed x.label before).length)
      pending')).reprompt := hx ▸ hreprompt
  obtain ⟨table, input, htable, hinput, hmiss, hlimit⟩ := of_reprompt_turn hturn
  refine ⟨u, table, input, hu, htable, ?_, hmiss, by exact_mod_cast hlimit⟩
  rw [hx]
  exact hinput

/-- As long as a call goes on, the misses at a unit stay below the limit. -/
theorem length_missed_lt {before after : List TraceStep} (hsplit : r.trace = before ++ after)
    (unit : String) :
    missed unit before = [] ∨ (misses.at unit + (missed unit before).length : Int) < limit := by
  by_cases hnone : missed unit before = []
  · exact .inl hnone
  · obtain ⟨front, x, back, rfl, rfl, hreprompt, hback⟩ := exists_last_missed hnone
    rw [List.append_assoc, List.cons_append] at hsplit
    obtain ⟨u, table, input, -, -, hinput, -, hlimit⟩ := of_reprompt h hsplit hreprompt
    have hlength : (missed x.label (front ++ x :: back)).length =
        (missed x.label front).length + 1 := by
      rw [← List.singleton_append, missed_append, missed_append, hback]
      simp [missed, hreprompt, hinput]
    rw [hlength]
    push_cast
    exact .inr (by omega)

/-- The inputs that missed at a unit are in none of its branches. -/
theorem find?_of_mem_missed {u : ScriptUnit} {table : BranchTable}
    (hu : s.target? u.label = some u) (htable : choice? u.action = some table) {input : String}
    (hinput : input ∈ missed u.label r.trace) : table.branches.find? input = none := by
  obtain ⟨x, hx, hxinput⟩ := List.mem_filterMap.mp hinput
  obtain ⟨hmem, hx⟩ := List.mem_filter.mp hx
  rw [Bool.and_eq_true, decide_eq_true_eq] at hx
  obtain ⟨before, after, hsplit⟩ := List.append_of_mem hmem
  obtain ⟨u', table', input', hu', htable', hinput', hmiss, -⟩ := of_reprompt h hsplit hx.2
  rw [hx.1, hu] at hu'
  cases hu'
  rw [htable] at htable'
  cases htable'
  rw [hinput'] at hxinput
  cases hxinput
  exact hmiss

end

/-- A visit to a unit in the trace of a call, as far as a step of it: the steps before the visit,
those of the visit after which the caller was asked again, the step, and what comes after it. A
visit begins where the call comes from another unit, or back to the unit by a branch. -/
structure Visit (trace before again : List TraceStep) (step : TraceStep) (after : List TraceStep) :
    Prop where
  split : trace = before ++ (again ++ step :: after)
  begins : ∀ x ∈ before.getLast?, ¬ x.reprompt
  again : ∀ x ∈ again, x.label = step.label ∧ x.reprompt

end Simulation

namespace Compilation

/-- A unit that offers a choice does with an input that misses what the policy says. -/
theorem fallback_of_choice? {policy : Policy} {edges : List Edge} {c : Config} {a : Action}
    {table : BranchTable} (h : action? policy edges c = some a)
    (htable : Simulation.choice? a = some table) : table.fallback = policy := by
  cases c with
  | key c | language c =>
    obtain ⟨branches, -, h⟩ := Option.bind_eq_some_iff.mp h
    cases h
    cases htable
    rfl
  | prompt c | record c | menu c | api c | hangup =>
    cases h
    cases htable
  | transfer c | queue c | voicemail c =>
    obtain ⟨place, -, h⟩ := Option.bind_eq_some_iff.mp h
    cases h
    cases htable

end Compilation

namespace Flow

open Simulation

variable {f : Flow} {s : Script}

/-- **Attempts in calls and in dialplans.** On a visit to a unit of a script that asks again, let an
input miss. Then the call is hung up exactly if the block of the unit, entered once, would hang up
on that input after all inputs that missed at the unit before: those of earlier visits, and those of
this visit. A block counts from zero on each visit, so the two allow the same attempts wherever no
input missed at the unit on an earlier visit. -/
theorem attempts (h : f.compile .reprompt = .ok s) {limit maxSteps : Int} {inputs : List String}
    {r : CallResult} (hr : s.simulate inputs limit maxSteps = .ok r) {bs : List Dialplan.Block}
    (hbs : Dialplan.blocks s limit s.units = .ok bs) {before again after : List TraceStep}
    {step : TraceStep} (hvisit : Simulation.Visit r.trace before again step after)
    {i : Nat} {u : ScriptUnit} {b : Dialplan.Block} (hu : s.units[i]? = some u)
    (hb : bs[i]? = some b) (hlabel : step.label = u.label) {table : BranchTable}
    (htable : choice? u.action = some table) {input : String} (hinput : step.input = some input)
    (hmiss : table.branches.find? input = none) :
    (r.outcome = .hangup ∧ after = []) ↔
      Dialplan.HangsUpOn b.steps
        (missed u.label before ++ (again.filterMap TraceStep.input ++ [input])) := by
  have htarget : s.target? u.label = some u := by
    have hnodup : (s.units.reverse.map ScriptUnit.label).Nodup := by
      rw [List.map_reverse, List.nodup_reverse]
      exact nodup_labels_compile h
    exact (Association.find?_key_eq_some_iff hnodup).mpr
      ⟨List.mem_reverse.mpr (List.mem_of_getElem? hu), rfl⟩
  have hfallback : table.fallback = .reprompt := by
    obtain ⟨n, -, hunit⟩ := Compilation.exists_mem_nodes (compile_eq_ok h).2.2 u
      (List.mem_of_getElem? hu)
    obtain ⟨c, action, -, haction, rfl⟩ := Compilation.unit_eq_ok hunit
    exact Compilation.fallback_of_choice? haction htable
  have hsplit : r.trace = (before ++ again) ++ step :: after := by
    rw [hvisit.split, List.append_assoc]
  have hasked : missed u.label again = again.filterMap TraceStep.input :=
    missed_eq_map fun x hx => ⟨(hvisit.again x hx).1.trans hlabel, (hvisit.again x hx).2⟩
  have hagain : missed u.label (before ++ again) =
      missed u.label before ++ again.filterMap TraceStep.input := by
    rw [missed_append, hasked]
  -- the call
  obtain ⟨u', t, pending, hu', hstep, rfl, hhangup⟩ := exists_turn_of_run _ hr hsplit
  rw [hlabel, htarget] at hu'
  cases hu'
  have hturn := move_turn_eq_hangup_iff htable hfallback
    ((congrArg TraceStep.input hstep).symm.trans hinput) hmiss
  have hfew := length_missed_lt hr hsplit u.label
  -- the block
  obtain ⟨ss, hss, hsteps⟩ := Dialplan.exists_block (nodup_labels_compile h) hbs hu
  rw [hb] at hss
  cases hss
  have hall : ∀ x ∈ missed u.label (before ++ again) ++ [input], table.branches.find? x = none := by
    intro x hx
    rcases List.mem_append.mp hx with hx | hx
    · refine find?_of_mem_missed hr htarget htable ?_
      rw [hsplit, missed_append]
      exact List.mem_append_left _ hx
    · rwa [List.mem_singleton.mp hx]
  rw [hhangup, hturn, ← List.append_assoc, ← hagain,
    Dialplan.hangsUpOn_iff hsteps htable hfallback hall, List.length_append, List.length_singleton,
    hlabel]
  have hzero : Misses.at [] u.label = 0 := rfl
  rw [hzero] at hfew ⊢
  rw [← List.length_eq_zero_iff] at hfew
  push_cast
  omega

/-- A step at the menu of the flow with a way back. -/
def menuStep (input : String) (reprompt : Bool) : TraceStep :=
  ⟨"menu", "Menu", "collect_digit", some input, reprompt⟩

/-- With two attempts, both hang up on the second of two inputs that miss on the first visit. -/
theorem attempts_wayBack : ∃ s r bs b, wayBack.compile .reprompt = .ok s ∧
    s.simulate ["9", "9"] 2 200 = .ok r ∧ Dialplan.blocks s 2 s.units = .ok bs ∧
    bs[0]? = some b ∧
    Simulation.Visit r.trace [] [menuStep "9" true] (menuStep "9" false) [] ∧
    r.outcome = .hangup ∧ Dialplan.HangsUpOn b.steps ["9", "9"] := by
  obtain ⟨s, hs⟩ : ∃ s, wayBack.compile .reprompt = .ok s := ⟨_, rfl⟩
  have hr : s.simulate ["9", "9"] 2 200 =
      .ok ⟨.hangup, [menuStep "9" true, menuStep "9" false], some "menu", []⟩ := by
    cases hs
    rfl
  obtain ⟨bs, hbs⟩ : ∃ bs, Dialplan.blocks s 2 s.units = .ok bs := by
    cases hs
    exact ⟨_, rfl⟩
  obtain ⟨b, hb⟩ : ∃ b, bs[0]? = some b := by
    cases hs
    cases hbs
    exact ⟨_, rfl⟩
  obtain ⟨u, table, hu, hlabel, htable, hmiss⟩ : ∃ u table, s.units[0]? = some u ∧
      u.label = "menu" ∧ choice? u.action = some table ∧ table.branches.find? "9" = none := by
    cases hs
    exact ⟨_, _, rfl, rfl, rfl, rfl⟩
  have hvisit : Simulation.Visit [menuStep "9" true, menuStep "9" false] [] [menuStep "9" true]
      (menuStep "9" false) [] := ⟨rfl, by simp, by simp [menuStep]⟩
  have hattempts := attempts hs hr hbs hvisit hu hb hlabel.symm htable rfl hmiss
  exact ⟨s, _, bs, b, hs, hr, hbs, hb, hvisit, rfl, hattempts.mp ⟨rfl, rfl⟩⟩

/-- A caller who missed once at the menu, went to the hours and came back is hung up on the first
miss of the second visit, while the block would ask again. -/
theorem attempts_differ : ∃ s r bs b, wayBack.compile .reprompt = .ok s ∧
    s.simulate ["9", "1", "9", "2"] 2 200 = .ok r ∧ Dialplan.blocks s 2 s.units = .ok bs ∧
    bs[0]? = some b ∧
    Simulation.Visit r.trace [menuStep "9" true, menuStep "1" false,
      ⟨"hours", "Hours", "play", none, false⟩] [] (menuStep "9" false) [] ∧
    r.outcome = .hangup ∧ ¬ Dialplan.HangsUpOn b.steps ["9"] := by
  obtain ⟨s, hs⟩ : ∃ s, wayBack.compile .reprompt = .ok s := ⟨_, rfl⟩
  have hr : s.simulate ["9", "1", "9", "2"] 2 200 = .ok ⟨.hangup, [menuStep "9" true,
      menuStep "1" false, ⟨"hours", "Hours", "play", none, false⟩, menuStep "9" false],
      some "menu", ["2"]⟩ := by
    cases hs
    rfl
  obtain ⟨bs, hbs⟩ : ∃ bs, Dialplan.blocks s 2 s.units = .ok bs := by
    cases hs
    exact ⟨_, rfl⟩
  obtain ⟨u, table, hu, htable, hfallback, hmiss⟩ : ∃ u table, s.units[0]? = some u ∧
      choice? u.action = some table ∧ table.fallback = .reprompt ∧
        table.branches.find? "9" = none := by
    cases hs
    exact ⟨_, _, rfl, rfl, rfl, rfl⟩
  obtain ⟨ss, hb, hsteps⟩ := Dialplan.exists_block (nodup_labels_compile hs) hbs hu
  have hblock : ¬ Dialplan.HangsUpOn ss ["9"] := by
    rw [Dialplan.hangsUpOn_iff hsteps htable hfallback (by simpa using hmiss)]
    decide
  exact ⟨s, _, bs, _, hs, hr, hbs, hb, ⟨rfl, by simp, by simp⟩, rfl, hblock⟩

end Flow

end CallFlow
