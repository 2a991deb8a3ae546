import CallFlow.Dialplan
import CallFlow.Proofs.Association
import CallFlow.Proofs.ClosedScript
import CallFlow.Proofs.DialplanText
import CallFlow.Proofs.Except

/-!
# What blocks are made of

The blocks of a script are those of its units, in their order (`Dialplan.exists_block`): the block
of the unit at place `i` is entered at the label of that number, because no two units have one label
(`Dialplan.entryOf_eq_ok_iff`).

There are three ways to write a unit (`Dialplan.steps_cases`). One that hangs up is a single step.
One that offers a choice clears the count of tries, asks, branches, and asks again or hangs up
(`Dialplan.choiceSteps_eq_ok`). All others do one thing, branch on an answer if they have branches,
and go on to the next unit.
-/

namespace CallFlow

namespace Dialplan

variable {s : Script} {limit : Int}

/-! ## Entries -/

/-- Where no two units have one label, a label stands for the entry of the unit that has it. -/
theorem entryOf_eq_ok_iff (h : s.labels.Nodup) {label : String} {l : Label} :
    entryOf s label = .ok l ↔ ∃ i, s.labels[i]? = some label ∧ l = .entry i := by
  have hkeys : (s.labels.zipIdx.reverse.map Prod.fst).Nodup := by
    rw [List.map_reverse, List.zipIdx_map_fst, List.nodup_reverse]
    exact h
  have hfind : ∀ p : String × Nat, s.labels.zipIdx.reverse.find? (fun p => p.1 = label) = some p ↔
      s.labels[p.2]? = some p.1 ∧ p.1 = label := by
    intro p
    rw [Association.find?_key_eq_some_iff hkeys, List.mem_reverse, List.mem_zipIdx_iff_getElem?]
  unfold entryOf
  constructor
  · intro hl
    split at hl
    · rename_i p hp
      obtain ⟨hlabel, rfl⟩ := (hfind p).mp hp
      exact ⟨p.2, hlabel, (Except.ok.inj hl).symm⟩
    · cases hl
  · rintro ⟨i, hlabel, rfl⟩
    rw [(hfind (label, i)).mpr ⟨hlabel, rfl⟩]

/-! ## Parts of blocks -/

/-- Where a unit goes on: nowhere, to the unit behind it, or by a jump. -/
theorem continuation_cases {behind next : Option String} {cs : List Step}
    (h : continuation s behind next = .ok cs) :
    (next = none ∧ cs = [plain .hangup]) ∨
    (∃ target, next = some target ∧ behind = some target ∧ cs = []) ∨
    ∃ target l, next = some target ∧ behind ≠ some target ∧ entryOf s target = .ok l ∧
      cs = [plain (.goTo l)] := by
  unfold continuation at h
  split at h
  · exact .inl ⟨rfl, (Except.ok.inj h).symm⟩
  · rename_i target
    split at h
    · rename_i hbehind
      exact .inr (.inl ⟨target, rfl, hbehind, (Except.ok.inj h).symm⟩)
    · rename_i hbehind
      obtain ⟨l, hl, rfl⟩ := Except.map_eq_ok_iff.mp h
      exact .inr (.inr ⟨target, l, rfl, hbehind, hl, rfl⟩)

/-- Each branch is a step, in the order of the table. -/
theorem branchSteps_eq_ok_iff {var : String} {branches : TextTable} {bs : List Step} :
    branchSteps s var branches = .ok bs ↔
      List.Forall₂ (fun b x => ∃ l, entryOf s b.2 = .ok l ∧ plain (.branch var b.1 l) = x)
        branches bs := by
  unfold branchSteps
  simp only [Except.mapM_eq_ok_iff, Except.map_eq_ok_iff]

section

variable {var : String} {branches : TextTable} {bs : List Step}
  (h : branchSteps s var branches = .ok bs)

include h

/-- A step that branches comes from a branch whose target has an entry. -/
theorem exists_branch_of_mem {x : Step} (hx : x ∈ bs) :
    ∃ b ∈ branches, ∃ l, entryOf s b.2 = .ok l ∧ plain (.branch var b.1 l) = x :=
  (branchSteps_eq_ok_iff.mp h).flip.exists_mem x hx

/-- Each branch has a step. -/
theorem exists_mem_of_branch {b : String × String} (hb : b ∈ branches) :
    ∃ x ∈ bs, ∃ l, entryOf s b.2 = .ok l ∧ plain (.branch var b.1 l) = x :=
  (branchSteps_eq_ok_iff.mp h).exists_mem b hb

end

/-- The steps that ask, where what is said and the keys are one step if it is a recording. -/
def question (ask : Label) (var : String) (digits : Nat) (url message : Option String) :
    List Step :=
  match filled? url, filled? message with
  | none, some message => [⟨some ask, .speak message⟩, plain (.ask var none digits)]
  | url, _ => [⟨some ask, .ask var url digits⟩]

/-- The steps behind the branches, which ask again or not. -/
def secondTry (limit : Int) (ask : Label) : Policy → List Step
  | .reprompt => [plain .countTry, plain (.retry limit ask)]
  | .hangup => []

/-- A question is asked at its label, and jumps nowhere. -/
theorem question_cases (ask : Label) (var : String) (digits : Nat) (url message : Option String) :
    (∃ text, question ask var digits url message =
      [⟨some ask, .speak text⟩, plain (.ask var none digits)]) ∨
    ∃ prompt, question ask var digits url message = [⟨some ask, .ask var prompt digits⟩] := by
  unfold question
  split
  · exact .inl ⟨_, rfl⟩
  · exact .inr ⟨_, rfl⟩

/-- The steps of a unit that offers a choice. -/
theorem choiceSteps_eq_ok {entry : Label} {table : BranchTable} {var : String}
    {url message : Option String} {ss : List Step}
    (h : choiceSteps s limit entry table var url message = .ok ss) :
    ∃ branches, branchSteps s var table.branches = .ok branches ∧
      ss = ⟨some entry, .clearTries⟩ ::
        (question (.ask entry.unit) var (longestOption table.options) url message ++ branches ++
          secondTry limit (.ask entry.unit) table.fallback ++ [plain .hangup]) := by
  obtain ⟨branches, hbranches, h⟩ := Except.bind_eq_ok_iff.mp h
  refine ⟨branches, hbranches, ?_⟩
  cases hfallback : table.fallback with
  | reprompt =>
    rw [hfallback] at h
    obtain ⟨retry, hretry, h⟩ := Except.bind_eq_ok_iff.mp h
    obtain ⟨r, hr, rfl⟩ := Except.map_eq_ok_iff.mp hretry
    unfold numbered at hr
    split at hr
    · cases hr
    · rw [← Except.ok.inj h, ← Except.ok.inj hr]
      rfl
  | hangup =>
    rw [hfallback] at h
    obtain ⟨retry, hretry, h⟩ := Except.bind_eq_ok_iff.mp h
    rw [← Except.ok.inj h, ← Except.ok.inj hretry]
    rfl

/-- The variables that answers are kept in. -/
def answerNames : List String := ["DIGIT", "LANGUAGE_CHOICE", "API_STATUS"]

/-- What the steps of a unit are. -/
theorem steps_cases {entry : Label} {behind : Option String} {a : Action} {ss : List Step}
    (h : steps s limit entry behind a = .ok ss) :
    (a = .hangup ∧ ss = [⟨some entry, .hangup⟩]) ∨
    (∃ table var url message, Simulation.choice? a = some table ∧ var ∈ answerNames ∧
      choiceSteps s limit entry table var url message = .ok ss) ∨
    (∃ op bs cs, op.target? = none ∧ op.goesOn ∧ op.var? = none ∧ Simulation.choice? a = none ∧
      branchSteps s "API_STATUS" a.branches = .ok bs ∧ continuation s behind a.next? = .ok cs ∧
      ss = ⟨some entry, op⟩ :: (bs ++ cs)) := by
  have hnone : ∀ var, branchSteps s var [] = .ok [] := fun _ => rfl
  cases a with
  | hangup => exact .inl ⟨rfl, (Except.ok.inj h).symm⟩
  | collectDigit table message url =>
    exact .inr (.inl ⟨table, "DIGIT", url, message, rfl, by decide, h⟩)
  | language table summary =>
    exact .inr (.inl ⟨table, "LANGUAGE_CHOICE", none, summary, rfl, by decide, h⟩)
  | play next message url | menu next summary destination conditions =>
    obtain ⟨cs, hcs, h⟩ := Except.bind_eq_ok_iff.mp h
    refine .inr (.inr ⟨_, [], cs, ?_, ?_, ?_, rfl, hnone _, hcs, (Except.ok.inj h).symm⟩)
    all_goals
      unfold speech
      split <;> rfl
  | apiCall next endpoint method mock conditions branches =>
    obtain ⟨bs, hbs, h⟩ := Except.bind_eq_ok_iff.mp h
    obtain ⟨cs, hcs, h⟩ := Except.bind_eq_ok_iff.mp h
    refine .inr (.inr ⟨_, bs, cs, ?_, ?_, ?_, rfl, hbs, hcs, (Except.ok.inj h).symm⟩)
    all_goals split <;> rfl
  | record next maxSeconds summary =>
    obtain ⟨r, hr, h⟩ := Except.bind_eq_ok_iff.mp h
    obtain ⟨cs, hcs, h⟩ := Except.bind_eq_ok_iff.mp h
    unfold numbered at hr
    split at hr
    · cases hr
    · rw [← Except.ok.inj hr] at h
      exact .inr (.inr ⟨_, [], cs, rfl, rfl, rfl, rfl, hnone _, hcs, (Except.ok.inj h).symm⟩)
  | transfer destination conditions | queue name conditions | voicemail mailbox conditions =>
    exact .inr (.inr ⟨_, [], [plain .hangup], rfl, rfl, rfl, rfl, hnone _, rfl,
      (Except.ok.inj h).symm⟩)

section

variable {x : Step} {var var' : String}

/-- The steps that ask set no variable but the one of the answer. -/
theorem eq_of_mem_question {ask : Label} {digits : Nat} {url message : Option String}
    (hx : x ∈ question ask var' digits url message) (hvar : x.operation.var? = some var) :
    var = var' := by
  rcases question_cases ask var' digits url message with ⟨text, heq⟩ | ⟨prompt, heq⟩
  · rw [heq] at hx
    simp only [List.mem_cons, List.not_mem_nil, or_false] at hx
    rcases hx with rfl | rfl <;> cases hvar
    rfl
  · rw [heq] at hx
    rw [List.mem_singleton.mp hx] at hvar
    cases hvar
    rfl

/-- The steps that branch look at no variable but the one of the answer. -/
theorem eq_of_mem_branchSteps {branches : TextTable} {bs : List Step}
    (h : branchSteps s var' branches = .ok bs) (hx : x ∈ bs) (hvar : x.operation.var? = some var) :
    var = var' := by
  obtain ⟨b, -, l, -, rfl⟩ := exists_branch_of_mem h hx
  cases hvar
  rfl

/-- The steps after a miss touch no variable of an answer. -/
theorem var?_of_mem_secondTry {ask : Label} {fallback : Policy}
    (hx : x ∈ secondTry limit ask fallback) : x.operation.var? = none := by
  cases fallback with
  | reprompt =>
    simp only [secondTry, List.mem_cons, List.not_mem_nil, or_false] at hx
    rcases hx with rfl | rfl <;> rfl
  | hangup => exact absurd hx List.not_mem_nil

/-- Nor do the steps that go on behind a block. -/
theorem var?_of_mem_continuation {behind next : Option String} {cs : List Step}
    (h : continuation s behind next = .ok cs) (hx : x ∈ cs) : x.operation.var? = none := by
  rcases continuation_cases h with ⟨-, rfl⟩ | ⟨_, -, -, rfl⟩ | ⟨_, _, -, -, -, rfl⟩
  · rw [List.mem_singleton.mp hx]
    rfl
  · exact absurd hx List.not_mem_nil
  · rw [List.mem_singleton.mp hx]
    rfl

/-- Answers are kept in the three variables. -/
theorem mem_answerNames_of_mem_steps {entry : Label} {behind : Option String} {a : Action}
    {ss : List Step} (h : steps s limit entry behind a = .ok ss) (hx : x ∈ ss)
    (hvar : x.operation.var? = some var) : var ∈ answerNames := by
  rcases steps_cases h with
    ⟨rfl, rfl⟩ | ⟨table, var', url, message, -, hvar', hchoice⟩ |
    ⟨op, bs, cs, -, -, hop, -, hbs, hcs, rfl⟩
  · rw [List.mem_singleton.mp hx] at hvar
    cases hvar
  · obtain ⟨bs, hbs, rfl⟩ := choiceSteps_eq_ok hchoice
    simp only [List.mem_cons, List.mem_append, List.not_mem_nil, or_false] at hx
    rcases hx with rfl | ((hx | hx) | hx) | rfl
    · cases hvar
    · rwa [eq_of_mem_question hx hvar]
    · rwa [eq_of_mem_branchSteps hbs hx hvar]
    · rw [var?_of_mem_secondTry hx] at hvar
      cases hvar
    · cases hvar
  · rcases List.mem_cons.mp hx with rfl | hx
    · rw [hop] at hvar
      cases hvar
    rcases List.mem_append.mp hx with hx | hx
    · rw [eq_of_mem_branchSteps hbs hx hvar]
      decide
    · rw [var?_of_mem_continuation hcs hx] at hvar
      cases hvar

end

/-! ## Blocks in their order -/

/-- A unit has a block exactly if there are an entry and steps for it, and the remark names the unit
and its kind. -/
theorem block_eq_ok_iff {u : ScriptUnit} {rest : List ScriptUnit} {b : Block} :
    block s limit u rest = .ok b ↔ ∃ entry ss, entryOf s u.label = .ok entry ∧
      steps s limit entry (rest.head?.map ScriptUnit.label) u.action = .ok ss ∧
      b = ⟨u.name ++ " (" ++ u.action.kindName ++ ")", ss⟩ := by
  unfold block
  simp only [Except.bind_eq_ok_iff, Except.ok.injEq]
  constructor
  · rintro ⟨entry, hentry, ss, hss, rfl⟩
    exact ⟨entry, ss, hentry, hss, rfl⟩
  · rintro ⟨entry, ss, hentry, hss, rfl⟩
    exact ⟨entry, hentry, ss, hss, rfl⟩

/-- Each unit has its block, at its place. -/
theorem blocks_eq_ok : ∀ {us : List ScriptUnit} {bs : List Block}, blocks s limit us = .ok bs →
    bs.length = us.length ∧ ∀ i u, us[i]? = some u →
      ∃ b, bs[i]? = some b ∧ block s limit u (us.drop (i + 1)) = .ok b
  | [], bs, h => by
    rw [← Except.ok.inj h]
    exact ⟨rfl, fun i u hu => by simp at hu⟩
  | v :: rest, bs, h => by
    obtain ⟨b, hb, h⟩ := Except.bind_eq_ok_iff.mp h
    obtain ⟨bs', hbs', h⟩ := Except.bind_eq_ok_iff.mp h
    obtain ⟨hlength, hget⟩ := blocks_eq_ok hbs'
    rw [← Except.ok.inj h]
    refine ⟨by rw [List.length_cons, List.length_cons, hlength], ?_⟩
    intro i u hu
    cases i with
    | zero =>
      obtain rfl := Option.some.inj hu
      exact ⟨b, rfl, hb⟩
    | succ i => exact hget i u hu

/-- Each block is that of a unit. -/
theorem exists_unit_of_mem {us : List ScriptUnit} {bs : List Block}
    (h : blocks s limit us = .ok bs) {b : Block} (hb : b ∈ bs) :
    ∃ u ∈ us, ∃ rest, block s limit u rest = .ok b := by
  obtain ⟨hlength, hget⟩ := blocks_eq_ok h
  obtain ⟨i, hi⟩ := List.mem_iff_getElem?.mp hb
  have hlt : i < us.length := hlength ▸ (List.getElem?_eq_some_iff.mp hi).1
  obtain ⟨b', hb', hblock⟩ := hget i _ (List.getElem?_eq_getElem hlt)
  obtain rfl : b = b' := Option.some.inj (hi.symm.trans hb')
  exact ⟨us[i], List.getElem_mem hlt, _, hblock⟩

/-- The steps of all blocks keep answers in the three variables. -/
theorem mem_answerNames_of_mem_blocks {us : List ScriptUnit} {bs : List Block}
    (h : blocks s limit us = .ok bs) {b : Block} (hb : b ∈ bs) {x : Step} (hx : x ∈ b.steps)
    {var : String} (hvar : x.operation.var? = some var) : var ∈ answerNames := by
  obtain ⟨u, -, rest, hblock⟩ := exists_unit_of_mem h hb
  obtain ⟨entry, ss, -, hsteps, rfl⟩ := block_eq_ok_iff.mp hblock
  exact mem_answerNames_of_mem_steps hsteps hx hvar

/-- The remarks name the units. -/
theorem map_remark_blocks : ∀ {us : List ScriptUnit} {bs : List Block},
    blocks s limit us = .ok bs →
      bs.map Block.remark = us.map fun u => u.name ++ " (" ++ u.action.kindName ++ ")"
  | [], bs, h => by
    rw [← Except.ok.inj h]
    rfl
  | u :: rest, bs, h => by
    obtain ⟨b, hb, h⟩ := Except.bind_eq_ok_iff.mp h
    obtain ⟨bs', hbs', h⟩ := Except.bind_eq_ok_iff.mp h
    obtain ⟨entry, ss, -, -, rfl⟩ := block_eq_ok_iff.mp hb
    rw [← Except.ok.inj h, List.map_cons, List.map_cons, map_remark_blocks hbs']

/-- The block of a unit of a script is entered at the number of its place. -/
theorem exists_block (hnodup : s.labels.Nodup) {bs : List Block}
    (h : blocks s limit s.units = .ok bs) {i : Nat} {u : ScriptUnit}
    (hu : s.units[i]? = some u) :
    ∃ ss, bs[i]? = some ⟨u.name ++ " (" ++ u.action.kindName ++ ")", ss⟩ ∧
      steps s limit (.entry i) (s.units[i + 1]?.map ScriptUnit.label) u.action = .ok ss := by
  obtain ⟨b, hb, hblock⟩ := (blocks_eq_ok h).2 i u hu
  obtain ⟨entry, ss, hentry, hsteps, rfl⟩ := block_eq_ok_iff.mp hblock
  obtain ⟨j, hj, rfl⟩ := (entryOf_eq_ok_iff hnodup).mp hentry
  have hi : s.labels[i]? = some u.label := by
    rw [Script.labels, List.getElem?_map, hu]
    rfl
  have hlt : j < s.labels.length := (List.getElem?_eq_some_iff.mp hj).1
  obtain rfl : j = i := (List.getElem?_inj hlt hnodup).mp (hj.trans hi.symm)
  rw [List.head?_drop] at hsteps
  exact ⟨ss, hb, hsteps⟩

end Dialplan

end CallFlow
