import CallFlow.Dialplan
import CallFlow.Proofs.Compilation
import CallFlow.Proofs.Numerals
import CallFlow.Simulation

/-!
# Closed scripts

A script is closed if it starts at the label of one of its units and every label that a unit refers
to is that of a unit. The script of a flow is (`Flow.closed_compile`), because its units are those
of all nodes that a call can get to, and a unit refers only to where the edges of its node lead.

What is done with a closed script never comes to a label without a unit:

* `Script.Closed.exists_simulate`: every call comes to an end or is cut off.
* `Script.Closed.writes_dialplan`: there is a dialplan, unless it would hold a number that is too
  long to be written. `Dialplan.Writes` says so of any part of it.
* `Flow.closed_compile_and_runs`: both for the scripts of flows.
-/

namespace CallFlow

/-! ## Labels -/

namespace Script

variable {s : Script}

/-- The label where a call begins and the labels that units refer to are labels of units. -/
structure Closed (s : Script) : Prop where
  start : s.start ∈ s.labels
  targets : ∀ u ∈ s.units, ∀ label ∈ u.action.targets, label ∈ s.labels

/-- A jump comes to a unit with the label that it goes to. -/
theorem label_of_target? {label : String} {u : ScriptUnit} (h : s.target? label = some u) :
    u.label = label :=
  of_decide_eq_true (List.find?_some h :)

/-- A jump to a label of a unit comes to a unit with that label. -/
theorem exists_target?_of_mem_labels {label : String} (h : label ∈ s.labels) :
    ∃ u ∈ s.units, u.label = label ∧ s.target? label = some u := by
  obtain ⟨u, hu, rfl⟩ := List.mem_map.mp h
  obtain ⟨v, hv⟩ : ∃ v, s.target? u.label = some v := by
    unfold target?
    rw [← Option.isSome_iff_exists, List.find?_isSome]
    exact ⟨u, List.mem_reverse.mpr hu, decide_eq_true rfl⟩
  exact ⟨v, List.mem_reverse.mp (List.mem_of_find?_eq_some hv), label_of_target? hv, hv⟩

end Script

namespace Action

variable {a : Action} {label : String}

/-- An action leads to what is next and to its branches. -/
theorem mem_targets_iff :
    label ∈ a.targets ↔ a.next? = some label ∨ ∃ key, (key, label) ∈ a.branches := by
  simp [targets]

end Action

/-! ## Compiling -/

namespace Compilation

variable {policy : Policy}

/-- The place that a call goes on to is the target of an edge. -/
theorem exists_edge_of_head? {edges : List Edge} {label : String}
    (h : edges.head?.map Edge.target = some label) : ∃ e ∈ edges, e.target = label := by
  obtain ⟨e, he, rfl⟩ := Option.map_eq_some_iff.mp h
  exact ⟨e, List.mem_of_mem_head? he, rfl⟩

/-- What a unit does refers only to where the edges of its node lead. -/
theorem exists_edge_of_mem_targets {edges : List Edge} {c : Config} {a : Action}
    (h : action? policy edges c = some a) {label : String} (hlabel : label ∈ a.targets) :
    ∃ e ∈ edges, e.target = label := by
  rw [Action.mem_targets_iff] at hlabel
  cases c with
  | prompt c | record c | menu c =>
    cases h
    rcases hlabel with hnext | ⟨key, hkey⟩
    · exact exists_edge_of_head? hnext
    · exact absurd hkey List.not_mem_nil
  | key c | language c =>
    obtain ⟨table, htable, h⟩ := Option.bind_eq_some_iff.mp h
    cases h
    rcases hlabel with hnext | ⟨key, hkey⟩
    · cases hnext
    · obtain ⟨-, rfl⟩ := branchTable?_eq_some_iff.mp htable
      exact exists_edge_of_mem_handledBranches hkey
  | api c =>
    cases h
    rcases hlabel with hnext | ⟨key, hkey⟩
    · simp only [Action.next?] at hnext
      split at hnext
      · exact exists_edge_of_head? hnext
      · cases hnext
    · exact exists_edge_of_mem_handledBranches hkey
  | hangup =>
    cases h
    simp [Action.next?, Action.branches] at hlabel
  | transfer c | queue c | voicemail c =>
    obtain ⟨place, -, h⟩ := Option.bind_eq_some_iff.mp h
    cases h
    simp [Action.next?, Action.branches] at hlabel

/-- The unit of a node refers only to where edges lead from the node. -/
theorem leads_of_mem_targets {f : Flow} {n : Node} {u : ScriptUnit} (h : unit f policy n = .ok u)
    {label : String} (hlabel : label ∈ u.action.targets) : f.Leads n.id label := by
  obtain ⟨c, action, -, haction, rfl⟩ := unit_eq_ok h
  obtain ⟨e, he, htarget⟩ := exists_edge_of_mem_targets haction hlabel
  obtain ⟨hedge, hsource⟩ := mem_branchesOf_iff.mp he
  exact ⟨e, hedge, hsource, htarget⟩

end Compilation

/-- The script of a flow is closed. -/
theorem Flow.closed_compile {f : Flow} {policy : Policy} {s : Script}
    (h : f.compile policy = .ok s) : s.Closed where
  start := (mem_labels_compile_iff h).mpr Relation.ReflTransGen.refl
  targets := by
    intro u hu label hlabel
    obtain ⟨n, -, hunit⟩ := Compilation.exists_mem_nodes (compile_eq_ok h).2.2 u hu
    have hreach : f.Reaches s.start n.id := (mem_labels_compile_iff h).mp
      (List.mem_map.mpr ⟨u, hu, Compilation.label_of_unit_eq_ok hunit⟩)
    exact (mem_labels_compile_iff h).mpr
      (hreach.tail (Compilation.leads_of_mem_targets hunit hlabel))

/-! ## Calls -/

namespace Simulation

/-- What is found in a table is one of the places that it leads to. -/
theorem mem_targets_of_find? {a : Action} {input label : String}
    (h : a.branches.find? input = some label) : label ∈ a.targets := by
  obtain ⟨key, -, hkey⟩ := Association.mem_of_lookup? h
  exact Action.mem_targets_iff.mpr (.inr ⟨key, hkey⟩)

/-- The branches of a node where the caller chooses are those of its table. -/
theorem branches_of_choice? {a : Action} {table : BranchTable} (h : choice? a = some table) :
    a.branches = table.branches := by
  cases a <;> cases h <;> rfl

/-- A unit ends the call, or sends it to a label that the unit refers to, or asks again after a
miss, which it does only while the misses stay below the limit. -/
theorem turn_cases (u : ScriptUnit) (limit : Int) (misses : Nat) (pending : List String) :
    (∃ outcome, (turn u limit misses pending).move = .finish outcome ∧ outcome ≠ .stepLimit) ∨
    (∃ label ∈ u.action.targets, (turn u limit misses pending).move = .goTo label ∧
      (turn u limit misses pending).missed = false) ∨
    ((turn u limit misses pending).move = .goTo u.label ∧
      (turn u limit misses pending).missed = true ∧ (misses + 1 : Int) < limit) := by
  -- the cases are those of `turn`: an end, a choice, one way on, an answer from outside
  unfold turn
  split
  · rename_i outcome hterminal
    refine .inl ⟨outcome, rfl, ?_⟩
    rintro rfl
    revert hterminal
    cases u.action <;> simp [terminalOutcome?]
  · split
    · rename_i table htable
      cases pending with
      | nil => exact .inl ⟨.inputExhausted, rfl, by decide⟩
      | cons input rest =>
        simp only [choose]
        split
        · rename_i target hfind
          rw [← branches_of_choice? htable] at hfind
          exact .inr (.inl ⟨target, mem_targets_of_find? hfind, rfl, rfl⟩)
        · split
          · rename_i hagain
            rw [Bool.and_eq_true, decide_eq_true_eq, decide_eq_true_eq] at hagain
            exact .inr (.inr ⟨rfl, rfl, hagain.2⟩)
          · exact .inl ⟨.hangup, rfl, by decide⟩
    · split
      · split
        · rename_i next hnext
          exact .inr (.inl ⟨next, Action.mem_targets_iff.mpr (.inl hnext), rfl, rfl⟩)
        · exact .inl ⟨.finished, rfl, by decide⟩
      · simp only [respond]
        split
        · rename_i target hfind
          obtain ⟨input, -, hfind⟩ := Option.bind_eq_some_iff.mp hfind
          exact .inr (.inl ⟨target, mem_targets_of_find? hfind, rfl, rfl⟩)
        · exact .inl ⟨.finished, rfl, by decide⟩

/-- A call goes on at the unit where it is or at a label that the unit refers to. -/
theorem goTo_turn {u : ScriptUnit} {limit : Int} {misses : Nat} {pending : List String}
    {label : String} (h : (turn u limit misses pending).move = .goTo label) :
    label = u.label ∨ label ∈ u.action.targets := by
  rcases turn_cases u limit misses pending with
    ⟨outcome, hmove, -⟩ | ⟨target, htarget, hmove, -⟩ | ⟨hmove, -, -⟩
  · rw [hmove] at h
    cases h
  · rw [hmove] at h
    cases h
    exact .inr htarget
  · rw [hmove] at h
    cases h
    exact .inl rfl

/-- A unit that ends the call does not cut it off. -/
theorem ne_stepLimit_of_finish {u : ScriptUnit} {limit : Int} {misses : Nat}
    {pending : List String} {outcome : Outcome}
    (h : (turn u limit misses pending).move = .finish outcome) : outcome ≠ .stepLimit := by
  rcases turn_cases u limit misses pending with
    ⟨outcome', hmove, houtcome⟩ | ⟨target, -, hmove, -⟩ | ⟨hmove, -, -⟩
  · rw [hmove] at h
    cases h
    exact houtcome
  · rw [hmove] at h
    cases h
  · rw [hmove] at h
    cases h

/-- From each label of a closed script, a call goes on until it ends or is cut off. -/
theorem exists_run {s : Script} (h : s.Closed) (limit : Int) :
    ∀ (steps : Nat) {label : String}, label ∈ s.labels → ∀ (misses : Misses)
      (pending : List String), ∃ r, run s limit steps label misses pending = .ok r
  | 0, _, _, _, _ => ⟨_, rfl⟩
  | steps + 1, label, hlabel, misses, pending => by
    obtain ⟨u, hu, -, htarget⟩ := Script.exists_target?_of_mem_labels hlabel
    simp only [run, htarget]
    split
    · exact ⟨_, rfl⟩
    · rename_i next hmove
      have hnext : next ∈ s.labels := by
        rcases goTo_turn hmove with rfl | hnext
        · exact List.mem_map.mpr ⟨u, hu, rfl⟩
        · exact h.targets u hu next hnext
      obtain ⟨r, hr⟩ := exists_run h limit steps hnext _ _
      exact ⟨_, Except.map_eq_ok_iff.mpr ⟨r, hr, rfl⟩⟩

end Simulation

/-- Every call to a closed script comes to an end or is cut off. -/
theorem Script.Closed.exists_simulate {s : Script} (h : s.Closed) (inputs : List String)
    (limit maxSteps : Int) : ∃ r, s.simulate inputs limit maxSteps = .ok r :=
  Simulation.exists_run h limit maxSteps.toNat h.start [] inputs

/-! ## Dialplans -/

namespace Dialplan

/-- A length other than zero is kept. -/
theorem recordSeconds_some {seconds : Int} (h : seconds ≠ 0) :
    recordSeconds (some seconds) = seconds := by
  simp [recordSeconds, Option.filter_some, h]

/-- The numbers of any length that the steps of a unit hold. -/
def numbers (limit : Int) : Action → List Int
  | .record _ maxSeconds _ => [recordSeconds maxSeconds]
  | .collectDigit table .. | .language table _ =>
    match table.fallback with
    | .reprompt => [limit]
    | .hangup => []
  | _ => []

/-- What is written is there, unless one of the given numbers is too long, and that is the only
fault. -/
def Writes {α : Type} (ns : List Int) (x : Except Fault α) : Prop :=
  ((∀ n ∈ ns, ¬ Text.isTooLong n) ∧ ∃ a, x = .ok a) ∨
    ((∃ n ∈ ns, Text.isTooLong n) ∧ x = .error .numberTooLong)

namespace Writes

variable {α β : Type} {ns ms : List Int}

/-- What cannot fail writes no number. -/
theorem ok (a : α) : Writes [] (.ok a : Except Fault α) :=
  .inl ⟨fun _ hn => absurd hn List.not_mem_nil, a, rfl⟩

/-- One after the other is written with the numbers of both. -/
theorem bind {x : Except Fault α} {g : α → Except Fault β} (hx : Writes ns x)
    (hg : ∀ a, Writes ms (g a)) : Writes (ns ++ ms) (x >>= g) := by
  rcases hx with ⟨hns, a, rfl⟩ | ⟨⟨n, hn, hlong⟩, rfl⟩
  · rcases hg a with ⟨hms, hok⟩ | ⟨⟨n, hn, hlong⟩, herror⟩
    · exact .inl ⟨List.forall_mem_append.mpr ⟨hns, hms⟩, hok⟩
    · exact .inr ⟨⟨n, List.mem_append_right _ hn, hlong⟩, herror⟩
  · exact .inr ⟨⟨n, List.mem_append_left _ hn, hlong⟩, rfl⟩

/-- What is there without numbers may go in front. -/
theorem after {x : Except Fault α} {g : α → Except Fault β} (hx : ∃ a, x = .ok a)
    (hg : ∀ a, Writes ns (g a)) : Writes ns (x >>= g) := by
  obtain ⟨a, rfl⟩ := hx
  exact hg a

/-- What is written may be put together with more. -/
theorem bind_ok {x : Except Fault α} (hx : Writes ns x) (g : α → β) :
    Writes ns (x >>= fun a => .ok (g a)) := by
  have := hx.bind fun a => ok (g a)
  rwa [List.append_nil] at this

/-- What is made of the result writes nothing more. -/
theorem map {x : Except Fault α} (hx : Writes ns x) (g : α → β) : Writes ns (x.map g) := by
  rcases hx with ⟨hns, a, rfl⟩ | ⟨hns, rfl⟩
  · exact .inl ⟨hns, g a, rfl⟩
  · exact .inr ⟨hns, rfl⟩

/-- There is something written exactly if no number is too long. -/
theorem exists_ok_iff {x : Except Fault α} (hx : Writes ns x) :
    (∃ a, x = .ok a) ↔ ∀ n ∈ ns, ¬ Text.isTooLong n := by
  rcases hx with ⟨hns, hok⟩ | ⟨⟨n, hn, hlong⟩, rfl⟩
  · exact iff_of_true hok hns
  · refine iff_of_false ?_ fun hns => hns n hn hlong
    rintro ⟨a, ha⟩
    cases ha

/-- There is no other fault. -/
theorem eq_numberTooLong {x : Except Fault α} (hx : Writes ns x) {fault : Fault}
    (h : x = .error fault) : fault = .numberTooLong := by
  rcases hx with ⟨-, a, rfl⟩ | ⟨-, rfl⟩
  · cases h
  · cases h
    rfl

/-- One number that is too long leaves nothing written. -/
theorem eq_error {x : Except Fault α} (hx : Writes ns x) {n : Int} (hn : n ∈ ns)
    (hlong : Text.isTooLong n) : x = .error .numberTooLong := by
  rcases hx with ⟨hns, -⟩ | ⟨-, herror⟩
  · exact absurd hlong (hns n hn)
  · exact herror

end Writes

/-- A step with a number writes that number. -/
theorem writes_numbered (n : Int) (step : Step) : Writes [n] (numbered n step) := by
  unfold numbered
  split
  · rename_i hlong
    exact .inr ⟨⟨n, List.mem_singleton_self n, hlong⟩, rfl⟩
  · rename_i hshort
    exact .inl ⟨fun m hm => List.mem_singleton.mp hm ▸ hshort, step, rfl⟩

variable {s : Script}

/-- A label of a unit stands for the entry of a block. -/
theorem exists_entryOf {label : String} (h : label ∈ s.labels) :
    ∃ l, entryOf s label = .ok l := by
  obtain ⟨i, hi⟩ := List.mem_iff_getElem?.mp h
  obtain ⟨p, hp⟩ : ∃ p, s.labels.zipIdx.reverse.find? (fun p => p.1 = label) = some p := by
    rw [← Option.isSome_iff_exists, List.find?_isSome]
    exact ⟨(label, i), List.mem_reverse.mpr (List.mk_mem_zipIdx_iff_getElem?.mpr hi),
      decide_eq_true rfl⟩
  exact ⟨.entry p.2, by simp only [entryOf, hp]⟩

/-- Where the label that comes next has a unit, there are steps that go on to it. -/
theorem exists_continuation {behind next : Option String}
    (h : ∀ label, next = some label → label ∈ s.labels) :
    ∃ steps, continuation s behind next = .ok steps := by
  cases next with
  | none => exact ⟨_, rfl⟩
  | some label =>
    obtain ⟨l, hl⟩ := exists_entryOf (h label rfl)
    simp only [continuation, hl]
    split <;> exact ⟨_, rfl⟩

/-- Where all branches lead to units, there are steps for them. -/
theorem exists_branchSteps (var : String) {branches : TextTable}
    (h : ∀ b ∈ branches, b.2 ∈ s.labels) : ∃ steps, branchSteps s var branches = .ok steps := by
  refine Except.exists_mapM_eq_ok fun b hb => ?_
  obtain ⟨l, hl⟩ := exists_entryOf (h b hb)
  exact ⟨_, Except.map_eq_ok_iff.mpr ⟨l, hl, rfl⟩⟩

/-- The steps for a choice write the limit where they ask again, and no other number. -/
theorem writes_choiceSteps (limit : Int) (entry : Label) {table : BranchTable} (var : String)
    (url message : Option String) (h : ∀ b ∈ table.branches, b.2 ∈ s.labels) :
    Writes (match table.fallback with | .reprompt => [limit] | .hangup => [])
      (choiceSteps s limit entry table var url message) := by
  refine Writes.after (exists_branchSteps var h) fun branches => ?_
  cases table.fallback with
  | reprompt => exact ((writes_numbered limit _).map _).bind_ok _
  | hangup => exact (Writes.ok _).bind_ok _

/-- The steps of a unit are written where the labels it refers to are those of units. -/
theorem writes_steps (limit : Int) (entry : Label) (behind : Option String) {a : Action}
    (h : ∀ label ∈ a.targets, label ∈ s.labels) :
    Writes (numbers limit a) (steps s limit entry behind a) := by
  have hnext : ∀ label, a.next? = some label → label ∈ s.labels := fun label hlabel =>
    h label (Action.mem_targets_iff.mpr (.inl hlabel))
  have hbranches : ∀ b ∈ a.branches, b.2 ∈ s.labels := fun b hb =>
    h b.2 (Action.mem_targets_iff.mpr (.inr ⟨b.1, hb⟩))
  cases a with
  | play next message url | menu next summary destination conditions =>
    exact Writes.after (exists_continuation hnext) fun _ => Writes.ok _
  | collectDigit table message url => exact writes_choiceSteps limit entry _ _ _ hbranches
  | language table summary => exact writes_choiceSteps limit entry _ _ _ hbranches
  | apiCall next endpoint method mock conditions branches =>
    exact Writes.after (exists_branchSteps _ hbranches) fun _ =>
      Writes.after (exists_continuation hnext) fun _ => Writes.ok _
  | record next maxSeconds summary =>
    exact (writes_numbered _ _).bind fun _ =>
      Writes.after (exists_continuation hnext) fun _ => Writes.ok _
  | transfer | hangup | queue | voicemail => exact Writes.ok _

/-- The block of a unit of a closed script is written. -/
theorem writes_block (h : s.Closed) (limit : Int) {u : ScriptUnit} (hu : u ∈ s.units)
    (rest : List ScriptUnit) : Writes (numbers limit u.action) (block s limit u rest) := by
  have hlabel : u.label ∈ s.labels := List.mem_map.mpr ⟨u, hu, rfl⟩
  exact Writes.after (exists_entryOf hlabel) fun entry =>
    (writes_steps limit entry (rest.head?.map ScriptUnit.label) (h.targets u hu)).bind_ok _

/-- The blocks of units of a closed script are written. -/
theorem writes_blocks (h : s.Closed) (limit : Int) : ∀ {us : List ScriptUnit},
    (∀ u ∈ us, u ∈ s.units) →
      Writes (us.flatMap fun u => numbers limit u.action) (blocks s limit us)
  | [], _ => Writes.ok []
  | u :: rest, hus => by
    have hrest := writes_blocks h limit fun v hv => hus v (List.mem_cons_of_mem _ hv)
    rw [List.flatMap_cons]
    exact (writes_block h limit (hus u List.mem_cons_self) rest).bind fun b => hrest.bind_ok _

end Dialplan

namespace Script

/-- The numbers of any length that the dialplan of a script holds. -/
def numbers (s : Script) (limit : Int) : List Int :=
  s.units.flatMap fun u => Dialplan.numbers limit u.action

/-- The dialplan of a closed script is written. -/
theorem Closed.writes_dialplan {s : Script} (h : s.Closed) (context : String) (limit : Int) :
    Dialplan.Writes (s.numbers limit) (s.dialplan context limit) :=
  (Dialplan.writes_blocks h limit fun _ hu => hu).bind_ok _

end Script

namespace Flow

variable {f : Flow} {policy : Policy} {s : Script}

/-- **Scripts are closed.** The script of a flow starts at the label of a unit, and wherever a unit
says that the call goes on, at once or by a branch, there is a unit. So every call to it ends or is
cut off, whatever the inputs and limits, and its dialplan never lacks a label: there is one in each
context and for each limit, unless one of the numbers in it has more digits than can be written. -/
theorem closed_compile_and_runs (h : f.compile policy = .ok s) :
    s.start ∈ s.labels ∧
    (∀ u ∈ s.units, ∀ label, u.action.next? = some label → label ∈ s.labels) ∧
    (∀ u ∈ s.units, ∀ key label, (key, label) ∈ u.action.branches → label ∈ s.labels) ∧
    (∀ inputs limit maxSteps, ∃ r, s.simulate inputs limit maxSteps = .ok r) ∧
    (∀ context limit label, s.dialplan context limit ≠ .error (.unitMissing label)) ∧
    ∀ context limit, (∃ text, s.dialplan context limit = .ok text) ↔
      ∀ n ∈ s.numbers limit, (Text.digits n.natAbs).length ≤ Text.digitLimit := by
  have hclosed := closed_compile h
  refine ⟨hclosed.start, fun u hu label hnext => ?_, fun u hu key label hbranch => ?_,
    hclosed.exists_simulate, fun context limit label hfault => ?_, fun context limit => ?_⟩
  · exact hclosed.targets u hu label (Action.mem_targets_iff.mpr (.inl hnext))
  · exact hclosed.targets u hu label (Action.mem_targets_iff.mpr (.inr ⟨key, hbranch⟩))
  · cases (hclosed.writes_dialplan context limit).eq_numberTooLong hfault
  · rw [(hclosed.writes_dialplan context limit).exists_ok_iff]
    simp only [Text.isTooLong, decide_eq_true_eq, not_lt]

/-- A call to the flow with two keys ends for every caller, and it has a dialplan. -/
theorem closed_compile_and_runs_oneChoice : ∃ s, oneChoice.compile .reprompt = .ok s ∧
    (∃ r, s.simulate ["9", "1"] 3 200 = .ok r) ∧ ∃ text, s.dialplan "ivr-flow" 3 = .ok text := by
  obtain ⟨s, hs⟩ : ∃ s, oneChoice.compile .reprompt = .ok s := ⟨_, rfl⟩
  obtain ⟨-, -, -, hsimulate, -, hdialplan⟩ := closed_compile_and_runs hs
  have hnumbers : s.numbers 3 = [3] := by cases hs; rfl
  refine ⟨s, hs, hsimulate _ _ _, (hdialplan _ _).mpr fun n hn => ?_⟩
  rw [hnumbers, List.mem_singleton] at hn
  subst hn
  decide

-- powers mean the same whether or not an algebra library is imported
attribute [local instance (high)] instPowNat

/-- A flow that records a message of at most the given length. -/
def recording (seconds : Int) : Flow where
  nodes := [⟨"note", "Note", .known (.record ⟨none, some seconds⟩), Node.origin⟩]
  edges := []
  start := some "note"
  distinct := List.nodup_singleton "note"

/-- What such a flow is compiled to. -/
theorem compile_recording (seconds : Int) : (recording seconds).compile .hangup =
    .ok ⟨"note", [⟨"note", "Note", .record none (some seconds) none⟩]⟩ := rfl

/-- A recording may be so long that its length cannot be written: then there is a script, and no
dialplan. This is the least such length. -/
theorem dialplan_recording : ∃ s, (recording (10 ^ Text.digitLimit : Nat)).compile .hangup = .ok s ∧
    s.dialplan "ivr-flow" 3 = .error .numberTooLong := by
  have hscript := compile_recording (10 ^ Text.digitLimit : Nat)
  have hlong : Text.isTooLong (10 ^ Text.digitLimit : Nat) := by
    rw [Text.isTooLong_iff, Int.natAbs_natCast]
  have hseconds : Dialplan.recordSeconds (some ((10 ^ Text.digitLimit : Nat) : Int)) =
      (10 ^ Text.digitLimit : Nat) :=
    Dialplan.recordSeconds_some (Int.natCast_ne_zero.mpr (Nat.pow_pos (by decide)).ne')
  refine ⟨_, hscript, ?_⟩
  refine ((closed_compile hscript).writes_dialplan _ _).eq_error ?_ hlong
  exact List.mem_singleton.mpr hseconds.symm

end Flow

end CallFlow
