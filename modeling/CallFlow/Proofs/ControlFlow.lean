import CallFlow.Proofs.Blocks
import CallFlow.Proofs.UnitOrder

/-!
# The control flow of a dialplan

Control follows the lines of a dialplan from top to bottom and jumps to labels
(`Dialplan.Follows`). The lines that it comes to from the entry of a block without entering another
are the lines of the block (`Dialplan.InBlock`).

Where blocks end matters, because a block may fall through to the one behind it. What a block does
is said once for all kinds of units (`Dialplan.Shape`, `Dialplan.shape_steps`): only its last step
may stop, and that step lets control through exactly if the unit goes on to the one behind it.

* `Dialplan.inBlock_iff`: the lines of a block are those written for its unit.
* `Dialplan.passes_iff`: control passes between blocks as calls pass between units.
* `Flow.mirrors_dialplan`: the text of a dialplan has the control flow of the script.
-/

namespace CallFlow

namespace Dialplan

/-! ## Following lines -/

/-- The text of the label that the block of a unit is entered at. -/
def entryText (i : Nat) : String := (Label.entry i).text

section

variable (plan : List Instruction)

/-- A line has a label. -/
def At (label : String) (p : Nat) : Prop := ∃ x, plan[p]? = some x ∧ x.label = some label

/-- Control passes from one line to another: to the one below, or by a jump to a label. -/
inductive Follows : Nat → Nat → Prop
  | below {p : Nat} {x : Instruction} (hx : plan[p]? = some x) (hgoesOn : x.goesOn)
      (hlt : p + 1 < plan.length) : Follows p (p + 1)
  | jump {p q : Nat} {x : Instruction} {label : String} (hx : plan[p]? = some x)
      (htarget : x.target = some label) (hq : At plan label q) : Follows p q

/-- A line is where some block is entered. -/
def IsEntry (p : Nat) : Prop := ∃ i, At plan (entryText i) p

/-- A line is in the block of a unit: it is where the block is entered, or control comes to it from
the block and does not enter another one. -/
inductive InBlock (i : Nat) : Nat → Prop
  | entry {p : Nat} (h : At plan (entryText i) p) : InBlock i p
  | inner {p q : Nat} (h : InBlock i p) (hfollows : Follows plan p q) (hinner : ¬ IsEntry plan q) :
      InBlock i q

/-- Control can pass from one block to the entry of another, or to its own. -/
def Passes (i j : Nat) : Prop :=
  ∃ p q, InBlock plan i p ∧ Follows plan p q ∧ At plan (entryText j) q

/-- Some line of a block lets control through to what is written behind the block. -/
def FallsOut (i : Nat) : Prop :=
  ∃ p x, InBlock plan i p ∧ plan[p]? = some x ∧ x.goesOn ∧ ¬ InBlock plan i (p + 1)

/-- The lines of a dialplan have the control flow of some units. -/
structure Mirrors (units : List ScriptUnit) : Prop where
  /-- No two lines have one label. -/
  distinct : (plan.filterMap Instruction.label).Nodup
  /-- Jumps are to labels of lines. -/
  defined : ∀ x ∈ plan, ∀ label, x.target = some label → ∃ q, At plan label q
  /-- Each unit has an entry. -/
  entered : ∀ i, (∃ p, At plan (entryText i) p) ↔ i < units.length
  /-- Each line is in one block. -/
  divided : ∀ p < plan.length, ∃! i, InBlock plan i p
  /-- The blocks are in the order of the units. -/
  ordered : ∀ i j p q, InBlock plan i p → InBlock plan j q → i < j → p < q
  /-- Control passes from block to block as the units say. -/
  passes : ∀ i j u v, units[i]? = some u → units[j]? = some v →
    (Passes plan i j ↔ v.label ∈ u.action.targets)
  /-- Control falls out of a block only where its unit has no branches and goes on to the unit
  behind it. -/
  fallsOut : ∀ i u, units[i]? = some u → (FallsOut plan i ↔
    u.action.branches = [] ∧ ∃ v, units[i + 1]? = some v ∧ u.action.next? = some v.label)

end

/-! ## Places -/

section

variable {α : Type} {segs : List (List α)}

/-- Where the list at a place begins when all are put together. -/
def offset (segs : List (List α)) (i : Nat) : Nat := (segs.take i).flatten.length

/-- A block begins where the one before it ends. -/
theorem offset_succ {i : Nat} {seg : List α} (h : segs[i]? = some seg) :
    offset segs (i + 1) = offset segs i + seg.length := by
  unfold offset
  rw [List.take_add_one, h, List.flatten_append, List.length_append]
  simp

/-- Later blocks begin later. -/
theorem offset_mono {i j : Nat} (h : i ≤ j) : offset segs i ≤ offset segs j := by
  unfold offset
  obtain ⟨k, rfl⟩ := Nat.exists_eq_add_of_le h
  rw [List.take_add, List.flatten_append, List.length_append]
  exact Nat.le_add_right _ _

/-- The items of the list at a place are found from where it begins. -/
theorem getElem?_offset {i k : Nat} {seg : List α} (h : segs[i]? = some seg) (hk : k < seg.length) :
    segs.flatten[offset segs i + k]? = seg[k]? := by
  obtain ⟨hi, rfl⟩ := List.getElem?_eq_some_iff.mp h
  have hsplit : segs.flatten =
      (segs.take i).flatten ++ (segs[i] ++ (segs.drop (i + 1)).flatten) := by
    rw [← List.flatten_cons, ← List.drop_eq_getElem_cons hi, ← List.flatten_append,
      List.take_append_drop]
  rw [hsplit, offset, List.getElem?_append_right (Nat.le_add_right _ _), Nat.add_sub_cancel_left,
    List.getElem?_append_left hk]

/-- Each place in all of them is one in the list at some place. -/
theorem exists_offset : ∀ {segs : List (List α)} {p : Nat}, p < segs.flatten.length →
    ∃ i k seg, segs[i]? = some seg ∧ k < seg.length ∧ p = offset segs i + k
  | [], p, h => absurd h (Nat.not_lt_zero p)
  | seg :: rest, p, h => by
    by_cases hp : p < seg.length
    · exact ⟨0, p, seg, rfl, hp, (Nat.zero_add p).symm⟩
    · rw [List.flatten_cons, List.length_append] at h
      have hrest : p - seg.length < rest.flatten.length := by omega
      obtain ⟨i, k, seg', hi, hk, heq⟩ := exists_offset hrest
      refine ⟨i + 1, k, seg', hi, hk, ?_⟩
      have : offset (seg :: rest) (i + 1) = seg.length + offset rest i := by
        simp [offset]
      omega

/-- A place is one in the list at the given place. -/
def Within (segs : List (List α)) (i p : Nat) : Prop :=
  offset segs i ≤ p ∧ p < offset segs (i + 1)

/-- A place in a block, counted from its beginning. -/
theorem within_offset {i k : Nat} {seg : List α} (h : segs[i]? = some seg) (hk : k < seg.length) :
    Within segs i (offset segs i + k) := by
  refine ⟨Nat.le_add_right _ _, ?_⟩
  rw [offset_succ h]
  exact Nat.add_lt_add_left hk _

namespace Within

variable {i j p q : Nat}

/-- Each place in a block is counted from its beginning. -/
theorem exists_offset (h : Within segs i p) :
    ∃ seg k, segs[i]? = some seg ∧ k < seg.length ∧ p = offset segs i + k := by
  obtain ⟨hle, hlt⟩ := h
  by_cases hi : i < segs.length
  · have hseg := List.getElem?_eq_getElem hi
    rw [offset_succ hseg] at hlt
    exact ⟨segs[i], p - offset segs i, hseg, by omega, by omega⟩
  · have hsame : offset segs (i + 1) = offset segs i := by
      unfold offset
      rw [List.take_of_length_le (by omega), List.take_of_length_le (by omega)]
    omega

/-- Lists at later places hold later places. -/
theorem lt (hp : Within segs i p) (hq : Within segs j q) (h : i < j) : p < q := by
  have : offset segs (i + 1) ≤ offset segs j := offset_mono h
  exact lt_of_lt_of_le hp.2 (this.trans hq.1)

/-- A place is in one block only. -/
theorem unique (h : Within segs i p) (h' : Within segs j p) : i = j := by
  rcases lt_trichotomy i j with hlt | heq | hlt
  · exact absurd (h.lt h' hlt) (lt_irrefl p)
  · exact heq
  · exact absurd (h'.lt h hlt) (lt_irrefl p)

end Within

/-- Each place is in some block. -/
theorem exists_within {p : Nat} (h : p < segs.flatten.length) : ∃ i, Within segs i p := by
  obtain ⟨i, k, seg, hi, hk, rfl⟩ := exists_offset h
  exact ⟨i, within_offset hi hk⟩

end

/-! ## What a block does -/

/-- What the steps of a unit do, given its place and the label of the unit behind it. -/
structure Shape (s : Script) (i : Nat) (behind : Option String) (a : Action) (ss : List Step) :
    Prop where
  /-- The first step has the label of the block. At most one other has one: where the unit asks. -/
  entered : ∃ op rest, ss = ⟨some (.entry i), op⟩ :: rest ∧
    (rest.filterMap Step.label = [] ∨ rest.filterMap Step.label = [.ask i])
  /-- Only the last step may stop. -/
  goesOn : ∀ x ∈ ss.dropLast, x.operation.goesOn
  /-- Jumps are to where the unit asks and to the units that it refers to. -/
  targets : ∀ x ∈ ss, ∀ l, x.operation.target? = some l →
    (l = .ask i ∧ .ask i ∈ ss.filterMap Step.label) ∨ ∃ label ∈ a.targets, entryOf s label = .ok l
  /-- There is a jump to each unit that it refers to, unless that is the one behind it. -/
  reached : ∀ label ∈ a.targets, (a.next? = some label ∧ behind = some label) ∨
    ∃ x ∈ ss, ∃ l, x.operation.target? = some l ∧ entryOf s label = .ok l
  /-- The last step goes on if the unit goes on to the one behind it. -/
  last : ∀ x, ss.getLast? = some x →
    (x.operation.goesOn ↔ ∃ label, a.next? = some label ∧ behind = some label)

variable {s : Script} {limit : Int} {i : Nat} {behind : Option String} {a : Action}

/-- What the steps that go on to another unit do. -/
structure Ending (s : Script) (behind next : Option String) (cs : List Step) : Prop where
  unlabelled : cs.filterMap Step.label = []
  short : cs.dropLast = []
  stops : ∀ x ∈ cs, ¬ x.operation.goesOn
  eq_nil_iff : cs = [] ↔ ∃ label, next = some label ∧ behind = some label
  targets : ∀ x ∈ cs, ∀ l, x.operation.target? = some l →
    ∃ label, next = some label ∧ entryOf s label = .ok l
  reached : ∀ label, next = some label → behind = some label ∨
    ∃ x ∈ cs, ∃ l, x.operation.target? = some l ∧ entryOf s label = .ok l

/-- The steps that go on do so: they jump to the next unit, are none where it is the one behind, or
hang up. -/
theorem ending_continuation {next : Option String} {cs : List Step}
    (h : continuation s behind next = .ok cs) : Ending s behind next cs := by
  rcases continuation_cases h with
    ⟨rfl, rfl⟩ | ⟨label, rfl, hbehind, rfl⟩ | ⟨label, l, rfl, hbehind, hentry, rfl⟩
  · constructor <;> simp [plain, Operation.goesOn, Operation.target?]
  · constructor <;> simp [hbehind]
  · constructor
    case targets =>
      intro x hx l' hl'
      rw [List.mem_singleton.mp hx] at hl'
      cases hl'
      exact ⟨label, rfl, hentry⟩
    case reached =>
      intro label' hlabel'
      cases hlabel'
      exact .inr ⟨_, List.mem_singleton_self _, l, rfl, hentry⟩
    all_goals simp [plain, Operation.goesOn, hbehind]

/-- What the steps between the first one and those that go on to another unit do. -/
structure Middle (s : Script) (i : Nat) (branches : TextTable) (mid : List Step) : Prop where
  labels : mid.filterMap Step.label = [] ∨ mid.filterMap Step.label = [.ask i]
  goesOn : ∀ x ∈ mid, x.operation.goesOn
  targets : ∀ x ∈ mid, ∀ l, x.operation.target? = some l →
    (l = .ask i ∧ .ask i ∈ mid.filterMap Step.label) ∨ ∃ b ∈ branches, entryOf s b.2 = .ok l
  reached : ∀ b ∈ branches, ∃ x ∈ mid, ∃ l, x.operation.target? = some l ∧ entryOf s b.2 = .ok l

section

variable {var : String} {branches : TextTable} {bs : List Step}
  (h : branchSteps s var branches = .ok bs)

include h

/-- Steps that branch have no labels. -/
theorem filterMap_label_branchSteps : bs.filterMap Step.label = [] := by
  apply List.filterMap_eq_nil_iff.mpr
  intro x hx
  obtain ⟨b, -, l, -, rfl⟩ := exists_branch_of_mem h hx
  rfl

/-- The steps that branch may jump to the branches, to each of them, and go on otherwise. -/
theorem middle_branchSteps : Middle s i branches bs := by
  constructor
  case labels => exact .inl (filterMap_label_branchSteps h)
  case goesOn =>
    intro x hx
    obtain ⟨b, -, l, -, rfl⟩ := exists_branch_of_mem h hx
    rfl
  case targets =>
    intro x hx l hl
    obtain ⟨b, hb, l', hentry, rfl⟩ := exists_branch_of_mem h hx
    cases hl
    exact .inr ⟨b, hb, hentry⟩
  case reached =>
    intro b hb
    obtain ⟨x, hx, l, hentry, rfl⟩ := exists_mem_of_branch h hb
    exact ⟨_, hx, l, rfl, hentry⟩

/-- A unit may ask before it branches, and ask again behind its branches. -/
theorem middle_choice (digits : Nat) (url message : Option String) (fallback : Policy) :
    Middle s i branches
      (question (.ask i) var digits url message ++ bs ++ secondTry limit (.ask i) fallback) := by
  have hmiddle := middle_branchSteps (i := i) h
  have hquestion : (question (.ask i) var digits url message).filterMap Step.label = [.ask i] ∧
      ∀ x ∈ question (.ask i) var digits url message,
        x.operation.goesOn ∧ x.operation.target? = none := by
    rcases question_cases (.ask i) var digits url message with ⟨text, heq⟩ | ⟨prompt, heq⟩
    · simp [heq, plain, Operation.goesOn, Operation.target?]
    · simp [heq, Operation.goesOn, Operation.target?]
  have hsecond : (secondTry limit (.ask i) fallback).filterMap Step.label = [] ∧
      ∀ x ∈ secondTry limit (.ask i) fallback, x.operation.goesOn ∧
        ∀ l, x.operation.target? = some l → l = .ask i := by
    cases fallback <;> simp [secondTry, plain, Operation.goesOn, Operation.target?]
  have hlabels : (question (.ask i) var digits url message ++ bs ++
      secondTry limit (.ask i) fallback).filterMap Step.label = [.ask i] := by
    rw [List.filterMap_append, List.filterMap_append, hquestion.1, filterMap_label_branchSteps h,
      hsecond.1]
    rfl
  constructor
  case labels => exact .inr hlabels
  case goesOn =>
    intro x hx
    rcases List.mem_append.mp hx with hx | hx
    · rcases List.mem_append.mp hx with hx | hx
      · exact (hquestion.2 x hx).1
      · exact hmiddle.goesOn x hx
    · exact (hsecond.2 x hx).1
  case targets =>
    intro x hx l hl
    rw [hlabels]
    rcases List.mem_append.mp hx with hx | hx
    · rcases List.mem_append.mp hx with hx | hx
      · rw [(hquestion.2 x hx).2] at hl
        cases hl
      · rcases hmiddle.targets x hx l hl with ⟨rfl, -⟩ | hbranch
        · exact .inl ⟨rfl, List.mem_singleton_self _⟩
        · exact .inr hbranch
    · exact .inl ⟨(hsecond.2 x hx).2 l hl, List.mem_singleton_self _⟩
  case reached =>
    intro b hb
    obtain ⟨x, hx, hl⟩ := hmiddle.reached b hb
    exact ⟨x, List.mem_append_left _ (List.mem_append_right _ hx), hl⟩

end

/-- A unit does something, then what is in the middle, and at last goes on. -/
theorem Middle.shape {op : Operation} {mid cs : List Step} (hmid : Middle s i a.branches mid)
    (hcs : Ending s behind a.next? cs) (hgoesOn : op.goesOn) (htarget : op.target? = none) :
    Shape s i behind a (⟨some (.entry i), op⟩ :: (mid ++ cs)) := by
  have hfilter : (mid ++ cs).filterMap Step.label = mid.filterMap Step.label := by
    rw [List.filterMap_append, hcs.unlabelled, List.append_nil]
  have hfront : ∀ x ∈ ⟨some (.entry i), op⟩ :: mid, x.operation.goesOn := by
    intro x hx
    rcases List.mem_cons.mp hx with rfl | hx
    · exact hgoesOn
    · exact hmid.goesOn x hx
  constructor
  case entered => exact ⟨op, mid ++ cs, rfl, by rw [hfilter]; exact hmid.labels⟩
  case goesOn =>
    intro x hx
    rw [← List.cons_append] at hx
    by_cases hnil : cs = []
    · rw [hnil, List.append_nil] at hx
      exact hfront x (List.mem_of_mem_dropLast hx)
    · rw [List.dropLast_append_of_ne_nil hnil, hcs.short, List.append_nil] at hx
      exact hfront x hx
  case targets =>
    intro x hx l hl
    rcases List.mem_cons.mp hx with rfl | hx
    · rw [htarget] at hl
      cases hl
    rcases List.mem_append.mp hx with hx | hx
    · rcases hmid.targets x hx l hl with ⟨rfl, hask⟩ | ⟨b, hb, hentry⟩
      · refine .inl ⟨rfl, List.mem_cons_of_mem _ ?_⟩
        rwa [hfilter]
      · exact .inr ⟨b.2, Action.mem_targets_iff.mpr (.inr ⟨b.1, hb⟩), hentry⟩
    · obtain ⟨label, hnext, hentry⟩ := hcs.targets x hx l hl
      exact .inr ⟨label, Action.mem_targets_iff.mpr (.inl hnext), hentry⟩
  case reached =>
    intro label hlabel
    rcases Action.mem_targets_iff.mp hlabel with hnext | ⟨key, hbranch⟩
    · rcases hcs.reached label hnext with hbehind | ⟨x, hx, hjump⟩
      · exact .inl ⟨hnext, hbehind⟩
      · exact .inr ⟨x, List.mem_cons_of_mem _ (List.mem_append_right _ hx), hjump⟩
    · obtain ⟨x, hx, hjump⟩ := hmid.reached _ hbranch
      exact .inr ⟨x, List.mem_cons_of_mem _ (List.mem_append_left _ hx), hjump⟩
  case last =>
    intro x hx
    rw [← List.cons_append] at hx
    rw [← hcs.eq_nil_iff]
    by_cases hnil : cs = []
    · rw [hnil, List.append_nil] at hx
      exact iff_of_true (hfront x (List.mem_of_getLast? hx)) hnil
    · rw [List.getLast?_append_of_ne_nil _ hnil] at hx
      exact iff_of_false (hcs.stops x (List.mem_of_getLast? hx)) hnil

/-- What the steps of any unit do. -/
theorem shape_steps {ss : List Step} (h : steps s limit (.entry i) behind a = .ok ss) :
    Shape s i behind a ss := by
  rcases steps_cases h with
    ⟨rfl, rfl⟩ | ⟨table, var, url, message, htable, -, hchoice⟩ |
    ⟨op, bs, cs, htarget, hgoesOn, -, -, hbs, hcs, rfl⟩
  · exact ⟨⟨_, [], rfl, .inl rfl⟩, by simp, by simp [Operation.target?],
      by simp [Action.targets, Action.next?, Action.branches],
      by simp [Operation.goesOn, Action.next?]⟩
  · obtain ⟨bs, hbs, rfl⟩ := choiceSteps_eq_ok hchoice
    have hnext : a.next? = none := by cases a <;> cases htable <;> rfl
    rw [← Simulation.branches_of_choice? htable] at hbs
    have hcs : continuation s behind a.next? = .ok [plain .hangup] := by rw [hnext]; rfl
    exact (middle_choice hbs _ url message _).shape (ending_continuation hcs) rfl rfl
  · exact (middle_branchSteps hbs).shape (ending_continuation hcs) hgoesOn htarget

/-! ## The whole dialplan -/

/-- What the steps of blocks say, one block after the other. -/
def instructions (segs : List (List Step)) : List Instruction := segs.flatten.map Step.instruction

/-- The steps of the units of a script, block by block. -/
structure Layout (s : Script) (segs : List (List Step)) : Prop where
  distinct : s.labels.Nodup
  length : segs.length = s.units.length
  shape : ∀ i u, s.units[i]? = some u → ∃ ss, segs[i]? = some ss ∧
    Shape s i (s.units[i + 1]?.map ScriptUnit.label) u.action ss

namespace Layout

variable {segs : List (List Step)} (h : Layout s segs) {j p q : Nat}

include h

/-- Each block comes from a unit, and has the shape of its action. -/
theorem exists_unit {ss : List Step} (hss : segs[i]? = some ss) : ∃ u, s.units[i]? = some u ∧
    Shape s i (s.units[i + 1]?.map ScriptUnit.label) u.action ss := by
  have hi : i < s.units.length := h.length ▸ (List.getElem?_eq_some_iff.mp hss).1
  have hu := List.getElem?_eq_getElem hi
  obtain ⟨ss', hss', hshape⟩ := h.shape i _ hu
  obtain rfl : ss = ss' := Option.some.inj (hss.symm.trans hss')
  exact ⟨_, hu, hshape⟩

/-- The steps of a block have labels of its number: the first one is the entry. -/
theorem label_cases {ss : List Step} (hss : segs[i]? = some ss) {k : Nat} {x : Step}
    (hx : ss[k]? = some x) {l : Label} (hl : x.label = some l) :
    (k = 0 ∧ l = .entry i) ∨ (k ≠ 0 ∧ l = .ask i) := by
  obtain ⟨u, -, hshape⟩ := h.exists_unit hss
  obtain ⟨op, rest, rfl, hrest⟩ := hshape.entered
  cases k with
  | zero =>
    cases hx
    exact .inl ⟨rfl, (Option.some.inj hl).symm⟩
  | succ k =>
    have hmem : l ∈ rest.filterMap Step.label :=
      List.mem_filterMap.mpr ⟨x, List.mem_of_getElem? hx, hl⟩
    rcases hrest with hrest | hrest
    · rw [hrest] at hmem
      exact absurd hmem List.not_mem_nil
    · rw [hrest] at hmem
      exact .inr ⟨Nat.succ_ne_zero k, List.mem_singleton.mp hmem⟩

omit h in
/-- A line has the text of a label exactly if its step has the label. -/
theorem at_text_iff {l : Label} : At (instructions segs) l.text p ↔
    ∃ x, segs.flatten[p]? = some x ∧ x.label = some l := by
  unfold At instructions
  simp only [List.getElem?_map, Option.map_eq_some_iff]
  constructor
  · rintro ⟨_, ⟨x, hx, rfl⟩, hlabel⟩
    obtain ⟨l', hl', htext⟩ := Option.map_eq_some_iff.mp hlabel
    exact ⟨x, hx, Label.text_injective htext ▸ hl'⟩
  · rintro ⟨x, hx, hl⟩
    exact ⟨_, ⟨x, hx, rfl⟩, congrArg (Option.map Label.text) hl⟩

/-- Where a label is, there is a block of its number. -/
theorem exists_of_at {l : Label} (hp : At (instructions segs) l.text p) :
    ∃ i ss k, segs[i]? = some ss ∧ k < ss.length ∧ p = offset segs i + k ∧
      ((k = 0 ∧ l = .entry i) ∨ (k ≠ 0 ∧ l = .ask i)) := by
  obtain ⟨x, hx, hl⟩ := at_text_iff.mp hp
  obtain ⟨i, k, ss, hss, hk, rfl⟩ := exists_offset (List.getElem?_eq_some_iff.mp hx).1
  rw [getElem?_offset hss hk] at hx
  exact ⟨i, ss, k, hss, hk, rfl, h.label_cases hss hx hl⟩

/-- Each unit has a block with a first step. -/
theorem within_entry (hj : j < s.units.length) : Within segs j (offset segs j) := by
  obtain ⟨ss, hss, hshape⟩ := h.shape j _ (List.getElem?_eq_getElem hj)
  obtain ⟨op, rest, rfl, -⟩ := hshape.entered
  exact within_offset hss (Nat.succ_pos _)

/-- The entry of a block is where the block begins, and only there. -/
theorem at_entryText_iff : At (instructions segs) (entryText j) p ↔
    j < s.units.length ∧ p = offset segs j := by
  constructor
  · intro hp
    obtain ⟨i, ss, k, hss, hk, rfl, ⟨rfl, hl⟩ | ⟨-, hl⟩⟩ := h.exists_of_at hp
    · cases hl
      exact ⟨h.length ▸ (List.getElem?_eq_some_iff.mp hss).1, Nat.add_zero _⟩
    · cases hl
  · rintro ⟨hj, rfl⟩
    obtain ⟨ss, hss, hshape⟩ := h.shape j _ (List.getElem?_eq_getElem hj)
    obtain ⟨op, rest, rfl, -⟩ := hshape.entered
    refine at_text_iff.mpr ⟨⟨some (.entry j), op⟩, ?_, rfl⟩
    exact getElem?_offset hss (Nat.succ_pos _)

/-- Only the first line of a block is an entry. -/
theorem not_isEntry {ss : List Step} (hss : segs[i]? = some ss) {k : Nat} (hk : k < ss.length)
    (hne : k ≠ 0) : ¬ IsEntry (instructions segs) (offset segs i + k) := by
  rintro ⟨j, hj⟩
  obtain ⟨hlt, heq⟩ := h.at_entryText_iff.mp hj
  have hwithin : Within segs j (offset segs i + k) := by
    rw [heq]
    exact h.within_entry hlt
  obtain rfl := (within_offset hss hk).unique hwithin
  omega

/-- The label where a unit asks is that of a line of its block. -/
theorem within_of_at_ask (hp : At (instructions segs) (Label.ask i).text p) :
    Within segs i p ∧ ¬ IsEntry (instructions segs) p := by
  obtain ⟨j, ss, k, hss, hk, rfl, ⟨-, hl⟩ | ⟨hne, hl⟩⟩ := h.exists_of_at hp
  · cases hl
  · cases hl
    exact ⟨within_offset hss hk, h.not_isEntry hss hk hne⟩

/-- The label of a unit stands for the entry of its block. -/
theorem entryOf_label {v : ScriptUnit} (hv : s.units[j]? = some v) :
    entryOf s v.label = .ok (.entry j) := by
  refine (entryOf_eq_ok_iff h.distinct).mpr ⟨j, ?_, rfl⟩
  rw [Script.labels, List.getElem?_map, hv]
  rfl

/-- A label stands for the entry of the block of the unit that has it. -/
theorem exists_entry {label : String} {l : Label} (hl : entryOf s label = .ok l) :
    ∃ j v, s.units[j]? = some v ∧ v.label = label ∧ l = .entry j := by
  obtain ⟨j, hj, rfl⟩ := (entryOf_eq_ok_iff h.distinct).mp hl
  rw [Script.labels, List.getElem?_map, Option.map_eq_some_iff] at hj
  obtain ⟨v, hv, hlabel⟩ := hj
  exact ⟨j, v, hv, hlabel, rfl⟩

omit h in
/-- The instruction at a place in a block is that of the step there. -/
theorem getElem?_instructions {ss : List Step} (hss : segs[i]? = some ss) {k : Nat}
    (hk : k < ss.length) : (instructions segs)[offset segs i + k]? = some ss[k].instruction := by
  rw [instructions, List.getElem?_map, getElem?_offset hss hk, List.getElem?_eq_getElem hk]
  rfl

/-- The last line of a block lets control through exactly if the unit goes on to the one behind. -/
theorem goesOn_last_iff {u : ScriptUnit} (hu : s.units[i]? = some u) {ss : List Step}
    (hss : segs[i]? = some ss) {k : Nat} (hk : k < ss.length) (hlast : k + 1 = ss.length) :
    ss[k].operation.goesOn ↔ ∃ v, s.units[i + 1]? = some v ∧ u.action.next? = some v.label := by
  obtain ⟨u', hu', hshape⟩ := h.exists_unit hss
  obtain rfl : u' = u := Option.some.inj (hu'.symm.trans hu)
  have hget : ss.getLast? = some ss[k] := by
    rw [List.getLast?_eq_getElem?, ← hlast, Nat.add_sub_cancel, List.getElem?_eq_getElem hk]
  rw [hshape.last _ hget]
  constructor
  · rintro ⟨label, hnext, hbehind⟩
    obtain ⟨v, hv, rfl⟩ := Option.map_eq_some_iff.mp hbehind
    exact ⟨v, hv, hnext⟩
  · rintro ⟨v, hv, hnext⟩
    exact ⟨v.label, hnext, by rw [hv]; rfl⟩

/-- All other lines of a block let control through. -/
theorem goesOn_of_lt {ss : List Step} (hss : segs[i]? = some ss) {k : Nat}
    (hk : k + 1 < ss.length) : ss[k].operation.goesOn := by
  obtain ⟨u, -, hshape⟩ := h.exists_unit hss
  apply hshape.goesOn
  rw [List.mem_iff_getElem?]
  refine ⟨k, ?_⟩
  rw [List.getElem?_dropLast, if_pos (by omega), List.getElem?_eq_getElem]

/-- From a line of a block control stays in the block without entering it again, or it goes to the
entry of a unit that the unit of the block refers to. -/
theorem follows_cases {u : ScriptUnit} (hu : s.units[i]? = some u) (hp : Within segs i p)
    (hfollows : Follows (instructions segs) p q) :
    (Within segs i q ∧ ¬ IsEntry (instructions segs) q) ∨
    ∃ j v, s.units[j]? = some v ∧ v.label ∈ u.action.targets ∧ q = offset segs j := by
  obtain ⟨ss, k, hss, hk, rfl⟩ := hp.exists_offset
  obtain ⟨u', hu', hshape⟩ := h.exists_unit hss
  obtain rfl : u' = u := Option.some.inj (hu'.symm.trans hu)
  have hget := getElem?_instructions hss hk
  cases hfollows with
  | below hx hgoesOn hlt =>
    obtain rfl := Option.some.inj (hget.symm.trans hx)
    by_cases hlast : k + 1 < ss.length
    · exact .inl ⟨within_offset hss hlast, h.not_isEntry hss hlast (Nat.succ_ne_zero k)⟩
    · have hlast : k + 1 = ss.length := by omega
      obtain ⟨v, hv, hnext⟩ := (h.goesOn_last_iff hu hss hk hlast).mp hgoesOn
      refine .inr ⟨i + 1, v, hv, Action.mem_targets_iff.mpr (.inl hnext), ?_⟩
      rw [offset_succ hss]
      omega
  | jump hx htarget hq =>
    obtain rfl := Option.some.inj (hget.symm.trans hx)
    obtain ⟨l, hl, rfl⟩ := Option.map_eq_some_iff.mp htarget
    rcases hshape.targets _ (List.getElem_mem hk) l hl with ⟨rfl, -⟩ | ⟨label, hlabel, hentry⟩
    · exact .inl (h.within_of_at_ask hq)
    · obtain ⟨j, v, hv, rfl, rfl⟩ := h.exists_entry hentry
      exact .inr ⟨j, v, hv, hlabel, (h.at_entryText_iff.mp hq).2⟩

/-- Control gets from the entry of a block to each of its lines. -/
theorem inBlock_offset {ss : List Step} (hss : segs[i]? = some ss) :
    ∀ k, k < ss.length → InBlock (instructions segs) i (offset segs i + k)
  | 0, _ => by
    have hi : i < s.units.length := h.length ▸ (List.getElem?_eq_some_iff.mp hss).1
    exact .entry (h.at_entryText_iff.mpr ⟨hi, Nat.add_zero _⟩)
  | k + 1, hk => by
    have hk' : k < ss.length := Nat.lt_of_succ_lt hk
    have hbelow := getElem?_instructions hss hk
    refine .inner (inBlock_offset hss k hk') ?_ (h.not_isEntry hss hk (Nat.succ_ne_zero k))
    exact .below (getElem?_instructions hss hk') (h.goesOn_of_lt hss hk)
      (List.getElem?_eq_some_iff.mp hbelow).1

/-- The lines of a block are those written for its unit. -/
theorem inBlock_iff : InBlock (instructions segs) i p ↔ Within segs i p := by
  constructor
  · intro hp
    induction hp with
    | entry hp =>
      obtain ⟨hi, rfl⟩ := h.at_entryText_iff.mp hp
      exact h.within_entry hi
    | inner _ hfollows hinner ih =>
      obtain ⟨ss, k, hss, -, -⟩ := ih.exists_offset
      obtain ⟨u, hu, -⟩ := h.exists_unit hss
      rcases h.follows_cases hu ih hfollows with ⟨hq, -⟩ | ⟨j, v, hv, -, hq⟩
      · exact hq
      · exact absurd ⟨j, h.at_entryText_iff.mpr ⟨(List.getElem?_eq_some_iff.mp hv).1, hq⟩⟩ hinner
  · intro hp
    obtain ⟨ss, k, hss, hk, rfl⟩ := hp.exists_offset
    exact h.inBlock_offset hss k hk

/-- Control falls out of a block exactly if its unit goes on to the one behind it. -/
theorem fallsOut_iff {u : ScriptUnit} (hu : s.units[i]? = some u) : FallsOut (instructions segs) i ↔
    ∃ v, s.units[i + 1]? = some v ∧ u.action.next? = some v.label := by
  constructor
  · rintro ⟨p, x, hp, hx, hgoesOn, hout⟩
    obtain ⟨ss, k, hss, hk, rfl⟩ := (h.inBlock_iff.mp hp).exists_offset
    obtain rfl := Option.some.inj ((getElem?_instructions hss hk).symm.trans hx)
    have hlast : k + 1 = ss.length := by
      by_contra hne
      exact hout (h.inBlock_offset hss (k + 1) (by omega))
    exact (h.goesOn_last_iff hu hss hk hlast).mp hgoesOn
  · intro hv
    obtain ⟨ss, hss, hshape⟩ := h.shape i u hu
    obtain ⟨op, rest, rfl, -⟩ := hshape.entered
    have hk : rest.length < (⟨some (.entry i), op⟩ :: rest : List Step).length := Nat.lt_succ_self _
    refine ⟨_, _, h.inBlock_offset hss _ hk, getElem?_instructions hss hk,
      (h.goesOn_last_iff hu hss hk rfl).mpr hv, ?_⟩
    rw [h.inBlock_iff]
    intro hwithin
    have hlt := hwithin.2
    rw [offset_succ hss] at hlt
    exact absurd hlt (lt_irrefl _)

/-- What control comes to when it falls out of a block is the entry of the one behind. -/
theorem follows_of_next {u v : ScriptUnit} (hu : s.units[i]? = some u)
    (hv : s.units[i + 1]? = some v) (hnext : u.action.next? = some v.label) :
    ∃ p, InBlock (instructions segs) i p ∧ Follows (instructions segs) p (offset segs (i + 1)) := by
  obtain ⟨p, x, hp, hx, hgoesOn, hout⟩ := (h.fallsOut_iff hu).mpr ⟨v, hv, hnext⟩
  have hwithin := h.inBlock_iff.mp hp
  rw [h.inBlock_iff] at hout
  have hlast : p + 1 = offset segs (i + 1) := by
    by_contra hne
    exact hout ⟨Nat.le_succ_of_le hwithin.1, lt_of_le_of_ne hwithin.2 hne⟩
  obtain ⟨y, hy, -⟩ := h.at_entryText_iff.mpr ⟨(List.getElem?_eq_some_iff.mp hv).1, hlast⟩
  rw [← hlast]
  exact ⟨p, hp, .below hx hgoesOn (List.getElem?_eq_some_iff.mp hy).1⟩

/-- Control passes from block to block as the units say. -/
theorem passes_iff {u v : ScriptUnit} (hu : s.units[i]? = some u) (hv : s.units[j]? = some v) :
    Passes (instructions segs) i j ↔ v.label ∈ u.action.targets := by
  have hj : j < s.units.length := (List.getElem?_eq_some_iff.mp hv).1
  have hat : At (instructions segs) (entryText j) (offset segs j) :=
    h.at_entryText_iff.mpr ⟨hj, rfl⟩
  constructor
  · rintro ⟨p, q, hp, hfollows, hq⟩
    rcases h.follows_cases hu (h.inBlock_iff.mp hp) hfollows with
      ⟨-, hinner⟩ | ⟨j', v', hv', hlabel, rfl⟩
    · exact absurd ⟨j, hq⟩ hinner
    · have hwithin := h.within_entry (List.getElem?_eq_some_iff.mp hv').1
      rw [(h.at_entryText_iff.mp hq).2] at hwithin
      obtain rfl := (h.within_entry hj).unique hwithin
      obtain rfl : v = v' := Option.some.inj (hv.symm.trans hv')
      exact hlabel
  · intro hlabel
    obtain ⟨ss, hss, hshape⟩ := h.shape i u hu
    rcases hshape.reached _ hlabel with ⟨hnext, hbehind⟩ | ⟨x, hx, l, hl, hentry⟩
    · obtain ⟨w, hw, hwv⟩ := Option.map_eq_some_iff.mp hbehind
      have hentry := h.entryOf_label hw
      rw [hwv, h.entryOf_label hv] at hentry
      cases hentry
      obtain ⟨p, hp, hfollows⟩ := h.follows_of_next hu hv hnext
      exact ⟨p, _, hp, hfollows, hat⟩
    · rw [h.entryOf_label hv] at hentry
      cases hentry
      obtain ⟨k, hk, rfl⟩ := List.mem_iff_getElem.mp hx
      refine ⟨_, _, h.inBlock_offset hss k hk, .jump (getElem?_instructions hss hk) ?_ hat, hat⟩
      exact Option.map_eq_some_iff.mpr ⟨_, hl, rfl⟩

/-- No label is there twice. -/
theorem nodup_labels : ((instructions segs).filterMap Instruction.label).Nodup := by
  have htexts : (instructions segs).filterMap Instruction.label =
      (segs.flatten.filterMap Step.label).map Label.text := by
    unfold instructions
    rw [List.filterMap_map, List.map_filterMap]
    rfl
  have hunit : ∀ i (hi : i < segs.length), ∀ l ∈ segs[i].filterMap Step.label, l.unit = i := by
    intro i hi l hl
    obtain ⟨x, hx, hl⟩ := List.mem_filterMap.mp hl
    obtain ⟨k, hk⟩ := List.mem_iff_getElem?.mp hx
    rcases h.label_cases (List.getElem?_eq_getElem hi) hk hl with ⟨-, rfl⟩ | ⟨-, rfl⟩ <;> rfl
  rw [htexts]
  apply List.Nodup.map Label.text_injective
  rw [List.filterMap_flatten, List.nodup_flatten]
  constructor
  · intro labels hlabels
    obtain ⟨ss, hss, rfl⟩ := List.mem_map.mp hlabels
    obtain ⟨i, hi⟩ := List.mem_iff_getElem?.mp hss
    obtain ⟨u, -, hshape⟩ := h.exists_unit hi
    obtain ⟨op, rest, rfl, hrest | hrest⟩ := hshape.entered <;> simp [hrest]
  · rw [List.pairwise_map, List.pairwise_iff_getElem]
    intro i j hi hj hlt l hl hl'
    have := hunit i hi l hl
    have := hunit j hj l hl'
    omega

/-- Each label that a step may jump to is there. -/
theorem exists_at_target : ∀ x ∈ instructions segs, ∀ label, x.target = some label →
    ∃ q, At (instructions segs) label q := by
  intro x hx label hlabel
  obtain ⟨y, hy, rfl⟩ := List.mem_map.mp hx
  obtain ⟨l, hl, rfl⟩ := Option.map_eq_some_iff.mp hlabel
  obtain ⟨ss, hss, hy⟩ := List.mem_flatten.mp hy
  obtain ⟨i, hi⟩ := List.mem_iff_getElem?.mp hss
  obtain ⟨u, -, hshape⟩ := h.exists_unit hi
  rcases hshape.targets y hy l hl with ⟨rfl, hask⟩ | ⟨label, -, hentry⟩
  · obtain ⟨z, hz, hzl⟩ := List.mem_filterMap.mp hask
    obtain ⟨k, hk, rfl⟩ := List.mem_iff_getElem.mp hz
    exact ⟨_, at_text_iff.mpr
      ⟨ss[k], (getElem?_offset hi hk).trans (List.getElem?_eq_getElem hk), hzl⟩⟩
  · obtain ⟨j, v, hv, -, rfl⟩ := h.exists_entry hentry
    exact ⟨_, h.at_entryText_iff.mpr ⟨(List.getElem?_eq_some_iff.mp hv).1, rfl⟩⟩

/-- Steps that are laid out block by block have the control flow of the script, if no unit with
branches goes on to another one. -/
theorem mirrors (hnext : ∀ u ∈ s.units, u.action.next? ≠ none → u.action.branches = []) :
    Mirrors (instructions segs) s.units where
  distinct := h.nodup_labels
  defined := h.exists_at_target
  entered i := by
    constructor
    · rintro ⟨p, hp⟩
      exact (h.at_entryText_iff.mp hp).1
    · exact fun hi => ⟨_, h.at_entryText_iff.mpr ⟨hi, rfl⟩⟩
  divided p hp := by
    rw [instructions, List.length_map] at hp
    obtain ⟨i, hi⟩ := exists_within hp
    exact ⟨i, h.inBlock_iff.mpr hi, fun j hj => (h.inBlock_iff.mp hj).unique hi⟩
  ordered i j p q hp hq := (h.inBlock_iff.mp hp).lt (h.inBlock_iff.mp hq)
  passes i j u v := h.passes_iff
  fallsOut i u hu := by
    rw [h.fallsOut_iff hu]
    constructor
    · rintro ⟨v, hv, hlabel⟩
      refine ⟨hnext u (List.mem_of_getElem? hu) ?_, v, hv, hlabel⟩
      rw [hlabel]
      exact Option.some_ne_none _
    · rintro ⟨-, hv⟩
      exact hv

end Layout

/-- The blocks of a script whose labels are distinct are laid out one after the other. -/
theorem layout_blocks (hnodup : s.labels.Nodup) {bs : List Block}
    (h : blocks s limit s.units = .ok bs) : Layout s (bs.map Block.steps) where
  distinct := hnodup
  length := by
    rw [List.length_map]
    exact (blocks_eq_ok h).1
  shape i u hu := by
    obtain ⟨ss, hss, hsteps⟩ := exists_block hnodup h hu
    exact ⟨ss, by rw [List.getElem?_map, hss]; rfl, shape_steps hsteps⟩

/-! ## The text -/

/-- No line of a header breaks if the start and the context do not. -/
theorem not_mem_header {context : String} (hstart : '\n' ∉ s.start.toList)
    (hcontext : '\n' ∉ context.toList) : ∀ line ∈ header s context, '\n' ∉ line.toList := by
  intro line hline
  simp only [header, List.mem_cons, List.not_mem_nil, or_false] at hline
  rcases hline with rfl | rfl | rfl | rfl
  · decide
  · simp [Text.not_mem_ofInt _ (.inl rfl), hstart]
  · simp [hcontext]
  · decide

/-- No step of a block is written with a line break, whatever texts it holds. -/
theorem not_mem_step {us : List ScriptUnit} {bs : List Block} (h : blocks s limit us = .ok bs)
    {b : Block} (hb : b ∈ bs) {x : Step} (hx : x ∈ b.steps) {c : Char} (hc : Text.isLineBreak c) :
    c ∉ x.line.toList := by
  have hnames : ∀ var ∈ answerNames, c ∉ var.toList := by rcases hc with rfl | rfl <;> decide
  exact Step.not_mem_line hc fun var hvar =>
    hnames var (mem_answerNames_of_mem_blocks h hb hx hvar)

/-- No line of a block breaks if the name of its unit does not. -/
theorem not_mem_lines {bs : List Block} (h : blocks s limit s.units = .ok bs)
    (hnames : ∀ u ∈ s.units, '\n' ∉ u.name.toList) :
    ∀ b ∈ bs, ∀ line ∈ b.lines, '\n' ∉ line.toList := by
  intro b hb line hline
  rcases List.mem_cons.mp hline with rfl | hline
  · have hremark : b.remark ∈ bs.map Block.remark := List.mem_map_of_mem hb
    rw [map_remark_blocks h] at hremark
    obtain ⟨u, hu, hremark⟩ := List.mem_map.mp hremark
    have hname := hnames u hu
    rw [← hremark]
    cases u.action <;> simp [hname, Action.kindName]
  · obtain ⟨x, hx, rfl⟩ := List.mem_map.mp hline
    exact not_mem_step h hb hx (.inl rfl)

end Dialplan

namespace Compilation

variable {policy : Policy}

/-- A unit that has branches does not go on to another unit by itself. -/
theorem branches_eq_nil_of_next? {edges : List Edge} {c : Config} {a : Action}
    (h : action? policy edges c = some a) (hnext : a.next? ≠ none) : a.branches = [] := by
  cases c with
  | prompt c | record c | menu c =>
    cases h
    rfl
  | key c | language c =>
    obtain ⟨table, -, h⟩ := Option.bind_eq_some_iff.mp h
    cases h
    exact absurd rfl hnext
  | api c =>
    cases h
    by_cases hall : edges.all (·.handle.isNone)
    · have hnone : edges.filterMap (fun e => e.handle.map fun h => (h, e.target)) = [] := by
        apply List.filterMap_eq_nil_iff.mpr
        intro e he
        rw [Option.isNone_iff_eq_none.mp (List.all_eq_true.mp hall e he)]
        rfl
      simp only [Action.branches, handledBranches, hnone]
      rfl
    · exact absurd (if_neg hall) hnext
  | hangup =>
    cases h
    rfl
  | transfer c | queue c | voicemail c =>
    obtain ⟨place, -, h⟩ := Option.bind_eq_some_iff.mp h
    cases h
    rfl

end Compilation

namespace Flow

variable {f : Flow} {policy : Policy} {s : Script}

/-- **A dialplan has the control flow of its script.** Where the names and labels of a compiled
script and the context have no line breaks, the lines behind the header are read as blocks, one for
each unit and entered at its label. Labels are distinct and all jumps are to labels of lines.
Control can pass from a block to the entry of another exactly if the unit of the first goes on or
branches to the unit of the second, and it falls out of a block only into the one that its unit goes
on to: never if the unit has branches, ends the call, or goes on nowhere. -/
theorem mirrors_dialplan (h : f.compile policy = .ok s)
    (hnames : ∀ u ∈ s.units, '\n' ∉ u.name.toList)
    (hlabels : ∀ label ∈ s.labels, '\n' ∉ label.toList)
    {context : String} (hcontext : '\n' ∉ context.toList) {limit : Int} {text : String}
    (htext : s.dialplan context limit = .ok text) :
    ∃ plan, Dialplan.readPlan? text = some plan ∧ Dialplan.Mirrors plan s.units := by
  obtain ⟨bs, hbs, htext⟩ := Except.bind_eq_ok_iff.mp htext
  have hread := Dialplan.readPlan?_lines
    (Dialplan.not_mem_header (hlabels _ (closed_compile h).start) hcontext)
    (Dialplan.not_mem_lines hbs hnames)
  rw [Except.ok.inj htext] at hread
  refine ⟨_, hread, ?_⟩
  have hmirrors := (Dialplan.layout_blocks (nodup_labels_compile h) hbs).mirrors ?_
  · rwa [Dialplan.instructions, ← List.flatMap_def] at hmirrors
  · intro u hu hnext
    obtain ⟨n, -, hunit⟩ := Compilation.exists_mem_nodes (compile_eq_ok h).2.2 u hu
    obtain ⟨c, action, -, haction, rfl⟩ := Compilation.unit_eq_ok hunit
    exact Compilation.branches_eq_nil_of_next? haction hnext

/-- In the dialplan of the flow with a way back, control passes from the hours to the menu, which is
in front of them, and does not fall into the end behind them. -/
theorem mirrors_dialplan_wayBack : ∃ s text plan, wayBack.compile .reprompt = .ok s ∧
    s.dialplan "ivr-flow" 3 = .ok text ∧ Dialplan.readPlan? text = some plan ∧
    Dialplan.Passes plan 1 0 ∧ ¬ Dialplan.Passes plan 1 2 ∧ ¬ Dialplan.FallsOut plan 1 := by
  obtain ⟨s, hs⟩ : ∃ s, wayBack.compile .reprompt = .ok s := ⟨_, rfl⟩
  have hnames : ∀ u ∈ s.units, '\n' ∉ u.name.toList := by cases hs; decide
  have hlabels : ∀ label ∈ s.labels, '\n' ∉ label.toList := by cases hs; decide
  obtain ⟨text, htext⟩ : ∃ text, s.dialplan "ivr-flow" 3 = .ok text := by
    rw [((closed_compile hs).writes_dialplan "ivr-flow" 3).exists_ok_iff]
    cases hs
    decide
  obtain ⟨plan, hplan, hmirrors⟩ := mirrors_dialplan hs hnames hlabels (by decide) htext
  have hmenu : s.units[0]?.map ScriptUnit.label = some "menu" := by cases hs; rfl
  have hhours : s.units[1]?.map (fun u => u.action.targets) = some ["menu"] := by cases hs; rfl
  have hbye : s.units[2]?.map ScriptUnit.label = some "bye" := by cases hs; rfl
  obtain ⟨menu, hmenu, hmenu'⟩ := Option.map_eq_some_iff.mp hmenu
  obtain ⟨hours, hhours, htargets⟩ := Option.map_eq_some_iff.mp hhours
  obtain ⟨bye, hbye, hbye'⟩ := Option.map_eq_some_iff.mp hbye
  refine ⟨s, text, plan, hs, htext, hplan, ?_, ?_, ?_⟩
  · rw [hmirrors.passes 1 0 hours menu hhours hmenu, htargets, hmenu']
    decide
  · rw [hmirrors.passes 1 2 hours bye hhours hbye, htargets, hbye']
    decide
  · rw [hmirrors.fallsOut 1 hours hhours]
    rintro ⟨-, v, hv, hnext⟩
    obtain rfl : v = bye := Option.some.inj (hv.symm.trans hbye)
    have hmem := Action.mem_targets_iff.mpr (.inl hnext)
    rw [htargets, hbye'] at hmem
    exact absurd hmem (by decide)

end Flow

end CallFlow
