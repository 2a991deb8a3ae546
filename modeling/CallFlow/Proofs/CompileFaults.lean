import CallFlow.Document
import CallFlow.Proofs.Compilation

/-!
# What keeps a flow from being compiled

Compiling stops at the first node on the search for which there is no unit. `Flow.Ready` says which
nodes have one: those of a known kind by whose handles the edges can be put in keypad order. A
number with more digits than are converted has no place in this order, though the checks let it pass
as a handle.

* `Flow.exists_unit_of_ready`, `Flow.unit_of_not_ready`: in a compilable flow the nodes that are
  ready have units, and `Compilation.faultAt` says what is wrong with the others.
* `Flow.compile_cases_ready`: so there is a script, or the first node that is not ready says why
  there is none.
* `Flow.compile_faults`: nothing but errors, nodes of unknown kinds and handles with too many digits
  keeps a flow from being compiled.
-/

namespace CallFlow

/-- Whether it is meant that a flow is not compiled for this reason. -/
def CompileFault.isForeseen : CompileFault → Bool
  | notCompilable _ | unsupported _ _ => true
  | handleTooLong | incomplete _ => false

/-- Why there is no unit for a node that is not ready. -/
def Compilation.faultAt (n : Node) : CompileFault :=
  match n.block with
  | .unknown declared _ => .unsupported n.id declared
  | .known _ => .handleTooLong

namespace Flow

/-- A node is of a known kind, and the edges that leave it can be put in keypad order. -/
structure Ready (f : Flow) (n : Node) : Prop where
  known : n.block.isKnown
  placed : ∀ e ∈ f.edges, e.source = n.id → ¬ Keypad.isTooLong e.handle

/-- A node is the first of those with the given ids that is not ready. -/
def FirstUnready (f : Flow) (visited : List String) (n : Node) : Prop :=
  n ∈ f.nodes ∧ ¬ f.Ready n ∧ ∃ before after, visited = before ++ n.id :: after ∧
    ∀ m ∈ f.nodes, m.id ∈ before → f.Ready m

variable {f : Flow} {policy : Policy} {n : Node}

/-! ## Units -/

/-- There is no unit for a node that is not ready. -/
theorem unit_of_not_ready (hready : ¬ f.Ready n) :
    Compilation.unit f policy n = .error (Compilation.faultAt n) := by
  cases hblock : n.block with
  | unknown declared entries => simp only [Compilation.unit, Compilation.faultAt, hblock]
  | known c =>
    have hknown : n.block.isKnown := by simp [hblock, Block.isKnown, Block.kind?]
    obtain ⟨e, he, hsource, hlong⟩ :
        ∃ e ∈ f.edges, e.source = n.id ∧ Keypad.isTooLong e.handle := by
      by_contra hnone
      push Not at hnone
      exact hready ⟨hknown, fun e he hsource => by simpa using hnone e he hsource⟩
    have hsort : Keypad.sortBy? Edge.handle (f.outgoing n.id) = none :=
      Keypad.sortBy?_of_isTooLong ⟨e, mem_outgoing_iff.mpr ⟨he, hsource⟩, hlong⟩
    simp only [Compilation.unit, Compilation.faultAt, hblock, hsort]

/-- In a compilable flow there is a unit for a node that is ready. -/
theorem exists_unit_of_ready (h : f.Compilable) (hn : n ∈ f.nodes) (hready : f.Ready n) :
    ∃ u, Compilation.unit f policy n = .ok u :=
  exists_unit_of_isKnown h hn hready.known hready.placed

/-! ## The first node that is not ready -/

/-- The first node that is not ready says why there is no script. -/
theorem compile_of_firstUnready (h : f.Compilable) {start : String}
    (hstart : f.resolveStart = some start)
    (hfirst : f.FirstUnready (Compilation.order f start) n) :
    f.compile policy = .error (Compilation.faultAt n) := by
  obtain ⟨hn, hready, before, after, horder, hbefore⟩ := hfirst
  have hunits : ∀ m ∈ f.nodes, m.id ∈ before → ∃ u, Compilation.unit f policy m = .ok u := by
    intro m hm hmem
    exact exists_unit_of_ready h hm (hbefore m hm hmem)
  exact compile_of_first h hstart horder hn hunits (unit_of_not_ready hready)

section

variable {start : String} (h : f.Compilable) (hstart : f.resolveStart = some start)

include h hstart

/-- A compilable flow gives a script, or the first node that is not ready says why it does not. -/
theorem compile_cases_ready (policy : Policy) :
    ((∃ script, f.compile policy = .ok script) ∧
      ∀ n ∈ f.nodes, n.id ∈ Compilation.order f start → f.Ready n) ∨
    ∃ n, f.compile policy = .error (Compilation.faultAt n) ∧
      f.FirstUnready (Compilation.order f start) n := by
  by_cases hready : ∀ n ∈ f.nodes, n.id ∈ Compilation.order f start → f.Ready n
  · refine .inl ⟨exists_compile_of_units h hstart fun n hn hvisited => ?_, hready⟩
    exact exists_unit_of_ready h hn (hready n hn hvisited)
  · push Not at hready
    obtain ⟨n, hn, hvisited, hready⟩ := hready
    obtain ⟨before, after, m, horder, hm, hready, hbefore⟩ :=
      exists_first (P := fun m => ¬ f.Ready m) hn hvisited hready
    have hfirst : f.FirstUnready (Compilation.order f start) m :=
      ⟨hm, hready, before, after, horder, fun m' hm' hmem => not_not.mp (hbefore m' hm' hmem)⟩
    exact .inr ⟨m, compile_of_firstUnready h hstart hfirst, hfirst⟩

/-- There is a script exactly if all nodes that are visited are ready. -/
theorem exists_compile_iff_ready : (∃ script, f.compile policy = .ok script) ↔
    ∀ n ∈ f.nodes, n.id ∈ Compilation.order f start → f.Ready n := by
  constructor
  · rintro ⟨script, hscript⟩
    rcases compile_cases_ready h hstart policy with ⟨-, hready⟩ | ⟨n, hfault, -⟩
    · exact hready
    · rw [hscript] at hfault
      cases hfault
  · intro hready
    exact exists_compile_of_units h hstart fun n hn hvisited =>
      exists_unit_of_ready h hn (hready n hn hvisited)

/-- There is none exactly if some node is the first that is not ready, and that node says why. -/
theorem compile_eq_error_iff {fault : CompileFault} : f.compile policy = .error fault ↔
    ∃ n, f.FirstUnready (Compilation.order f start) n ∧ fault = Compilation.faultAt n := by
  constructor
  · intro hfault
    rcases compile_cases_ready h hstart policy with ⟨⟨script, hscript⟩, -⟩ | ⟨n, hn, hfirst⟩
    · rw [hscript] at hfault
      cases hfault
    · rw [hn] at hfault
      exact ⟨n, hfirst, (Except.error.inj hfault).symm⟩
  · rintro ⟨n, hfirst, rfl⟩
    exact compile_of_firstUnready h hstart hfirst

end

/-- The fault of a node that is not ready is foreseen, or a handle is too long. -/
theorem isForeseen_faultAt (n : Node) :
    (Compilation.faultAt n).isForeseen ∨ Compilation.faultAt n = .handleTooLong := by
  unfold Compilation.faultAt
  cases n.block with
  | unknown declared entries => exact .inl rfl
  | known c => exact .inr rfl

/-- No unit ever lacks what it needs. -/
theorem isForeseen_of_compile_eq_error {fault : CompileFault}
    (hfault : f.compile policy = .error fault) : fault.isForeseen ∨ fault = .handleTooLong := by
  by_cases herrors : f.validate.errors = []
  · have h := Validation.errors_eq_nil_iff.mp herrors
    obtain ⟨start, -, hstart, -⟩ := h.exists_start
    obtain ⟨n, -, rfl⟩ := (compile_eq_error_iff h hstart).mp hfault
    exact isForeseen_faultAt n
  · rw [compile_of_errors herrors] at hfault
    cases hfault
    exact .inl rfl

/-- **What keeps a flow from being compiled.** Errors are given as they are found. Without errors
there is a script if all nodes on the search are ready, and else the first one that is not says why
there is none: it is of an unknown kind, or the handle of an edge that leaves it has too many
digits. Nothing else keeps a flow from being compiled. -/
theorem compile_faults (f : Flow) (policy : Policy) :
    (∀ fault, f.compile policy = .error fault → fault.isForeseen ∨ fault = .handleTooLong) ∧
    (f.validate.errors ≠ [] → f.compile policy = .error (.notCompilable f.validate.errors)) ∧
    (f.validate.errors = [] → ∃ start visited, f.resolveStart = some start ∧
      Traversal.DepthFirst (Compilation.successors f) [] [start] visited ∧
      ((∃ script, f.compile policy = .ok script) ↔
        ∀ n ∈ f.nodes, n.id ∈ visited → f.Ready n) ∧
      ∀ fault, f.compile policy = .error fault ↔
        ∃ n, f.FirstUnready visited n ∧ fault = Compilation.faultAt n) := by
  refine ⟨fun fault => isForeseen_of_compile_eq_error, compile_of_errors, fun herrors => ?_⟩
  have h := Validation.errors_eq_nil_iff.mp herrors
  obtain ⟨start, hmem, hstart, -⟩ := h.exists_start
  exact ⟨start, Compilation.order f start, hstart, Compilation.depthFirst_order h hmem,
    exists_compile_iff_ready h hstart, fun fault => compile_eq_error_iff h hstart⟩

/-! ## A handle with too many digits -/

/-- A document where the answer of a service ends the call. -/
def answerDocument (answer : String) : Value :=
  .mapping [(.text "nodes", .list [
      .mapping [(.text "id", .text "look"), (.text "blockType", .text "api"),
        (.text "name", .text "Look"), (.text "config", .mapping [(.text "endpoint", .text "/open")])],
      .mapping [(.text "id", .text "bye"), (.text "blockType", .text "hangup"),
        (.text "name", .text "Bye")]]),
    (.text "edges", .list [.mapping [(.text "id", .text "e1"), (.text "source", .text "look"),
      (.text "target", .text "bye"), (.text "sourceHandle", .text answer)]])]

/-- The flow of that document. -/
def answerFlow (answer : String) : Flow where
  nodes := [⟨"look", "Look", .known (.api ⟨none, some "/open", none, none, none⟩), Node.origin⟩,
    ⟨"bye", "Bye", .known .hangup, Node.origin⟩]
  edges := [⟨"e1", "look", "bye", some answer⟩]
  start := none
  distinct := by decide

/-- The document is read, whatever the answer. -/
theorem toFlow_answerDocument {answer : String} (hne : answer ≠ "") :
    Document.toFlow (answerDocument answer) = .ok (answerFlow answer) := by
  have hread : Document.toFlow (answerDocument answer) = .ok { answerFlow answer with
      edges := [⟨"e1", "look", "bye", if answer = "" then none else some answer⟩] } := rfl
  rw [hread, if_neg hne]
  rfl

/-- The checks find nothing wrong with the flow, whatever the answer is. -/
theorem errors_answerFlow (answer : String) : (answerFlow answer).validate.errors = [] := by
  rw [Validation.errors_validate]
  rfl

/-- But it is not compiled if the answer is a number with too many digits. -/
theorem compile_answerFlow {answer : String} (hlong : Keypad.isTooLong (some answer)) :
    (answerFlow answer).compile policy = .error .handleTooLong := by
  have hcompilable := Validation.errors_eq_nil_iff.mp (errors_answerFlow answer)
  have hstart : (answerFlow answer).resolveStart = some "look" := rfl
  refine compile_of_firstUnready (n := ⟨"look", "Look",
    .known (.api ⟨none, some "/open", none, none, none⟩), Node.origin⟩) hcompilable hstart ?_
  refine ⟨List.mem_cons_self, fun hready => ?_, [], ["bye"], rfl, by simp⟩
  exact hready.placed _ List.mem_cons_self rfl hlong

/-- A row of ones. -/
def ones (count : Nat) : String := String.ofList (List.replicate count '1')

/-- A handle of more than so many ones is too long. -/
theorem isTooLong_ones {count : Nat} (h : Text.digitLimit < count) :
    Keypad.isTooLong (some (ones count)) := by
  have hpos : count ≠ 0 := Nat.ne_of_gt (Nat.zero_lt_of_lt h)
  simp [ones, Keypad.isTooLong, Keypad.isNumber, Text.isDigit, h, hpos]

/-- It is a text that is not empty. -/
theorem ones_ne_empty {count : Nat} (h : count ≠ 0) : ones count ≠ "" := by
  simpa [ones] using h

/-- A document is read where the answer is the number that is written with 4301 ones, and nothing is
wrong with the flow, but the reason why it is not compiled is not one of those that are meant. -/
theorem compile_faults_longAnswer :
    ∃ f, Document.toFlow (answerDocument (ones 4301)) = .ok f ∧ f.validate.errors = [] ∧
      f.compile .hangup = .error .handleTooLong ∧
      ¬ ∀ fault, f.compile .hangup = .error fault → fault.isForeseen := by
  have hne : ones 4301 ≠ "" := ones_ne_empty (by decide)
  have hfault : (answerFlow (ones 4301)).compile .hangup = .error .handleTooLong :=
    compile_answerFlow (isTooLong_ones (by decide))
  refine ⟨answerFlow (ones 4301), toFlow_answerDocument hne, errors_answerFlow _, hfault, ?_⟩
  intro hforeseen
  exact absurd (hforeseen _ hfault) (by decide)

end Flow

end CallFlow
