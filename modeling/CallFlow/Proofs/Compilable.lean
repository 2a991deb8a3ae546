import CallFlow.Proofs.Findings
import CallFlow.Proofs.Lookup
import Mathlib.Tactic.Tauto

/-!
# Compilable flows

`Flow.Compilable` says which flows may be compiled, as rules on nodes, edges and the start marker
and without a word on findings: `Node.Fits` has the rules on one node of a known kind. The checks
come to the same (`Validation.errors_eq_nil_iff`), each of them to the rule it is about.

* `Validation.errors_validate`: the errors of a flow, check by check.
* `danglingEdges_eq_nil_iff`, `missing_eq_nil_iff`, `repeatedBranches_eq_nil_iff`,
  `outgoingFindings_eq_nil_iff`, `startFindings_eq_nil_iff`: when a check finds no error.
* `Flow.compilable_validate_iff`: a flow passes the checks exactly if it is compilable.
-/

namespace CallFlow

/-! ## The rules -/

/-- The rules on a node whose block is of a known kind, and on the edges that leave it. -/
structure Node.Fits (f : Flow) (n : Node) (c : Config) : Prop where
  /-- One field of each required group is filled in. -/
  filled : ∀ group ∈ c.kind.required, ∃ field ∈ group, ∃ s, c.get? field = some s ∧ s.isFilled
  /-- A node that ends the call leads nowhere. -/
  final : c.kind.isTerminal → ∀ e ∈ f.edges, e.source ≠ n.id
  /-- Only where the caller chooses may an edge lead back to its own source. -/
  onward : ¬ c.kind.isBranching → ∀ e ∈ f.edges, e.source = n.id → e.target ≠ n.id
  /-- Where the caller chooses, each edge is for one of the options. -/
  declared : c.kind.isBranching →
    ∀ e ∈ f.edges, e.source = n.id → ∃ h ∈ c.options.keys, e.handle = some h
  /-- Where a service may answer in several ways, each edge is for one of its answers. -/
  answered : c.kind = .api → 1 < (f.outgoing n.id).length →
    ∀ e ∈ f.edges, e.source = n.id → e.handle ≠ none
  /-- Where there is nothing to choose, no edge is for an option. -/
  plain : c.kind = .prompt ∨ c.kind = .record ∨ c.kind = .menu →
    ∀ e ∈ f.edges, e.source = n.id → e.handle = none

/-- The rules on a flow that may be compiled. Nodes of unknown kinds need only be connected by
single edges and leave it clear where a call begins. -/
structure Flow.Compilable (f : Flow) : Prop where
  /-- Edges lead from node to node. -/
  connected : ∀ e ∈ f.edges, e.source ∈ f.ids ∧ e.target ∈ f.ids
  /-- Nodes of known kinds fit their kinds. -/
  fits : ∀ n ∈ f.nodes, ∀ c, n.block = .known c → n.Fits f c
  /-- No two edges leave a node by the same handle. -/
  single : (f.edges.map fun e => (e.source, e.handle)).Nodup
  /-- It is clear where a call begins. -/
  started : (∃ id ∈ f.ids, f.start = some id) ∨ (f.start = none ∧ ∃ id, f.resolveStart = some id)

namespace Validation

variable {f : Flow}

/-! ## The errors of each check -/

/-- A check all of whose codes are errors finds errors only. -/
theorem filter_isError_eq_self {code : FindingCode}
    (h : ∀ c, family c = family code → c.isError) :
    (checkFor f code).filter Finding.isError = checkFor f code := by
  refine List.filter_eq_self.mpr fun x hx => ?_
  rw [Finding.isError_eq]
  exact h x.code (family_code_of_mem hx)

/-- A check none of whose codes is an error finds no errors. -/
theorem filter_isError_eq_nil {code : FindingCode}
    (h : ∀ c, family c = family code → ¬ c.isError) :
    (checkFor f code).filter Finding.isError = [] := by
  refine List.filter_eq_nil_iff.mpr fun x hx => ?_
  rw [Finding.isError_eq]
  exact h x.code (family_code_of_mem hx)

/-- The errors of a flow: all that five of the checks find, less the nodes of unknown kinds. -/
theorem errors_validate (f : Flow) :
    f.validate.errors = danglingEdges f ++ (f.nodes.flatMap configFindings).filter Finding.isError ++
      repeatedBranches [] f.edges ++ f.nodes.flatMap (outgoingFindings f) ++ startFindings f := by
  have hdangling : (checkFor f .danglingEdge).filter Finding.isError = danglingEdges f :=
    filter_isError_eq_self fun c => by cases c <;> decide
  have hrepeated : (checkFor f .duplicateBranch).filter Finding.isError =
      repeatedBranches [] f.edges :=
    filter_isError_eq_self fun c => by cases c <;> decide
  have houtgoing : (checkFor f .invalidHandle).filter Finding.isError =
      f.nodes.flatMap (outgoingFindings f) :=
    filter_isError_eq_self fun c => by cases c <;> decide
  have hstart : (checkFor f .ambiguousStart).filter Finding.isError = startFindings f :=
    filter_isError_eq_self fun c => by cases c <;> decide
  have hcycle : (checkFor f .cycleDetected).filter Finding.isError = [] :=
    filter_isError_eq_nil fun c => by cases c <;> decide
  have hunreachable : (checkFor f .unreachableNode).filter Finding.isError = [] :=
    filter_isError_eq_nil fun c => by cases c <;> decide
  have hdead : (checkFor f .deadBranch).filter Finding.isError = [] :=
    filter_isError_eq_nil fun c => by cases c <;> decide
  unfold Report.errors
  rw [found_validate]
  simp only [List.filter_append, hdangling, hrepeated, houtgoing, hstart, hcycle, hunreachable,
    hdead, List.append_nil]
  rfl

/-! ## When a check finds no error -/

/-- No edge is found dangling exactly if both ends of each edge are nodes. -/
theorem danglingEdges_eq_nil_iff :
    danglingEdges f = [] ↔ ∀ e ∈ f.edges, e.source ∈ f.ids ∧ e.target ∈ f.ids := by
  unfold danglingEdges
  rw [List.filterMap_eq_nil_iff]
  refine forall₂_congr fun e _ => ?_
  have hmissing : [e.source, e.target].filter (fun id => !f.hasNode id) = [] ↔
      e.source ∈ f.ids ∧ e.target ∈ f.ids := by
    simp [List.filter_eq_nil_iff, Flow.hasNode_iff]
  rw [← hmissing]
  split <;> simp_all

/-- Nothing is missing from a configuration exactly if each required group has a filled field. -/
theorem missing_eq_nil_iff (c : Config) : c.missing = [] ↔
    ∀ group ∈ c.kind.required, ∃ field ∈ group, ∃ s, c.get? field = some s ∧ s.isFilled := by
  unfold Config.missing
  simp only [List.map_eq_nil_iff, List.filter_eq_nil_iff, Bool.not_eq_true', Bool.not_eq_false,
    List.any_eq_true, Option.any_eq_true]

/-- A node has no error in its configuration exactly if it is of an unknown kind or nothing that its
kind needs is missing. -/
theorem filter_configFindings_eq_nil_iff (n : Node) :
    (configFindings n).filter Finding.isError = [] ↔
      ∀ c, n.block = .known c → c.missing = [] := by
  unfold configFindings
  cases n.block with
  | known c => simp [Finding.isError, Finding.severity, List.eq_nil_iff_forall_not_mem]
  | unknown declared entries => simp [Finding.isError, Finding.severity]

/-- No branch is found to be there twice exactly if no two edges leave one node by one handle, and
none was seen before. -/
theorem repeatedBranches_eq_nil_iff {edges : List Edge} :
    ∀ {seen : List (String × Option String)}, repeatedBranches seen edges = [] ↔
      (edges.map fun e => (e.source, e.handle)).Nodup ∧
        ∀ e ∈ edges, (e.source, e.handle) ∉ seen := by
  induction edges with
  | nil => simp [repeatedBranches]
  | cons e rest ih =>
    intro seen
    simp only [repeatedBranches, List.map_cons, List.nodup_cons, List.mem_map, List.forall_mem_cons]
    split
    · rename_i hseen
      simp [hseen]
    · rename_i hseen
      rw [ih]
      simp only [List.mem_cons, not_or]
      constructor
      · rintro ⟨hrest, hnew⟩
        have hfirst : ¬ ∃ e' ∈ rest, (e'.source, e'.handle) = (e.source, e.handle) := by
          rintro ⟨e', he', heq⟩
          exact (hnew e' he').1 heq
        exact ⟨⟨hfirst, hrest⟩, hseen, fun e' he' => (hnew e' he').2⟩
      · rintro ⟨⟨hfirst, hrest⟩, -, hnew⟩
        exact ⟨hrest, fun e' he' => ⟨fun heq => hfirst ⟨e', he', heq⟩, hnew e' he'⟩⟩

/-- No loop is found at a node exactly if it branches or no edge leads from it to itself. -/
theorem selfLoops_eq_nil_iff {n : Node} {c : Config} {out : List Edge} :
    selfLoops n c out = [] ↔ (¬ c.kind.isBranching → ∀ e ∈ out, e.target ≠ n.id) := by
  unfold selfLoops
  split
  · simp_all
  · simp_all [List.filter_eq_nil_iff]

/-- The handles of the edges that leave a node are right exactly if a branching node has one of its
options on each, a request has none without a handle where there are several, and any other node has
no handles. -/
theorem handleFindings_eq_nil_iff {n : Node} {c : Config} {out : List Edge} :
    handleFindings n c out = [] ↔ ∀ e ∈ out,
      (c.kind.isBranching → ∃ h ∈ c.options.keys, e.handle = some h) ∧
      (c.kind = .api → 1 < out.length → e.handle ≠ none) ∧
      (¬ c.kind.isBranching → c.kind ≠ .api → e.handle = none) := by
  unfold handleFindings
  rw [List.filterMap_eq_nil_iff]
  refine forall₂_congr fun e _ => ?_
  split
  · rename_i hbranching
    have hapi : c.kind ≠ .api := fun h => by simp [h, BlockKind.isBranching] at hbranching
    cases e.handle with
    | none => simp [hbranching]
    | some h => simp [hbranching, hapi]
  · rename_i hbranching
    split
    · rename_i hapi
      simp [hapi, BlockKind.isBranching, and_comm]
    · rename_i hapi
      simp [hbranching, hapi]

/-- Nothing is found about the edges that leave a node exactly if they keep the rules. -/
theorem outgoingFindings_eq_nil_iff {n : Node} :
    outgoingFindings f n = [] ↔ ∀ c, n.block = .known c →
      (c.kind.isTerminal → ∀ e ∈ f.edges, e.source ≠ n.id) ∧
      (¬ c.kind.isBranching → ∀ e ∈ f.edges, e.source = n.id → e.target ≠ n.id) ∧
      (c.kind.isBranching →
        ∀ e ∈ f.edges, e.source = n.id → ∃ h ∈ c.options.keys, e.handle = some h) ∧
      (c.kind = .api → 1 < (f.outgoing n.id).length →
        ∀ e ∈ f.edges, e.source = n.id → e.handle ≠ none) ∧
      (c.kind = .prompt ∨ c.kind = .record ∨ c.kind = .menu →
        ∀ e ∈ f.edges, e.source = n.id → e.handle = none) := by
  unfold outgoingFindings
  cases hblock : n.block with
  | unknown declared entries => simp
  | known c =>
    simp only [Block.known.injEq, forall_eq']
    split
    · rename_i hterminal
      rw [List.map_eq_nil_iff, Flow.outgoing, List.filter_eq_nil_iff]
      constructor
      · intro hnone
        have hnone : ∀ e ∈ f.edges, e.source ≠ n.id := by simpa using hnone
        exact ⟨fun _ => hnone, fun _ e he hs => absurd hs (hnone e he),
          fun _ e he hs => absurd hs (hnone e he), fun _ _ e he hs => absurd hs (hnone e he),
          fun _ e he hs => absurd hs (hnone e he)⟩
      · rintro ⟨hnone, -⟩
        simpa using hnone hterminal
    · rename_i hterminal
      rw [List.append_eq_nil_iff, selfLoops_eq_nil_iff, handleFindings_eq_nil_iff]
      simp only [Flow.mem_outgoing_iff, and_imp]
      have hplain : c.kind = .prompt ∨ c.kind = .record ∨ c.kind = .menu ↔
          ¬ c.kind.isBranching ∧ c.kind ≠ .api := by
        revert hterminal
        cases c.kind <;> decide
      rw [hplain]
      constructor
      · rintro ⟨hloops, hhandles⟩
        exact ⟨fun h => absurd h hterminal, hloops, fun h e he hs => (hhandles e he hs).1 h,
          fun h hmany e he hs => (hhandles e he hs).2.1 h hmany,
          fun h e he hs => (hhandles e he hs).2.2 h.1 h.2⟩
      · rintro ⟨-, hloops, hdeclared, hanswered, hnone⟩
        exact ⟨hloops, fun e he hs => ⟨fun h => hdeclared h e he hs,
          fun h hmany => hanswered h hmany e he hs, fun h h' => hnone ⟨h, h'⟩ e he hs⟩⟩

/-- The start is clear exactly if a node is marked, or none is and one can be found. -/
theorem startFindings_eq_nil_iff : startFindings f = [] ↔
    (∃ id ∈ f.ids, f.start = some id) ∨ (f.start = none ∧ ∃ id, f.resolveStart = some id) := by
  unfold startFindings
  cases hstart : f.start with
  | some id => simp [← Flow.hasNode_iff]
  | none =>
    cases hresolve : f.resolveStart with
    | none => simp
    | some id => simp

/-! ## The checks and the rules -/

/-- There are no errors exactly if the flow keeps the rules. -/
theorem errors_eq_nil_iff : f.validate.errors = [] ↔ f.Compilable := by
  have hconfig : (f.nodes.flatMap configFindings).filter Finding.isError = [] ↔
      ∀ n ∈ f.nodes, ∀ c, n.block = .known c → c.missing = [] := by
    simp only [List.filter_flatMap, List.flatMap_eq_nil_iff, filter_configFindings_eq_nil_iff]
  rw [errors_validate]
  simp only [List.append_eq_nil_iff, danglingEdges_eq_nil_iff, hconfig, missing_eq_nil_iff,
    repeatedBranches_eq_nil_iff, List.flatMap_eq_nil_iff, outgoingFindings_eq_nil_iff,
    startFindings_eq_nil_iff]
  constructor
  · rintro ⟨⟨⟨⟨hconnected, hfilled⟩, hsingle, -⟩, hout⟩, hstarted⟩
    refine ⟨hconnected, fun n hn c hc => ?_, hsingle, hstarted⟩
    obtain ⟨hfinal, honward, hdeclared, hanswered, hplain⟩ := hout n hn c hc
    exact ⟨hfilled n hn c hc, hfinal, honward, hdeclared, hanswered, hplain⟩
  · rintro ⟨hconnected, hfits, hsingle, hstarted⟩
    refine ⟨⟨⟨⟨hconnected, fun n hn c hc => (hfits n hn c hc).filled⟩, hsingle,
      fun _ _ => List.not_mem_nil⟩, fun n hn c hc => ?_⟩, hstarted⟩
    have hfit := hfits n hn c hc
    exact ⟨hfit.final, hfit.onward, hfit.declared, hfit.answered, hfit.plain⟩

end Validation

/-- **The checks decide which flows may be compiled**: the report on a flow has no error exactly if
its edges lead from node to node, its nodes of known kinds fit their kinds, no two edges leave a
node by one handle, and it is clear where a call begins. -/
theorem Flow.compilable_validate_iff (f : Flow) : f.validate.compilable ↔ f.Compilable := by
  unfold Report.compilable
  rw [List.isEmpty_iff, Validation.errors_eq_nil_iff]

end CallFlow
