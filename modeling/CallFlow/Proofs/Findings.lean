import CallFlow.Validation
import Mathlib.Data.List.Basic

/-!
# The findings with a code

Each check makes findings of its own codes (`Validation.family_code_of_mem`), no two checks share a
code, and the code decides whether a finding is an error (`Finding.isError_eq`). So the findings
with a code are those of one check, in the order in which the check makes them:
`Validation.byCode_validate`.
-/

namespace CallFlow

/-! ## Codes and severities -/

/-- Whether the findings with a code keep a flow from being compiled. -/
def FindingCode.isError : FindingCode → Bool
  | unknownBlockType | cycleDetected | unreachableNode | deadBranch => false
  | _ => true

/-- The code of a finding decides whether it is an error. -/
theorem Finding.isError_eq (x : Finding) : x.isError = x.code.isError := by
  cases x <;> rfl

/-- The findings with a code, in the order of the checks: they are all errors, or all warnings. -/
theorem Report.byCode_eq (r : Report) (code : FindingCode) :
    r.byCode code = r.found.filter fun x => x.code = code := by
  have hkeep : ∀ p : Finding → Bool, (∀ x, x.code = code → p x = true) →
      (r.found.filter fun x => x.code = code && p x) = r.found.filter fun x => x.code = code := by
    intro p hp
    refine List.filter_congr fun x _ => ?_
    by_cases hx : x.code = code <;> simp [hx, hp]
  have hdrop : ∀ p : Finding → Bool, (∀ x, x.code = code → p x = false) →
      (r.found.filter fun x => x.code = code && p x) = [] := by
    intro p hp
    refine List.filter_eq_nil_iff.mpr fun x _ => ?_
    by_cases hx : x.code = code <;> simp [hx, hp]
  unfold byCode findings errors warnings
  rw [List.filter_append, List.filter_filter, List.filter_filter]
  cases hcode : code.isError with
  | true =>
    rw [hkeep Finding.isError fun x hx => by rw [Finding.isError_eq, hx, hcode],
      hdrop (fun x => !x.isError) fun x hx => by rw [Finding.isError_eq, hx, hcode]; rfl,
      List.append_nil]
  | false =>
    rw [hdrop Finding.isError fun x hx => by rw [Finding.isError_eq, hx, hcode],
      hkeep (fun x => !x.isError) fun x hx => by rw [Finding.isError_eq, hx, hcode]; rfl,
      List.nil_append]

namespace Validation

variable {f : Flow} {x : Finding}

/-! ## The codes of each check -/

/-- The check of the ends of edges reports nothing else. -/
theorem code_of_mem_danglingEdges (h : x ∈ danglingEdges f) : x.code = .danglingEdge := by
  obtain ⟨e, -, he⟩ := List.mem_filterMap.mp h
  split at he
  · cases he
  · cases he
    rfl

/-- The check of configurations reports unknown kinds and what is missing. -/
theorem code_of_mem_configFindings {n : Node} (h : x ∈ configFindings n) :
    x.code = .unknownBlockType ∨ x.code = .incompleteConfig := by
  unfold configFindings at h
  split at h
  · obtain rfl := List.mem_singleton.mp h
    exact .inl rfl
  · obtain ⟨field, -, rfl⟩ := List.mem_map.mp h
    exact .inr rfl

/-- The check of branches reports those that are there twice. -/
theorem code_of_mem_repeatedBranches :
    ∀ {seen : List (String × Option String)} {edges : List Edge},
      x ∈ repeatedBranches seen edges → x.code = .duplicateBranch
  | _, [], h => absurd h List.not_mem_nil
  | seen, e :: rest, h => by
    simp only [repeatedBranches] at h
    split at h
    · rcases List.mem_cons.mp h with rfl | h
      · rfl
      · exact code_of_mem_repeatedBranches h
    · exact code_of_mem_repeatedBranches h

/-- The check of handles reports handles. -/
theorem code_of_mem_handleFindings {n : Node} {c : Config} {out : List Edge}
    (h : x ∈ handleFindings n c out) : x.code = .invalidHandle := by
  obtain ⟨e, -, he⟩ := List.mem_filterMap.mp h
  split at he
  · split at he
    · cases he
      rfl
    · split at he
      · cases he
      · cases he
        rfl
  · split at he
    · split at he
      · cases he
        rfl
      · cases he
    · obtain ⟨_, -, rfl⟩ := Option.map_eq_some_iff.mp he
      rfl

/-- The check of loops reports loops. -/
theorem code_of_mem_selfLoops {n : Node} {c : Config} {out : List Edge}
    (h : x ∈ selfLoops n c out) : x.code = .illegalSelfLoop := by
  unfold selfLoops at h
  split at h
  · exact absurd h List.not_mem_nil
  · obtain ⟨e, -, rfl⟩ := List.mem_map.mp h
    rfl

/-- The check of the edges that leave a node reports edges that may not leave it, loops and handles.
-/
theorem code_of_mem_outgoingFindings {n : Node} (h : x ∈ outgoingFindings f n) :
    x.code = .illegalOutgoingEdge ∨ x.code = .illegalSelfLoop ∨ x.code = .invalidHandle := by
  unfold outgoingFindings at h
  split at h
  · exact absurd h List.not_mem_nil
  · split at h
    · obtain ⟨e, -, rfl⟩ := List.mem_map.mp h
      exact .inl rfl
    · rcases List.mem_append.mp h with h | h
      · exact .inr (.inl (code_of_mem_selfLoops h))
      · exact .inr (.inr (code_of_mem_handleFindings h))

/-- The check of the start reports that it is not clear. -/
theorem code_of_mem_startFindings (h : x ∈ startFindings f) : x.code = .ambiguousStart := by
  unfold startFindings at h
  split at h
  · split at h
    · exact absurd h List.not_mem_nil
    · obtain rfl := List.mem_singleton.mp h
      rfl
  · split at h
    · exact absurd h List.not_mem_nil
    · obtain rfl := List.mem_singleton.mp h
      rfl

/-- The check of cycles reports cycles. -/
theorem code_of_mem_cycleFindings {start : String} (h : x ∈ cycleFindings f start) :
    x.code = .cycleDetected := by
  obtain ⟨c, -, rfl⟩ := List.mem_map.mp h
  rfl

/-- The check of reach reports nodes out of reach. -/
theorem code_of_mem_unreachableFindings {start : String} (h : x ∈ unreachableFindings f start) :
    x.code = .unreachableNode := by
  obtain ⟨n, -, rfl⟩ := List.mem_map.mp h
  rfl

/-- The check of options reports those that lead nowhere. -/
theorem code_of_mem_deadBranches {n : Node} (h : x ∈ deadBranches f n) :
    x.code = .deadBranch := by
  unfold deadBranches at h
  split at h
  · exact absurd h List.not_mem_nil
  · obtain ⟨o, -, rfl⟩ := List.mem_map.mp h
    rfl

/-! ## The check of a code -/

/-- The last one of the codes that the check of a code makes findings of. -/
def family : FindingCode → FindingCode
  | .unknownBlockType => .incompleteConfig
  | .illegalOutgoingEdge | .illegalSelfLoop => .invalidHandle
  | code => code

/-- What the check that makes the findings of a code finds. -/
def checkFor (f : Flow) (code : FindingCode) : List Finding :=
  match family code with
  | .danglingEdge => danglingEdges f
  | .incompleteConfig => f.nodes.flatMap configFindings
  | .duplicateBranch => repeatedBranches [] f.edges
  | .invalidHandle => f.nodes.flatMap (outgoingFindings f)
  | .ambiguousStart => startFindings f
  | .cycleDetected => (validStart f).elim [] (cycleFindings f)
  | .unreachableNode => (validStart f).elim [] (unreachableFindings f)
  | .deadBranch => f.nodes.flatMap (deadBranches f)
  | _ => []

/-- All findings, check by check. -/
theorem found_validate (f : Flow) : f.validate.found =
    checkFor f .danglingEdge ++ checkFor f .incompleteConfig ++ checkFor f .duplicateBranch ++
      checkFor f .invalidHandle ++ checkFor f .ambiguousStart ++ checkFor f .cycleDetected ++
      checkFor f .unreachableNode ++ checkFor f .deadBranch := by
  simp only [Flow.validate, Report.found, checks, checkFor, family]
  cases validStart f <;> simp

/-- What is found from a valid start on is found by the check from some start. -/
theorem exists_start_of_mem_elim {check : String → List Finding}
    (h : x ∈ (validStart f).elim [] check) : ∃ start, x ∈ check start := by
  cases hstart : validStart f with
  | none =>
    rw [hstart] at h
    exact absurd h List.not_mem_nil
  | some start =>
    rw [hstart] at h
    exact ⟨start, h⟩

/-- A check makes findings of its own codes only. -/
theorem family_code_of_mem {code : FindingCode} (h : x ∈ checkFor f code) :
    family x.code = family code := by
  unfold checkFor at h
  split at h
  · rename_i hfamily
    rw [code_of_mem_danglingEdges h, hfamily]
    rfl
  · rename_i hfamily
    obtain ⟨n, -, hn⟩ := List.mem_flatMap.mp h
    rcases code_of_mem_configFindings hn with hcode | hcode <;> rw [hcode, hfamily] <;> rfl
  · rename_i hfamily
    rw [code_of_mem_repeatedBranches h, hfamily]
    rfl
  · rename_i hfamily
    obtain ⟨n, -, hn⟩ := List.mem_flatMap.mp h
    rcases code_of_mem_outgoingFindings hn with hcode | hcode | hcode <;>
      rw [hcode, hfamily] <;> rfl
  · rename_i hfamily
    rw [code_of_mem_startFindings h, hfamily]
    rfl
  · rename_i hfamily
    obtain ⟨start, hcycle⟩ := exists_start_of_mem_elim h
    rw [code_of_mem_cycleFindings hcycle, hfamily]
    rfl
  · rename_i hfamily
    obtain ⟨start, hunreachable⟩ := exists_start_of_mem_elim h
    rw [code_of_mem_unreachableFindings hunreachable, hfamily]
    rfl
  · rename_i hfamily
    obtain ⟨n, -, hn⟩ := List.mem_flatMap.mp h
    rw [code_of_mem_deadBranches hn, hfamily]
    rfl
  · exact absurd h List.not_mem_nil

/-- The check for one kind of finding reports none of another family. -/
theorem filter_checkFor_eq_nil {code code' : FindingCode} (h : family code ≠ family code') :
    (checkFor f code).filter (fun x => x.code = code') = [] := by
  refine List.filter_eq_nil_iff.mpr fun x hx hcode => h ?_
  rw [← family_code_of_mem hx, of_decide_eq_true hcode]

/-- The findings with a code are those that its check makes. -/
theorem byCode_validate (f : Flow) (code : FindingCode) :
    f.validate.byCode code = (checkFor f code).filter fun x => x.code = code := by
  rw [Report.byCode_eq, found_validate]
  simp only [List.filter_append]
  cases code <;> simp (disch := decide) only [filter_checkFor_eq_nil, List.nil_append,
    List.append_nil] <;> rfl

/-- Where a check makes findings of one code, they are the findings with this code. -/
theorem byCode_validate_of_forall {code : FindingCode}
    (h : ∀ x ∈ checkFor f code, x.code = code) : f.validate.byCode code = checkFor f code := by
  rw [byCode_validate]
  exact List.filter_eq_self.mpr fun x hx => decide_eq_true (h x hx)

/-- A finding is among the findings of a flow exactly if the check for its code reports it. -/
theorem mem_findings_validate_iff : x ∈ f.validate.findings ↔ x ∈ checkFor f x.code := by
  have hbyCode : x ∈ f.validate.byCode x.code ↔ x ∈ f.validate.findings := by
    simp [Report.byCode]
  rw [← hbyCode, byCode_validate]
  simp

/-- The findings on dangling edges are those of the check of ends. -/
theorem byCode_danglingEdge (f : Flow) : f.validate.byCode .danglingEdge = danglingEdges f :=
  byCode_validate_of_forall fun _ => code_of_mem_danglingEdges

/-- The findings on branches that are there twice are those of the check of branches. -/
theorem byCode_duplicateBranch (f : Flow) :
    f.validate.byCode .duplicateBranch = repeatedBranches [] f.edges :=
  byCode_validate_of_forall fun _ => code_of_mem_repeatedBranches

/-- A start marker on a missing node is reported exactly if there is one. -/
theorem startMissing_mem_findings_iff {id : String} :
    .startMissing id ∈ f.validate.findings ↔ f.start = some id ∧ id ∉ f.ids := by
  rw [mem_findings_validate_iff]
  change Finding.startMissing id ∈ startFindings f ↔ _
  unfold startFindings
  cases hstart : f.start with
  | some marked =>
    by_cases hnode : marked ∈ f.ids
    · simp only [Flow.hasNode_iff.mpr hnode, if_true, List.not_mem_nil, false_iff]
      rintro ⟨hid, hmissing⟩
      exact hmissing (Option.some.inj hid ▸ hnode)
    · simp only [Flow.hasNode_iff, hnode, if_false, List.mem_singleton, Finding.startMissing.injEq,
        Option.some.injEq]
      constructor
      · rintro rfl
        exact ⟨rfl, hnode⟩
      · exact fun h => h.1.symm
  | none => cases f.resolveStart <;> simp

end Validation

end CallFlow
