import CallFlow.Flow
import CallFlow.Proofs.Numerals
import Mathlib.Data.List.Nodup
import Mathlib.Data.List.Perm.Subperm
import Mathlib.Data.Nat.Find

/-!
# Free ids

An edge that no id is given for gets the first of some candidates that is not taken: a text made of
its ends and its handle, then this text with the number two behind it, with three, and so on. The
search for it ends at a candidate (`Edge.EndsAt`), after as many steps as there are taken ids at
most (`Edge.exists_endsAt`), and it ends at one only. That candidate is the free id
(`Edge.EndsAt.freeId_eq`), so it depends on which ids are taken and not on the order in which they
were taken (`Edge.freeId_congr`).
-/

namespace CallFlow.Edge

/-! ## Candidates -/

/-- The candidates for an id, in the order in which they are tried: the text itself, and then the
text with the numbers from two on. -/
def candidate (base : String) : Nat → String
  | 0 => base
  | n + 1 => numbered base (n + 2)

/-- A numbered id is its base, a dash and the digits of the number. -/
theorem toList_numbered (base : String) (n : Nat) :
    (numbered base n).toList = base.toList ++ '-' :: Text.digits n := by
  simp [numbered]

/-- A numbered id is not its base. -/
theorem numbered_ne (base : String) (n : Nat) : numbered base n ≠ base := by
  intro h
  have hchars := congrArg String.toList h
  simp [toList_numbered] at hchars

/-- Different numbers make different candidates. -/
theorem numbered_injective (base : String) {i j : Nat} (h : numbered base i = numbered base j) :
    i = j := by
  have hchars := congrArg String.toList h
  simp only [toList_numbered, List.append_cancel_left_eq, List.cons.injEq, true_and] at hchars
  exact Text.digits_injective hchars

/-- Candidates with different numbers are different. -/
theorem candidate_injective (base : String) : Function.Injective (candidate base) := by
  intro i j h
  cases i with
  | zero =>
    cases j with
    | zero => rfl
    | succ j => exact absurd h.symm (numbered_ne base _)
  | succ i =>
    cases j with
    | zero => exact absurd h (numbered_ne base _)
    | succ j => exact congrArg (· - 1) (numbered_injective base h)

/-- No candidate is empty if the base is not. -/
theorem candidate_ne_empty {base : String} (h : base ≠ "") (n : Nat) : candidate base n ≠ "" := by
  cases n with
  | zero => exact h
  | succ n => simp [candidate, numbered, String.append_eq_empty_iff]

/-! ## The search -/

/-- The search for a free id ends at the candidate with the given place: this one is not taken, and
all before it are. -/
structure EndsAt (taken : List String) (base : String) (n : Nat) : Prop where
  free : candidate base n ∉ taken
  passed : ∀ m < n, candidate base m ∈ taken

variable {taken taken' : List String} {base : String} {n : Nat}

/-- The search always ends, after as many steps as there are taken ids at most. -/
theorem exists_endsAt (taken : List String) (base : String) :
    ∃ n ≤ taken.length, EndsAt taken base n := by
  -- among more candidates than there are taken ids, all of them different, one is free
  have hfree : ∃ n ≤ taken.length, candidate base n ∉ taken := by
    by_contra hnone
    push Not at hnone
    have hsubset : (List.range (taken.length + 1)).map (candidate base) ⊆ taken := by
      intro id hid
      obtain ⟨n, hn, rfl⟩ := List.mem_map.mp hid
      apply hnone
      exact Nat.le_of_lt_succ (List.mem_range.mp hn)
    have hnodup : ((List.range (taken.length + 1)).map (candidate base)).Nodup :=
      List.nodup_range.map (candidate_injective base)
    have hlength := (hnodup.subperm hsubset).length_le
    rw [List.length_map, List.length_range] at hlength
    omega
  obtain ⟨n, hn, hnot⟩ := hfree
  have hsome : ∃ n, candidate base n ∉ taken := ⟨n, hnot⟩
  refine ⟨Nat.find hsome, (Nat.find_min' hsome hnot).trans hn, Nat.find_spec hsome, ?_⟩
  intro m hm
  exact not_not.mp (Nat.find_min hsome hm)

/-- The search ends at one candidate only. -/
theorem EndsAt.unique {m : Nat} (hm : EndsAt taken base m) (hn : EndsAt taken base n) : m = n := by
  rcases Nat.lt_trichotomy m n with hlt | heq | hlt
  · exact absurd (hn.passed m hlt) hm.free
  · exact heq
  · exact absurd (hm.passed n hlt) hn.free

/-- The search ends at the latest when it has passed over all ids that are taken. -/
theorem EndsAt.le_length (h : EndsAt taken base n) : n ≤ taken.length := by
  obtain ⟨m, hm, hends⟩ := exists_endsAt taken base
  rwa [h.unique hends]

/-- Where the search ends depends only on which ids are taken. -/
theorem EndsAt.congr (h : EndsAt taken base n) (hsame : ∀ id, id ∈ taken ↔ id ∈ taken') :
    EndsAt taken' base n where
  free := fun hmem => h.free ((hsame _).mpr hmem)
  passed := fun m hm => (hsame _).mp (h.passed m hm)

/-- The free id is the candidate at which the search ends. -/
theorem EndsAt.freeId_eq (h : EndsAt taken base n) : freeId taken base = candidate base n := by
  unfold freeId
  cases n with
  | zero => exact if_neg h.free
  | succ n =>
    have hbase : base ∈ taken := h.passed 0 (Nat.zero_lt_succ n)
    have hfind : ((List.range (taken.length + 1)).map fun i => numbered base (i + 2)).find?
        (· ∉ taken) = some (numbered base (n + 2)) := by
      rw [List.find?_map, Option.map_eq_some_iff]
      refine ⟨n, List.find?_range_eq_some.mpr ⟨?_, ?_, ?_⟩, rfl⟩
      · exact decide_eq_true h.free
      · have hle := h.le_length
        exact List.mem_range.mpr (by omega)
      · intro m hm
        have hpassed : numbered base (m + 2) ∈ taken := h.passed (m + 1) (Nat.succ_lt_succ hm)
        simpa using hpassed
    rw [if_pos hbase, hfind]
    rfl

/-! ## Free ids -/

/-- A free id is not taken. -/
theorem freeId_not_mem (taken : List String) (base : String) : freeId taken base ∉ taken := by
  obtain ⟨n, -, hends⟩ := exists_endsAt taken base
  rw [hends.freeId_eq]
  exact hends.free

/-- The order in which ids were taken makes no difference. -/
theorem freeId_congr (base : String) (hsame : ∀ id, id ∈ taken ↔ id ∈ taken') :
    freeId taken base = freeId taken' base := by
  obtain ⟨n, -, hends⟩ := exists_endsAt taken base
  rw [hends.freeId_eq, (hends.congr hsame).freeId_eq]

/-- An id that is derived is not empty. -/
theorem derivedId_ne_empty (source target : String) (handle : Option String) :
    derivedId source target handle ≠ "" := by
  unfold derivedId
  intro h
  split at h <;> simp [String.append_eq_empty_iff] at h

/-- Nor is one that is free. -/
theorem freeId_ne_empty (taken : List String) {base : String} (h : base ≠ "") :
    freeId taken base ≠ "" := by
  obtain ⟨n, -, hends⟩ := exists_endsAt taken base
  rw [hends.freeId_eq]
  exact candidate_ne_empty h n

end CallFlow.Edge
