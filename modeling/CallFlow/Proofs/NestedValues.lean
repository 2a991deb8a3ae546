import CallFlow.Proofs.Association
import CallFlow.Value.Nested

/-!
# Properties of nested values

Properties that a value has if it and all values in it have them: the keys of each mapping are texts
(`Value.hasTextKeys`) or differ from each other (`Value.hasDistinctKeys`), and no number is `nan`
(`Value.hasNoNan`). A value whose mappings have distinct keys is equal to itself if it has no `nan`
(`Value.same_self`).
-/

namespace CallFlow

instance (entries : Entries) : Decidable (Association.Distinct Scalar.same entries) :=
  inferInstanceAs (Decidable (entries.Pairwise fun a b => Scalar.same a.1 b.1 = false))

/-- Whether a scalar is a text. -/
def Scalar.isText : Scalar → Bool
  | .text _ => true
  | _ => false

/-- What it means to be a text. -/
theorem Scalar.isText_iff {s : Scalar} : s.isText = true ↔ ∃ t, s = .text t := by
  cases s <;> simp [Scalar.isText]

namespace Value

/-- All keys of the mappings in a value are texts. -/
def hasTextKeys (v : Value) : Bool :=
  v.all fun
    | .mapping entries => entries.all fun e => e.1.isText
    | _ => true

/-- Each mapping in a value has one entry for each key. -/
def hasDistinctKeys (v : Value) : Bool :=
  v.all fun
    | .mapping entries => decide (Association.Distinct Scalar.same entries)
    | _ => true

/-- No number in a value, also as a key, is `nan`. -/
def hasNoNan (v : Value) : Bool :=
  v.all fun
    | .scalar s => s ≠ .float .nan
    | .list _ => true
    | .mapping entries => entries.all fun e => e.1 ≠ .float .nan

/-- Keys in a list are those in its items. -/
@[simp] theorem hasTextKeys_list {items : List Value} :
    (list items).hasTextKeys = true ↔ ∀ v ∈ items, v.hasTextKeys = true :=
  all_list_iff.trans (and_iff_right rfl)

/-- Keys in a mapping are its own and those in its values. -/
@[simp] theorem hasTextKeys_mapping {entries : Entries} : (mapping entries).hasTextKeys = true ↔
    (∀ e ∈ entries, e.1.isText = true) ∧ ∀ e ∈ entries, e.2.hasTextKeys = true :=
  all_mapping_iff.trans (and_congr_left' List.all_eq_true)

/-- There are no keys in a scalar. -/
@[simp] theorem hasTextKeys_scalar (s : Scalar) : (scalar s).hasTextKeys = true := all_scalar s

/-- Keys in a list are distinct if they are in each item. -/
@[simp] theorem hasDistinctKeys_list {items : List Value} :
    (list items).hasDistinctKeys = true ↔ ∀ v ∈ items, v.hasDistinctKeys = true :=
  all_list_iff.trans (and_iff_right rfl)

/-- Keys in a mapping are distinct if its own are and they are in each value. -/
@[simp] theorem hasDistinctKeys_mapping {entries : Entries} :
    (mapping entries).hasDistinctKeys = true ↔
      Association.Distinct Scalar.same entries ∧ ∀ e ∈ entries, e.2.hasDistinctKeys = true :=
  all_mapping_iff.trans (and_congr_left' decide_eq_true_iff)

/-- A scalar has no keys that could be the same. -/
@[simp] theorem hasDistinctKeys_scalar (s : Scalar) : (scalar s).hasDistinctKeys = true :=
  all_scalar s

/-- Numbers in a list are those in its items. -/
@[simp] theorem hasNoNan_list {items : List Value} :
    (list items).hasNoNan = true ↔ ∀ v ∈ items, v.hasNoNan = true :=
  all_list_iff.trans (and_iff_right rfl)

/-- Numbers in a mapping are among its keys and in its values. -/
@[simp] theorem hasNoNan_mapping {entries : Entries} : (mapping entries).hasNoNan = true ↔
    (∀ e ∈ entries, e.1 ≠ .float .nan) ∧ ∀ e ∈ entries, e.2.hasNoNan = true := by
  unfold hasNoNan
  rw [all_mapping_iff, List.all_eq_true]
  simp only [decide_eq_true_eq]

/-- One number is not the same as itself. -/
@[simp] theorem hasNoNan_scalar {s : Scalar} :
    (scalar s).hasNoNan = true ↔ s ≠ .float .nan := by
  unfold hasNoNan
  rw [all_scalar, decide_eq_true_eq]

end Value

/-- Only `nan` is not equal to itself. -/
theorem Scalar.same_self {s : Scalar} (h : s ≠ .float .nan) : s.same s = true := by
  cases s with
  | null => rfl
  | bool b => simp [Scalar.same, Scalar.toInt?]
  | int n => simp [Scalar.same, Scalar.toInt?]
  | text t => simp [Scalar.same]
  | float x =>
    cases x with
    | nan => exact absurd rfl h
    | signed negative rank => simp [Scalar.same, Binary64.same]

namespace Value

mutual

/-- A value with distinct keys and without `nan` is equal to itself. -/
theorem same_self : ∀ {v : Value}, v.hasDistinctKeys = true → v.hasNoNan = true → v.same v = true
  | .scalar s, _, hnan => by
    rw [same]
    exact Scalar.same_self (hasNoNan_scalar.mp hnan)
  | .list items, hkeys, hnan => by
    rw [same]
    exact sameItems_self (hasDistinctKeys_list.mp hkeys) (hasNoNan_list.mp hnan)
  | .mapping entries, hkeys, hnan => by
    obtain ⟨hdistinct, hvalues⟩ := hasDistinctKeys_mapping.mp hkeys
    obtain ⟨hscalars, hnumbers⟩ := hasNoNan_mapping.mp hnan
    rw [same, decide_eq_true rfl, Bool.true_and]
    exact within_self hdistinct (fun _ he => he) hscalars hvalues hnumbers

/-- Items are the same as themselves, one by one. -/
theorem sameItems_self : ∀ {items : List Value}, (∀ v ∈ items, v.hasDistinctKeys = true) →
    (∀ v ∈ items, v.hasNoNan = true) → sameItems items items = true
  | [], _, _ => rfl
  | v :: rest, hkeys, hnan => by
    rw [sameItems, same_self (hkeys v List.mem_cons_self) (hnan v List.mem_cons_self),
      sameItems_self (fun w hw => hkeys w (List.mem_cons_of_mem _ hw))
        fun w hw => hnan w (List.mem_cons_of_mem _ hw)]
    rfl

/-- Some entries of a mapping are within it. -/
theorem within_self {entries : Entries} (hdistinct : Association.Distinct Scalar.same entries) :
    ∀ {part : List (Scalar × Value)}, (∀ e ∈ part, e ∈ entries) →
      (∀ e ∈ part, e.1 ≠ .float .nan) → (∀ e ∈ part, e.2.hasDistinctKeys = true) →
      (∀ e ∈ part, e.2.hasNoNan = true) → within part entries = true
  | [], _, _, _, _ => rfl
  | (k, v) :: rest, hmem, hscalars, hkeys, hnan => by
    have hkey : Scalar.same k k = true := Scalar.same_self (hscalars _ List.mem_cons_self)
    have hlookup := Association.lookup?_of_mem hkey hdistinct (hmem _ List.mem_cons_self)
    rw [within, hlookup]
    dsimp only
    rw [same_self (hkeys _ List.mem_cons_self) (hnan _ List.mem_cons_self), Bool.true_and]
    exact within_self hdistinct (fun e he => hmem e (List.mem_cons_of_mem _ he))
      (fun e he => hscalars e (List.mem_cons_of_mem _ he))
      (fun e he => hkeys e (List.mem_cons_of_mem _ he))
      fun e he => hnan e (List.mem_cons_of_mem _ he)

end

end Value

end CallFlow
