import CallFlow.Value

/-!
# Tests of nested values

A test that goes through a value: it holds if it holds of the value itself and of every value in
it, at any depth.
-/

namespace CallFlow.Value

mutual

/-- Whether a test holds of a value and of every value in it. -/
def all (test : Value → Bool) : Value → Bool
  | .scalar s => test (.scalar s)
  | .list items => test (.list items) && allItems test items
  | .mapping entries => test (.mapping entries) && allEntries test entries

/-- Whether a test holds all through the items of a list. -/
def allItems (test : Value → Bool) : List Value → Bool
  | [] => true
  | v :: rest => v.all test && allItems test rest

/-- Whether a test holds all through the values of the entries of a mapping. -/
def allEntries (test : Value → Bool) : List (Scalar × Value) → Bool
  | [] => true
  | (_, v) :: rest => v.all test && allEntries test rest

end

variable {test : Value → Bool}

/-- A test holds of items if it does of each. -/
theorem allItems_iff : ∀ {items : List Value},
    allItems test items = true ↔ ∀ v ∈ items, v.all test = true
  | [] => by simp [allItems]
  | v :: rest => by simp [allItems, allItems_iff]

/-- A test holds of entries if it does of each value. -/
theorem allEntries_iff : ∀ {entries : List (Scalar × Value)},
    allEntries test entries = true ↔ ∀ e ∈ entries, e.2.all test = true
  | [] => by simp [allEntries]
  | (k, v) :: rest => by simp [allEntries, allEntries_iff]

/-- A test that holds all through a list holds of it and all through each item. -/
theorem all_list_iff {items : List Value} :
    (list items).all test = true ↔ test (.list items) = true ∧ ∀ v ∈ items, v.all test = true := by
  rw [all, Bool.and_eq_true, allItems_iff]

/-- A test that holds all through a mapping holds of it and all through the value of each entry. -/
theorem all_mapping_iff {entries : List (Scalar × Value)} :
    (mapping entries).all test = true ↔
      test (.mapping entries) = true ∧ ∀ e ∈ entries, e.2.all test = true := by
  rw [all, Bool.and_eq_true, allEntries_iff]

/-- A test of a scalar is the test itself. -/
theorem all_scalar (s : Scalar) : (scalar s).all test = test (.scalar s) := by
  rw [all]

end CallFlow.Value
