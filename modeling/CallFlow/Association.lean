/-!
# Entries in insertion order

A mapping as the list of its entries. A new key goes to the end; a key that is present keeps its
place and gets the new value. What counts as the same key is a parameter, because the keys of a
document compare by value (`1` and `1.0` are one key), while those of a table of texts compare as
texts.
-/

namespace CallFlow.Association

variable {κ ν : Type}

/-- The value under a key. -/
def lookup? (same : κ → κ → Bool) (key : κ) : List (κ × ν) → Option ν
  | [] => none
  | (k, v) :: rest => if same k key then some v else lookup? same key rest

/-- Sets the value under a key. -/
def insert (same : κ → κ → Bool) (key : κ) (value : ν) : List (κ × ν) → List (κ × ν)
  | [] => [(key, value)]
  | (k, v) :: rest =>
    if same k key then (k, value) :: rest else (k, v) :: insert same key value rest

/-- Sets the entries of the second list, one after the other. -/
def insertAll (same : κ → κ → Bool) (entries : List (κ × ν)) (more : List (κ × ν)) :
    List (κ × ν) :=
  more.foldl (fun m e => insert same e.1 e.2 m) entries

/-- The mapping of a list of pairs. Of pairs with one key the first gives the place and the last
gives the value. -/
def ofPairs (same : κ → κ → Bool) (pairs : List (κ × ν)) : List (κ × ν) :=
  insertAll same [] pairs

/-- A key is found exactly in the lists that have an entry under it. -/
theorem lookup?_isSome (same : κ → κ → Bool) (key : κ) (entries : List (κ × ν)) :
    (lookup? same key entries).isSome = entries.any (fun e => same e.1 key) := by
  induction entries with
  | nil => rfl
  | cons e rest ih => by_cases h : same e.1 key <;> simp [lookup?, h, ih]

/-- What was set under a key is found there, if the key is the same as itself. -/
theorem lookup?_insert_self (same : κ → κ → Bool) {key : κ} (h : same key key = true) (value : ν)
    (entries : List (κ × ν)) : lookup? same key (insert same key value entries) = some value := by
  induction entries with
  | nil => simp [insert, lookup?, h]
  | cons e rest ih => by_cases he : same e.1 key <;> simp [insert, lookup?, he, ih]

/-- Setting a value keeps the keys that are there and adds at most the new one, at the end. -/
theorem map_fst_insert (same : κ → κ → Bool) (key : κ) (value : ν) (entries : List (κ × ν)) :
    (insert same key value entries).map Prod.fst =
      entries.map Prod.fst ++ if entries.any (fun e => same e.1 key) then [] else [key] := by
  induction entries with
  | nil => rfl
  | cons e rest ih =>
    obtain ⟨k, v⟩ := e
    cases he : same k key
    · rw [insert, he, List.any_cons, he, Bool.false_or]
      exact congrArg (k :: ·) ih
    · rw [insert, he, List.any_cons, he]
      simp

/-- Pairs with keys that all differ are the entries of their mapping. -/
theorem insert_of_forall_not (same : κ → κ → Bool) (key : κ) (value : ν) (entries : List (κ × ν))
    (h : ∀ e ∈ entries, same e.1 key = false) :
    insert same key value entries = entries ++ [(key, value)] := by
  induction entries with
  | nil => rfl
  | cons e rest ih =>
    simp only [List.mem_cons, forall_eq_or_imp] at h
    simp [insert, h.1, ih h.2]

end CallFlow.Association
