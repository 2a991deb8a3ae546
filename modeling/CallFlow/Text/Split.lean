/-!
# Splitting text

The parts of a text between the places where a separator stands.
-/

namespace CallFlow.Text

/-- The parts between the separators. There is one part more than there are separators. -/
def splitAt (sep : Char) : List Char → List (List Char)
  | [] => [[]]
  | c :: r =>
    if c = sep then [] :: splitAt sep r
    else
      match splitAt sep r with
      | [] => [[c]]
      | part :: rest => (c :: part) :: rest

/-- A text has one part more than it has separators. -/
theorem length_splitAt (sep : Char) (cs : List Char) :
    (splitAt sep cs).length = cs.count sep + 1 := by
  induction cs with
  | nil => rfl
  | cons c r ih =>
    by_cases h : c = sep
    · simp [splitAt, h, ih]
    · rw [splitAt, if_neg h, List.count_cons_of_ne (fun e => h e)]
      split
      · rename_i e; simp [e] at ih
      · rename_i e; simpa [e] using ih

end CallFlow.Text
