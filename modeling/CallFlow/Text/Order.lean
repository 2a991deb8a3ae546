/-!
# Order of texts

Texts in the order of their characters' code points, and the sorting of a list of texts.
-/

namespace CallFlow.Text

/-- Puts a text in front of the first one that does not come before it. -/
def insertSorted (s : String) : List String → List String
  | [] => [s]
  | t :: rest => if t < s then t :: insertSorted s rest else s :: t :: rest

/-- Sorts texts. -/
def sorted (texts : List String) : List String := texts.foldr insertSorted []

/-- A text that is put in its place is one more among the same texts. -/
theorem insertSorted_perm (s : String) (texts : List String) :
    (insertSorted s texts).Perm (s :: texts) := by
  induction texts with
  | nil => exact .refl _
  | cons t rest ih =>
    simp only [insertSorted]
    split
    · exact (ih.cons t).trans (.swap s t rest)
    · exact .refl _

/-- Sorting keeps the texts. -/
theorem sorted_perm (texts : List String) : (sorted texts).Perm texts := by
  induction texts with
  | nil => exact .refl _
  | cons s rest ih => exact (insertSorted_perm s _).trans (ih.cons s)

end CallFlow.Text
