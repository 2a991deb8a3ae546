import CallFlow.Text.Digits

/-!
# Keypad order

The order in which the branches of a block are listed: first the branch without a handle, then
numbers in increasing order with zero in the place of ten, then the star and the hash, and at last
all other handles by their characters.
-/

namespace CallFlow.Keypad

open Text

/-- The place of a handle in keypad order: its group, a number within the group, and its text. -/
structure Rank where
  group : Nat
  number : Nat
  text : String
  deriving DecidableEq, Repr

/-- A handle that is a number: ASCII digits and nothing else. -/
def isNumber (handle : String) : Bool := handle ≠ "" && handle.toList.all isDigit

/-- The place of a handle. -/
def rank : Option String → Rank
  | none => ⟨0, 0, ""⟩
  | some h =>
    if isNumber h then
      let n := natOfDigits h.toList
      ⟨1, if n = 0 then 10 else n, h⟩
    else if h = "*" then ⟨2, 0, h⟩
    else if h = "#" then ⟨2, 1, h⟩
    else ⟨3, 0, h⟩

/-- A number with more digits than are converted has no place. -/
def isTooLong : Option String → Bool
  | none => false
  | some h => isNumber h && digitLimit < h.toList.length

/-- The order of places. -/
def Rank.le (a b : Rank) : Bool :=
  a.group < b.group ||
    (a.group = b.group && (a.number < b.number ||
      (a.number = b.number && !(b.text < a.text))))

/-- Keypad order on handles. -/
def le (a b : Option String) : Bool := (rank a).le (rank b)

/-! ## Sorting -/

variable {α : Type}

/-- Puts an item in front of the first one that does not come before it. -/
def insertBy (handle : α → Option String) (x : α) : List α → List α
  | [] => [x]
  | y :: rest => if le (handle x) (handle y) then x :: y :: rest else y :: insertBy handle x rest

/-- Sorts items by their handles; items with one handle stay in order. -/
def sortBy (handle : α → Option String) (items : List α) : List α :=
  items.foldr (insertBy handle) []

/-- Sorts items by their handles, if all of them have a place. -/
def sortBy? (handle : α → Option String) (items : List α) : Option (List α) :=
  if items.any fun x => isTooLong (handle x) then none else some (sortBy handle items)

/-- An item that is put in its place is one more among the same items. -/
theorem insertBy_perm (handle : α → Option String) (x : α) (items : List α) :
    (insertBy handle x items).Perm (x :: items) := by
  induction items with
  | nil => exact .refl _
  | cons y rest ih =>
    simp only [insertBy]
    split
    · exact .refl _
    · exact (ih.cons y).trans (.swap x y rest)

/-- Sorting keeps the items. -/
theorem sortBy_perm (handle : α → Option String) (items : List α) :
    (sortBy handle items).Perm items := by
  induction items with
  | nil => exact .refl _
  | cons x rest ih => exact (insertBy_perm handle x _).trans (ih.cons x)

example : sortBy id [some "0", some "#", none, some "10", some "9", some "x", some "*"] =
    [none, some "9", some "0", some "10", some "*", some "#", some "x"] := by decide +kernel

variable {handle : α → Option String} {items : List α}

/-- Items whose handles are short enough can be sorted. -/
theorem sortBy?_of_short (h : ∀ x ∈ items, ¬ isTooLong (handle x)) :
    sortBy? handle items = some (sortBy handle items) := by
  rw [sortBy?, if_neg (by simpa using h)]

/-- One handle that is too long keeps items from being sorted. -/
theorem sortBy?_of_isTooLong (h : ∃ x ∈ items, isTooLong (handle x)) :
    sortBy? handle items = none := by
  rw [sortBy?, if_pos (by simpa using h)]

/-- Items are sorted exactly if all of them have a place. -/
theorem exists_sortBy?_iff :
    (∃ sorted, sortBy? handle items = some sorted) ↔ ∀ x ∈ items, ¬ isTooLong (handle x) := by
  constructor
  · rintro ⟨sorted, hsorted⟩ x hx hlong
    rw [sortBy?_of_isTooLong ⟨x, hx, hlong⟩] at hsorted
    cases hsorted
  · exact fun h => ⟨_, sortBy?_of_short h⟩

end CallFlow.Keypad
