import CallFlow.Keypad
import Mathlib.Data.List.Nodup
import Mathlib.Data.List.Perm.Basic
import Mathlib.Data.Prod.Lex
import Mathlib.Data.String.Basic

/-!
# Keypad order

`Keypad.le` is a linear order on handles: places are compared by group, then by number, then by
text (`Rank.le_iff`), and different handles have different places (`rank_injective`). So items with
different handles are put in order in one way only: what is in order and has the items of a list is
the sorted list (`eq_sortBy_of_perm`). Items with one handle keep the order they had
(`isSorting_sortBy`), and it does not matter whether some items are left out before or after the
others are sorted (`filter_sortBy`).
-/

namespace CallFlow.Keypad

/-! ## Places -/

/-- A place as a triple, to be compared one part after the other. -/
def Rank.key (r : Rank) : Nat ×ₗ Nat ×ₗ String := toLex (r.group, toLex (r.number, r.text))

/-- Places are compared by group first, then by number, and by text at last. -/
theorem Rank.le_iff {a b : Rank} : a.le b ↔ a.key ≤ b.key := by
  simp only [Rank.le, Rank.key, Prod.Lex.toLex_le_toLex, Bool.or_eq_true, Bool.and_eq_true,
    decide_eq_true_eq, Bool.not_eq_true', decide_eq_false_iff_not, not_lt]

/-- Places are told apart by what they are compared by. -/
theorem Rank.key_injective : Function.Injective Rank.key := by
  rintro ⟨group, number, text⟩ ⟨group', number', text'⟩ h
  simpa [Rank.key] using h

/-! ## Handles -/

/-- The place of a handle keeps its text, and is not that of no handle. -/
theorem rank_some (h : String) : (rank (some h)).text = h ∧ (rank (some h)).group ≠ 0 := by
  unfold rank
  dsimp only
  split_ifs <;> exact ⟨rfl, Nat.succ_ne_zero _⟩

/-- Different handles have different places. -/
theorem rank_injective : Function.Injective rank := by
  intro a b h
  cases a with
  | none =>
    cases b with
    | none => rfl
    | some b => exact absurd (congrArg Rank.group h).symm (rank_some b).2
  | some a =>
    cases b with
    | none => exact absurd (congrArg Rank.group h) (rank_some a).2
    | some b => rw [← (rank_some a).1, ← (rank_some b).1, h]

/-- Handles are compared by their places. -/
theorem le_iff {a b : Option String} : le a b ↔ (rank a).key ≤ (rank b).key := Rank.le_iff

/-- Of two handles one is not behind the other. -/
theorem le_total (a b : Option String) : le a b ∨ le b a := by
  rw [le_iff, le_iff]
  exact LinearOrder.le_total _ _

/-- Keypad order is transitive. -/
theorem le_trans {a b c : Option String} (hab : le a b) (hbc : le b c) : le a c := by
  rw [le_iff] at hab hbc ⊢
  exact hab.trans hbc

/-- Handles with one place are the same. -/
theorem le_antisymm {a b : Option String} (hab : le a b) (hba : le b a) : a = b := by
  rw [le_iff] at hab hba
  exact rank_injective (Rank.key_injective (hab.antisymm hba))

/-! ## Sorting -/

variable {α : Type} {handle : α → Option String}

/-- An item is put where it keeps the order. -/
theorem pairwise_insertBy (x : α) {items : List α}
    (h : items.Pairwise fun a b => le (handle a) (handle b)) :
    (insertBy handle x items).Pairwise fun a b => le (handle a) (handle b) := by
  induction items with
  | nil => exact List.pairwise_singleton _ _
  | cons y rest ih =>
    obtain ⟨hy, hrest⟩ := List.pairwise_cons.mp h
    rw [insertBy]
    split
    · rename_i hxy
      refine List.pairwise_cons.mpr ⟨fun z hz => ?_, h⟩
      rcases List.mem_cons.mp hz with rfl | hz
      · exact hxy
      · exact le_trans hxy (hy z hz)
    · rename_i hxy
      have hyx : le (handle y) (handle x) := (le_total _ _).resolve_left hxy
      refine List.pairwise_cons.mpr ⟨fun z hz => ?_, ih hrest⟩
      rcases List.mem_cons.mp ((insertBy_perm handle x rest).mem_iff.mp hz) with rfl | hz
      · exact hyx
      · exact hy z hz

/-- Sorted items are in order. -/
theorem pairwise_sortBy (items : List α) :
    (sortBy handle items).Pairwise fun a b => le (handle a) (handle b) := by
  induction items with
  | nil => exact List.Pairwise.nil
  | cons x rest ih => exact pairwise_insertBy x ih

/-- Items that are renamed and keep their handles are sorted in the same way. -/
theorem sortBy_map {φ : α → α} (hφ : ∀ x, handle (φ x) = handle x) (items : List α) :
    (sortBy handle items).map φ = sortBy handle (items.map φ) := by
  have hinsert : ∀ (x : α) (items : List α),
      (insertBy handle x items).map φ = insertBy handle (φ x) (items.map φ) := by
    intro x items
    induction items with
    | nil => rfl
    | cons y rest ih =>
      rw [List.map_cons, insertBy, insertBy, hφ, hφ]
      split
      · rfl
      · rw [List.map_cons, ih]
  induction items with
  | nil => rfl
  | cons x rest ih =>
    rw [List.map_cons, sortBy, List.foldr_cons, hinsert]
    exact congrArg (insertBy handle (φ x)) ih

/-- What comes before all items is put in front of them. -/
theorem insertBy_eq_cons {x : α} {items : List α} (h : ∀ y ∈ items, le (handle x) (handle y)) :
    insertBy handle x items = x :: items := by
  cases items with
  | nil => rfl
  | cons y rest => rw [insertBy, if_pos (h y List.mem_cons_self)]

/-- Items that are left out are left out in the same way before and after one is put among them. -/
theorem filter_insertBy (p : α → Bool) (x : α) : ∀ {items : List α},
    (items.Pairwise fun a b => le (handle a) (handle b)) →
      (insertBy handle x items).filter p =
        if p x then insertBy handle x (items.filter p) else items.filter p
  | [], _ => List.filter_cons
  | y :: rest, h => by
    obtain ⟨hy, hrest⟩ := List.pairwise_cons.mp h
    rw [insertBy]
    split
    · rename_i hxy
      have hfirst : ∀ z ∈ (y :: rest).filter p, le (handle x) (handle z) := by
        intro z hz
        rcases List.mem_cons.mp (List.mem_filter.mp hz).1 with rfl | hz
        · exact hxy
        · exact le_trans hxy (hy z hz)
      rw [List.filter_cons, insertBy_eq_cons hfirst]
    · rename_i hxy
      rw [List.filter_cons, filter_insertBy p x hrest, List.filter_cons]
      by_cases hp : p y
      · rw [if_pos hp, if_pos hp, insertBy, if_neg hxy]
        split <;> rfl
      · rw [if_neg hp, if_neg hp]

/-- Sorting is stable: it does not matter whether items are left out before or after it. -/
theorem filter_sortBy (p : α → Bool) (items : List α) :
    (sortBy handle items).filter p = sortBy handle (items.filter p) := by
  induction items with
  | nil => rfl
  | cons x rest ih =>
    change (insertBy handle x (sortBy handle rest)).filter p = _
    rw [filter_insertBy p x (pairwise_sortBy rest), ih, List.filter_cons]
    split <;> rfl

/-- Items with one handle keep their order. -/
theorem filter_sortBy_handle (h : Option String) (items : List α) :
    (sortBy handle items).filter (fun x => handle x = h) = items.filter fun x => handle x = h := by
  have hsame : ∀ {part : List α}, (∀ x ∈ part, handle x = h) → sortBy handle part = part := by
    intro part hpart
    induction part with
    | nil => rfl
    | cons x rest ih =>
      obtain ⟨hx, hrest⟩ := List.forall_mem_cons.mp hpart
      change insertBy handle x (sortBy handle rest) = _
      rw [ih hrest]
      exact insertBy_eq_cons fun y hy => by rw [hx, hrest y hy]; exact (le_total h h).elim id id
  rw [filter_sortBy]
  exact hsame fun x hx => by simpa using (List.mem_filter.mp hx).2

/-- The given items in keypad order, those with one handle in the order they had. -/
structure IsSorting (handle : α → Option String) (items sorted : List α) : Prop where
  perm : sorted.Perm items
  inOrder : sorted.Pairwise fun a b => le (handle a) (handle b)
  stable : ∀ h, sorted.filter (fun x => handle x = h) = items.filter fun x => handle x = h

/-- Sorting puts items in keypad order, and those with one handle keep their order. -/
theorem isSorting_sortBy (items : List α) : IsSorting handle items (sortBy handle items) :=
  ⟨sortBy_perm handle items, pairwise_sortBy items, fun h => filter_sortBy_handle h items⟩

/-- Items with different handles have one order: what has these items and is in order is the sorted
list. -/
theorem eq_sortBy_of_perm {items sorted : List α} (hhandles : (items.map handle).Nodup)
    (hperm : sorted.Perm items)
    (hsorted : sorted.Pairwise fun a b => le (handle a) (handle b)) :
    sorted = sortBy handle items := by
  refine List.Perm.eq_of_pairwise ?_ hsorted (pairwise_sortBy items)
    (hperm.trans (sortBy_perm handle items).symm)
  intro a b ha hb hab hba
  exact List.inj_on_of_nodup_map hhandles (hperm.mem_iff.mp ha)
    ((sortBy_perm handle items).mem_iff.mp hb) (le_antisymm hab hba)

end CallFlow.Keypad
