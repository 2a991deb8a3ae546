import CallFlow.Proofs.KeypadOrder
import Mathlib.Order.RelIso.Basic

/-!
# The order of handles

Keypad order compares the places of handles. `Keypad.Before` says the same of the handles
themselves, without a place: what has no handle comes first, then the numbers by their values, where
zero counts as ten and texts decide between equal values, then the star, then the hash, and at last
all others by the code points of their characters.

* `Keypad.before_iff`: one handle comes before another exactly if its place does.
* `Keypad.strictTotalOrder_before`: of two different handles one comes before the other, and never
  both.
* `Keypad.one_order`: items with different handles can be put in this order in one way only, so it
  does not matter in which order they are given to be sorted.
-/

namespace CallFlow.Keypad

open Text

/-! ## What comes before what -/

/-- The value of a number in keypad order, where zero counts as ten. -/
def value (h : String) : Nat := if natOfDigits h.toList = 0 then 10 else natOfDigits h.toList

/-- The code points of the characters of a text. -/
def codePoints (s : String) : List Nat := s.toList.map Char.toNat

/-- A handle that is no number and none of the two other keys. -/
structure IsOther (h : String) : Prop where
  notNumber : ¬ isNumber h
  notStar : h ≠ "*"
  notHash : h ≠ "#"

/-- One handle comes before another. -/
inductive Before : Option String → Option String → Prop where
  | noHandle (b : String) : Before none (some b)
  | smaller {a b : String} (ha : isNumber a) (hb : isNumber b) (h : value a < value b) :
      Before (some a) (some b)
  /-- Numbers of one value are in the order of their texts. -/
  | equal {a b : String} (ha : isNumber a) (hb : isNumber b) (hvalue : value a = value b)
      (h : codePoints a < codePoints b) : Before (some a) (some b)
  /-- A number comes before all that is no number. -/
  | number {a b : String} (ha : isNumber a) (hb : ¬ isNumber b) : Before (some a) (some b)
  | star {b : String} (hb : ¬ isNumber b) (hstar : b ≠ "*") : Before (some "*") (some b)
  | hash {b : String} (hb : IsOther b) : Before (some "#") (some b)
  | other {a b : String} (ha : IsOther a) (hb : IsOther b) (h : codePoints a < codePoints b) :
      Before (some a) (some b)

/-- Texts are ordered by the code points of their characters. -/
theorem lt_iff_codePoints {a b : String} : a < b ↔ codePoints a < codePoints b := by
  have hchars : ∀ cs ds : List Char, cs < ds ↔ cs.map Char.toNat < ds.map Char.toNat := by
    intro cs
    induction cs with
    | nil => intro ds; cases ds <;> simp
    | cons c cs ih =>
      intro ds
      cases ds with
      | nil => simp
      | cons d ds =>
        rw [List.map_cons, List.map_cons, List.cons_lt_cons_iff, List.cons_lt_cons_iff, ih ds,
          Char.toNat_inj]
        rfl
  rw [String.lt_iff_toList_lt]
  exact hchars a.toList b.toList

/-- Texts are in order by their characters, one way or the other. -/
theorem codePoints_trichotomous (a b : String) :
    codePoints a < codePoints b ∨ a = b ∨ codePoints b < codePoints a := by
  rw [← lt_iff_codePoints, ← lt_iff_codePoints]
  exact lt_trichotomy a b

/-- Of two different numbers one comes before the other, by its value or by its text. -/
theorem trichotomous_of_isNumber {a b : String} (ha : isNumber a) (hb : isNumber b) :
    Before (some a) (some b) ∨ a = b ∨ Before (some b) (some a) := by
  rcases lt_trichotomy (value a) (value b) with h | hvalue | h
  · exact .inl (.smaller ha hb h)
  · rcases codePoints_trichotomous a b with h | rfl | h
    · exact .inl (.equal ha hb hvalue h)
    · exact .inr (.inl rfl)
    · exact .inr (.inr (.equal hb ha hvalue.symm h))
  · exact .inr (.inr (.smaller hb ha h))

/-- Of two different handles that are no numbers one comes before the other: the star before all,
then the hash. -/
theorem trichotomous_of_not_isNumber {a b : String} (ha : ¬ isNumber a) (hb : ¬ isNumber b) :
    Before (some a) (some b) ∨ a = b ∨ Before (some b) (some a) := by
  by_cases hab : a = b
  · exact .inr (.inl hab)
  by_cases hstar : a = "*"
  · subst hstar
    exact .inl (.star hb (Ne.symm hab))
  by_cases hstar' : b = "*"
  · subst hstar'
    exact .inr (.inr (.star ha hab))
  by_cases hhash : a = "#"
  · subst hhash
    exact .inl (.hash ⟨hb, hstar', Ne.symm hab⟩)
  by_cases hhash' : b = "#"
  · subst hhash'
    exact .inr (.inr (.hash ⟨ha, hstar, hab⟩))
  have hother : IsOther a := ⟨ha, hstar, hhash⟩
  have hother' : IsOther b := ⟨hb, hstar', hhash'⟩
  exact (codePoints_trichotomous a b).imp (.other hother hother') (Or.imp id (.other hother' hother))

/-- Of two different handles one comes before the other. -/
theorem before_trichotomous : ∀ a b : Option String, Before a b ∨ a = b ∨ Before b a
  | none, none => .inr (.inl rfl)
  | none, some b => .inl (.noHandle b)
  | some a, none => .inr (.inr (.noHandle a))
  | some a, some b => by
    rw [Option.some.injEq]
    by_cases ha : isNumber a
    · by_cases hb : isNumber b
      · exact trichotomous_of_isNumber ha hb
      · exact .inl (.number ha hb)
    · by_cases hb : isNumber b
      · exact .inr (.inr (.number hb ha))
      · exact trichotomous_of_not_isNumber ha hb

/-! ## Places -/

/-- Places are compared by their groups, then by their numbers, then by their texts. -/
theorem Rank.key_lt_iff {a b : Rank} : a.key < b.key ↔ a.group < b.group ∨
    a.group = b.group ∧ (a.number < b.number ∨ a.number = b.number ∧ a.text < b.text) := by
  simp only [Rank.key, Prod.Lex.toLex_lt_toLex]

/-- The place of a number is among the numbers, by its value. -/
theorem rank_of_isNumber {h : String} (hn : isNumber h) : rank (some h) = ⟨1, value h, h⟩ := by
  rw [rank, if_pos hn]
  rfl

/-- The place of another text is behind all of these. -/
theorem rank_of_isOther {h : String} (ho : IsOther h) : rank (some h) = ⟨3, 0, h⟩ := by
  rw [rank, if_neg ho.notNumber, if_neg ho.notStar, if_neg ho.notHash]

/-- The place of the star is behind the numbers. -/
theorem rank_star : rank (some "*") = ⟨2, 0, "*"⟩ := rfl

/-- That of the hash is behind the star. -/
theorem rank_hash : rank (some "#") = ⟨2, 1, "#"⟩ := rfl

/-- What is no number has its place behind the numbers, and behind the star if it is another. -/
theorem key_lt_of_not_isNumber {h : String} (hn : ¬ isNumber h) :
    1 < (rank (some h)).group ∧ (h ≠ "*" → (rank (some "*")).key < (rank (some h)).key) := by
  by_cases hstar : h = "*"
  · exact ⟨by rw [hstar]; decide, fun hne => absurd hstar hne⟩
  by_cases hhash : h = "#"
  · rw [hhash]
    exact ⟨by decide, fun _ => Rank.key_lt_iff.mpr (by decide)⟩
  rw [rank_of_isOther ⟨hn, hstar, hhash⟩, rank_star, Rank.key_lt_iff]
  exact ⟨(by decide : 1 < 3), fun _ => .inl (by decide : 2 < 3)⟩

/-- What comes before another handle has its place before the other one's. -/
theorem Before.key_lt {a b : Option String} (h : Before a b) : (rank a).key < (rank b).key := by
  cases h with
  | noHandle b => exact Rank.key_lt_iff.mpr (.inl (Nat.pos_of_ne_zero (rank_some b).2))
  | smaller ha hb h =>
    rw [rank_of_isNumber ha, rank_of_isNumber hb]
    exact Rank.key_lt_iff.mpr (.inr ⟨rfl, .inl h⟩)
  | equal ha hb hvalue h =>
    rw [rank_of_isNumber ha, rank_of_isNumber hb]
    exact Rank.key_lt_iff.mpr (.inr ⟨rfl, .inr ⟨hvalue, lt_iff_codePoints.mpr h⟩⟩)
  | number ha hb =>
    rw [rank_of_isNumber ha]
    exact Rank.key_lt_iff.mpr (.inl (key_lt_of_not_isNumber hb).1)
  | star hb hstar => exact (key_lt_of_not_isNumber hb).2 hstar
  | hash hb =>
    rw [rank_hash, rank_of_isOther hb]
    exact Rank.key_lt_iff.mpr (.inl (by decide : 2 < 3))
  | other ha hb h =>
    rw [rank_of_isOther ha, rank_of_isOther hb]
    exact Rank.key_lt_iff.mpr (.inr ⟨rfl, .inr ⟨rfl, lt_iff_codePoints.mpr h⟩⟩)

/-- One handle comes before another exactly if its place does. -/
theorem before_iff {a b : Option String} : Before a b ↔ (rank a).key < (rank b).key := by
  refine ⟨Before.key_lt, fun h => ?_⟩
  rcases before_trichotomous a b with hab | rfl | hba
  · exact hab
  · exact absurd h (lt_irrefl _)
  · exact absurd h hba.key_lt.asymm

/-- In keypad order a handle is not behind another exactly if it is the same or comes before it. -/
theorem le_iff_before {a b : Option String} : le a b ↔ a = b ∨ Before a b := by
  rw [le_iff, before_iff, le_iff_eq_or_lt, Rank.key_injective.eq_iff, rank_injective.eq_iff]

/-- Keypad order is a strict total order. -/
instance strictTotalOrder_before : IsStrictTotalOrder (Option String) Before :=
  RelEmbedding.isStrictTotalOrder
    (⟨⟨fun h => (rank h).key, Rank.key_injective.comp rank_injective⟩, before_iff.symm⟩ :
      Before ↪r ((· < ·) : Nat ×ₗ Nat ×ₗ String → Nat ×ₗ Nat ×ₗ String → Prop))

/-! ## Sorting -/

variable {α : Type} {handle : α → Option String}

/-- Items with different handles are in order exactly if each comes before those behind it. -/
theorem pairwise_before {items : List α} (hhandles : (items.map handle).Nodup)
    (h : items.Pairwise fun a b => le (handle a) (handle b)) :
    items.Pairwise fun a b => Before (handle a) (handle b) := by
  have hne : items.Pairwise fun a b => handle a ≠ handle b := List.pairwise_map.mp hhandles
  exact (h.and hne).imp fun hab => (le_iff_before.mp hab.1).resolve_left hab.2

/-- **Handles have one order.** Different handles have different places, and keypad order is a
strict total order: a handle has its place before that of another exactly if it comes before the
other. Items are sorted exactly if none of their handles is a number that is too long. Items with
different handles can be put in order in one way only, and this is how they are sorted, whatever the
order in which they are given. -/
theorem one_order :
    Function.Injective rank ∧
    IsStrictTotalOrder (Option String) Before ∧
    (∀ a b, le a b ↔ a = b ∨ Before a b) ∧
    ∀ (α : Type) (handle : α → Option String) (items : List α),
      ((∃ sorted, sortBy? handle items = some sorted) ↔ ∀ x ∈ items, ¬ isTooLong (handle x)) ∧
      ((∀ x ∈ items, ¬ isTooLong (handle x)) → (items.map handle).Nodup →
        ∃ sorted : List α,
          (∀ listed : List α, listed = sorted ↔
            listed.Perm items ∧ listed.Pairwise fun a b => Before (handle a) (handle b)) ∧
          ∀ given : List α, given.Perm items → sortBy? handle given = some sorted) := by
  refine ⟨rank_injective, strictTotalOrder_before, fun _ _ => le_iff_before,
    fun α handle items => ⟨exists_sortBy?_iff, fun hshort hhandles => ?_⟩⟩
  refine ⟨sortBy handle items, fun listed => ⟨?_, ?_⟩, fun given hgiven => ?_⟩
  · rintro rfl
    have hperm := sortBy_perm handle items
    have hnodup := (hperm.map handle).nodup_iff.mpr hhandles
    exact ⟨hperm, pairwise_before hnodup (pairwise_sortBy items)⟩
  · rintro ⟨hperm, hsorted⟩
    exact eq_sortBy_of_perm hhandles hperm (hsorted.imp fun h => le_iff_before.mpr (.inr h))
  · rw [sortBy?_of_short fun x hx => hshort x (hgiven.mem_iff.mp hx)]
    exact congrArg some (eq_sortBy_of_perm hhandles ((sortBy_perm handle given).trans hgiven)
      (pairwise_sortBy given))

/-- Handles of all kinds, among them numbers of one value and digits of other scripts. -/
def mixed : List (Option String) :=
  [some "10", some "#", some "x", some "٣", none, some "0", some "*", some "", some "010", some "9"]

/-- They are sorted in one way, forwards and backwards. -/
theorem one_order_mixed :
    (∀ x ∈ mixed, ¬ isTooLong (id x)) ∧ (mixed.map id).Nodup ∧
    ∃ sorted, sorted = [none, some "9", some "0", some "010", some "10", some "*", some "#", some "",
        some "x", some "٣"] ∧
      sorted.Pairwise Before ∧ sortBy? id mixed = some sorted ∧
      sortBy? id mixed.reverse = some sorted := by
  have hshort : ∀ x ∈ mixed, ¬ isTooLong (id x) := by decide +kernel
  have hnodup : (mixed.map id).Nodup := by decide
  obtain ⟨-, -, -, hsort⟩ := one_order
  obtain ⟨sorted, hunique, hgiven⟩ := (hsort _ id mixed).2 hshort hnodup
  have hforwards := hgiven mixed (List.Perm.refl _)
  refine ⟨hshort, hnodup, sorted, ?_, ((hunique sorted).mp rfl).2, hforwards,
    hgiven mixed.reverse mixed.reverse_perm⟩
  have hlisted : sortBy? id mixed = some [none, some "9", some "0", some "010", some "10", some "*",
      some "#", some "", some "x", some "٣"] := by decide +kernel
  exact Option.some.inj (hforwards.symm.trans hlisted)

end CallFlow.Keypad
