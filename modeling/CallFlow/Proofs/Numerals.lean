import CallFlow.Number.Shortest
import Mathlib.Data.List.TakeWhile
import Mathlib.Tactic.Push

/-!
# Numerals

A whole number is what its decimal digits stand for (`Text.natOfDigits_digits`), so different
numbers have different digits (`Text.digits_injective`), and the numbers that are too long to be
written are those from a power of ten on (`Text.isTooLong_iff`). The text of a number is never
empty: a number has a digit, and one that is not zero has a digit other than `0`, which no trimming
of zeros takes away (`Decimal.render_ne_nil`).
-/

namespace CallFlow

-- powers mean the same whether or not an algebra library is imported
attribute [local instance (high)] instPowNat

namespace Text

/-- What digits stand for is what the library says. -/
theorem natOfDigits_eq_ofDigitChars (cs : List Char) :
    natOfDigits cs = Nat.ofDigitChars 10 cs 0 := by
  unfold natOfDigits valueOfDigits
  rw [Nat.ofDigitChars_eq_foldl]
  congr 1
  funext n c
  rw [Nat.mul_comm]
  rfl

/-- The digits of a number stand for it. -/
theorem natOfDigits_digits (n : Nat) : natOfDigits (digits n) = n := by
  rw [natOfDigits_eq_ofDigitChars]
  exact Nat.ofDigitChars_ten_toDigits

/-- Different numbers have different digits. -/
theorem digits_injective {m n : Nat} (h : digits m = digits n) : m = n := by
  rw [← natOfDigits_digits m, h, natOfDigits_digits]

/-- A number is too long to be written exactly from a power of ten on. -/
theorem isTooLong_iff (n : Int) : isTooLong n ↔ 10 ^ digitLimit ≤ n.natAbs := by
  have hlength : (Nat.toDigits 10 n.natAbs).length ≤ digitLimit ↔ n.natAbs < 10 ^ digitLimit :=
    Nat.length_toDigits_le_iff (by decide) (by decide)
  unfold isTooLong digits
  rw [decide_eq_true_eq, ← not_le, hlength, not_lt]

/-- A number has a digit. -/
theorem digits_ne_nil (n : Nat) : digits n ≠ [] := Nat.toDigits_ne_nil

/-- A number that is not zero has a digit that is not zero. -/
theorem exists_mem_digits_ne_zero {n : Nat} (h : n ≠ 0) : ∃ c ∈ digits n, c ≠ '0' := by
  by_contra hzero
  push Not at hzero
  have hzeros : digits n = List.replicate (digits n).length '0' :=
    List.eq_replicate_of_mem hzero
  have hvalue := natOfDigits_digits n
  rw [hzeros, natOfDigits_eq_ofDigitChars, Nat.ofDigitChars_replicate_zero, Nat.mul_zero] at hvalue
  exact h hvalue.symm

/-- The text of a whole number is not empty. -/
theorem ofInt_ne_empty (n : Int) : ofInt n ≠ "" := by
  cases n with
  | ofNat n =>
    intro h
    exact digits_ne_nil n (String.ofList_eq_empty_iff.mp h)
  | negSucc n =>
    intro h
    exact List.cons_ne_nil _ _ (String.ofList_eq_empty_iff.mp h)

end Text

namespace Decimal

open Text

/-- Digits that are not all zeros are not all dropped. -/
theorem significantDigits_ne_nil {d : Decimal} (h : d.significand ≠ 0) :
    d.significantDigits ≠ [] := by
  obtain ⟨c, hc, hne⟩ := exists_mem_digits_ne_zero h
  unfold significantDigits
  intro hnil
  rw [List.reverse_eq_nil_iff, List.dropWhile_eq_nil_iff] at hnil
  exact hne (by simpa using hnil c (List.mem_reverse.mpr hc))

/-- Nor is that of a decimal. -/
theorem render_ne_nil (d : Decimal) : d.render ≠ [] := by
  unfold render
  dsimp only
  split
  · simp
  · rename_i hsignificand
    have hdigits := significantDigits_ne_nil hsignificand
    split
    · split
      · rename_i hnil
        exact absurd hnil hdigits
      · simp
      · simp
    · split
      · simp
      · split <;> simp

end Decimal

/-- Nor is that of a double-precision number. -/
theorem Binary64.text_ne_empty (x : Binary64) : x.text ≠ "" := by
  unfold text renderWith
  split
  · decide
  · split
    · rename_i rank _
      intro h
      have hnil := String.ofList_eq_empty_iff.mp h
      split at hnil
      · cases hnil
      · exact Decimal.render_ne_nil _ hnil
    · split <;> decide

end CallFlow
