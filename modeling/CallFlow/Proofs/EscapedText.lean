import CallFlow.Json.Reader
import CallFlow.Json.Writer
import CallFlow.Proofs.Numerals

/-!
# Escaped texts

A text that is written with JSON escapes is read back from its characters. A character is written as
itself, as a short escape, or as the escape of its code, which is two units for a character beyond
the first plane (`Json.readText_writeChar`); a text is its characters, one after the other, up to
the closing quote (`Json.readText_flatMap`).
-/

namespace CallFlow

-- powers mean the same whether or not an algebra library is imported
attribute [local instance (high)] instPowNat

/-! ## Hexadecimal digits -/

namespace Text

/-- The value of a hexadecimal digit. -/
theorem hexValue?_digitChar {d : Nat} (h : d < 16) : hexValue? (Nat.digitChar d) = some d := by
  revert d
  decide

/-- One digit more adds its value to sixteen times the value of the others. -/
theorem hex?_append_singleton (cs : List Char) (c : Char) :
    hex? (cs ++ [c]) = (hex? cs).bind fun n => (hexValue? c).map (n * 16 + ·) := by
  unfold hex?
  rw [List.foldlM_append]
  simp [bind]

/-- The hexadecimal digits of a number stand for it. -/
theorem hex?_toDigits (n : Nat) : hex? (Nat.toDigits 16 n) = some n := by
  induction n using Nat.strong_induction_on with
  | _ n ih =>
    by_cases hsmall : n < 16
    · rw [Nat.toDigits_of_lt_base hsmall]
      simp [hex?, hexValue?_digitChar hsmall]
    · rw [Nat.toDigits_of_base_le (by decide) (Nat.le_of_not_lt hsmall), hex?_append_singleton,
        ih (n / 16) (by omega), Option.bind_some, hexValue?_digitChar (Nat.mod_lt _ (by decide))]
      exact congrArg some (Nat.div_add_mod' n 16)

/-- Zeros in front of digits do not count. -/
theorem hex?_zeros_append (k : Nat) (cs : List Char) :
    hex? (List.replicate k '0' ++ cs) = hex? cs := by
  induction k with
  | zero => rfl
  | succ k ih => exact ih

/-- A number of at most sixteen bits has four hexadecimal digits. -/
theorem exists_hex_four {n : Nat} (h : n < 0x10000) :
    ∃ a b c d, hex 4 n = [a, b, c, d] ∧ hex? [a, b, c, d] = some n := by
  have hlength : (Nat.toDigits 16 n).length ≤ 4 :=
    (Nat.length_toDigits_le_iff (by decide) (by decide)).mpr h
  have hfour : (hex 4 n).length = 4 := by
    unfold hex
    rw [List.length_append, List.length_replicate]
    omega
  have hvalue : hex? (hex 4 n) = some n := by
    unfold hex
    rw [hex?_zeros_append, hex?_toDigits]
  match hdigits : hex 4 n, hfour with
  | [a, b, c, d], _ => exact ⟨a, b, c, d, rfl, hdigits ▸ hvalue⟩

end Text

namespace Json

open Text

/-! ## Texts -/

/-- A unit that is no half of a pair. -/
def IsWholeUnit (n : Nat) : Prop := n < 0x10000 ∧ isHighHalf n = false ∧ isLowHalf n = false

/-- A unit that is no half of a pair is a character. -/
theorem isWholeUnit_of_not_half {n : Nat} (h : n < 0x10000) (hhalf : n < 0xD800 ∨ 0xE000 ≤ n) :
    IsWholeUnit n := by
  simp only [IsWholeUnit, isHighHalf, isLowHalf, Bool.and_eq_false_iff, decide_eq_false_iff_not]
  omega

/-- The first half of a pair is one by its range. -/
theorem isHighHalf_add {high : Nat} (h : high < 0x400) : isHighHalf (0xD800 + high) = true := by
  simp only [isHighHalf, Bool.and_eq_true, decide_eq_true_eq]
  omega

/-- The second half of a pair is one by its range. -/
theorem isLowHalf_add {low : Nat} (h : low < 0x400) : isLowHalf (0xDC00 + low) = true := by
  simp only [isLowHalf, Bool.and_eq_true, decide_eq_true_eq]
  omega

/-- The escape of a unit that is no half of a pair stands for its character. -/
theorem readText_unit {n : Nat} (h : IsWholeUnit n) (rest : List Char) :
    readText ('\\' :: 'u' :: hex 4 n ++ rest) = prepend (Char.ofNat n) (readText rest) := by
  obtain ⟨hplane, hhigh, hlow⟩ := h
  obtain ⟨a, b, c, d, hdigits, hvalue⟩ := exists_hex_four hplane
  rw [hdigits]
  simp only [List.cons_append, List.nil_append]
  rw [readText, hvalue]
  simp [hhigh, hlow]

/-- The escapes of the halves of a pair stand for its character. -/
theorem readText_pair {high low : Nat} (hhigh : high < 0x400) (hlow : low < 0x400)
    (rest : List Char) :
    readText ('\\' :: 'u' :: hex 4 (0xD800 + high) ++
        '\\' :: 'u' :: hex 4 (0xDC00 + low) ++ rest) =
      prepend (Char.ofNat (0x10000 + high * 0x400 + low)) (readText rest) := by
  obtain ⟨a, b, c, d, hdigits, hvalue⟩ := exists_hex_four (n := 0xD800 + high) (by omega)
  obtain ⟨a', b', c', d', hdigits', hvalue'⟩ := exists_hex_four (n := 0xDC00 + low) (by omega)
  rw [hdigits, hdigits']
  simp only [List.cons_append, List.nil_append]
  rw [readText, hvalue]
  simp [hvalue', isHighHalf_add hhigh, isLowHalf_add hlow, ofPair]

/-- A character is neither half of a pair of units. -/
theorem toNat_not_half (c : Char) : c.toNat < 0xD800 ∨ 0xE000 ≤ c.toNat := by
  rcases c.valid with h | h
  · exact .inl h
  · exact .inr h.1

/-- The escape of a character by its code stands for it. -/
theorem readText_codeEscape (c : Char) (rest : List Char) :
    readText (codeEscape c.toNat ++ rest) = prepend c (readText rest) := by
  unfold codeEscape
  split
  · rename_i hplane
    rw [readText_unit (isWholeUnit_of_not_half hplane (toNat_not_half c)), Char.ofNat_toNat]
  · rename_i hplane
    have hbound : c.toNat < 0x110000 := by
      rcases c.valid with h | h
      · exact Nat.lt_trans h (by decide)
      · exact h.2
    rw [readText_pair (by omega) (by omega)]
    have hsum : 0x10000 + (c.toNat - 0x10000) / 0x400 * 0x400 + (c.toNat - 0x10000) % 0x400 =
        c.toNat := by omega
    rw [hsum, Char.ofNat_toNat]

/-- A character that has no short escape and is not a control character stands for itself. -/
theorem readText_plain {c : Char} (hshort : shortEscape? c = none) (hprinted : ¬ c.toNat < 0x20)
    (rest : List Char) : readText (c :: rest) = prepend c (readText rest) := by
  have hquote : c ≠ '"' := by
    rintro rfl
    cases hshort
  have hslash : c ≠ '\\' := by
    rintro rfl
    cases hshort
  rw [readText]
  · rw [if_neg (not_or.mpr ⟨hslash, hprinted⟩)]
  all_goals simp [hquote, hslash]

/-- A short escape is read as the character that it stands for. -/
theorem readText_shortEscape {c e : Char} (h : shortEscape? c = some e) (rest : List Char) :
    readText ('\\' :: e :: rest) = prepend c (readText rest) := by
  unfold shortEscape? at h
  split at h <;> cases h
  all_goals
    rw [readText]
    · rfl
    · simp

/-- A character is read back from what it is written as. -/
theorem readText_writeChar (asciiOnly : Bool) (c : Char) (rest : List Char) :
    readText (writeChar asciiOnly c ++ rest) = prepend c (readText rest) := by
  unfold writeChar
  split
  · rename_i hshort
    exact readText_shortEscape hshort rest
  · rename_i hshort
    split
    · exact readText_codeEscape c rest
    · rename_i hplain
      refine readText_plain hshort (fun hcontrol => hplain ?_) rest
      simp [hcontrol]

/-- A text is read back from its characters and the closing quote. -/
theorem readText_flatMap (asciiOnly : Bool) (cs rest : List Char) :
    readText (cs.flatMap (writeChar asciiOnly) ++ '"' :: rest) = .ok (cs, rest) := by
  induction cs with
  | nil => rw [List.flatMap_nil, List.nil_append, readText]
  | cons c cs ih =>
    rw [List.flatMap_cons, List.append_assoc, readText_writeChar, ih]
    rfl

end Json

end CallFlow
