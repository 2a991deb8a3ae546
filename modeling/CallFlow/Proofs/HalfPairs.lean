import CallFlow.Proofs.EscapedText
import CallFlow.Proofs.NumberText

/-!
# Halves of pairs

A character beyond the first plane is escaped as a pair of units, and no half of such a pair stands
alone in a text that is written, so a reader has no reason to set the text aside.

* `Json.Paired`: looking for halves of pairs, one passes over the whole of a text.
* `Json.paired_writeChar`: what is written of a character is passed over, also as an escape.
* `Json.paired_writeValue`: from there it is the same for every value, by induction on its structure.
* `Json.hasHalfPair_writeValue`: so there is no half of a pair in what is written of a value.
-/

namespace CallFlow

/-! ## Characters of numbers -/

namespace Decimal

open Text

/-- The significant digits of a decimal are digits. -/
theorem isDigit_of_mem_significantDigits {d : Decimal} {c : Char} (h : c ∈ d.significantDigits) :
    isDigit c = true := by
  obtain ⟨k, hk⟩ := d.exists_zeros
  exact isDigit_of_mem_digits (n := d.significand) (hk ▸ List.mem_append_left _ h)

/-- A digit, a point, or a character of an exponent. -/
def isPart (c : Char) : Bool := isDigit c || c ∈ ['.', 'e', '+', '-']

/-- The digits of a number are among its characters. -/
theorem isPart_of_isDigit {c : Char} (h : isDigit c = true) : isPart c := by
  simp [isPart, h]

/-- An exponent is written with a letter, a sign and digits. -/
theorem isPart_of_mem_exponentText (e : Int) : ∀ c ∈ exponentText e, isPart c := by
  refine List.forall_mem_cons.mpr ⟨by decide, List.forall_mem_cons.mpr ⟨?_, fun c hc => ?_⟩⟩
  · split <;> decide
  · exact isPart_of_isDigit ((toList_twoDigits e.natAbs).2.1 c hc)

/-- A decimal is written with digits, a point, and the characters of an exponent. -/
theorem isPart_of_mem_render (d : Decimal) : ∀ c ∈ d.render, isPart c := by
  have hdigits : ∀ c ∈ d.significantDigits, isPart c :=
    fun _ hc => isPart_of_isDigit (isDigit_of_mem_significantDigits hc)
  have hzero : isPart '0' := by decide
  have hpoint : isPart '.' := by decide
  unfold render
  dsimp only
  split
  · simp [hzero, hpoint]
  · split
    · -- one digit before the point, and an exponent
      have hexponent := isPart_of_mem_exponentText (d.pointPlace - 1)
      split
      · simp
      · rename_i c hc
        rw [hc] at hdigits
        exact List.forall_mem_cons.mpr ⟨hdigits c List.mem_cons_self, hexponent⟩
      · rename_i c r _ hc
        rw [hc] at hdigits
        obtain ⟨hfirst, hrest⟩ := List.forall_mem_cons.mp hdigits
        exact List.forall_mem_cons.mpr ⟨hfirst, List.forall_mem_cons.mpr ⟨hpoint,
          List.forall_mem_append.mpr ⟨hrest, hexponent⟩⟩⟩
    · -- digits and a point, with zeros where they are needed
      split
      · simpa [or_imp, forall_and, hpoint, hzero] using hdigits
      · split
        · simpa [or_imp, forall_and, hpoint, hzero] using hdigits
        · have htake : ∀ c ∈ d.significantDigits.take d.pointPlace.toNat, isPart c :=
            fun c hc => hdigits c (List.mem_of_mem_take hc)
          have hdrop : ∀ c ∈ d.significantDigits.drop d.pointPlace.toNat, isPart c :=
            fun c hc => hdigits c (List.mem_of_mem_drop hc)
          simpa [or_imp, forall_and, hpoint] using ⟨htake, hdrop⟩

end Decimal

namespace Json

open Text

/-- The text of a scalar that is not a text has no backslash. -/
theorem backslash_not_mem_bareScalar {s : Scalar} (htext : ∀ t, s ≠ .text t) :
    '\\' ∉ (bareScalar s).toList := by
  have hdigits : ∀ n, '\\' ∉ digits n := fun n h => absurd (isDigit_of_mem_digits h) (by decide)
  have hrender : ∀ d : Decimal, '\\' ∉ d.render := by
    intro d h
    exact absurd (d.isPart_of_mem_render _ h) (by decide)
  cases s with
  | text t => exact absurd rfl (htext t)
  | null => decide
  | bool b => cases b <;> decide
  | int n => cases n <;> simp [bareScalar, ofInt, hdigits]
  | float x =>
    cases x with
    | nan => decide
    | signed negative rank =>
      unfold bareScalar writeFloat Binary64.renderWith
      dsimp only
      split
      · cases negative <;> simp [hrender]
      · cases negative <;> decide

/-! ## What is passed over -/

/-- Looking for halves of pairs, one passes over the whole of some characters. -/
def Paired (cs : List Char) : Prop := ∀ rest, hasHalfPair (cs ++ rest) = hasHalfPair rest

/-- Nothing is half of a pair in an empty text. -/
theorem paired_nil : Paired [] := fun _ => rfl

/-- Two texts whose pairs are whole make one, because a pair does not go from one to the other. -/
theorem Paired.append {cs ds : List Char} (hcs : Paired cs) (hds : Paired ds) :
    Paired (cs ++ ds) := by
  intro rest
  rw [List.append_assoc, hcs, hds]

/-- Every character but the backslash is passed over. -/
theorem hasHalfPair_cons {c : Char} (h : c ≠ '\\') (rest : List Char) :
    hasHalfPair (c :: rest) = hasHalfPair rest := by
  rw [hasHalfPair]
  all_goals simp [h]

/-- Characters without a backslash are passed over. -/
theorem paired_of_not_mem {l : List Char} (h : '\\' ∉ l) : Paired l := by
  induction l with
  | nil => exact paired_nil
  | cons c l ih =>
    rw [List.mem_cons, not_or] at h
    intro rest
    rw [List.cons_append, hasHalfPair_cons (Ne.symm h.1), ih h.2]

/-! ## Characters and texts -/

/-- A short escape is no unit. -/
theorem paired_shortEscape {c e : Char} (h : shortEscape? c = some e) : Paired ['\\', e] := by
  intro rest
  have hunit : e ≠ 'u' := by
    rintro rfl
    unfold shortEscape? at h
    split at h <;> cases h
  rw [List.cons_append, List.cons_append, List.nil_append, hasHalfPair]
  simp [hunit]

/-- The escape of a unit that is no half of a pair is passed over. -/
theorem paired_unit {n : Nat} (h : IsWholeUnit n) : Paired ('\\' :: 'u' :: hex 4 n) := by
  intro rest
  obtain ⟨hplane, hhigh, hlow⟩ := h
  obtain ⟨a, b, c, d, hdigits, hvalue⟩ := exists_hex_four hplane
  rw [hdigits]
  simp only [List.cons_append, List.nil_append]
  rw [hasHalfPair.eq_def]
  simp only [hvalue, hhigh, hlow, Bool.false_eq_true, if_false, Bool.false_or]

/-- The escapes of both halves of a pair are passed over together. -/
theorem paired_pair {high low : Nat} (hhigh : high < 0x400) (hlow : low < 0x400) :
    Paired ('\\' :: 'u' :: hex 4 (0xD800 + high) ++ '\\' :: 'u' :: hex 4 (0xDC00 + low)) := by
  intro rest
  obtain ⟨a, b, c, d, hdigits, hvalue⟩ := exists_hex_four (n := 0xD800 + high) (by omega)
  obtain ⟨a', b', c', d', hdigits', hvalue'⟩ := exists_hex_four (n := 0xDC00 + low) (by omega)
  rw [hdigits, hdigits']
  simp only [List.cons_append, List.nil_append]
  rw [hasHalfPair.eq_def]
  simp only [hvalue, hvalue', isHighHalf_add hhigh, isLowHalf_add hlow, if_true, Option.any_some,
    Bool.not_true, Bool.false_or]

/-- The escape of a character by its code is one unit, or a pair. -/
theorem paired_codeEscape (c : Char) : Paired (codeEscape c.toNat) := by
  unfold codeEscape
  split
  · rename_i hplane
    exact paired_unit (isWholeUnit_of_not_half hplane (toNat_not_half c))
  · rename_i hplane
    have hbound : c.toNat < 0x110000 := by
      rcases c.valid with h | h
      · exact Nat.lt_trans h (by decide)
      · exact h.2
    exact paired_pair (by omega) (by omega)

/-- What is written of a character is passed over. -/
theorem paired_writeChar (asciiOnly : Bool) (c : Char) : Paired (writeChar asciiOnly c) := by
  unfold writeChar
  split
  · rename_i hshort
    exact paired_shortEscape hshort
  · rename_i hshort
    split
    · exact paired_codeEscape c
    · refine paired_of_not_mem fun hmem => ?_
      obtain rfl := List.mem_singleton.mp hmem
      cases hshort

/-- A text is written with its pairs whole, whether or not other characters are escaped. -/
theorem paired_writeText (asciiOnly : Bool) (s : String) : Paired (writeText asciiOnly s) := by
  have hchars : ∀ cs : List Char, Paired (cs.flatMap (writeChar asciiOnly)) := by
    intro cs
    induction cs with
    | nil => exact paired_nil
    | cons c cs ih =>
      rw [List.flatMap_cons]
      exact (paired_writeChar asciiOnly c).append ih
  have hquote : Paired ['"'] := paired_of_not_mem (by decide)
  exact hquote.append ((hchars s.toList).append hquote)

/-! ## Values -/

/-- So is a scalar. -/
theorem paired_writeScalar (style : Style) (s : Scalar) : Paired (writeScalar style s) := by
  cases s with
  | text t => exact paired_writeText _ t
  | null | bool b | int n | float x =>
    exact paired_of_not_mem (backslash_not_mem_bareScalar (by simp))

/-- A line break and the indent behind it hold no escape. -/
theorem paired_lineBreak (style : Style) (level : Nat) : Paired (lineBreak style level) := by
  refine paired_of_not_mem ?_
  unfold lineBreak
  split <;> simp

/-- Nor does what stands between entries. -/
theorem paired_entrySeparator (style : Style) (level : Nat) :
    Paired (entrySeparator style level) := by
  unfold entrySeparator
  split
  · exact (paired_of_not_mem (l := [',']) (by decide)).append (paired_lineBreak style level)
  · exact paired_of_not_mem (by decide)

/-- Nor does what stands behind a key. -/
theorem paired_keySeparator (style : Style) : Paired (keySeparator style) := by
  unfold keySeparator
  split <;> exact paired_of_not_mem (by decide)

/-- A key and its value are passed over if the value is. -/
theorem paired_member (style : Style) (k : Scalar) {cs : List Char} (h : Paired cs) :
    Paired (writeText style.asciiOnly (bareScalar k) ++ keySeparator style ++ cs) :=
  ((paired_writeText _ _).append (paired_keySeparator style)).append h

/-- What stands between brackets is passed over with them. -/
theorem paired_brackets (style : Style) (level : Nat) {opening closing : Char}
    (hopening : opening ≠ '\\') (hclosing : closing ≠ '\\') {first rest : List Char}
    (hfirst : Paired first) (hrest : Paired rest) :
    Paired (opening :: lineBreak style level ++ first ++ rest ++ lineBreak style (level - 1) ++
      [closing]) := by
  have hopen : Paired (opening :: lineBreak style level) :=
    (paired_of_not_mem (l := [opening]) (by simpa using hopening.symm)).append
      (paired_lineBreak style level)
  have hclose : Paired (lineBreak style (level - 1) ++ [closing]) :=
    (paired_lineBreak style (level - 1)).append
      (paired_of_not_mem (by simpa using hclosing.symm))
  rw [List.append_assoc _ (lineBreak style (level - 1))]
  exact ((hopen.append hfirst).append hrest).append hclose

mutual

/-- What is written of a value is passed over. -/
theorem paired_writeValue (style : Style) : ∀ (level : Nat) (v : Value),
    Paired (writeValue style level v)
  | _, .scalar s => paired_writeScalar style s
  | _, .list [] => paired_of_not_mem (l := ['[', ']']) (by decide)
  | level, .list (v :: rest) =>
    paired_brackets style level (by decide) (by decide) (paired_writeValue style (level + 1) v)
      (paired_writeItems style level rest)
  | _, .mapping [] => paired_of_not_mem (l := ['\x7b', '\x7d']) (by decide)
  | level, .mapping ((k, v) :: rest) =>
    paired_brackets style level (by decide) (by decide)
      (paired_member style k (paired_writeValue style (level + 1) v))
      (paired_writeMembers style level rest)

/-- The items of a list are written with their pairs whole. -/
theorem paired_writeItems (style : Style) (level : Nat) : ∀ items : List Value,
    Paired (writeItems style level items)
  | [] => paired_nil
  | v :: rest =>
    ((paired_entrySeparator style level).append (paired_writeValue style (level + 1) v)).append
      (paired_writeItems style level rest)

/-- The entries of a mapping are written with their pairs whole. -/
theorem paired_writeMembers (style : Style) (level : Nat) : ∀ entries : List (Scalar × Value),
    Paired (writeMembers style level entries)
  | [] => paired_nil
  | (k, v) :: rest =>
    ((paired_entrySeparator style level).append
      (paired_member style k (paired_writeValue style (level + 1) v))).append
        (paired_writeMembers style level rest)

end

/-- **No half of a pair stands alone in the text of a value**, whatever the style. -/
theorem hasHalfPair_writeValue (style : Style) (level : Nat) (v : Value) :
    hasHalfPair (writeValue style level v) = false := by
  have hpaired := paired_writeValue style level v []
  rwa [List.append_nil] at hpaired

end Json

end CallFlow
