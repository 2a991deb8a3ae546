import CallFlow.Json.Reader
import CallFlow.Json.Writer
import CallFlow.Proofs.Numerals
import CallFlow.Proofs.Rounding

/-!
# Numbers in JSON text

A number that is written is read back from the front of a text, provided that what follows it does
not go on with a number (`Json.EndsNumber`): a whole number that is short enough from its digits
(`Json.readUnsigned_digits`), a double-precision number from its shortest decimal
(`Json.readUnsigned_render`), whatever its layout. The zeros that a layout drops or adds do not
change the value of the decimal, and rounding depends on the value alone.
-/

namespace CallFlow

-- powers mean the same whether or not an algebra library is imported
attribute [local instance (high)] instPowNat

/-! ## Digits -/

namespace Text

/-- The digits of a number are digits. -/
theorem isDigit_of_mem_digits {n : Nat} {c : Char} (h : c ∈ digits n) : isDigit c = true := by
  have hdigit := Nat.isDigit_of_mem_toDigits (by decide) (by decide) h
  unfold Char.isDigit at hdigit
  unfold isDigit
  simpa [Char.le_def] using hdigit

/-- A number that is not zero does not start with a zero. -/
theorem head?_digits {n : Nat} (h : 0 < n) : (digits n).head? ≠ some '0' := by
  induction n using Nat.strong_induction_on with
  | _ n ih =>
    by_cases hsmall : n < 10
    · have hone : ∀ m < 10, 0 < m → (digits m).head? ≠ some '0' := by decide
      exact hone n hsmall h
    · unfold digits
      rw [Nat.toDigits_of_base_le (by decide) (Nat.le_of_not_lt hsmall), List.head?_append_of_ne_nil]
      · exact ih (n / 10) (by omega) (by omega)
      · exact digits_ne_nil _

/-- Digits behind others move them to the left. -/
theorem natOfDigits_append (xs ys : List Char) :
    natOfDigits (xs ++ ys) = natOfDigits xs * 10 ^ ys.length + natOfDigits ys := by
  unfold natOfDigits
  rw [valueOfDigits_append]
  generalize valueOfDigits 10 digitValue 0 xs = start
  induction ys using List.reverseRecOn with
  | nil => simp [valueOfDigits]
  | append_singleton ys c ih =>
    rw [valueOfDigits_append, valueOfDigits_append, ih]
    simp only [valueOfDigits, List.foldl_cons, List.foldl_nil, List.length_append,
      List.length_singleton, Nat.pow_succ]
    ring

/-- A number with two digits or more is what they stand for. -/
theorem toList_twoDigits (n : Nat) : (twoDigits n).toList ≠ [] ∧
    (∀ c ∈ (twoDigits n).toList, isDigit c = true) ∧ natOfDigits (twoDigits n).toList = n := by
  have hdigits : ∀ c ∈ digits n, isDigit c = true := fun c hc => isDigit_of_mem_digits hc
  unfold twoDigits
  rw [String.toList_ofList]
  split
  · refine ⟨List.cons_ne_nil _ _, ?_, ?_⟩
    · rw [List.forall_mem_cons]
      exact ⟨rfl, hdigits⟩
    · rw [show '0' :: digits n = ['0'] ++ digits n from rfl, natOfDigits_append,
        natOfDigits_digits]
      simp [natOfDigits, valueOfDigits, digitValue]
  · exact ⟨digits_ne_nil n, hdigits, natOfDigits_digits n⟩

/-- Zeros stand for zero. -/
theorem natOfDigits_replicate (k : Nat) : natOfDigits (List.replicate k '0') = 0 := by
  rw [natOfDigits_eq_ofDigitChars, Nat.ofDigitChars_replicate_zero, Nat.mul_zero]

/-- Zeros in front of digits do not count. -/
theorem natOfDigits_zeros_append (k : Nat) (ds : List Char) :
    natOfDigits (List.replicate k '0' ++ ds) = natOfDigits ds := by
  rw [natOfDigits_append, natOfDigits_replicate, Nat.zero_mul, Nat.zero_add]

end Text

/-! ## Decimals without zeros at the end -/

namespace Decimal

open Text Binary64

/-- The digits of a decimal are its significant ones and then zeros. -/
theorem exists_zeros (d : Decimal) :
    ∃ k, digits d.significand = d.significantDigits ++ List.replicate k '0' := by
  have hsplit := List.takeWhile_append_dropWhile (p := (· = '0'))
    (l := (digits d.significand).reverse)
  have hzeros : (digits d.significand).reverse.takeWhile (· = '0') =
      List.replicate ((digits d.significand).reverse.takeWhile (· = '0')).length '0' :=
    List.eq_replicate_of_mem fun c hc => by simpa using List.mem_takeWhile_imp hc
  refine ⟨((digits d.significand).reverse.takeWhile (· = '0')).length, ?_⟩
  rw [← List.reverse_replicate, ← hzeros]
  unfold significantDigits
  rw [← List.reverse_append, hsplit, List.reverse_reverse]

/-- The significant digits of a decimal that is not zero start with one that is not zero. -/
theorem significantDigits_eq_cons {d : Decimal} (h : d.significand ≠ 0) :
    ∃ c r, d.significantDigits = c :: r ∧ c ≠ '0' ∧ ∀ c' ∈ c :: r, isDigit c' = true := by
  obtain ⟨k, hk⟩ := d.exists_zeros
  cases hdigits : d.significantDigits with
  | nil => exact absurd hdigits (significantDigits_ne_nil h)
  | cons c r =>
    rw [hdigits] at hk
    refine ⟨c, r, rfl, fun hc => head?_digits (Nat.pos_of_ne_zero h) ?_, fun c' hc' => ?_⟩
    · rw [hk, hc]
      rfl
    · refine isDigit_of_mem_digits (n := d.significand) ?_
      rw [hk]
      exact List.mem_append_left _ hc'

/-- A decimal has the value of its significant digits at the place of its point. -/
theorem rankOfDecimal_significantDigits (d : Decimal) :
    rankOfDecimal ⟨natOfDigits d.significantDigits,
      d.pointPlace - d.significantDigits.length⟩ = rankOfDecimal d := by
  obtain ⟨k, hk⟩ := d.exists_zeros
  have hsignificand : d.significand = natOfDigits d.significantDigits * 10 ^ k := by
    rw [← natOfDigits_digits d.significand, hk, natOfDigits_append, natOfDigits_replicate,
      List.length_replicate, Nat.add_zero]
  have hexponent : d.pointPlace - d.significantDigits.length = d.exponent + k := by
    unfold pointPlace
    rw [hk, List.length_append, List.length_replicate]
    push_cast
    ring
  rw [hexponent, ← rankOfDecimal_mul_pow, ← hsignificand]

/-! ## Decimals from their parts -/

/-- One digit in front of the point and the others behind it. -/
theorem ofParts_singleton (c : Char) (r : List Char) (place : Int) :
    ofParts [c] r (place - 1) = ⟨natOfDigits (c :: r), place - (c :: r).length⟩ := by
  unfold ofParts
  rw [List.singleton_append, List.length_cons]
  congr 1
  push_cast
  ring

/-- Digits behind the point and zeros. -/
theorem ofParts_zeros_append {place : Int} (h : place ≤ 0) (ds : List Char) :
    ofParts ['0'] (List.replicate (-place).toNat '0' ++ ds) 0 =
      ⟨natOfDigits ds, place - ds.length⟩ := by
  unfold ofParts
  rw [← List.append_assoc, List.singleton_append, ← List.replicate_succ,
    natOfDigits_zeros_append, List.length_append, List.length_replicate]
  congr 1
  omega

/-- Digits and zeros up to the point, and one zero behind it. -/
theorem ofParts_append_zeros (ds : List Char) (k : Nat) :
    ofParts (ds ++ List.replicate k '0') ['0'] 0 = ⟨natOfDigits ds * 10 ^ (k + 1), -1⟩ := by
  unfold ofParts
  rw [List.append_assoc, ← List.replicate_succ', natOfDigits_append, natOfDigits_replicate,
    List.length_replicate]
  rfl

/-- Digits before the point and behind it. -/
theorem ofParts_take_drop (ds : List Char) {p : Nat} (h : p ≤ ds.length) :
    ofParts (ds.take p) (ds.drop p) 0 = ⟨natOfDigits ds, p - ds.length⟩ := by
  unfold ofParts
  rw [List.take_append_drop, List.length_drop]
  congr 1
  omega

end Decimal

/-- The number of a rank has that rank. -/
theorem Binary64.ofRank_val (negative : Bool) (rank : Fin (infiniteRank + 1)) :
    ofRank negative rank.val = .signed negative rank := by
  unfold ofRank
  congr 1
  exact Fin.ext (Nat.min_eq_left (Nat.le_of_lt_succ rank.isLt))

/-! ## Reading the parts of a number -/

namespace Json

open Text

/-- A text that does not go on with a digit. -/
def NoDigit (rest : List Char) : Prop := ∀ c ∈ rest.head?, isDigit c = false

/-- A text that does not go on with a number: no digit, no point and no exponent. -/
def EndsNumber (rest : List Char) : Prop :=
  ∀ c ∈ rest.head?, isDigit c = false ∧ c ≠ '.' ∧ c ≠ 'e' ∧ c ≠ 'E'

/-- No digit comes where a number ends. -/
theorem EndsNumber.noDigit {rest : List Char} (h : EndsNumber rest) : NoDigit rest :=
  fun c hc => (h c hc).1

/-- No digit comes where another character does. -/
theorem noDigit_cons {c : Char} (h : isDigit c = false) (rest : List Char) :
    NoDigit (c :: rest) := by
  intro c' hc'
  obtain rfl := Option.some.inj hc'
  exact h

/-- A row of digits is taken off the front of a text that does not go on with a digit. -/
theorem span_digits {ds rest : List Char} (hds : ∀ c ∈ ds, isDigit c = true)
    (hrest : NoDigit rest) :
    (ds ++ rest).takeWhile isDigit = ds ∧ (ds ++ rest).dropWhile isDigit = rest := by
  have hnone : rest.takeWhile isDigit = [] ∧ rest.dropWhile isDigit = rest := by
    cases rest with
    | nil => exact ⟨rfl, rfl⟩
    | cons c r =>
      have hc : isDigit c = false := hrest c rfl
      exact ⟨List.takeWhile_cons_of_neg (by simp [hc]), List.dropWhile_cons_of_neg (by simp [hc])⟩
  rw [List.takeWhile_append_of_pos hds, List.dropWhile_append_of_pos hds, hnone.1, hnone.2,
    List.append_nil]
  exact ⟨rfl, rfl⟩

/-- Digits that may stand before a point: a zero alone, or digits that start with another one. -/
def IsWhole (ds : List Char) : Prop :=
  (∀ c ∈ ds, isDigit c = true) ∧ (ds = ['0'] ∨ ∃ c r, ds = c :: r ∧ c ≠ '0')

/-- A whole number is read up to where no digit comes next. -/
theorem readWhole_append {ds rest : List Char} (h : IsWhole ds) (hrest : NoDigit rest) :
    readWhole (ds ++ rest) = some (ds, rest) := by
  obtain ⟨hdigits, rfl | ⟨c, r, rfl, hc⟩⟩ := h
  · rfl
  · obtain ⟨htake, hdrop⟩ := span_digits hdigits hrest
    rw [List.cons_append] at htake hdrop ⊢
    unfold readWhole
    split
    · rename_i heq
      exact absurd (List.cons.inj heq).1 hc
    · rename_i c' r' _ heq
      obtain ⟨rfl, rfl⟩ := List.cons.inj heq
      rw [if_pos (hdigits _ List.mem_cons_self), htake, hdrop]
    · rename_i heq
      cases heq

/-- The digits of a number are read as a whole number: they have no zeros in front. -/
theorem isWhole_digits (n : Nat) : IsWhole (digits n) := by
  refine ⟨fun c hc => isDigit_of_mem_digits hc, ?_⟩
  rcases Nat.eq_zero_or_pos n with rfl | hn
  · exact .inl rfl
  · cases hdigits : digits n with
    | nil => exact absurd hdigits (digits_ne_nil n)
    | cons c r =>
      refine .inr ⟨c, r, rfl, fun hc => head?_digits hn ?_⟩
      rw [hdigits, hc]
      rfl

/-- A point with digits behind it is read. -/
theorem readFraction_point {ds rest : List Char} (hne : ds ≠ [])
    (hds : ∀ c ∈ ds, isDigit c = true) (hrest : NoDigit rest) :
    readFraction ('.' :: (ds ++ rest)) = (some ds, rest) := by
  obtain ⟨htake, hdrop⟩ := span_digits hds hrest
  cases ds with
  | nil => exact absurd rfl hne
  | cons c r =>
    rw [List.cons_append] at htake hdrop ⊢
    rw [readFraction, if_pos (hds c List.mem_cons_self), htake, hdrop]

/-- There is no fraction where no point comes next. -/
theorem readFraction_none {rest : List Char} (h : ∀ c ∈ rest.head?, c ≠ '.') :
    readFraction rest = (none, rest) := by
  unfold readFraction
  split
  · exact absurd rfl (h _ rfl)
  · rfl

/-- There is no exponent where no letter for one comes next. -/
theorem readPower_none {rest : List Char} (h : ∀ c ∈ rest.head?, c ≠ 'e' ∧ c ≠ 'E') :
    readPower rest = (none, rest) := by
  unfold readPower
  split
  · rename_i c r
    obtain ⟨hsmall, hlarge⟩ := h c rfl
    simp [hsmall, hlarge]
  · rfl

/-- An exponent is read back from its text. -/
theorem readPower_exponentText (e : Int) {rest : List Char} (hrest : NoDigit rest) :
    readPower (Decimal.exponentText e ++ rest) = (some e, rest) := by
  obtain ⟨hne, hdigits, hvalue⟩ := toList_twoDigits e.natAbs
  obtain ⟨htake, hdrop⟩ := span_digits hdigits hrest
  have hhead : ((twoDigits e.natAbs).toList ++ rest).head?.any isDigit = true := by
    rw [List.head?_append_of_ne_nil _ hne, List.head?_eq_some_head hne]
    exact hdigits _ (List.head_mem hne)
  unfold Decimal.exponentText
  rw [List.cons_append, List.cons_append, readPower]
  by_cases hneg : e < 0
  · have habs : -(e.natAbs : Int) = e := by omega
    simp only [if_pos hneg, Decimal.takeSign, hhead, htake, hdrop, hvalue, habs, decide_true,
      Bool.true_or, Bool.and_self, if_true]
  · have habs : (e.natAbs : Int) = e := by omega
    simp only [if_neg hneg, Decimal.takeSign, hhead, htake, hdrop, hvalue, habs, decide_true,
      Bool.true_or, Bool.and_self, if_true, Bool.false_eq_true, if_false]

/-! ## Reading numbers -/

/-- A whole number that is short enough is read back from its digits. -/
theorem readUnsigned_digits (negative : Bool) {n : Nat} (hshort : (digits n).length ≤ digitLimit)
    {rest : List Char} (hrest : EndsNumber rest) :
    readUnsigned negative (digits n ++ rest) = .ok (.int (if negative then -n else n), rest) := by
  unfold readUnsigned
  rw [readWhole_append (isWhole_digits n) hrest.noDigit]
  dsimp only
  rw [readFraction_none fun c hc => (hrest c hc).2.1]
  dsimp only
  rw [readPower_none fun c hc => (hrest c hc).2.2]
  dsimp only
  simp only [Option.isNone_none, Bool.and_self, if_true, if_neg (Nat.not_lt.mpr hshort),
    natOfDigits_digits]

/-- A number with a fraction or an exponent is read from its parts. -/
theorem readUnsigned_of_parts (negative : Bool) {cs whole r r' rest : List Char}
    {fraction : Option (List Char)} {power : Option Int} (hwhole : readWhole cs = some (whole, r))
    (hfraction : readFraction r = (fraction, r')) (hpower : readPower r' = (power, rest))
    (hfloat : (fraction.isNone && power.isNone) = false) :
    readUnsigned negative cs = .ok (.float (.ofDecimal negative
      (.ofParts whole (fraction.getD []) (power.getD 0))), rest) := by
  unfold readUnsigned
  rw [hwhole]
  dsimp only
  rw [hfraction]
  dsimp only
  rw [hpower]
  dsimp only
  rw [hfloat]
  rfl

/-- A number with a fraction and no exponent. -/
theorem readUnsigned_fraction (negative : Bool) {whole fraction rest : List Char}
    (hwhole : IsWhole whole) (hne : fraction ≠ []) (hfraction : ∀ c ∈ fraction, isDigit c = true)
    (hrest : EndsNumber rest) :
    readUnsigned negative (whole ++ '.' :: fraction ++ rest) =
      .ok (.float (.ofDecimal negative (.ofParts whole fraction 0)), rest) := by
  have hread := readUnsigned_of_parts negative
    (readWhole_append hwhole (noDigit_cons (by decide) (fraction ++ rest)))
    (readFraction_point hne hfraction hrest.noDigit)
    (readPower_none fun c hc => (hrest c hc).2.2) rfl
  rw [List.append_assoc, List.cons_append]
  exact hread

/-- A number with an exponent behind one digit, and a fraction if more digits are left. -/
theorem readUnsigned_exponent (negative : Bool) {c : Char} {r : List Char} (e : Int)
    (hdigits : ∀ c' ∈ c :: r, isDigit c' = true) (hc : c ≠ '0') {rest : List Char}
    (hrest : EndsNumber rest) :
    readUnsigned negative ((if r = [] then [c] else c :: '.' :: r) ++ Decimal.exponentText e ++ rest) =
      .ok (.float (.ofDecimal negative (.ofParts [c] r e)), rest) := by
  have hwhole : IsWhole [c] := by
    refine ⟨fun c' hc' => ?_, .inr ⟨c, [], rfl, hc⟩⟩
    obtain rfl := List.mem_singleton.mp hc'
    exact hdigits _ List.mem_cons_self
  have hpower := readPower_exponentText e hrest.noDigit
  have hexponent : NoDigit (Decimal.exponentText e ++ rest) := noDigit_cons (by decide) _
  split
  · rename_i hr
    subst hr
    have hnone : readFraction (Decimal.exponentText e ++ rest) =
        (none, Decimal.exponentText e ++ rest) := by
      refine readFraction_none fun c' hc' => ?_
      obtain rfl : 'e' = c' := Option.some.inj hc'
      decide
    have hread := readUnsigned_of_parts negative
      (readWhole_append hwhole hexponent) hnone hpower rfl
    rw [List.append_assoc]
    exact hread
  · rename_i hr
    have hread := readUnsigned_of_parts negative
      (readWhole_append hwhole (noDigit_cons (by decide) (r ++ (Decimal.exponentText e ++ rest))))
      (readFraction_point hr (fun c' hc' => hdigits c' (List.mem_cons_of_mem _ hc')) hexponent)
      hpower rfl
    rw [List.append_assoc]
    exact hread

/-- A decimal is read back from its text, up to zeros at its end, which do not change its value. -/
theorem readUnsigned_render (negative : Bool) (d : Decimal) {rest : List Char}
    (hrest : EndsNumber rest) : ∃ d' : Decimal,
      readUnsigned negative (d.render ++ rest) = .ok (.float (.ofDecimal negative d'), rest) ∧
        Binary64.rankOfDecimal d' = Binary64.rankOfDecimal d := by
  have hzero : ∀ c ∈ ['0'], isDigit c = true := List.forall_mem_singleton.mpr rfl
  have hzeros : ∀ k, ∀ c ∈ List.replicate k '0', isDigit c = true := fun k c hc =>
    hzero c (List.eq_of_mem_replicate hc ▸ List.mem_singleton_self _)
  by_cases hsignificand : d.significand = 0
  · have hrender : d.render = ['0'] ++ '.' :: ['0'] := if_pos hsignificand
    rw [hrender]
    refine ⟨_, readUnsigned_fraction negative ⟨hzero, .inl rfl⟩ (List.cons_ne_nil _ _) hzero hrest, ?_⟩
    simp [Binary64.rankOfDecimal, hsignificand, Decimal.ofParts, natOfDigits, valueOfDigits,
      digitValue]
  obtain ⟨c, r, hcr, hc, hdigits⟩ := Decimal.significantDigits_eq_cons hsignificand
  have hwhole : ∀ ds, (∀ c' ∈ c :: ds, isDigit c' = true) → IsWhole (c :: ds) :=
    fun ds hds => ⟨hds, .inr ⟨c, ds, rfl, hc⟩⟩
  -- whatever the layout, the decimal that is read has the value of the significant digits
  have hvalue := d.rankOfDecimal_significantDigits
  rw [hcr] at hvalue
  unfold Decimal.render
  dsimp only
  rw [if_neg hsignificand, hcr]
  generalize d.pointPlace = place at hvalue ⊢
  split
  · -- one digit and a fraction, with an exponent
    have hread := readUnsigned_exponent negative (place - 1) hdigits hc hrest
    refine ⟨.ofParts [c] r (place - 1), ?_, ?_⟩
    · cases r <;> exact hread
    · rw [Decimal.ofParts_singleton, hvalue]
  split
  · -- all digits behind the point
    rename_i hplace
    have hfraction := List.forall_mem_append.mpr ⟨hzeros (-place).toNat, hdigits⟩
    have hread := readUnsigned_fraction negative ⟨hzero, .inl rfl⟩ (by simp) hfraction hrest
    refine ⟨_, hread, ?_⟩
    rw [Decimal.ofParts_zeros_append hplace, hvalue]
  rename_i hplace
  split
  · -- all digits before the point
    rename_i hlength
    have hbefore : IsWhole (c :: r ++ List.replicate (place.toNat - (c :: r).length) '0') :=
      hwhole _ (List.forall_mem_append.mpr ⟨hdigits, hzeros _⟩)
    have hread := readUnsigned_fraction negative hbefore (List.cons_ne_nil '0' []) hzero hrest
    refine ⟨_, hread, ?_⟩
    rw [Decimal.ofParts_append_zeros, Binary64.rankOfDecimal_mul_pow, ← hvalue]
    congr 2
    omega
  · -- digits before the point and behind it
    rename_i hlength
    have hbehind : (c :: r).drop place.toNat ≠ [] := by
      rw [ne_eq, List.drop_eq_nil_iff]
      exact hlength
    obtain ⟨p, hp⟩ : ∃ p, place.toNat = p + 1 := ⟨place.toNat - 1, by omega⟩
    have htake : ∀ c' ∈ c :: r.take p, isDigit c' = true := fun c' hc' =>
      hdigits c' (List.mem_of_mem_take (i := p + 1) hc')
    have hdrop : ∀ c' ∈ (c :: r).drop place.toNat, isDigit c' = true := fun c' hc' =>
      hdigits c' (List.mem_of_mem_drop hc')
    have hread := readUnsigned_fraction negative (hwhole _ htake) hbehind hdrop hrest
    rw [← List.take_succ_cons, ← hp] at hread
    refine ⟨_, hread, ?_⟩
    rw [Decimal.ofParts_take_drop _ (by omega), ← hvalue]
    congr 2
    omega

/-! ## Reading values without parts -/

/-- A number that is read starts with a digit. -/
theorem exists_digit_of_readUnsigned {negative : Bool} {cs : List Char} {p : Value × List Char}
    (h : readUnsigned negative cs = .ok p) : ∃ c r, cs = c :: r ∧ isDigit c = true := by
  unfold readUnsigned at h
  split at h
  · cases h
  · rename_i hwhole
    unfold readWhole at hwhole
    split at hwhole
    · exact ⟨_, _, rfl, rfl⟩
    · split at hwhole
      · exact ⟨_, _, rfl, ‹_›⟩
      · cases hwhole
    · cases hwhole

/-- A text that starts with a digit, or with a minus and a digit, does not start with a word. -/
theorem findSome?_words_digit {c : Char} (hc : isDigit c = true) (r : List Char) :
    (words.findSome? fun w => (takeWord? w.1 (c :: r)).map fun r => (w.2, r)) = none ∧
      (words.findSome? fun w => (takeWord? w.1 ('-' :: c :: r)).map fun r => (w.2, r)) = none := by
  have hne : ∀ x, isDigit x = false → x ≠ c := by
    rintro x hx rfl
    exact absurd (hx.symm.trans hc) Bool.false_ne_true
  constructor
  · simp [words, takeWord?, hne 'n' rfl, hne 't' rfl, hne 'f' rfl, hne 'N' rfl, hne 'I' rfl,
      hne '-' rfl]
  · simp [words, takeWord?, hne 'I' rfl]

/-- A number is read as a value, without a sign and behind a minus. -/
theorem readBare_signed {c : Char} (hc : isDigit c = true) (negative : Bool) (r : List Char) :
    readBare (if negative then '-' :: c :: r else c :: r) = readUnsigned negative (c :: r) := by
  obtain ⟨hplain, hminus⟩ := findSome?_words_digit hc r
  cases negative with
  | false =>
    have hne : c ≠ '-' := by
      rintro rfl
      exact absurd hc (by decide)
    simp only [Bool.false_eq_true, if_false]
    unfold readBare
    rw [hplain]
    dsimp only
    split
    · rename_i heq
      exact absurd (List.cons.inj heq).1 hne
    · rfl
  | true =>
    simp only [if_true]
    unfold readBare
    rw [hminus]
    rfl

/-- A number is read behind its sign. -/
theorem readBare_of_readUnsigned {negative : Bool} {cs : List Char} {p : Value × List Char}
    (h : readUnsigned negative cs = .ok p) :
    readBare (if negative then '-' :: cs else cs) = .ok p := by
  obtain ⟨c, r, rfl, hc⟩ := exists_digit_of_readUnsigned h
  rw [readBare_signed hc, h]

/-- The text of a whole number is read as its sign and its digits. -/
theorem readBare_ofInt_append (n : Int) (rest : List Char) :
    readBare ((ofInt n).toList ++ rest) = readUnsigned (n < 0) (digits n.natAbs ++ rest) := by
  obtain ⟨c, r, hchars⟩ := List.exists_cons_of_ne_nil (digits_ne_nil n.natAbs)
  have hc : isDigit c = true := isDigit_of_mem_digits (hchars ▸ List.mem_cons_self)
  have hread := readBare_signed hc (n < 0) (r ++ rest)
  rw [hchars, List.cons_append, ← hread]
  by_cases hneg : n < 0
  · obtain ⟨k, rfl⟩ := Int.eq_negSucc_of_lt_zero hneg
    rw [ofInt, String.toList_ofList, show digits (k + 1) = c :: r from hchars]
    simp [hneg]
  · obtain ⟨k, rfl⟩ := Int.eq_ofNat_of_zero_le (Int.not_lt.mp hneg)
    rw [show ofInt k = String.ofList (digits k) from rfl, String.toList_ofList,
      show digits k = c :: r from hchars]
    simp [hneg]

/-- A whole number that is short enough is read back from its text. -/
theorem readBare_ofInt {n : Int} (hshort : isTooLong n = false) {rest : List Char}
    (hrest : EndsNumber rest) : readBare ((ofInt n).toList ++ rest) = .ok (.int n, rest) := by
  have hlength : (digits n.natAbs).length ≤ digitLimit :=
    Nat.le_of_not_lt (of_decide_eq_false hshort)
  rw [readBare_ofInt_append, readUnsigned_digits _ hlength hrest]
  congr 3
  simp only [decide_eq_true_eq]
  split <;> omega

/-- A double-precision number is read back from its text. -/
theorem readBare_writeFloat (x : Binary64) {rest : List Char} (hrest : EndsNumber rest) :
    readBare ((writeFloat x).toList ++ rest) = .ok (.float x, rest) := by
  cases x with
  | nan => simp [readBare, words, takeWord?, writeFloat, Binary64.renderWith]
  | signed negative rank =>
    unfold writeFloat Binary64.renderWith
    dsimp only
    split
    · rename_i hfinite
      obtain ⟨d, hread, hrank⟩ := readUnsigned_render negative (Binary64.shortest rank) hrest
      rw [Binary64.rankOfDecimal_shortest hfinite] at hrank
      have hbare := readBare_of_readUnsigned hread
      rw [Binary64.ofDecimal, hrank, Binary64.ofRank_val] at hbare
      rw [String.toList_ofList]
      cases negative <;> exact hbare
    · rename_i hfinite
      have hlast : rank = Fin.last _ :=
        Fin.ext (Nat.le_antisymm (Nat.le_of_lt_succ rank.isLt) (Nat.le_of_not_lt hfinite))
      rw [hlast]
      cases negative <;> simp [readBare, words, takeWord?, Binary64.infinity]

/-- A scalar that is not a text is read back from its text. -/
theorem readBare_bareScalar {s : Scalar} (htext : ∀ t, s ≠ .text t) (hshort : isShort s = true)
    {rest : List Char} (hrest : EndsNumber rest) :
    readBare ((bareScalar s).toList ++ rest) = .ok (.scalar s, rest) := by
  cases s with
  | null => simp [readBare, words, takeWord?, bareScalar]
  | bool b => cases b <;> simp [readBare, words, takeWord?, bareScalar]
  | text t => exact absurd rfl (htext t)
  | int n => exact readBare_ofInt (by simpa [isShort] using hshort) hrest
  | float x => exact readBare_writeFloat x hrest

end Json

end CallFlow
