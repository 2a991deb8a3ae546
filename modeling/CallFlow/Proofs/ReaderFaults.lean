import CallFlow.Proofs.Except
import CallFlow.Proofs.ReaderParts

/-!
# Where a text is given up

A text is given up exactly if the reader comes to a whole number in it with more digits than are
converted. This needs that the fuel never ends the reading, whatever stands in the text: what can be
read at all can be read with fuel for twice the characters.

* `Json.readValue_eq_ok`, `Json.readItems_eq_ok`, `Json.readMembers_eq_ok`: what has been read where
  a value, items or entries have been read.
* `Json.enough_parts`: there is always enough fuel, by induction on the fuel that was.
* `Json.ComesTo.stopsAt`: the reader gives up at the numbers that it comes to, by induction on its
  way.
* `Json.read_eq_numberTooLong_iff`: whole texts.
-/

namespace CallFlow

namespace Json

open Text

variable {cs rest : List Char}

/-! ## Fuel -/

section

variable {fuel : Nat} {v : Value}

/-- A value that is read has no parts, so that the fuel does not matter, or its parts are read. -/
theorem readValue_eq_ok (h : readValue (fuel + 1) cs = .ok (v, rest)) :
    (∀ fuel', readValue (fuel' + 1) cs = .ok (v, rest)) ∨
    (∃ r vs, cs = '[' :: r ∧ (∀ r', skipFiller r ≠ ']' :: r') ∧
      readItems fuel (skipFiller r) = .ok (vs, rest) ∧ v = .list vs) ∨
    ∃ r es, cs = '\x7b' :: r ∧ (∀ r', skipFiller r ≠ '\x7d' :: r') ∧
      readMembers fuel (skipFiller r) = .ok (es, rest) ∧ v = .mapping (Entries.ofPairs es) := by
  unfold readValue at h
  split at h
  · exact .inl fun fuel' => by rw [readValue, h]
  · rename_i r
    split at h
    · rename_i r' hclose
      exact .inl fun fuel' => by rw [readValue, hclose]; exact h
    · rename_i hopen
      obtain ⟨p, hitems, heq⟩ := Except.map_eq_ok_iff.mp h
      obtain ⟨rfl, rfl⟩ := Prod.mk.inj heq
      exact .inr (.inl ⟨r, p.1, rfl, hopen, hitems, rfl⟩)
  · rename_i r
    split at h
    · rename_i r' hclose
      exact .inl fun fuel' => by rw [readValue, hclose]; exact h
    · rename_i hopen
      obtain ⟨p, hmembers, heq⟩ := Except.map_eq_ok_iff.mp h
      obtain ⟨rfl, rfl⟩ := Prod.mk.inj heq
      exact .inr (.inr ⟨r, p.1, rfl, hopen, hmembers, rfl⟩)
  · rename_i htext hlist hmapping
    exact .inl fun fuel' => by rw [readValue] <;> assumption

/-- Where items are read, the first is read, and then the list ends or goes on behind a comma. -/
theorem readItems_eq_ok {vs : List Value} (h : readItems (fuel + 1) cs = .ok (vs, rest)) :
    ∃ v r, readValue fuel cs = .ok (v, r) ∧
      ((skipFiller r = ']' :: rest ∧ vs = [v]) ∨
        ∃ r' vs', skipFiller r = ',' :: r' ∧ readItems fuel (skipFiller r') = .ok (vs', rest) ∧
          vs = v :: vs') := by
  rw [readItems] at h
  obtain ⟨⟨v, r⟩, hread, h⟩ := Except.bind_eq_ok_iff.mp h
  refine ⟨v, r, hread, ?_⟩
  dsimp only at h
  split at h
  · rename_i r' hclose
    obtain ⟨rfl, rfl⟩ := Prod.mk.inj (Except.ok.inj h)
    exact .inl ⟨hclose, rfl⟩
  · rename_i r' hcomma
    obtain ⟨⟨vs', left⟩, hothers, h⟩ := Except.bind_eq_ok_iff.mp h
    obtain ⟨rfl, rfl⟩ := Prod.mk.inj (Except.ok.inj h)
    exact .inr ⟨r', vs', hcomma, hothers, rfl⟩
  · cases h

/-- Where entries are read, the first is read as a text, a colon and a value, and then the mapping
ends or goes on behind a comma. -/
theorem readMembers_eq_ok {es : Entries} (h : readMembers (fuel + 1) cs = .ok (es, rest)) :
    ∃ r key r' r'' v left, cs = '"' :: r ∧ readText r = .ok (key, r') ∧
      skipFiller r' = ':' :: r'' ∧ readValue fuel (skipFiller r'') = .ok (v, left) ∧
      ((skipFiller left = '\x7d' :: rest ∧ es = [(.text (String.ofList key), v)]) ∨
        ∃ more es', skipFiller left = ',' :: more ∧
          readMembers fuel (skipFiller more) = .ok (es', rest) ∧
          es = (.text (String.ofList key), v) :: es') := by
  unfold readMembers at h
  split at h
  · rename_i r
    obtain ⟨⟨key, r'⟩, hkey, h⟩ := Except.bind_eq_ok_iff.mp h
    dsimp only at h
    split at h
    · rename_i r'' hcolon
      obtain ⟨⟨v, left⟩, hread, h⟩ := Except.bind_eq_ok_iff.mp h
      refine ⟨r, key, r', r'', v, left, rfl, hkey, hcolon, hread, ?_⟩
      dsimp only at h
      split at h
      · rename_i behind hclose
        obtain ⟨rfl, rfl⟩ := Prod.mk.inj (Except.ok.inj h)
        exact .inl ⟨hclose, rfl⟩
      · rename_i more hcomma
        obtain ⟨⟨es', behind⟩, hothers, h⟩ := Except.bind_eq_ok_iff.mp h
        obtain ⟨rfl, rfl⟩ := Prod.mk.inj (Except.ok.inj h)
        exact .inr ⟨more, es', hcomma, hothers, rfl⟩
      · cases h
    · cases h
  · cases h

end

/-- What is left behind a character is shorter. -/
theorem length_of_skipFiller {r r' : List Char} {c : Char} (h : skipFiller r = c :: r') :
    r'.length + 1 ≤ r.length := by
  have hlength := (skipFiller_suffix r).length_le
  rwa [h, List.length_cons] at hlength

/-- What is read with some fuel is read with any fuel that is twice the number of characters read.
Items and entries need one unit less, since a bracket or a comma follows each of them. -/
structure Enough (fuel : Nat) : Prop where
  value : ∀ {cs v rest}, readValue fuel cs = .ok (v, rest) →
    ∀ {fuel'}, 2 * cs.length ≤ fuel' + 2 * rest.length → readValue fuel' cs = .ok (v, rest)
  items : ∀ {cs vs rest}, readItems fuel cs = .ok (vs, rest) →
    ∀ {fuel'}, 2 * cs.length ≤ fuel' + 2 * rest.length + 1 → readItems fuel' cs = .ok (vs, rest)
  members : ∀ {cs es rest}, readMembers fuel cs = .ok (es, rest) →
    ∀ {fuel'}, 2 * cs.length ≤ fuel' + 2 * rest.length + 1 → readMembers fuel' cs = .ok (es, rest)

namespace Enough

variable {fuel fuel' : Nat}

/-- A value that is read with some fuel is read with as much as the text that it takes needs. -/
theorem readValue_succ (h : Enough fuel) {v : Value} (hread : readValue (fuel + 1) cs = .ok (v, rest))
    (hfuel : 2 * cs.length ≤ fuel' + 2 * rest.length) : readValue fuel' cs = .ok (v, rest) := by
  have hleft := (((within_parts (fuel + 1)).1 cs).left v rest hread).2
  obtain ⟨n, rfl⟩ : ∃ n, fuel' = n + 1 := ⟨fuel' - 1, by omega⟩
  rcases readValue_eq_ok hread with hbare | ⟨r, vs, rfl, hopen, hitems, rfl⟩ |
    ⟨r, es, rfl, hopen, hmembers, rfl⟩
  · exact hbare n
  · have hskip := (skipFiller_suffix r).length_le
    rw [List.length_cons] at hfuel
    rw [readValue_of_list hopen, h.items hitems (by omega)]
    rfl
  · have hskip := (skipFiller_suffix r).length_le
    rw [List.length_cons] at hfuel
    rw [readValue_of_mapping hopen, h.members hmembers (by omega)]
    rfl

/-- So are the items of a list. -/
theorem readItems_succ (h : Enough fuel) {vs : List Value}
    (hread : readItems (fuel + 1) cs = .ok (vs, rest))
    (hfuel : 2 * cs.length ≤ fuel' + 2 * rest.length + 1) :
    readItems fuel' cs = .ok (vs, rest) := by
  obtain ⟨v, r, hvalue, hends⟩ := readItems_eq_ok hread
  have hleft := (((within_parts fuel).1 cs).left v r hvalue).2
  rcases hends with ⟨hclose, rfl⟩ | ⟨r', vs', hcomma, hothers, rfl⟩
  · have hlength := length_of_skipFiller hclose
    obtain ⟨n, rfl⟩ : ∃ n, fuel' = n + 1 := ⟨fuel' - 1, by omega⟩
    rw [readItems, h.value hvalue (by omega)]
    simp only [bind, Except.bind, hclose]
  · have hlength := length_of_skipFiller hcomma
    have hskip := (skipFiller_suffix r').length_le
    have hbehind := (((within_parts fuel).2.1 _).left _ _ hothers).2
    obtain ⟨n, rfl⟩ : ∃ n, fuel' = n + 1 := ⟨fuel' - 1, by omega⟩
    rw [readItems_of_ok (h.value hvalue (by omega)) hcomma, h.items hothers (by omega)]
    rfl

/-- So are the entries of a mapping. -/
theorem readMembers_succ (h : Enough fuel) {es : Entries}
    (hread : readMembers (fuel + 1) cs = .ok (es, rest))
    (hfuel : 2 * cs.length ≤ fuel' + 2 * rest.length + 1) :
    readMembers fuel' cs = .ok (es, rest) := by
  obtain ⟨r, key, r', r'', v, left, rfl, hkey, hcolon, hvalue, hends⟩ := readMembers_eq_ok hread
  have hleft := (((within_parts fuel).1 _).left v left hvalue).2
  have hkeyLeft := ((within_readText r).left key r' hkey).2
  have hcolonLength := length_of_skipFiller hcolon
  have hcolonSkip := (skipFiller_suffix r'').length_le
  rw [List.length_cons] at hfuel
  rcases hends with ⟨hclose, rfl⟩ | ⟨more, es', hcomma, hothers, rfl⟩
  · have hlength := length_of_skipFiller hclose
    obtain ⟨n, rfl⟩ : ∃ n, fuel' = n + 1 := ⟨fuel' - 1, by omega⟩
    rw [readMembers_of_key hkey hcolon, h.value hvalue (by omega)]
    simp only [Except.bind, hclose]
  · have hlength := length_of_skipFiller hcomma
    have hskip := (skipFiller_suffix more).length_le
    have hbehind := (((within_parts fuel).2.2 _).left _ _ hothers).2
    obtain ⟨n, rfl⟩ : ∃ n, fuel' = n + 1 := ⟨fuel' - 1, by omega⟩
    rw [readMembers_of_key hkey hcolon, h.value hvalue (by omega)]
    simp only [Except.bind, hcomma]
    rw [h.members hothers (by omega)]
    rfl

end Enough

/-- **There is always enough fuel.** -/
theorem enough_parts (fuel : Nat) : Enough fuel := by
  induction fuel with
  | zero =>
    constructor
    all_goals
      intro cs a rest h
      cases h
  | succ fuel ih =>
    exact ⟨fun hread _ => ih.readValue_succ hread, fun hread _ => ih.readItems_succ hread,
      fun hread _ => ih.readMembers_succ hread⟩

/-! ## Numbers that the reader comes to -/

/-- What the reader comes to is the end of the text. -/
theorem ComesTo.suffix {place : Place} (h : ComesTo place cs rest) : rest <:+ cs := by
  induction h with
  | digits => exact List.suffix_rfl
  | minus => exact List.suffix_cons _ _
  | list _ _ ih => exact ih.trans ((skipFiller_suffix _).trans (List.suffix_cons _ _))
  | mapping _ _ ih => exact ih.trans ((skipFiller_suffix _).trans (List.suffix_cons _ _))
  | item _ ih => exact ih
  | items hread hcomma _ ih =>
    have hleft := (((within_parts _).1 _).left _ _ hread).1
    exact ih.trans ((skipFiller_suffix _).trans
      ((List.suffix_cons _ _).trans (suffix_of_skipFiller hcomma hleft)))
  | member hkey hcolon _ ih =>
    have hleft := ((within_readText _).left _ _ hkey).1.trans (List.suffix_cons '"' _)
    exact ih.trans ((skipFiller_suffix _).trans
      ((List.suffix_cons _ _).trans (suffix_of_skipFiller hcolon hleft)))
  | members hkey hcolon hread hcomma _ ih =>
    have hleft := ((within_readText _).left _ _ hkey).1.trans (List.suffix_cons '"' _)
    have hvalue := (skipFiller_suffix _).trans
      ((List.suffix_cons _ _).trans (suffix_of_skipFiller hcolon hleft))
    have hbehind := (((within_parts _).1 _).left _ _ hread).1.trans hvalue
    exact ih.trans ((skipFiller_suffix _).trans
      ((List.suffix_cons _ _).trans (suffix_of_skipFiller hcomma hbehind)))

/-- A number that is too long begins with a digit. -/
theorem exists_digit_of_startsLong (h : StartsLong cs) : ∃ c r, cs = c :: r ∧ isDigit c = true := by
  obtain ⟨ds, rest, rfl, ⟨hdigits, -⟩, hlong, -⟩ := h
  cases ds with
  | nil => exact absurd hlong (Nat.not_lt_zero _)
  | cons c r => exact ⟨c, r ++ rest, rfl, hdigits c List.mem_cons_self⟩

/-- The reader gives up at a number with too many digits, without a sign and behind a minus. -/
theorem readValue_of_startsLong (h : StartsLong cs) (fuel : Nat) :
    readValue (fuel + 1) cs = .error .numberTooLong ∧
      readValue (fuel + 1) ('-' :: cs) = .error .numberTooLong := by
  obtain ⟨c, r, rfl, hc⟩ := exists_digit_of_startsLong h
  have hne : ∀ x, isDigit x = false → c ≠ x := by
    rintro x hx rfl
    exact absurd (hx.symm.trans hc) Bool.false_ne_true
  have hplain := readBare_signed hc false r
  have hminus := readBare_signed hc true r
  rw [readUnsigned_eq_numberTooLong_iff.mpr h] at hplain hminus
  constructor
  · rw [readValue_bare (hne _ rfl) (hne _ rfl) (hne _ rfl)]
    exact hplain
  · rw [readValue_bare (by decide) (by decide) (by decide)]
    exact hminus

/-- The reader gives up at a place, with some fuel. -/
def StopsAt (fuel : Nat) (cs : List Char) : Place → Prop
  | .value => readValue (fuel + 1) cs = .error .numberTooLong
  | .items => readItems (fuel + 2) cs = .error .numberTooLong
  | .members => readMembers (fuel + 2) cs = .error .numberTooLong

/-- **The reader gives up at a number with too many digits that it comes to**, if the fuel is twice
the number of characters before it. -/
theorem ComesTo.stopsAt {place : Place} (h : ComesTo place cs rest) (hlong : StartsLong rest) :
    ∀ {fuel}, 2 * cs.length ≤ fuel + 2 * rest.length → StopsAt fuel cs place := by
  induction h with
  | digits => exact fun {fuel} _ => (readValue_of_startsLong hlong fuel).1
  | minus => exact fun {fuel} _ => (readValue_of_startsLong hlong fuel).2
  | @list r rest hopen hcomes ih =>
    intro fuel hfuel
    have hskip := (skipFiller_suffix r).length_le
    have hrest := hcomes.suffix.length_le
    rw [List.length_cons] at hfuel
    obtain ⟨n, rfl⟩ : ∃ n, fuel = n + 2 := ⟨fuel - 2, by omega⟩
    have hitems : readItems (n + 2) (skipFiller r) = .error .numberTooLong := ih hlong (by omega)
    rw [StopsAt, readValue_of_list hopen, hitems]
    rfl
  | @mapping r rest hopen hcomes ih =>
    intro fuel hfuel
    have hskip := (skipFiller_suffix r).length_le
    have hrest := hcomes.suffix.length_le
    rw [List.length_cons] at hfuel
    obtain ⟨n, rfl⟩ : ∃ n, fuel = n + 2 := ⟨fuel - 2, by omega⟩
    have hmembers : readMembers (n + 2) (skipFiller r) = .error .numberTooLong :=
      ih hlong (by omega)
    rw [StopsAt, readValue_of_mapping hopen, hmembers]
    rfl
  | @item cs rest _ ih =>
    intro fuel hfuel
    have hvalue : readValue (fuel + 1) cs = .error .numberTooLong := ih hlong hfuel
    rw [StopsAt, readItems, hvalue]
    rfl
  | @items cs r r' rest _ v hread hcomma hcomes ih =>
    intro fuel hfuel
    have hleft := (((within_parts _).1 _).left _ _ hread).2
    have hlength := length_of_skipFiller hcomma
    have hskip := (skipFiller_suffix r').length_le
    have hrest := hcomes.suffix.length_le
    obtain ⟨n, rfl⟩ : ∃ n, fuel = n + 1 := ⟨fuel - 1, by omega⟩
    have hvalue : readValue (n + 2) cs = .ok (v, r) := (enough_parts _).value hread (by omega)
    have hothers : readItems (n + 2) (skipFiller r') = .error .numberTooLong := ih hlong (by omega)
    rw [StopsAt, readItems_of_ok hvalue hcomma, hothers]
    rfl
  | @member r r' r'' rest key hkey hcolon _ ih =>
    intro fuel hfuel
    have hleft := ((within_readText _).left _ _ hkey).2
    have hlength := length_of_skipFiller hcolon
    have hskip := (skipFiller_suffix r'').length_le
    rw [List.length_cons] at hfuel
    have hvalue : readValue (fuel + 1) (skipFiller r'') = .error .numberTooLong :=
      ih hlong (by omega)
    rw [StopsAt, readMembers_of_key hkey hcolon, hvalue]
    rfl
  | @members r r' r'' left more rest key _ v hkey hcolon hread hcomma hcomes ih =>
    intro fuel hfuel
    have hleft := ((within_readText _).left _ _ hkey).2
    have hcolonLength := length_of_skipFiller hcolon
    have hcolonSkip := (skipFiller_suffix r'').length_le
    have hvalueLeft := (((within_parts _).1 _).left _ _ hread).2
    have hlength := length_of_skipFiller hcomma
    have hskip := (skipFiller_suffix more).length_le
    have hrest := hcomes.suffix.length_le
    rw [List.length_cons] at hfuel
    obtain ⟨n, rfl⟩ : ∃ n, fuel = n + 1 := ⟨fuel - 1, by omega⟩
    have hvalue : readValue (n + 2) (skipFiller r'') = .ok (v, left) :=
      (enough_parts _).value hread (by omega)
    have hothers : readMembers (n + 2) (skipFiller more) = .error .numberTooLong :=
      ih hlong (by omega)
    rw [StopsAt, readMembers_of_key hkey hcolon, hvalue]
    simp only [Except.bind, hcomma]
    rw [hothers]
    rfl

/-- Where there is a value, no half of a pair of units is escaped in the text. -/
theorem hasHalfPair_of_read_eq_ok {s : String} {v : Value} (h : read s = .ok v) :
    hasHalfPair s.toList = false := by
  unfold read at h
  obtain ⟨p, -, h⟩ := Except.bind_eq_ok_iff.mp h
  dsimp only at h
  split at h
  · cases h
  · split at h
    · cases h
    · rename_i hpairs
      simpa using hpairs

/-- A text is set aside only for half of a pair of units in it. -/
theorem hasHalfPair_of_read {s : String} (h : read s = .error .halfPair) :
    hasHalfPair s.toList = true := by
  have hvalue := (within_parts (2 * s.toList.length + 2)).1 (skipFiller s.toList)
  unfold read at h
  dsimp only at h
  cases hx : readValue (2 * s.toList.length + 2) (skipFiller s.toList) with
  | error fault =>
    rw [hx] at h
    cases h
    exact absurd hx hvalue.pairs
  | ok p =>
    rw [hx] at h
    simp only [bind, Except.bind] at h
    split at h
    · cases h
    · split at h
      · assumption
      · cases h

/-- **A text is given up** exactly if the reader comes to a whole number in it with more digits than
are converted. -/
theorem read_eq_numberTooLong_iff {s : String} :
    read s = .error .numberTooLong ↔ GivesUp .value (skipFiller s.toList) := by
  have hvalue := (within_parts (2 * s.toList.length + 2)).1 (skipFiller s.toList)
  unfold read
  dsimp only
  constructor
  · intro h
    cases hx : readValue (2 * s.toList.length + 2) (skipFiller s.toList) with
    | error fault =>
      rw [hx] at h
      cases h
      exact hvalue.long hx
    | ok p =>
      rw [hx] at h
      simp only [bind, Except.bind] at h
      split at h
      · cases h
      · split at h <;> cases h
  · rintro ⟨rest, hcomes, hlong⟩
    have hskip := (skipFiller_suffix s.toList).length_le
    have hstops : StopsAt (2 * s.toList.length + 1) (skipFiller s.toList) .value :=
      hcomes.stopsAt hlong (by omega)
    rw [StopsAt] at hstops
    rw [hstops]
    rfl

end Json

end CallFlow
