import CallFlow.Proofs.JsonRoundTrip

/-!
# Parts of a text that are read

A reader of a part reads it off the front of a text, or gives up. What it leaves is the end of the
text (`Json.LeftOf`), and apart from texts that are not JSON it gives up only at whole numbers with
more digits than are converted; for half of a pair of units it never gives up. `Json.ComesTo` says
to which places of a text the reader comes where the digits of a number may stand.

* `Json.readUnsigned_eq_numberTooLong_iff`: when the reader gives up at a number at the front.
* `Json.within_readText`: in a text between quotes it never does.
* `Json.within_parts`: in values, items and entries it does only at a number that it comes to.
-/

namespace CallFlow

namespace Json

open Text

variable {α β : Type} {cs rest : List Char}

/-! ## Numbers at the front of a text -/

/-- A text starts with a whole number that has more digits than are converted. -/
def StartsLong (cs : List Char) : Prop :=
  ∃ ds rest, cs = ds ++ rest ∧ IsWhole ds ∧ digitLimit < ds.length ∧ NoDigit rest ∧
    (readFraction rest).1 = none ∧ (readPower rest).1 = none

/-- What is left behind all digits does not begin with one. -/
theorem noDigit_dropWhile (cs : List Char) : NoDigit (cs.dropWhile isDigit) := by
  intro c hc
  have hnot := List.head?_dropWhile_not isDigit cs
  rw [Option.mem_def.mp hc] at hnot
  simpa using hnot

/-- A whole number is read off the front: a zero, or digits up to where no digit comes next. -/
theorem readWhole_eq_some {whole : List Char} (h : readWhole cs = some (whole, rest)) :
    cs = whole ++ rest ∧ (whole = ['0'] ∨ IsWhole whole ∧ NoDigit rest) := by
  unfold readWhole at h
  split at h
  · cases h
    exact ⟨rfl, .inl rfl⟩
  · rename_i c r hzero
    split at h
    · rename_i hc
      obtain ⟨rfl, rfl⟩ := Prod.mk.inj (Option.some.inj h)
      refine ⟨List.takeWhile_append_dropWhile.symm, .inr ⟨⟨fun c' hc' => ?_, .inr ?_⟩, ?_⟩⟩
      · exact List.mem_takeWhile_imp hc'
      · refine ⟨c, r.takeWhile isDigit, List.takeWhile_cons_of_pos hc, ?_⟩
        rintro rfl
        exact hzero rfl
      · exact noDigit_dropWhile _
    · cases h
  · cases h

/-- Where no fraction is read, nothing is taken. -/
theorem readFraction_of_none (h : (readFraction rest).1 = none) :
    readFraction rest = (none, rest) := by
  unfold readFraction at h ⊢
  split
  · split
    · simp_all
    · rfl
  · rfl

/-- A number that is read has too many digits if it is a whole number with more digits than are
converted. -/
theorem readUnsigned_eq_numberTooLong_iff {negative : Bool} :
    readUnsigned negative cs = .error .numberTooLong ↔ StartsLong cs := by
  constructor
  · intro h
    unfold readUnsigned at h
    split at h
    · cases h
    · rename_i whole rest hwhole
      dsimp only at h
      split at h
      · rename_i hnone
        split at h
        · rename_i hlong
          rw [Bool.and_eq_true, Option.isNone_iff_eq_none, Option.isNone_iff_eq_none] at hnone
          obtain ⟨hfraction, hpower⟩ := hnone
          rw [readFraction_of_none hfraction] at hpower
          obtain ⟨rfl, rfl | ⟨hwhole, hrest⟩⟩ := readWhole_eq_some hwhole
          · exact absurd hlong (by decide)
          · exact ⟨whole, rest, rfl, hwhole, hlong, hrest, hfraction, hpower⟩
        · cases h
      · cases h
  · rintro ⟨ds, rest, rfl, hwhole, hlong, hrest, hfraction, hpower⟩
    unfold readUnsigned
    rw [readWhole_append hwhole hrest]
    dsimp only
    rw [readFraction_of_none hfraction]
    dsimp only
    rw [hpower]
    simp [hlong]

/-! ## What is read off the front -/

/-- A text is what is left of another one when at least one character is read. -/
def LeftOf (rest cs : List Char) : Prop := rest <:+ cs ∧ rest.length < cs.length

/-- What is left of a text is left of a longer one. -/
theorem leftOf_cons (c : Char) (h : rest <:+ cs) : LeftOf rest (c :: cs) :=
  ⟨h.trans (List.suffix_cons _ _), Nat.lt_succ_of_le h.length_le⟩

/-- What is left of the end of a text is left of the text. -/
theorem LeftOf.of_suffix {more : List Char} (h : LeftOf rest cs) (hcs : cs <:+ more) :
    LeftOf rest more :=
  ⟨h.1.trans hcs, Nat.lt_of_lt_of_le h.2 hcs.length_le⟩

/-- The end of what is left is left as well. -/
theorem LeftOf.suffix {more : List Char} (h : LeftOf cs more) (hrest : rest <:+ cs) :
    LeftOf rest more :=
  ⟨hrest.trans h.1, Nat.lt_of_le_of_lt hrest.length_le h.2⟩

/-- What a reader of a part leaves, and under which condition it gives up at a number. -/
structure Within (cs : List Char) (P : Prop) (x : Read α) : Prop where
  left : ∀ a r, x = .ok (a, r) → LeftOf r cs
  long : x = .error .numberTooLong → P
  pairs : x ≠ .error .halfPair

namespace Within

variable {P : Prop} {x : Read α}

/-- A reader that leaves less than it was given keeps to its part. -/
theorem ok (a : α) (h : LeftOf rest cs) : Within cs P (.ok (a, rest) : Read α) where
  left a' r hr := by
    cases hr
    exact h
  long hlong := by cases hlong
  pairs hpairs := by cases hpairs

/-- So does one that finds nothing to read. -/
theorem malformed : Within cs P (.error .malformed : Read α) where
  left a r hr := by cases hr
  long hlong := by cases hlong
  pairs hpairs := by cases hpairs

/-- A reader that keeps to a part keeps to a longer one. -/
theorem mono {cs' : List Char} {P' : Prop} (h : Within cs P x) (hcs : cs <:+ cs') (hP : P → P') :
    Within cs' P' x where
  left a r hr := (h.left a r hr).of_suffix hcs
  long hlong := hP (h.long hlong)
  pairs := h.pairs

/-- A reader that gives up for the sake of a part gives up as this part does. -/
theorem of_error {x : Read β} {fault : Fault} (h : Within cs P x) (hx : x = .error fault) :
    Within cs P (.error fault : Read α) where
  left a r hr := by cases hr
  long hlong := by
    cases hlong
    exact h.long hx
  pairs hpairs := by
    cases hpairs
    exact h.pairs hx

/-- One reader after another keeps to the part if both do. -/
theorem bind (h : Within cs P x) {g : α × List Char → Read β}
    (hg : ∀ a r, x = .ok (a, r) → LeftOf r cs → Within cs P (g (a, r))) :
    Within cs P (Except.bind x g) := by
  cases hx : x with
  | ok p => exact hg p.1 p.2 hx (h.left p.1 p.2 hx)
  | error fault => exact h.of_error hx

/-- What is made of the value that was read does not matter. -/
theorem map (h : Within cs P x) (g : α → β) : Within cs P (x.map fun p => (g p.1, p.2)) := by
  cases hx : x with
  | ok p => exact ok _ (h.left p.1 p.2 hx)
  | error fault => exact h.of_error hx

end Within

/-! ## Texts -/

/-- A text is read with one character more. -/
theorem within_prepend {P : Prop} {x : Read (List Char)} (h : Within rest P x) (hcs : rest <:+ cs)
    (c : Char) : Within cs P (prepend c x) := by
  have hmap : prepend c x = x.map fun p => (c :: p.1, p.2) := by cases x <;> rfl
  rw [hmap]
  exact (h.mono hcs id).map (c :: ·)

/-- No number is read in a text between quotes. -/
theorem within_readText (cs : List Char) : Within cs False (readText cs) := by
  fun_induction readText cs with
  | case2 r => exact .ok _ (leftOf_cons _ List.suffix_rfl)
  | case4 a b c d n _ _ e f g h r m _ _ ih =>
    exact within_prepend ih (List.suffix_append ['\\', 'u', a, b, c, d, '\\', 'u', e, f, g, h] r) _
  | case5 a b c d n _ _ e f g h r m _ _ ih =>
    -- the second unit is no other half, so it is read once more
    exact within_prepend ih (List.suffix_append ['\\', 'u', a, b, c, d] _) _
  | case7 a b c d n _ _ r _ ih =>
    exact within_prepend ih (List.suffix_append ['\\', 'u', a, b, c, d] r) _
  | case8 a b c d r n _ _ _ ih | case9 a b c d r n _ _ _ ih =>
    exact within_prepend ih (List.suffix_append ['\\', 'u', a, b, c, d] r) _
  | case10 e r _ c _ ih => exact within_prepend ih (List.suffix_append ['\\', e] r) _
  | case13 c r _ _ _ _ ih => exact within_prepend ih (List.suffix_cons _ _) _
  | _ => exact .malformed

/-- A text in quotes is read without giving up at a number. -/
theorem within_quoted (r : List Char) (P : Prop) : Within ('"' :: r) P (readText r) :=
  (within_readText r).mono (List.suffix_cons _ _) False.elim

/-! ## Numbers -/

/-- What is left behind a fraction is the end of the text. -/
theorem readFraction_suffix (cs : List Char) : (readFraction cs).2 <:+ cs := by
  unfold readFraction
  split
  · split
    · exact (List.dropWhile_suffix _).trans (List.suffix_cons _ _)
    · exact List.suffix_rfl
  · exact List.suffix_rfl

/-- What is left behind a sign is the end of the text. -/
theorem takeSign_suffix (cs : List Char) : (Decimal.takeSign cs).2 <:+ cs := by
  unfold Decimal.takeSign
  split
  · exact List.suffix_cons _ _
  · exact List.suffix_cons _ _
  · exact List.suffix_rfl

/-- What is left behind an exponent is the end of the text. -/
theorem readPower_suffix (cs : List Char) : (readPower cs).2 <:+ cs := by
  cases cs with
  | nil => exact List.suffix_rfl
  | cons e r =>
    unfold readPower
    dsimp only
    split
    · exact (List.dropWhile_suffix _).trans ((takeSign_suffix r).trans (List.suffix_cons _ _))
    · exact List.suffix_rfl

/-- A whole number has at least one digit. -/
theorem readWhole_left {whole : List Char} (h : readWhole cs = some (whole, rest)) :
    LeftOf rest cs := by
  obtain ⟨rfl, rfl | ⟨hwhole, -⟩⟩ := readWhole_eq_some h
  · exact leftOf_cons _ List.suffix_rfl
  · obtain ⟨-, rfl | ⟨c, r, rfl, -⟩⟩ := hwhole
    · exact leftOf_cons _ List.suffix_rfl
    · exact leftOf_cons _ (List.suffix_append _ _)

/-- The reader of numbers gives up only at one that begins the text and is too long. -/
theorem within_readUnsigned (negative : Bool) (cs : List Char) :
    Within cs (StartsLong cs) (readUnsigned negative cs) where
  left v r hr := by
    unfold readUnsigned at hr
    split at hr
    · cases hr
    · rename_i whole after hwhole
      dsimp only at hr
      have hleft : LeftOf (readPower (readFraction after).2).2 cs :=
        (readWhole_left hwhole).suffix ((readPower_suffix _).trans (readFraction_suffix _))
      split at hr
      · split at hr
        · cases hr
        · cases hr
          exact hleft
      · cases hr
        exact hleft
  long := readUnsigned_eq_numberTooLong_iff.mp
  pairs hpairs := by
    unfold readUnsigned at hpairs
    split at hpairs
    · cases hpairs
    · dsimp only at hpairs
      split at hpairs
      · split at hpairs <;> cases hpairs
      · cases hpairs

/-- A word that stands for a value is taken off the front. -/
theorem leftOf_words {v : Value}
    (h : (words.findSome? fun w => (takeWord? w.1 cs).map fun r => (w.2, r)) = some (v, rest)) :
    LeftOf rest cs := by
  obtain ⟨w, hmem, hw⟩ := List.exists_of_findSome?_eq_some h
  obtain ⟨r, hr, heq⟩ := Option.map_eq_some_iff.mp hw
  obtain ⟨-, rfl⟩ := Prod.mk.inj heq
  have hne : ∀ w ∈ words, w.1 ≠ [] := by decide
  unfold takeWord? at hr
  split at hr
  · rename_i hprefix
    obtain ⟨behind, rfl⟩ := List.isPrefixOf_iff_prefix.mp hprefix
    obtain rfl := Option.some.inj hr
    have hpos := List.length_pos_iff.mpr (hne w hmem)
    refine ⟨List.drop_suffix _ _, ?_⟩
    rw [List.drop_left, List.length_append]
    omega
  · cases hr

/-! ## Places in a text -/

/-- What may stand at the front of a text. -/
inductive Place where
  /-- A value. -/
  | value
  /-- The items of a list that has some. -/
  | items
  /-- The entries of a mapping that has some. -/
  | members
  deriving DecidableEq, Repr

/-- Reading from the front of a text, the reader comes to a place where the digits of a number may
stand. On its way it has read all that stands before. -/
inductive ComesTo : Place → List Char → List Char → Prop where
  | digits {cs : List Char} : ComesTo .value cs cs
  | minus {r : List Char} : ComesTo .value ('-' :: r) r
  | list {r rest : List Char} : (∀ r', skipFiller r ≠ ']' :: r') →
      ComesTo .items (skipFiller r) rest → ComesTo .value ('[' :: r) rest
  | mapping {r rest : List Char} : (∀ r', skipFiller r ≠ '\x7d' :: r') →
      ComesTo .members (skipFiller r) rest → ComesTo .value ('\x7b' :: r) rest
  | item {cs rest : List Char} : ComesTo .value cs rest → ComesTo .items cs rest
  | items {cs r r' rest : List Char} {fuel : Nat} {v : Value} : readValue fuel cs = .ok (v, r) →
      skipFiller r = ',' :: r' → ComesTo .items (skipFiller r') rest → ComesTo .items cs rest
  | member {r r' r'' rest key : List Char} : readText r = .ok (key, r') →
      skipFiller r' = ':' :: r'' → ComesTo .value (skipFiller r'') rest →
      ComesTo .members ('"' :: r) rest
  | members {r r' r'' left more rest key : List Char} {fuel : Nat} {v : Value} :
      readText r = .ok (key, r') → skipFiller r' = ':' :: r'' →
      readValue fuel (skipFiller r'') = .ok (v, left) → skipFiller left = ',' :: more →
      ComesTo .members (skipFiller more) rest → ComesTo .members ('"' :: r) rest

/-- The reader comes to a whole number with more digits than are converted. -/
def GivesUp (place : Place) (cs : List Char) : Prop :=
  ∃ rest, ComesTo place cs rest ∧ StartsLong rest

/-- Whoever comes to the same places gives up at the same numbers. -/
theorem GivesUp.imp {place place' : Place} {cs' : List Char} (h : GivesUp place cs)
    (himp : ∀ rest, ComesTo place cs rest → ComesTo place' cs' rest) : GivesUp place' cs' := by
  obtain ⟨rest, hcomes, hlong⟩ := h
  exact ⟨rest, himp rest hcomes, hlong⟩

/-- Behind filler, what is left is the end of the text. -/
theorem suffix_of_skipFiller {r r' : List Char} {c : Char} (h : skipFiller r = c :: r')
    (hr : r <:+ cs) : c :: r' <:+ cs :=
  h ▸ (List.dropWhile_suffix _).trans hr

/-- What is left behind blanks is the end of the text. -/
theorem skipFiller_suffix (cs : List Char) : skipFiller cs <:+ cs := List.dropWhile_suffix _

/-- The reader of numbers and words gives up only at a number. -/
theorem within_readBare (cs : List Char) : Within cs (GivesUp .value cs) (readBare cs) := by
  unfold readBare
  split
  · exact .ok _ (leftOf_words ‹_›)
  · split
    · rename_i r _
      exact (within_readUnsigned true r).mono (List.suffix_cons _ _) fun h => ⟨r, .minus, h⟩
    · exact (within_readUnsigned false _).mono List.suffix_rfl fun h => ⟨_, .digits, h⟩

section

variable {fuel : Nat}

/-- The reader of values gives up where those of items and of entries do, or at a number. -/
theorem within_readValue (hitems : ∀ cs, Within cs (GivesUp .items cs) (readItems fuel cs))
    (hmembers : ∀ cs, Within cs (GivesUp .members cs) (readMembers fuel cs)) (cs : List Char) :
    Within cs (GivesUp .value cs) (readValue (fuel + 1) cs) := by
  unfold readValue
  split
  · exact (within_quoted _ _).map fun t => Value.text (String.ofList t)
  · rename_i r
    split
    · rename_i r' hclose
      exact .ok _ (leftOf_cons _ ((List.suffix_cons _ _).trans
        (suffix_of_skipFiller hclose List.suffix_rfl)))
    · rename_i hopen
      have hread := (hitems (skipFiller r)).mono
        ((skipFiller_suffix r).trans (List.suffix_cons '[' r))
        fun h => h.imp fun rest => ComesTo.list hopen
      exact hread.map Value.list
  · rename_i r
    split
    · rename_i r' hclose
      exact .ok _ (leftOf_cons _ ((List.suffix_cons _ _).trans
        (suffix_of_skipFiller hclose List.suffix_rfl)))
    · rename_i hopen
      have hread := (hmembers (skipFiller r)).mono
        ((skipFiller_suffix r).trans (List.suffix_cons '\x7b' r))
        fun h => h.imp fun rest => ComesTo.mapping hopen
      exact hread.map fun es => Value.mapping (Entries.ofPairs es)
  · exact within_readBare cs

/-- The reader of items gives up where that of values does. -/
theorem within_readItems (hvalue : ∀ cs, Within cs (GivesUp .value cs) (readValue fuel cs))
    (hitems : ∀ cs, Within cs (GivesUp .items cs) (readItems fuel cs)) (cs : List Char) :
    Within cs (GivesUp .items cs) (readItems (fuel + 1) cs) := by
  unfold readItems
  have hfirst := (hvalue cs).mono List.suffix_rfl fun h => h.imp fun rest => ComesTo.item
  refine hfirst.bind fun v r hread hr => ?_
  dsimp only
  split
  · rename_i r' hclose
    exact .ok _ (hr.suffix ((List.suffix_cons _ _).trans
      (suffix_of_skipFiller hclose List.suffix_rfl)))
  · rename_i r' hcomma
    have hmore : skipFiller r' <:+ cs := (skipFiller_suffix r').trans
      ((List.suffix_cons _ _).trans (suffix_of_skipFiller hcomma hr.1))
    have hothers := (hitems (skipFiller r')).mono hmore
      fun h => h.imp fun rest => ComesTo.items hread hcomma
    exact hothers.bind fun vs left _ hleft => .ok _ hleft
  · exact .malformed

/-- The reader of entries gives up where that of values does. -/
theorem within_readMembers (hvalue : ∀ cs, Within cs (GivesUp .value cs) (readValue fuel cs))
    (hmembers : ∀ cs, Within cs (GivesUp .members cs) (readMembers fuel cs)) (cs : List Char) :
    Within cs (GivesUp .members cs) (readMembers (fuel + 1) cs) := by
  unfold readMembers
  split
  · rename_i r
    refine (within_quoted r _).bind fun key r' hkey hr' => ?_
    dsimp only
    split
    · rename_i r'' hcolon
      have hsuffix : skipFiller r'' <:+ '"' :: r := (skipFiller_suffix r'').trans
        ((List.suffix_cons _ _).trans (suffix_of_skipFiller hcolon hr'.1))
      have hfirst := (hvalue (skipFiller r'')).mono hsuffix
        fun h => h.imp fun rest => ComesTo.member hkey hcolon
      refine hfirst.bind fun v left hread hleft => ?_
      dsimp only
      split
      · rename_i behind hclose
        exact .ok _ (hleft.suffix ((List.suffix_cons _ _).trans
          (suffix_of_skipFiller hclose List.suffix_rfl)))
      · rename_i more hcomma
        have hmore : skipFiller more <:+ '"' :: r := (skipFiller_suffix more).trans
          ((List.suffix_cons _ _).trans (suffix_of_skipFiller hcomma hleft.1))
        have hothers := (hmembers (skipFiller more)).mono hmore
          fun h => h.imp fun rest => ComesTo.members hkey hcolon hread hcomma
        exact hothers.bind fun es left' _ hleft' => .ok _ hleft'
      · exact .malformed
    · exact .malformed
  · exact .malformed

end

/-- **Where the reader gives up** in values, in the items of a list, and in the entries of a
mapping: only at numbers with too many digits that it comes to. -/
theorem within_parts (fuel : Nat) :
    (∀ cs, Within cs (GivesUp .value cs) (readValue fuel cs)) ∧
    (∀ cs, Within cs (GivesUp .items cs) (readItems fuel cs)) ∧
    ∀ cs, Within cs (GivesUp .members cs) (readMembers fuel cs) := by
  induction fuel with
  | zero => exact ⟨fun _ => .malformed, fun _ => .malformed, fun _ => .malformed⟩
  | succ fuel ih =>
    obtain ⟨hvalue, hitems, hmembers⟩ := ih
    exact ⟨within_readValue hitems hmembers, within_readItems hvalue hitems,
      within_readMembers hvalue hmembers⟩

end Json

end CallFlow
