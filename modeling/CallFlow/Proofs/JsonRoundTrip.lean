import CallFlow.Proofs.HalfPairs
import CallFlow.Proofs.NestedValues

/-!
# Values in JSON text

The text of a value is read in every style, provided that its whole numbers are short enough to be
written. What is read has texts for keys (`Json.reread`); it is the value itself if the keys are
texts already and differ from each other. A reader of a part reads the part off the front of a text
and leaves the rest, so the parts of a value are read one after the other.

* `Json.readItems_writeItems`, `Json.readMembers_writeMembers`: the entries of a list or a mapping.
* `Json.readValue_writeValue`: values, by induction on their structure.
* `Json.read_write_eq_reread`, `Json.read_write`: whole texts.
-/

namespace CallFlow.Json

open Text

/-! ## Steps of the reader -/

section

variable {fuel : Nat} {cs r r' : List Char} {v : Value}

/-- What starts with no quote and no opening bracket is read as a value without parts. -/
theorem readValue_bare {c : Char} (hquote : c ≠ '"') (hlist : c ≠ '[') (hmapping : c ≠ '\x7b')
    (r : List Char) (fuel : Nat) : readValue (fuel + 1) (c :: r) = readBare (c :: r) := by
  rw [readValue]
  all_goals simp [hquote, hlist, hmapping]

/-- Behind an opening bracket that is not closed at once, items are read. -/
theorem readValue_of_list (h : ∀ r', skipFiller r ≠ ']' :: r') (fuel : Nat) :
    readValue (fuel + 1) ('[' :: r) =
      (readItems fuel (skipFiller r)).map fun p => (.list p.1, p.2) := by
  rw [readValue]
  split
  · exact absurd ‹_› (h _)
  · rfl

/-- Behind an opening brace that is not closed at once, entries are read. -/
theorem readValue_of_mapping (h : ∀ r', skipFiller r ≠ '\x7d' :: r') (fuel : Nat) :
    readValue (fuel + 1) ('\x7b' :: r) = (readMembers fuel (skipFiller r)).map
      fun p => (.mapping (Entries.ofPairs p.1), p.2) := by
  rw [readValue]
  split
  · exact absurd ‹_› (h _)
  · rfl

/-- Behind an item and a comma, the other items are read. -/
theorem readItems_of_ok (hread : readValue fuel cs = .ok (v, r)) (hcomma : skipFiller r = ',' :: r') :
    readItems (fuel + 1) cs =
      (readItems fuel (skipFiller r')).map fun p => (v :: p.1, p.2) := by
  rw [readItems, hread]
  simp only [bind, Except.bind, hcomma]
  cases readItems fuel (skipFiller r') <;> rfl

/-- Behind a key and a colon, a value is read, and behind a comma the other entries. -/
theorem readMembers_of_key {key r'' : List Char} (hkey : readText r = .ok (key, r'))
    (hcolon : skipFiller r' = ':' :: r'') (fuel : Nat) :
    readMembers (fuel + 1) ('"' :: r) = (readValue fuel (skipFiller r'')).bind fun p =>
      match skipFiller p.2 with
      | '\x7d' :: left => .ok ([(.text (String.ofList key), p.1)], left)
      | ',' :: more => (readMembers fuel (skipFiller more)).map
          fun q => ((.text (String.ofList key), p.1) :: q.1, q.2)
      | _ => .error .malformed := by
  rw [readMembers, hkey]
  simp only [bind, Except.bind, hcolon]
  rfl

end

/-! ## Separators -/

/-- Nothing is skipped where something else than blanks comes first. -/
theorem skipFiller_cons {c : Char} (hc : isFiller c = false) (r : List Char) :
    skipFiller (c :: r) = c :: r :=
  List.dropWhile_cons_of_neg (by simp [hc])

/-- Filler is dropped in front of a character that is none. -/
theorem skipFiller_append {gap : List Char} (hgap : ∀ c ∈ gap, isFiller c = true) {c : Char}
    (hc : isFiller c = false) (r : List Char) : skipFiller (gap ++ c :: r) = c :: r := by
  unfold skipFiller
  rw [List.dropWhile_append_of_pos hgap]
  exact skipFiller_cons hc r

/-- A line break and its indent are blanks. -/
theorem isFiller_lineBreak (style : Style) (level : Nat) :
    ∀ c ∈ lineBreak style level, isFiller c = true := by
  intro c h
  unfold lineBreak at h
  split at h
  · cases h
  · rcases List.mem_cons.mp h with rfl | h
    · rfl
    · rw [List.eq_of_mem_replicate h]
      rfl

/-- A comma with filler behind it stands between two entries. -/
theorem entrySeparator_eq (style : Style) (level : Nat) :
    ∃ gap, entrySeparator style level = ',' :: gap ∧ ∀ c ∈ gap, isFiller c = true := by
  unfold entrySeparator
  split
  · exact ⟨_, rfl, isFiller_lineBreak style level⟩
  · exact ⟨[' '], rfl, List.forall_mem_singleton.mpr rfl⟩

/-- A colon with filler behind it stands between a key and its value. -/
theorem keySeparator_eq (style : Style) :
    ∃ gap, keySeparator style = ':' :: gap ∧ ∀ c ∈ gap, isFiller c = true := by
  unfold keySeparator
  split
  · exact ⟨[], rfl, List.forall_mem_nil _⟩
  · exact ⟨[' '], rfl, List.forall_mem_singleton.mpr rfl⟩

/-- A number ends where no digit, point or exponent comes next. -/
theorem endsNumber_cons {c : Char} (hdigit : isDigit c = false) (hpoint : c ≠ '.') (hsmall : c ≠ 'e')
    (hlarge : c ≠ 'E') (rest : List Char) : EndsNumber (c :: rest) := by
  intro c' hc'
  obtain rfl := Option.some.inj hc'
  exact ⟨hdigit, hpoint, hsmall, hlarge⟩

/-- What follows an entry does not go on with a number. -/
theorem endsNumber_filler {gap : List Char} (hgap : ∀ c ∈ gap, isFiller c = true) {rest : List Char}
    (hrest : EndsNumber rest) : EndsNumber (gap ++ rest) := by
  cases gap with
  | nil => exact hrest
  | cons c gap =>
    have hc : isFiller c = true := hgap c List.mem_cons_self
    simp only [isFiller, Bool.or_eq_true, decide_eq_true_eq] at hc
    obtain ((rfl | rfl) | rfl) | rfl := hc
    all_goals exact endsNumber_cons (by decide) (by decide) (by decide) (by decide) _

/-! ## Values -/

/-- No value without parts starts with filler, a quote or a bracket. -/
theorem readBare_other {c : Char} (hc : c ∈ [' ', '\t', '\n', '\r', '"', '[', ']', '\x7b', '\x7d'])
    (r : List Char) : readBare (c :: r) = .error .malformed := by
  simp only [List.mem_cons, List.not_mem_nil, or_false] at hc
  obtain rfl | rfl | rfl | rfl | rfl | rfl | rfl | rfl | rfl := hc
  all_goals simp [readBare, words, takeWord?, readUnsigned, readWhole, isDigit]

/-- What is read as a number or a word does not begin with a blank, a quote or a bracket. -/
theorem eq_cons_of_readBare {cs : List Char} {p : Value × List Char} (h : readBare cs = .ok p) :
    ∃ c r, cs = c :: r ∧ c ∉ [' ', '\t', '\n', '\r', '"', '[', ']', '\x7b', '\x7d'] := by
  cases cs with
  | nil => simp [readBare, words, takeWord?, readUnsigned, readWhole] at h
  | cons c r =>
    refine ⟨c, r, rfl, fun hc => ?_⟩
    rw [readBare_other hc] at h
    cases h

/-- A whole number begins with a digit or a sign. -/
theorem ofInt_eq_cons (n : Int) :
    ∃ c r, (ofInt n).toList = c :: r ∧ (isDigit c = true ∨ c = '-') := by
  cases n with
  | ofNat n =>
    obtain ⟨c, r, hchars⟩ := List.exists_cons_of_ne_nil (digits_ne_nil n)
    refine ⟨c, r, by rw [ofInt, String.toList_ofList, hchars], .inl ?_⟩
    exact isDigit_of_mem_digits (hchars ▸ List.mem_cons_self)
  | negSucc n => exact ⟨'-', digits (n + 1), by rw [ofInt, String.toList_ofList], .inr rfl⟩

/-- The text of a scalar that is not a text starts with none of these, even if it is too long to be
read. -/
theorem bareScalar_eq_cons {s : Scalar} (htext : ∀ t, s ≠ .text t) :
    ∃ c r, (bareScalar s).toList = c :: r ∧
      c ∉ [' ', '\t', '\n', '\r', '"', '[', ']', '\x7b', '\x7d'] := by
  have hshort : isShort s = true → ∃ c r, (bareScalar s).toList = c :: r ∧
      c ∉ [' ', '\t', '\n', '\r', '"', '[', ']', '\x7b', '\x7d'] := by
    intro hs
    have hends : EndsNumber [] := fun c hc => by cases hc
    have hread := readBare_bareScalar htext hs hends
    rw [List.append_nil] at hread
    exact eq_cons_of_readBare hread
  cases s with
  | text t => exact absurd rfl (htext t)
  | null | bool b | float x => exact hshort rfl
  | int n =>
    obtain ⟨c, r, hchars, hc⟩ := ofInt_eq_cons n
    refine ⟨c, r, hchars, fun hmem => ?_⟩
    rcases hc with hdigit | rfl
    · simp only [List.mem_cons, List.not_mem_nil, or_false] at hmem
      obtain rfl | rfl | rfl | rfl | rfl | rfl | rfl | rfl | rfl := hmem
      all_goals exact absurd hdigit (by decide)
    · exact absurd hmem (by decide)

/-- What is no text is written as it is, without quotes. -/
theorem writeScalar_eq (style : Style) {s : Scalar} (htext : ∀ t, s ≠ .text t) :
    writeScalar style s = (bareScalar s).toList := by
  cases s with
  | text t => exact absurd rfl (htext t)
  | _ => rfl

/-- A list can be written if its items can. -/
theorem canWrite_list {items : List Value} :
    canWrite (.list items) = true ↔ ∀ v ∈ items, canWrite v = true :=
  Value.all_list_iff.trans (and_iff_right rfl)

/-- A mapping can be written if its keys and its values can. -/
theorem canWrite_mapping {entries : Entries} : canWrite (.mapping entries) = true ↔
    (∀ e ∈ entries, isShort e.1 = true) ∧ ∀ e ∈ entries, canWrite e.2 = true :=
  Value.all_mapping_iff.trans (and_congr_left' List.all_eq_true)

/-- A scalar can be written if it is no number that is too long. -/
theorem canWrite_scalar (s : Scalar) : canWrite (.scalar s) = isShort s := Value.all_scalar s

mutual

/-- What the text of a value gives back: the keys of its mappings have become texts. Of keys with
one text the first gives the place and the last gives the value. -/
def reread : Value → Value
  | .scalar s => .scalar s
  | .list items => .list (rereadItems items)
  | .mapping entries => .mapping (Entries.ofPairs (rereadEntries entries))

/-- What the items of a list give back. -/
def rereadItems : List Value → List Value
  | [] => []
  | v :: rest => reread v :: rereadItems rest

/-- What the entries of a mapping give back, one after the other. -/
def rereadEntries : List (Scalar × Value) → List (Scalar × Value)
  | [] => []
  | (k, v) :: rest => (.text (bareScalar k), reread v) :: rereadEntries rest

end

/-- The text of a value starts with no filler and no closing bracket. -/
theorem writeValue_eq_cons (style : Style) (level : Nat) (v : Value) :
    ∃ c r, writeValue style level v = c :: r ∧ isFiller c = false ∧ c ≠ ']' := by
  cases v with
  | scalar s =>
    by_cases htext : ∃ t, s = .text t
    · obtain ⟨t, rfl⟩ := htext
      exact ⟨_, _, rfl, rfl, by decide⟩
    · have htext : ∀ t, s ≠ .text t := fun t ht => htext ⟨t, ht⟩
      obtain ⟨c, r, hchars, hc⟩ := bareScalar_eq_cons htext
      refine ⟨c, r, (writeScalar_eq style htext).trans hchars, ?_, fun h => hc (by simp [h])⟩
      simp only [List.mem_cons, not_or] at hc
      simp [isFiller, hc.1, hc.2.1, hc.2.2.1, hc.2.2.2.1]
  | list items => cases items <;> exact ⟨_, _, rfl, rfl, by decide⟩
  | mapping entries => cases entries <;> exact ⟨_, _, rfl, rfl, by decide⟩

/-- What is no text is read as a number or a word. -/
theorem readValue_bareScalar {s : Scalar} (htext : ∀ t, s ≠ .text t) (rest : List Char)
    (fuel : Nat) : readValue (fuel + 1) ((bareScalar s).toList ++ rest) =
      readBare ((bareScalar s).toList ++ rest) := by
  obtain ⟨c, r, hchars, hc⟩ := bareScalar_eq_cons htext
  rw [hchars, List.cons_append]
  simp only [List.mem_cons, not_or] at hc
  obtain ⟨-, -, -, -, hquote, hlist, -, hmapping, -⟩ := hc
  exact readValue_bare hquote hlist hmapping _ fuel

/-- A scalar is read back from its text. -/
theorem readValue_writeScalar (style : Style) {s : Scalar} (hshort : isShort s = true)
    {rest : List Char} (hrest : EndsNumber rest) (fuel : Nat) :
    readValue (fuel + 1) (writeScalar style s ++ rest) = .ok (.scalar s, rest) := by
  by_cases htext : ∃ t, s = .text t
  · obtain ⟨t, rfl⟩ := htext
    have hread := readText_flatMap style.asciiOnly t.toList rest
    rw [writeScalar, writeText, List.cons_append, List.append_assoc, List.singleton_append,
      readValue, hread]
    simp [Except.map, String.ofList_toList]
  · have htext : ∀ t, s ≠ .text t := fun t ht => htext ⟨t, ht⟩
    rw [writeScalar_eq style htext, readValue_bareScalar htext]
    exact readBare_bareScalar htext hshort hrest

/-- Filler in front of a text is dropped. -/
theorem skipFiller_writeText {gap : List Char} (hgap : ∀ c ∈ gap, isFiller c = true)
    (asciiOnly : Bool) (s : String) (rest : List Char) :
    skipFiller (gap ++ (writeText asciiOnly s ++ rest)) = writeText asciiOnly s ++ rest :=
  skipFiller_append hgap (by decide) _

/-- Filler in front of a value is dropped. -/
theorem skipFiller_writeValue {gap : List Char} (hgap : ∀ c ∈ gap, isFiller c = true)
    (style : Style) (level : Nat) (v : Value) (rest : List Char) :
    skipFiller (gap ++ (writeValue style level v ++ rest)) = writeValue style level v ++ rest := by
  obtain ⟨c, r, hchars, hc, -⟩ := writeValue_eq_cons style level v
  rw [hchars, List.cons_append]
  exact skipFiller_append hgap hc _

/-- A value is read off the front of a text where it stands as it is written. The fuel may be twice
the length of what is written. -/
def ReadsBack (style : Style) (v : Value) : Prop :=
  ∀ (level fuel : Nat) (rest : List Char), 2 * (writeValue style level v).length ≤ fuel →
    EndsNumber rest → readValue fuel (writeValue style level v ++ rest) = .ok (reread v, rest)

/-- What follows the last entry of a list or a mapping. -/
theorem endsNumber_close (style : Style) (level : Nat) {c : Char} (hc : c = ']' ∨ c = '\x7d')
    (rest : List Char) : EndsNumber (lineBreak style level ++ c :: rest) := by
  refine endsNumber_filler (isFiller_lineBreak style level) ?_
  rcases hc with rfl | rfl
  all_goals exact endsNumber_cons (by decide) (by decide) (by decide) (by decide) _

/-- A number ends where what stands between entries comes next. -/
theorem endsNumber_separator (style : Style) (level : Nat) (rest : List Char) :
    EndsNumber (entrySeparator style level ++ rest) := by
  obtain ⟨gap, hseparator, -⟩ := entrySeparator_eq style level
  rw [hseparator]
  exact endsNumber_cons (by decide) (by decide) (by decide) (by decide) _

/-- The indent in front of a closing bracket is skipped. -/
theorem skipFiller_close (style : Style) (level : Nat) {c : Char} (hc : c = ']' ∨ c = '\x7d')
    (rest : List Char) : skipFiller (lineBreak style level ++ c :: rest) = c :: rest := by
  refine skipFiller_append (isFiller_lineBreak style level) ?_ rest
  rcases hc with rfl | rfl <;> rfl

/-- An item with another one behind it is read, and then the reader goes on with the other one. -/
theorem readItems_cons (style : Style) (level : Nat) {fuel : Nat} {v : Value} {cs : List Char}
    (hv : ∀ rest, EndsNumber rest → readValue fuel (cs ++ rest) = .ok (v, rest)) (w : Value)
    (more : List Char) :
    readItems (fuel + 1) (cs ++ (entrySeparator style level ++ (writeValue style (level + 1) w ++
      more))) = (readItems fuel (writeValue style (level + 1) w ++ more)).map
        fun p => (v :: p.1, p.2) := by
  obtain ⟨gap, hseparator, hgap⟩ := entrySeparator_eq style level
  have hread := hv _ (endsNumber_separator style level (writeValue style (level + 1) w ++ more))
  rw [hseparator, List.cons_append] at hread ⊢
  rw [readItems_of_ok hread (skipFiller_cons rfl _), skipFiller_writeValue hgap style (level + 1) w]

/-- The items of a list are read up to and with the closing bracket: the first one, which is
written `cs`, and then the others. -/
theorem readItems_writeItems (style : Style) (level : Nat) :
    ∀ {items : List Value}, (∀ w ∈ items, ReadsBack style w) →
      ∀ {fuel : Nat} {v : Value} {cs rest : List Char},
        (∀ rest, EndsNumber rest → readValue fuel (cs ++ rest) = .ok (v, rest)) →
        2 * (writeItems style level items).length ≤ fuel →
        readItems (fuel + 1) (cs ++ (writeItems style level items ++
          (lineBreak style (level - 1) ++ ']' :: rest))) = .ok (v :: rereadItems items, rest)
  | [], _, fuel, v, cs, rest, hv, _ => by
    have hread := hv _ (endsNumber_close style (level - 1) (.inl rfl) rest)
    have hskip := skipFiller_close style (level - 1) (.inl rfl) rest
    rw [writeItems, List.nil_append, readItems, hread]
    simp only [bind, Except.bind, hskip, rereadItems]
  | w :: items, hitems, fuel, v, cs, rest, hv, hfuel => by
    have hback := hitems w List.mem_cons_self
    obtain ⟨gap, hseparator, -⟩ := entrySeparator_eq style level
    rw [writeItems] at hfuel ⊢
    simp only [List.length_append, hseparator, List.length_cons] at hfuel
    obtain ⟨fuel, rfl⟩ : ∃ n, fuel = n + 1 := ⟨fuel - 1, by omega⟩
    have hw : ∀ rest, EndsNumber rest →
        readValue fuel (writeValue style (level + 1) w ++ rest) = .ok (reread w, rest) :=
      fun rest hrest => hback (level + 1) fuel rest (by omega) hrest
    have htail : 2 * (writeItems style level items).length ≤ fuel := by omega
    have hrest : readItems (fuel + 1) (writeValue style (level + 1) w ++ (writeItems style level items
        ++ (lineBreak style (level - 1) ++ ']' :: rest))) = .ok (reread w :: rereadItems items, rest) :=
      readItems_writeItems style level (fun w' hw' => hitems w' (List.mem_cons_of_mem _ hw')) hw htail
    simp only [List.append_assoc]
    rw [readItems_cons style level hv, hrest]
    rfl

/-- The key of an entry is read and then its value. -/
theorem readMembers_key (style : Style) (level fuel : Nat) (key : String) (v : Value)
    (rest : List Char) :
    readMembers (fuel + 1) (writeText style.asciiOnly key ++ (keySeparator style ++
      (writeValue style level v ++ rest))) =
        (readValue fuel (writeValue style level v ++ rest)).bind fun p =>
          match skipFiller p.2 with
          | '\x7d' :: r => .ok ([(.text key, p.1)], r)
          | ',' :: r => (readMembers fuel (skipFiller r)).map fun q => ((.text key, p.1) :: q.1, q.2)
          | _ => .error .malformed := by
  obtain ⟨gap, hcolon, hgap⟩ := keySeparator_eq style
  have hkey := readText_flatMap style.asciiOnly key.toList
    (keySeparator style ++ (writeValue style level v ++ rest))
  rw [hcolon, List.cons_append] at hkey
  rw [writeText, hcolon, List.cons_append, List.cons_append, List.append_assoc,
    List.singleton_append, readMembers_of_key hkey (skipFiller_cons rfl _),
    skipFiller_writeValue hgap style level v, String.ofList_toList]

/-- An entry with another one behind it is read, and then the reader goes on with the other one. -/
theorem readMembers_cons {style : Style} (level : Nat) {fuel : Nat} (key : String) {v : Value}
    (hback : ReadsBack style v) (hfuel : 2 * (writeValue style (level + 1) v).length ≤ fuel)
    (key' : String) (more : List Char) :
    readMembers (fuel + 1) (writeText style.asciiOnly key ++ (keySeparator style ++
      (writeValue style (level + 1) v ++ (entrySeparator style level ++
        (writeText style.asciiOnly key' ++ more))))) =
      (readMembers fuel (writeText style.asciiOnly key' ++ more)).map
        fun p => ((.text key, reread v) :: p.1, p.2) := by
  obtain ⟨gap, hseparator, hgap⟩ := entrySeparator_eq style level
  have hread := hback (level + 1) fuel _ hfuel
    (endsNumber_separator style level (writeText style.asciiOnly key' ++ more))
  rw [readMembers_key, hread, hseparator]
  simp only [Except.bind, List.cons_append, skipFiller_cons (c := ',') rfl]
  rw [skipFiller_writeText hgap]

/-- The entries of a mapping are read up to and with the closing brace: the first one and then the
others. -/
theorem readMembers_writeMembers (style : Style) (level : Nat) :
    ∀ {entries : Entries}, (∀ e ∈ entries, ReadsBack style e.2) →
      ∀ {fuel : Nat} {key : String} {v : Value} {rest : List Char}, ReadsBack style v →
        2 * (writeValue style (level + 1) v).length ≤ fuel →
        2 * (writeMembers style level entries).length ≤ fuel →
        readMembers (fuel + 1) (writeText style.asciiOnly key ++ (keySeparator style ++
          (writeValue style (level + 1) v ++ (writeMembers style level entries ++
            (lineBreak style (level - 1) ++ '\x7d' :: rest))))) =
          .ok ((.text key, reread v) :: rereadEntries entries, rest)
  | [], _, fuel, key, v, rest, hback, hfirst, _ => by
    have hread := hback (level + 1) fuel _ hfirst (endsNumber_close style (level - 1) (.inr rfl) rest)
    have hskip := skipFiller_close style (level - 1) (.inr rfl) rest
    rw [writeMembers, List.nil_append, readMembers_key, hread]
    simp only [Except.bind, hskip, rereadEntries]
  | (k, w) :: entries, hentries, fuel, key, v, rest, hback, hfirst, hfuel => by
    have hback' := hentries _ List.mem_cons_self
    obtain ⟨gap, hseparator, -⟩ := entrySeparator_eq style level
    rw [writeMembers] at hfuel ⊢
    simp only [List.length_append, hseparator, List.length_cons] at hfuel
    obtain ⟨fuel, rfl⟩ : ∃ n, fuel = n + 1 := ⟨fuel - 1, by omega⟩
    have hw : 2 * (writeValue style (level + 1) w).length ≤ fuel := by omega
    have htail : 2 * (writeMembers style level entries).length ≤ fuel := by omega
    have hrest : readMembers (fuel + 1) (writeText style.asciiOnly (bareScalar k) ++ (keySeparator style ++
        (writeValue style (level + 1) w ++ (writeMembers style level entries ++
          (lineBreak style (level - 1) ++ '\x7d' :: rest))))) =
        .ok ((.text (bareScalar k), reread w) :: rereadEntries entries, rest) :=
      readMembers_writeMembers style level (fun e he => hentries e (List.mem_cons_of_mem _ he))
        hback' hw htail
    simp only [List.append_assoc]
    rw [readMembers_cons level key hback hfirst, hrest]
    rfl

/-- There is fuel for one step more than what is left needs. -/
theorem exists_fuel {fuel : Nat} {cs : List Char} (h : 2 * cs.length ≤ fuel) (hne : cs ≠ []) :
    ∃ n, fuel = n + 1 ∧ 2 * cs.length ≤ n + 1 := by
  have hpos := List.length_pos_iff.mpr hne
  exact ⟨fuel - 1, by omega, by omega⟩

/-- Behind the opening bracket of a list that has items, its items are read. -/
theorem readValue_list (style : Style) (level fuel : Nat) (v : Value) (items : List Value)
    (rest : List Char) :
    readValue (fuel + 1) (writeValue style level (.list (v :: items)) ++ rest) =
      (readItems fuel (writeValue style (level + 1) v ++ (writeItems style level items ++
        (lineBreak style (level - 1) ++ ']' :: rest)))).map fun p => (.list p.1, p.2) := by
  have hopen := skipFiller_writeValue (isFiller_lineBreak style level) style (level + 1) v
  obtain ⟨c, r, hchars, -, hc⟩ := writeValue_eq_cons style (level + 1) v
  rw [writeValue]
  simp only [List.cons_append, List.append_assoc, List.nil_append]
  rw [readValue_of_list, hopen]
  intro r' heq
  rw [hopen, hchars, List.cons_append] at heq
  exact hc (List.cons.inj heq).1

/-- Behind the opening brace of a mapping that has entries, its entries are read. -/
theorem readValue_mapping (style : Style) (level fuel : Nat) (k : Scalar) (v : Value)
    (entries : List (Scalar × Value)) (rest : List Char) :
    readValue (fuel + 1) (writeValue style level (.mapping ((k, v) :: entries)) ++ rest) =
      (readMembers fuel (writeText style.asciiOnly (bareScalar k) ++ (keySeparator style ++
        (writeValue style (level + 1) v ++ (writeMembers style level entries ++
          (lineBreak style (level - 1) ++ '\x7d' :: rest)))))).map
            fun p => (.mapping (Entries.ofPairs p.1), p.2) := by
  have hopen := skipFiller_writeText (isFiller_lineBreak style level) style.asciiOnly (bareScalar k)
  rw [writeValue]
  simp only [List.cons_append, List.append_assoc, List.nil_append]
  rw [readValue_of_mapping, hopen]
  intro r' heq
  rw [hopen, writeText, List.cons_append] at heq
  exact absurd (List.cons.inj heq).1 (by decide)

/-- What is written of a list is longer than its first item and than the others. -/
theorem length_writeValue_list (style : Style) (level : Nat) (v : Value) (items : List Value) :
    (writeValue style (level + 1) v).length + (writeItems style level items).length + 2 ≤
      (writeValue style level (.list (v :: items))).length := by
  rw [writeValue]
  simp only [List.length_append, List.length_cons, List.length_nil]
  omega

/-- What is written of a mapping is longer than the first of its values and than the other
entries. -/
theorem length_writeValue_mapping (style : Style) (level : Nat) (k : Scalar) (v : Value)
    (entries : List (Scalar × Value)) :
    (writeValue style (level + 1) v).length + (writeMembers style level entries).length + 2 ≤
      (writeValue style level (.mapping ((k, v) :: entries))).length := by
  rw [writeValue]
  simp only [List.length_append, List.length_cons, List.length_nil]
  omega

/-- A list is read back if each of its items is. -/
theorem readsBack_list (style : Style) {items : List Value}
    (h : ∀ v ∈ items, ReadsBack style v) : ReadsBack style (.list items) := by
  intro level fuel rest hfuel _
  cases items with
  | nil =>
    obtain ⟨fuel, rfl, -⟩ := exists_fuel hfuel (by simp [writeValue])
    rfl
  | cons v items =>
    have hlength := length_writeValue_list style level v items
    obtain ⟨fuel, rfl⟩ : ∃ n, fuel = n + 2 := ⟨fuel - 2, by omega⟩
    have hv : ∀ rest, EndsNumber rest →
        readValue fuel (writeValue style (level + 1) v ++ rest) = .ok (reread v, rest) :=
      fun rest hrest => h v List.mem_cons_self (level + 1) fuel rest (by omega) hrest
    rw [readValue_list, readItems_writeItems style level
      (fun w hw => h w (List.mem_cons_of_mem _ hw)) hv (by omega)]
    rfl

/-- A mapping is read back if each of its values is. -/
theorem readsBack_mapping (style : Style) {entries : Entries}
    (h : ∀ e ∈ entries, ReadsBack style e.2) :
    ReadsBack style (.mapping entries) := by
  intro level fuel rest hfuel _
  cases entries with
  | nil =>
    obtain ⟨fuel, rfl, -⟩ := exists_fuel hfuel (by simp [writeValue])
    rfl
  | cons e entries =>
    obtain ⟨k, v⟩ := e
    have hlength := length_writeValue_mapping style level k v entries
    obtain ⟨fuel, rfl⟩ : ∃ n, fuel = n + 2 := ⟨fuel - 2, by omega⟩
    have hback : ReadsBack style v := h (k, v) List.mem_cons_self
    rw [readValue_mapping, readMembers_writeMembers style level
      (fun e he => h e (List.mem_cons_of_mem _ he)) hback (by omega) (by omega)]
    rfl

mutual

/-- **A value is read back from what it is written as**, off the front of a text that does not go on
with a number. -/
theorem readValue_writeValue (style : Style) : ∀ {v : Value}, canWrite v = true → ReadsBack style v
  | .scalar s, hv => fun level fuel rest hfuel hrest => by
    obtain ⟨c, r, hchars, -⟩ := writeValue_eq_cons style level (.scalar s)
    obtain ⟨fuel, rfl, -⟩ := exists_fuel hfuel (by simp [hchars])
    rw [writeValue]
    exact readValue_writeScalar style ((canWrite_scalar s).symm.trans hv) hrest fuel
  | .list items, hv => readsBack_list style (readItem_writeItem style (canWrite_list.mp hv))
  | .mapping entries, hv =>
    readsBack_mapping style (readEntry_writeEntry style (canWrite_mapping.mp hv).2)

/-- The items of a list are read back, if their numbers can be written. -/
theorem readItem_writeItem (style : Style) : ∀ {items : List Value},
    (∀ v ∈ items, canWrite v = true) → ∀ v ∈ items, ReadsBack style v
  | [], _ => fun _ hv => absurd hv List.not_mem_nil
  | v :: _, h =>
    List.forall_mem_cons.mpr ⟨readValue_writeValue style (h v List.mem_cons_self),
      readItem_writeItem style fun w hw => h w (List.mem_cons_of_mem _ hw)⟩

/-- The values of a mapping are read back, if their numbers can be written. -/
theorem readEntry_writeEntry (style : Style) : ∀ {entries : List (Scalar × Value)},
    (∀ e ∈ entries, canWrite e.2 = true) → ∀ e ∈ entries, ReadsBack style e.2
  | [], _ => fun _ he => absurd he List.not_mem_nil
  | (k, v) :: _, h =>
    List.forall_mem_cons.mpr ⟨readValue_writeValue style (h (k, v) List.mem_cons_self),
      readEntry_writeEntry style fun e he => h e (List.mem_cons_of_mem _ he)⟩

end

/-! ## Whole texts -/

/-- The text of a value is read, whatever the style. -/
theorem read_write_eq_reread (style : Style) {v : Value} (hv : canWrite v = true) :
    read (write style v) = .ok (reread v) := by
  have hends : EndsNumber [] := fun c hc => by cases hc
  have hopen := skipFiller_writeValue (fun _ => List.not_mem_nil.elim) style 1 v []
  have hback := readValue_writeValue style hv 1 (2 * (writeValue style 1 v).length + 2) []
    (by omega) hends
  rw [List.nil_append, List.append_nil] at hopen
  rw [List.append_nil] at hback
  unfold read write
  dsimp only
  rw [String.toList_ofList, hopen, hback]
  simp only [bind, Except.bind, hasHalfPair_writeValue, Bool.false_eq_true, if_false]
  rfl

mutual

/-- Nothing changes where all keys are texts and differ from each other. -/
theorem reread_eq_self : ∀ {v : Value}, v.hasTextKeys = true → v.hasDistinctKeys = true →
    reread v = v
  | .scalar s, _, _ => rfl
  | .list items, htexts, hdistinct => by
    rw [reread, rereadItems_eq_self (Value.hasTextKeys_list.mp htexts)
      (Value.hasDistinctKeys_list.mp hdistinct)]
  | .mapping entries, htexts, hdistinct => by
    obtain ⟨hkeys, htexts⟩ := Value.hasTextKeys_mapping.mp htexts
    obtain ⟨hdiffer, hdistinct⟩ := Value.hasDistinctKeys_mapping.mp hdistinct
    rw [reread, rereadEntries_eq_self hkeys htexts hdistinct]
    exact congrArg Value.mapping (Association.ofPairs_of_distinct hdiffer)

/-- Items with distinct texts for keys come back as they were. -/
theorem rereadItems_eq_self : ∀ {items : List Value}, (∀ v ∈ items, v.hasTextKeys = true) →
    (∀ v ∈ items, v.hasDistinctKeys = true) → rereadItems items = items
  | [], _, _ => rfl
  | v :: _, htexts, hdistinct => by
    rw [rereadItems, reread_eq_self (htexts v List.mem_cons_self) (hdistinct v List.mem_cons_self),
      rereadItems_eq_self (fun w hw => htexts w (List.mem_cons_of_mem _ hw))
        fun w hw => hdistinct w (List.mem_cons_of_mem _ hw)]

/-- Entries with distinct texts for keys come back as they were. -/
theorem rereadEntries_eq_self : ∀ {entries : List (Scalar × Value)},
    (∀ e ∈ entries, e.1.isText = true) → (∀ e ∈ entries, e.2.hasTextKeys = true) →
      (∀ e ∈ entries, e.2.hasDistinctKeys = true) → rereadEntries entries = entries
  | [], _, _, _ => rfl
  | (k, v) :: _, hkeys, htexts, hdistinct => by
    obtain ⟨key, rfl⟩ := Scalar.isText_iff.mp (hkeys (k, v) List.mem_cons_self)
    rw [rereadEntries, bareScalar, reread_eq_self (htexts _ List.mem_cons_self)
      (hdistinct _ List.mem_cons_self),
      rereadEntries_eq_self (fun e he => hkeys e (List.mem_cons_of_mem _ he))
        (fun e he => htexts e (List.mem_cons_of_mem _ he))
        fun e he => hdistinct e (List.mem_cons_of_mem _ he)]

end

/-- **The text of a value gives it back**, whatever the style, if all keys are texts and differ from
each other and all whole numbers can be written. -/
theorem read_write (style : Style) {v : Value} (htexts : v.hasTextKeys = true)
    (hdistinct : v.hasDistinctKeys = true) (hv : canWrite v = true) :
    read (write style v) = .ok v := by
  rw [read_write_eq_reread style hv, reread_eq_self htexts hdistinct]

end CallFlow.Json
