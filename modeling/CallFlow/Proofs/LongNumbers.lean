import CallFlow.Document
import CallFlow.Proofs.ReaderFaults

/-!
# Numbers with too many digits

The text of a value is given up if there is a whole number in the value that is too long to be
written, and only then; this is the counterpart of what is known of the values that are read back.

* `Json.readItems_breaks`, `Json.readMembers_breaks`: the first such item or entry ends the reading.
* `Json.breaks_value`: values, by induction on their structure.
* `Json.read_write_eq_numberTooLong_iff`: whole texts.
* `Document.read_faults`: nothing is refused but what is not JSON, what is not the document of a
  flow, and what is given up; texts with half of a pair of units are set aside.
-/

namespace CallFlow

namespace Json

open Text

/-! ## Values that are not read back -/

/-- The reader gives up at a value where it stands as it is written. -/
def Breaks (style : Style) (v : Value) : Prop :=
  ∀ (level fuel : Nat) (rest : List Char), 2 * (writeValue style level v).length ≤ fuel →
    EndsNumber rest → readValue fuel (writeValue style level v ++ rest) = .error .numberTooLong

/-- A whole number that is too long to be written would not be read. -/
theorem breaks_scalar (style : Style) {s : Scalar} (hlong : isShort s = false) :
    Breaks style (.scalar s) := by
  intro level fuel rest hfuel hrest
  obtain ⟨c, r, hchars, -⟩ := writeValue_eq_cons style level (.scalar s)
  obtain ⟨fuel, rfl, -⟩ := exists_fuel hfuel (by simp [hchars])
  cases s with
  | int n =>
    have hdigits : digitLimit < (digits n.natAbs).length := by simpa [isShort, isTooLong] using hlong
    have hstarts : StartsLong (digits n.natAbs ++ rest) := by
      refine ⟨_, rest, rfl, isWhole_digits _, hdigits, hrest.noDigit, ?_, ?_⟩
      · rw [readFraction_none fun c hc => (hrest c hc).2.1]
      · rw [readPower_none fun c hc => (hrest c hc).2.2]
    have hread := readValue_bareScalar (s := .int n) (by simp) rest fuel
    rw [writeValue, writeScalar_eq style (by simp), hread, bareScalar, readBare_ofInt_append]
    exact readUnsigned_eq_numberTooLong_iff.mpr hstarts
  | null | bool b | float x | text t => cases hlong

/-- What follows an item goes on with no number. -/
theorem endsNumber_items (style : Style) (level : Nat) (items : List Value) (rest : List Char) :
    EndsNumber (writeItems style level items ++ (lineBreak style (level - 1) ++ ']' :: rest)) := by
  cases items with
  | nil => exact endsNumber_close style (level - 1) (.inl rfl) rest
  | cons v items =>
    simp only [writeItems, List.append_assoc]
    exact endsNumber_separator style level _

/-- A number ends where the entries of a mapping go on or end. -/
theorem endsNumber_members (style : Style) (level : Nat) (entries : List (Scalar × Value))
    (rest : List Char) : EndsNumber (writeMembers style level entries ++
      (lineBreak style (level - 1) ++ '\x7d' :: rest)) := by
  cases entries with
  | nil => exact endsNumber_close style (level - 1) (.inr rfl) rest
  | cons e entries =>
    simp only [writeMembers, List.append_assoc]
    exact endsNumber_separator style level _

/-- The first item at which the reader gives up ends the reading of a list. -/
theorem readItems_breaks (style : Style) (level : Nat) : ∀ {items : List Value} {v : Value},
    (∀ w ∈ v :: items, ReadsBack style w ∨ Breaks style w) → (∃ w ∈ v :: items, Breaks style w) →
      ∀ {fuel : Nat} (rest : List Char),
        2 * (writeValue style (level + 1) v).length ≤ fuel →
        2 * (writeItems style level items).length ≤ fuel →
        readItems (fuel + 1) (writeValue style (level + 1) v ++ (writeItems style level items ++
          (lineBreak style (level - 1) ++ ']' :: rest))) = .error .numberTooLong := by
  intro items v hall hbreaks fuel rest hfirst hfuel
  by_cases hv : Breaks style v
  · have hread := hv (level + 1) fuel _ hfirst (endsNumber_items style level items rest)
    rw [readItems, hread]
    rfl
  · -- the first item is read, so the reader gives up at a later one
    have hback : ReadsBack style v := (hall v List.mem_cons_self).resolve_right hv
    obtain ⟨w, hw, hbreaks⟩ := hbreaks
    have hw : w ∈ items := (List.mem_cons.mp hw).resolve_left (by rintro rfl; exact hv hbreaks)
    cases items with
    | nil => cases hw
    | cons v' items =>
      obtain ⟨gap, hseparator, -⟩ := entrySeparator_eq style level
      rw [writeItems] at hfuel ⊢
      simp only [List.length_append, hseparator, List.length_cons] at hfuel
      obtain ⟨fuel, rfl⟩ : ∃ n, fuel = n + 1 := ⟨fuel - 1, by omega⟩
      have hread : ∀ rest, EndsNumber rest → readValue (fuel + 1)
          (writeValue style (level + 1) v ++ rest) = .ok (reread v, rest) :=
        fun rest hrest => hback (level + 1) (fuel + 1) rest hfirst hrest
      have hrest : readItems (fuel + 1) (writeValue style (level + 1) v' ++
          (writeItems style level items ++ (lineBreak style (level - 1) ++ ']' :: rest))) =
            .error .numberTooLong :=
        readItems_breaks style level (fun w hw => hall w (List.mem_cons_of_mem _ hw))
          ⟨w, hw, hbreaks⟩ rest (by omega) (by omega)
      simp only [List.append_assoc]
      rw [readItems_cons style level hread, hrest]
      rfl

/-- The first entry at whose value the reader gives up ends the reading of a mapping. -/
theorem readMembers_breaks (style : Style) (level : Nat) :
    ∀ {entries : List (Scalar × Value)} {k : Scalar} {v : Value},
      (∀ e ∈ (k, v) :: entries, ReadsBack style e.2 ∨ Breaks style e.2) →
      (∃ e ∈ (k, v) :: entries, Breaks style e.2) →
      ∀ {fuel : Nat} (rest : List Char),
        2 * (writeValue style (level + 1) v).length ≤ fuel →
        2 * (writeMembers style level entries).length ≤ fuel →
        readMembers (fuel + 1) (writeText style.asciiOnly (bareScalar k) ++ (keySeparator style ++
          (writeValue style (level + 1) v ++ (writeMembers style level entries ++
            (lineBreak style (level - 1) ++ '\x7d' :: rest))))) = .error .numberTooLong := by
  intro entries k v hall hbreaks fuel rest hfirst hfuel
  by_cases hv : Breaks style v
  · have hread := hv (level + 1) fuel _ hfirst (endsNumber_members style level entries rest)
    rw [readMembers_key, hread]
    rfl
  · -- the first entry is read, so the reader gives up at a later one
    have hback : ReadsBack style v := (hall (k, v) List.mem_cons_self).resolve_right hv
    obtain ⟨e, he, hbreaks⟩ := hbreaks
    have he : e ∈ entries := (List.mem_cons.mp he).resolve_left (by rintro rfl; exact hv hbreaks)
    cases entries with
    | nil => cases he
    | cons e' entries =>
      obtain ⟨k', v'⟩ := e'
      obtain ⟨gap, hseparator, -⟩ := entrySeparator_eq style level
      rw [writeMembers] at hfuel ⊢
      simp only [List.length_append, hseparator, List.length_cons] at hfuel
      obtain ⟨fuel, rfl⟩ : ∃ n, fuel = n + 1 := ⟨fuel - 1, by omega⟩
      have hrest : readMembers (fuel + 1) (writeText style.asciiOnly (bareScalar k') ++
          (keySeparator style ++ (writeValue style (level + 1) v' ++
            (writeMembers style level entries ++
              (lineBreak style (level - 1) ++ '\x7d' :: rest))))) = .error .numberTooLong :=
        readMembers_breaks style level (fun e he => hall e (List.mem_cons_of_mem _ he))
          ⟨e, he, hbreaks⟩ rest (by omega) (by omega)
      simp only [List.append_assoc]
      rw [readMembers_cons level (bareScalar k) hback hfirst, hrest]
      rfl

/-- The reader gives up at a list if it gives up at one of the items. -/
theorem breaks_list (style : Style) {items : List Value}
    (hall : ∀ v ∈ items, ReadsBack style v ∨ Breaks style v) (hbreaks : ∃ v ∈ items, Breaks style v) :
    Breaks style (.list items) := by
  intro level fuel rest hfuel _
  cases items with
  | nil =>
    obtain ⟨v, hv, -⟩ := hbreaks
    cases hv
  | cons v items =>
    have hlength := length_writeValue_list style level v items
    obtain ⟨fuel, rfl⟩ : ∃ n, fuel = n + 2 := ⟨fuel - 2, by omega⟩
    rw [readValue_list, readItems_breaks style level hall hbreaks rest (by omega) (by omega)]
    rfl

/-- The reader gives up at a mapping if it gives up at one of the values. -/
theorem breaks_mapping (style : Style) {entries : Entries}
    (hall : ∀ e ∈ entries, ReadsBack style e.2 ∨ Breaks style e.2)
    (hbreaks : ∃ e ∈ entries, Breaks style e.2) : Breaks style (.mapping entries) := by
  intro level fuel rest hfuel _
  cases entries with
  | nil =>
    obtain ⟨e, he, -⟩ := hbreaks
    cases he
  | cons e entries =>
    obtain ⟨k, v⟩ := e
    have hlength := length_writeValue_mapping style level k v entries
    obtain ⟨fuel, rfl⟩ : ∃ n, fuel = n + 2 := ⟨fuel - 2, by omega⟩
    rw [readValue_mapping, readMembers_breaks style level hall hbreaks rest (by omega) (by omega)]
    rfl

/-- A list that cannot be written has an item that cannot. -/
theorem exists_of_canWrite_list {items : List Value} (h : canWrite (.list items) = false) :
    ∃ v ∈ items, canWrite v = false := by
  by_contra hnone
  push Not at hnone
  have hall : canWrite (.list items) = true :=
    canWrite_list.mpr fun v hv => by simpa using hnone v hv
  rw [hall] at h
  cases h

/-- Keys that are texts are always written. -/
theorem exists_of_canWrite_mapping {entries : Entries} (hkeys : ∀ e ∈ entries, e.1.isText = true)
    (h : canWrite (.mapping entries) = false) : ∃ e ∈ entries, canWrite e.2 = false := by
  by_contra hnone
  push Not at hnone
  have hshort : ∀ e ∈ entries, isShort e.1 = true := by
    intro e he
    obtain ⟨key, hkey⟩ := Scalar.isText_iff.mp (hkeys e he)
    rw [hkey]
    rfl
  have hall : canWrite (.mapping entries) = true :=
    canWrite_mapping.mpr ⟨hshort, fun e he => by simpa using hnone e he⟩
  rw [hall] at h
  cases h

mutual

/-- The reader gives up at a value with a whole number that is too long to be written. -/
theorem breaks_value (style : Style) : ∀ {v : Value}, v.hasTextKeys = true → canWrite v = false →
    Breaks style v
  | .scalar s, _, hv => breaks_scalar style ((canWrite_scalar s).symm.trans hv)
  | .list items, hkeys, hv => by
    have hitems := breaks_item style (Value.hasTextKeys_list.mp hkeys)
    obtain ⟨v, hmem, hlong⟩ := exists_of_canWrite_list hv
    exact breaks_list style (fun w hw => (hitems w hw).2) ⟨v, hmem, (hitems v hmem).1 hlong⟩
  | .mapping entries, hkeys, hv => by
    obtain ⟨htexts, hvalues⟩ := Value.hasTextKeys_mapping.mp hkeys
    have hentries := breaks_entry style hvalues
    obtain ⟨e, hmem, hlong⟩ := exists_of_canWrite_mapping htexts hv
    exact breaks_mapping style (fun e he => (hentries e he).2) ⟨e, hmem, (hentries e hmem).1 hlong⟩

/-- An item whose numbers cannot all be written makes the reader give up, and any item is read back
or does so. -/
theorem breaks_item (style : Style) : ∀ {items : List Value}, (∀ v ∈ items, v.hasTextKeys = true) →
    ∀ v ∈ items, (canWrite v = false → Breaks style v) ∧ (ReadsBack style v ∨ Breaks style v)
  | [], _ => fun _ hv => absurd hv List.not_mem_nil
  | v :: _, h => by
    have hbreaks := breaks_value style (h v List.mem_cons_self)
    refine List.forall_mem_cons.mpr ⟨⟨hbreaks, ?_⟩,
      breaks_item style fun w hw => h w (List.mem_cons_of_mem _ hw)⟩
    cases hv : canWrite v with
    | true => exact .inl (readValue_writeValue style hv)
    | false => exact .inr (hbreaks hv)

/-- The same for the values of a mapping. -/
theorem breaks_entry (style : Style) : ∀ {entries : List (Scalar × Value)},
    (∀ e ∈ entries, e.2.hasTextKeys = true) →
      ∀ e ∈ entries, (canWrite e.2 = false → Breaks style e.2) ∧
        (ReadsBack style e.2 ∨ Breaks style e.2)
  | [], _ => fun _ he => absurd he List.not_mem_nil
  | (k, v) :: _, h => by
    have hbreaks := breaks_value style (h (k, v) List.mem_cons_self)
    refine List.forall_mem_cons.mpr ⟨⟨hbreaks, ?_⟩,
      breaks_entry style fun e he => h e (List.mem_cons_of_mem _ he)⟩
    cases hv : canWrite v with
    | true => exact .inl (readValue_writeValue style hv)
    | false => exact .inr (hbreaks hv)

end

/-- **The text of a value is given up** exactly if there is a whole number in the value that is too
long to be written. -/
theorem read_write_eq_numberTooLong_iff (style : Style) {v : Value} (hkeys : v.hasTextKeys = true) :
    read (write style v) = .error .numberTooLong ↔ canWrite v = false := by
  constructor
  · intro h
    by_contra hv
    rw [read_write_eq_reread style (by simpa using hv)] at h
    cases h
  · intro hv
    have hends : EndsNumber [] := fun c hc => by cases hc
    have hopen := skipFiller_writeValue (fun _ => List.not_mem_nil.elim) style 1 v []
    have hbreaks := breaks_value style hkeys hv 1 (2 * (writeValue style 1 v).length + 2) []
      (by omega) hends
    rw [List.nil_append, List.append_nil] at hopen
    rw [List.append_nil] at hbreaks
    unfold read write
    dsimp only
    rw [String.toList_ofList, hopen, hbreaks]
    rfl

end Json

/-! ## Documents -/

namespace Document

/-- Whether it is meant that a text is refused for this reason. -/
def TextFault.isForeseen : TextFault → Bool
  | document _ | text .malformed => true
  | text .numberTooLong | text .halfPair => false

/-- A fault of the reader of JSON is the fault of the text of a document, and no other one is. -/
theorem read_eq_text_iff {s : String} {fault : Json.Fault} :
    read s = .error (.text fault) ↔ Json.read s = .error fault := by
  unfold read
  cases hjson : Json.read s with
  | error other => simp [Except.mapError, bind, Except.bind]
  | ok v => cases hflow : toFlow v <;> simp [Except.mapError, bind, Except.bind, hflow]

/-- A text is given up exactly if the reader comes to a whole number with too many digits. -/
theorem read_eq_numberTooLong_iff {s : String} : read s = .error (.text .numberTooLong) ↔
    Json.GivesUp .value (Json.skipFiller s.toList) := by
  rw [read_eq_text_iff, Json.read_eq_numberTooLong_iff]

/-- A text with half of a pair of units that is not given up is no JSON or is set aside. -/
theorem read_of_hasHalfPair {s : String} (h : Json.hasHalfPair s.toList = true)
    (hgoes : ¬ Json.GivesUp .value (Json.skipFiller s.toList)) :
    read s = .error (.text .malformed) ∨ read s = .error (.text .halfPair) := by
  rw [read_eq_text_iff, read_eq_text_iff]
  cases hjson : Json.read s with
  | ok v => exact absurd (Json.hasHalfPair_of_read_eq_ok hjson) (by simp [h])
  | error fault =>
    cases fault with
    | malformed => exact .inl rfl
    | halfPair => exact .inr rfl
    | numberTooLong => exact absurd (Json.read_eq_numberTooLong_iff.mp hjson) hgoes

/-- **What is refused.** A text is given up exactly if the reader comes to a whole number in it with
more digits than are converted, and the digits of such a number stand in it then. Any other text
from which there is no flow is no JSON, or not the document of a flow, provided that no half of a
pair of units is escaped in it. Where one is, the text is no JSON, or it is set aside: its value has
texts that are no characters, and what would be read from that is left open. In the text of a value
the reader comes to a number with too many digits exactly if there is one in the value. -/
theorem read_faults (s : String) :
    (Json.GivesUp .value (Json.skipFiller s.toList) →
      read s = .error (.text .numberTooLong) ∧ ∃ rest, rest <:+ s.toList ∧ Json.StartsLong rest) ∧
    (Json.hasHalfPair s.toList = false →
      ((∀ fault, read s = .error fault → fault.isForeseen) ↔
        ¬ Json.GivesUp .value (Json.skipFiller s.toList))) ∧
    (Json.hasHalfPair s.toList = true → ¬ Json.GivesUp .value (Json.skipFiller s.toList) →
      read s = .error (.text .malformed) ∨ read s = .error (.text .halfPair)) ∧
    ∀ style v, s = Json.write style v → v.hasTextKeys = true →
      (Json.GivesUp .value (Json.skipFiller s.toList) ↔ Json.canWrite v = false) := by
  refine ⟨fun hgives => ⟨read_eq_numberTooLong_iff.mpr hgives, ?_⟩, fun hpairs => ?_,
    read_of_hasHalfPair, ?_⟩
  · obtain ⟨rest, hcomes, hlong⟩ := hgives
    exact ⟨rest, hcomes.suffix.trans (Json.skipFiller_suffix _), hlong⟩
  · rw [← read_eq_numberTooLong_iff]
    constructor
    · intro hforeseen hlong
      exact absurd (hforeseen _ hlong) (by decide)
    · intro hnot fault hfault
      match fault with
      | .document _ | .text .malformed => rfl
      | .text .numberTooLong => exact absurd hfault hnot
      | .text .halfPair =>
        have hhalf := Json.hasHalfPair_of_read (read_eq_text_iff.mp hfault)
        exact absurd hhalf (by simp [hpairs])
  · rintro style v rfl hkeys
    rw [← Json.read_eq_numberTooLong_iff, Json.read_write_eq_numberTooLong_iff style hkeys]

/-- The document of the empty flow, with a number beside it that no reader asks for. -/
def retriesDocument (retries : Int) : Value :=
  .mapping [(.text "nodes", .list []), (.text "edges", .list []), (.text "retries", .int retries)]

example : Json.write (.document none) (retriesDocument 3) =
    "\x7b\"nodes\": [], \"edges\": [], \"retries\": 3\x7d" := by decide +kernel

/-- The keys of the document are texts. -/
theorem hasTextKeys_retriesDocument (retries : Int) :
    (retriesDocument retries).hasTextKeys = true := by
  simp [retriesDocument, Scalar.isText]

/-- It cannot be written where the number is too long. -/
theorem canWrite_retriesDocument {retries : Int} (h : Text.isTooLong retries = true) :
    Json.canWrite (retriesDocument retries) = false := by
  by_contra hwrite
  rw [Bool.not_eq_false, retriesDocument] at hwrite
  have hvalues := (Json.canWrite_mapping.mp hwrite).2
  have hnumber := hvalues (.text "retries", .int retries) (by simp)
  rw [Json.canWrite_scalar, Json.isShort, h] at hnumber
  cases hnumber

/-- A power of ten has one digit more than its exponent says. -/
theorem isTooLong_pow {k : Nat} (h : Text.digitLimit ≤ k) : Text.isTooLong (10 ^ k) = true := by
  rw [Text.isTooLong_iff, Int.natAbs_pow]
  exact Nat.pow_le_pow_right (by decide) h

/-- Where this number has 4301 digits, the document is that of a flow, but its text is refused for a
reason that is not meant. -/
theorem read_faults_retriesDocument :
    toFlow (retriesDocument (10 ^ 4300)) = .ok Flow.empty ∧
    ¬ ((∃ f, read (Json.write (.document none) (retriesDocument (10 ^ 4300))) = .ok f) ∨
      ∃ fault, read (Json.write (.document none) (retriesDocument (10 ^ 4300))) = .error fault ∧
        fault.isForeseen) := by
  have hlong := canWrite_retriesDocument (isTooLong_pow (k := 4300) (by decide))
  have hjson : Json.read (Json.write (.document none) (retriesDocument (10 ^ 4300))) =
      .error .numberTooLong :=
    (Json.read_write_eq_numberTooLong_iff _ (hasTextKeys_retriesDocument _)).mpr hlong
  have hread := read_eq_numberTooLong_iff.mpr (Json.read_eq_numberTooLong_iff.mp hjson)
  refine ⟨rfl, ?_⟩
  rw [hread]
  rintro (⟨f, hf⟩ | ⟨fault, hfault, hforeseen⟩)
  · cases hf
  · cases hfault
    cases hforeseen

end Document

end CallFlow
