import CallFlow.Value
import Mathlib.Data.List.Nodup

/-!
# Mappings with distinct keys

A mapping has one entry for each key: `Association.Distinct` says so of a list of entries, for any
notion of sameness of keys. Setting values keeps it (`Distinct.insert`), so what is made of a list
of pairs has it (`distinct_ofPairs`), and a list that has it already is the mapping of its own pairs
(`ofPairs_of_distinct`). In such a list a key is found exactly with the value of its entry
(`lookup?_of_mem`); for tables of texts this is `TextTable.find?_eq_some_iff`. A search for the one
item with a given key among items with distinct keys is `find?_key_eq_some_iff`. The simp lemmas of
`Entries` compute what is found in entries that are written out.
-/

namespace CallFlow

namespace Association

variable {κ ν : Type} {same : κ → κ → Bool}

/-- No key of an entry is the same as the key of a later one. -/
def Distinct (same : κ → κ → Bool) (entries : List (κ × ν)) : Prop :=
  entries.Pairwise fun a b => same a.1 b.1 = false

/-- Whether keys are distinct goes by the keys alone. -/
theorem distinct_iff_map_fst {entries : List (κ × ν)} :
    Distinct same entries ↔ (entries.map Prod.fst).Pairwise fun a b => same a b = false := by
  unfold Distinct
  rw [List.pairwise_map]

/-- Setting a value keeps the keys distinct. -/
theorem Distinct.insert {entries : List (κ × ν)} (h : Distinct same entries) (key : κ)
    (value : ν) : Distinct same (insert same key value entries) := by
  rw [distinct_iff_map_fst] at h ⊢
  rw [map_fst_insert]
  split
  · simpa using h
  · rename_i hnew
    rw [List.pairwise_append]
    refine ⟨h, List.pairwise_singleton _ _, ?_⟩
    intro a ha b hb
    obtain ⟨e, he, rfl⟩ := List.mem_map.mp ha
    rw [List.mem_singleton.mp hb]
    simp only [List.any_eq_true, not_exists, not_and, Bool.not_eq_true] at hnew
    exact hnew e he

/-- Setting many values keeps the keys distinct. -/
theorem Distinct.insertAll {entries : List (κ × ν)} (h : Distinct same entries) :
    ∀ more : List (κ × ν), Distinct same (insertAll same entries more)
  | [] => h
  | e :: more => (h.insert e.1 e.2).insertAll more

/-- The mapping of a list of pairs has distinct keys. -/
theorem distinct_ofPairs (pairs : List (κ × ν)) : Distinct same (ofPairs same pairs) :=
  Distinct.insertAll List.Pairwise.nil pairs

/-- Entries whose keys differ from each other and from those there are put behind them. -/
theorem insertAll_of_distinct :
    ∀ (entries more : List (κ × ν)), Distinct same (entries ++ more) →
      insertAll same entries more = entries ++ more
  | entries, [], _ => (List.append_nil entries).symm
  | entries, e :: more, h => by
    have hnew : ∀ a ∈ entries, same a.1 e.1 = false := fun a ha =>
      (List.pairwise_append.mp h).2.2 a ha e List.mem_cons_self
    have hstep : insert same e.1 e.2 entries = entries ++ [e] :=
      insert_of_forall_not same e.1 e.2 entries hnew
    have happend : entries ++ e :: more = (entries ++ [e]) ++ more := by simp
    rw [happend] at h ⊢
    rw [← insertAll_of_distinct (entries ++ [e]) more h]
    unfold insertAll
    rw [List.foldl_cons, hstep]

/-- Entries with distinct keys are the mapping of themselves. -/
theorem ofPairs_of_distinct {pairs : List (κ × ν)} (h : Distinct same pairs) :
    ofPairs same pairs = pairs :=
  insertAll_of_distinct [] pairs h

/-- Among distinct keys, a key is found with the value of its entry. -/
theorem lookup?_of_mem {key : κ} {value : ν} (hself : same key key) :
    ∀ {entries : List (κ × ν)}, Distinct same entries → (key, value) ∈ entries →
      lookup? same key entries = some value
  | [], _, hm => absurd hm List.not_mem_nil
  | (k, v) :: rest, h, hm => by
    unfold Distinct at h
    rw [List.pairwise_cons] at h
    rw [lookup?]
    rcases List.mem_cons.mp hm with heq | hm
    · obtain ⟨rfl, rfl⟩ := Prod.mk.inj heq
      rw [if_pos hself]
    · have hdiffer : same k key = false := h.1 _ hm
      rw [if_neg (by simp [hdiffer])]
      exact lookup?_of_mem hself h.2 hm

/-- Setting the value under one key leaves what is found under another. -/
theorem lookup?_insert_of_ne {key key' : κ} (value : ν) (h : ∀ k, same k key → same k key' = false)
    (hne : same key key' = false) : ∀ entries : List (κ × ν),
      lookup? same key' (insert same key value entries) = lookup? same key' entries
  | [] => by simp [insert, lookup?, hne]
  | (k, v) :: rest => by
    rw [insert]
    split
    · rename_i hk
      have hne : same k key' = false := h k hk
      simp [lookup?, hne]
    · rw [lookup?, lookup?, lookup?_insert_of_ne value h hne rest]

/-- What is found under a key is the value of an entry with that key. -/
theorem mem_of_lookup? {key : κ} {value : ν} :
    ∀ {entries : List (κ × ν)}, lookup? same key entries = some value →
      ∃ k, same k key ∧ (k, value) ∈ entries
  | [], h => by cases h
  | (k, v) :: rest, h => by
    rw [lookup?] at h
    split at h
    · rename_i hk
      cases h
      exact ⟨k, hk, List.mem_cons_self⟩
    · obtain ⟨k', hk', hm⟩ := mem_of_lookup? h
      exact ⟨k', hk', List.mem_cons_of_mem _ hm⟩

/-- After setting a value, each entry has that value or was there before. -/
theorem eq_or_mem_of_mem_insert {key : κ} {value : ν} {e : κ × ν} :
    ∀ {entries : List (κ × ν)}, e ∈ insert same key value entries → e.2 = value ∨ e ∈ entries
  | [], h => by
    obtain rfl := List.mem_singleton.mp h
    exact .inl rfl
  | (k, v) :: rest, h => by
    rw [insert] at h
    split at h
    · rcases List.mem_cons.mp h with rfl | h
      · exact .inl rfl
      · exact .inr (List.mem_cons_of_mem _ h)
    · rcases List.mem_cons.mp h with rfl | h
      · exact .inr List.mem_cons_self
      · exact (eq_or_mem_of_mem_insert h).imp_right (List.mem_cons_of_mem _)

/-- After setting many values, each entry has one of them or was there before. -/
theorem exists_or_mem_of_mem_insertAll {e : κ × ν} :
    ∀ {entries more : List (κ × ν)}, e ∈ insertAll same entries more →
      (∃ p ∈ more, p.2 = e.2) ∨ e ∈ entries
  | _, [], h => .inr h
  | entries, p :: more, h => by
    have h : e ∈ insertAll same (insert same p.1 p.2 entries) more := h
    rcases exists_or_mem_of_mem_insertAll h with ⟨q, hq, hvalue⟩ | h
    · exact .inl ⟨q, List.mem_cons_of_mem _ hq, hvalue⟩
    · rcases eq_or_mem_of_mem_insert h with hvalue | h
      · exact .inl ⟨p, List.mem_cons_self, hvalue.symm⟩
      · exact .inr h

/-- Setting many values keeps the keys that are there. -/
theorem map_fst_subset_insertAll : ∀ (entries more : List (κ × ν)),
    entries.map Prod.fst ⊆ (insertAll same entries more).map Prod.fst
  | _, [] => List.Subset.refl _
  | entries, e :: more => by
    have hfirst : entries.map Prod.fst ⊆ (insert same e.1 e.2 entries).map Prod.fst := by
      rw [map_fst_insert]
      exact List.subset_append_left _ _
    exact List.Subset.trans hfirst (map_fst_subset_insertAll (insert same e.1 e.2 entries) more)

/-- After setting many values, there is an entry under each of their keys, or under one that is the
same. -/
theorem exists_key_insertAll {e : κ × ν} : ∀ (entries : List (κ × ν)) {more : List (κ × ν)},
    e ∈ more → ∃ k ∈ (insertAll same entries more).map Prod.fst, k = e.1 ∨ same k e.1
  | entries, e' :: more, h => by
    rcases List.mem_cons.mp h with rfl | h
    · have hkey : ∃ k ∈ (insert same e.1 e.2 entries).map Prod.fst, k = e.1 ∨ same k e.1 := by
        rw [map_fst_insert]
        split
        · rename_i hsame
          obtain ⟨a, ha, hsame⟩ := List.any_eq_true.mp hsame
          exact ⟨a.1, List.mem_append_left _ (List.mem_map.mpr ⟨a, ha, rfl⟩), .inr hsame⟩
        · exact ⟨e.1, List.mem_append_right _ (List.mem_singleton_self _), .inl rfl⟩
      obtain ⟨k, hk, hsame⟩ := hkey
      exact ⟨k, map_fst_subset_insertAll (insert same e.1 e.2 entries) more hk, hsame⟩
    · exact exists_key_insertAll (insert same e'.1 e'.2 entries) h

/-- The values of a mapping are values of the pairs it was made of. -/
theorem exists_mem_of_mem_ofPairs {pairs : List (κ × ν)} {e : κ × ν}
    (h : e ∈ ofPairs same pairs) : ∃ p ∈ pairs, p.2 = e.2 :=
  (exists_or_mem_of_mem_insertAll h).resolve_right List.not_mem_nil

/-- Items with distinct keys may be followed by one with a new key. -/
theorem nodup_map_append {α β : Type} {key : α → β} {items : List α} {x : α}
    (h : (items.map key).Nodup) (hnew : key x ∉ items.map key) :
    ((items ++ [x]).map key).Nodup := by
  rw [List.map_append, List.nodup_append]
  refine ⟨h, List.nodup_singleton _, ?_⟩
  intro a ha b hb heq
  rw [heq, List.mem_singleton.mp hb] at ha
  exact hnew ha

/-- Among items with distinct keys, the one with a given key is found. -/
theorem find?_key_eq_some_iff {α β : Type} [DecidableEq β] {key : α → β} {items : List α}
    (h : (items.map key).Nodup) {k : β} {x : α} :
    items.find? (fun y => decide (key y = k)) = some x ↔ x ∈ items ∧ key x = k := by
  constructor
  · intro hfind
    exact ⟨List.mem_of_find?_eq_some hfind, by simpa using List.find?_some hfind⟩
  · rintro ⟨hx, hk⟩
    obtain ⟨y, hy⟩ : ∃ y, items.find? (fun y => decide (key y = k)) = some y := by
      rw [← Option.isSome_iff_exists, List.find?_isSome]
      exact ⟨x, hx, decide_eq_true hk⟩
    have hkey : key y = k := by simpa using List.find?_some hy
    rw [hy, List.inj_on_of_nodup_map h (List.mem_of_find?_eq_some hy) hx (hkey.trans hk.symm)]

end Association

namespace Entries

/-- Only a text is the same key as a text. -/
theorem same_text_right (k : Scalar) (t : String) : k.same (.text t) = decide (k = .text t) := by
  cases k <;> simp [Scalar.same, Scalar.toInt?]

/-- Only the same text is a key that is the same as a text. -/
theorem same_text_left (t : String) (k : Scalar) :
    Scalar.same (.text t) k = decide (.text t = k) := by
  cases k <;> simp [Scalar.same, Scalar.toInt?]

/-- The first entry with a text as its key is found, whatever keys stand in front of it. -/
theorem find?_cons (key : Scalar) (value : Value) (rest : Entries) (name : String) :
    find? ((key, value) :: rest) (.text name) =
      if key = .text name then some value else find? rest (.text name) := by
  simp only [find?, Association.lookup?, same_text_right, decide_eq_true_eq]

/-- The same, where the first key is a text as well. -/
@[simp] theorem find?_cons_text (key : String) (value : Value) (rest : Entries) (name : String) :
    find? ((.text key, value) :: rest) (.text name) =
      if key = name then some value else find? rest (.text name) := by
  rw [find?_cons]
  simp only [Scalar.text.injEq]

/-- A field is that of the first entry, or one of the entries behind it. -/
@[simp] theorem field_cons_text (key : String) (value : Value) (rest : Entries) (name : String) :
    field ((.text key, value) :: rest) name = if key = name then value else field rest name := by
  unfold field
  rw [find?_cons_text]
  split <;> rfl

/-- A mapping without entries has no field. -/
@[simp] theorem field_nil (name : String) : field [] name = .null := rfl

/-- A key is there if it is the first one or one behind it. -/
@[simp] theorem has_cons_text (key : String) (value : Value) (rest : Entries) (name : String) :
    has ((.text key, value) :: rest) name = (decide (key = name) || has rest name) := by
  unfold has
  rw [find?_cons_text]
  by_cases h : key = name <;> simp [h]

/-- Nothing is found under a text exactly if it is not among the keys. -/
theorem find?_eq_none_iff {entries : Entries} {name : String} :
    entries.find? (.text name) = none ↔ ∀ e ∈ entries, e.1 ≠ .text name := by
  rw [← Option.not_isSome_iff_eq_none, find?, Association.lookup?_isSome]
  simp only [same_text_right, List.any_eq_true, decide_eq_true_eq, not_exists, not_and, ne_eq]

/-- Setting a value changes what is found under its key and nothing else. -/
theorem find?_set (entries : Entries) (key : Scalar) (value : Value) (name : String) :
    (entries.set key value).find? (.text name) =
      if key = .text name then some value else entries.find? (.text name) := by
  unfold set find?
  split
  · rename_i hkey
    subst hkey
    exact Association.lookup?_insert_self _ (decide_eq_true rfl) value entries
  · rename_i hkey
    refine Association.lookup?_insert_of_ne value (fun k hk => ?_) ?_ entries
    · rw [same_text_right, decide_eq_false_iff_not]
      rintro rfl
      rw [same_text_left, decide_eq_true_eq] at hk
      exact hkey hk.symm
    · rw [same_text_right, decide_eq_false hkey]

/-- When many values are set, something is found under a text exactly if it was before, or if it is
set. -/
theorem find?_setAll_eq_none_iff (name : String) : ∀ entries more : Entries,
    (entries.setAll more).find? (.text name) = none ↔
      entries.find? (.text name) = none ∧ ∀ e ∈ more, e.1 ≠ .text name
  | entries, [] => by simp [setAll, Association.insertAll]
  | entries, e :: more => by
    have ih := find?_setAll_eq_none_iff name (entries.set e.1 e.2) more
    rw [find?_set] at ih
    refine ih.trans ?_
    by_cases he : e.1 = .text name <;> simp [he]

/-- The values of a mapping are set under new keys. Where one key becomes the given one and no other
does, the value under that key is found, and what was found before if there is none. -/
theorem find?_setAll_map {g : Scalar → Scalar} (key name : String) : ∀ (entries : Entries)
    {more : Entries}, Association.Distinct Scalar.same more →
      (∀ e ∈ more, g e.1 = .text name ↔ e.1 = .text key) →
        (entries.setAll (more.map fun e => (g e.1, e.2))).find? (.text name) =
          (more.find? (.text key)).or (entries.find? (.text name))
  | entries, [], _, _ => rfl
  | entries, e :: more, h, hkey => by
    obtain ⟨hfirst, hrest⟩ := List.pairwise_cons.mp h
    have ih := find?_setAll_map key name (entries.set (g e.1) e.2) hrest fun e' he' =>
      hkey e' (List.mem_cons_of_mem _ he')
    rw [find?_set] at ih
    refine ih.trans ?_
    rw [find?_cons]
    simp only [hkey e List.mem_cons_self]
    by_cases he : e.1 = .text key
    · have hnone : find? more (.text key) = none := by
        refine find?_eq_none_iff.mpr fun e' he' heq => ?_
        have hdiffer := hfirst e' he'
        rw [he, heq] at hdiffer
        simp [same_text_left] at hdiffer
      rw [if_pos he, if_pos he, hnone]
      rfl
    · rw [if_neg he, if_neg he]

/-- When the values of a mapping are set, they are found, and under all other keys what was found
before. -/
theorem find?_setAll (name : String) (entries : Entries) {more : Entries}
    (h : Association.Distinct Scalar.same more) : (entries.setAll more).find? (.text name) =
      (more.find? (.text name)).or (entries.find? (.text name)) := by
  have hset := find?_setAll_map (g := id) name name entries h fun _ _ => Iff.rfl
  rwa [show more.map (fun e => (id e.1, e.2)) = more from List.map_id more] at hset

/-- In a mapping, an entry is found under its key. -/
theorem find?_of_mem {entries : Entries} (h : Association.Distinct Scalar.same entries)
    {name : String} {value : Value} (hmem : (.text name, value) ∈ entries) :
    entries.find? (.text name) = some value :=
  Association.lookup?_of_mem (decide_eq_true rfl) h hmem

/-- What is found under a text is the value of an entry under that text. -/
theorem mem_of_find? {entries : Entries} {name : String} {value : Value}
    (h : entries.find? (.text name) = some value) : (.text name, value) ∈ entries := by
  obtain ⟨k, hk, hmem⟩ := Association.mem_of_lookup? h
  rw [same_text_right, decide_eq_true_eq] at hk
  exact hk ▸ hmem

end Entries

namespace TextTable

/-- The keys of a table are distinct as texts are. -/
theorem distinct_iff_nodup_keys {table : TextTable} :
    Association.Distinct (fun a b : String => decide (a = b)) table ↔ table.keys.Nodup := by
  rw [Association.distinct_iff_map_fst]
  simp [keys, List.Nodup]

/-- The table of a list of pairs has distinct keys. -/
theorem nodup_keys_ofPairs (pairs : List (String × String)) : (ofPairs pairs).keys.Nodup :=
  distinct_iff_nodup_keys.mp (Association.distinct_ofPairs pairs)

/-- A table with distinct keys is the table of its own entries. -/
theorem ofPairs_of_nodup_keys {table : TextTable} (h : table.keys.Nodup) : ofPairs table = table :=
  Association.ofPairs_of_distinct (distinct_iff_nodup_keys.mpr h)

/-- A table with distinct keys holds a text under a key exactly if it has that entry. -/
theorem find?_eq_some_iff {table : TextTable} (h : table.keys.Nodup) {key text : String} :
    table.find? key = some text ↔ (key, text) ∈ table := by
  constructor
  · intro hfind
    obtain ⟨k, hk, hm⟩ := Association.mem_of_lookup? hfind
    obtain rfl : k = key := of_decide_eq_true hk
    exact hm
  · exact Association.lookup?_of_mem (decide_eq_true rfl) (distinct_iff_nodup_keys.mpr h)

end TextTable

end CallFlow
