import CallFlow.Text.Split
import Mathlib.Data.List.DropRight

/-!
# Parts of texts

What a reader finds that splits a text at a separator (`Text.splitAt`), drops what is known to stand
in front or at the end, or looks for what stands behind the last place of a character. Each lemma is
stated over a text that is put together from such parts, as a writer puts it together.

* `Text.splitAt_intercalate`: texts that were joined are split again.
* `Text.takeWhile_append_cons`, `Text.rtakeWhile_append_cons`: the text up to a character, and what
  is behind its last place.
-/

namespace CallFlow.Text

/-- There is always a part. -/
theorem splitAt_ne_nil (sep : Char) (cs : List Char) : splitAt sep cs ≠ [] := by
  rw [← List.length_pos_iff, length_splitAt]
  exact Nat.succ_pos _

/-- A separator ends the last part of what stands in front of it. -/
theorem splitAt_append_cons {sep : Char} (cs rest : List Char) :
    splitAt sep (cs ++ sep :: rest) = splitAt sep cs ++ splitAt sep rest := by
  induction cs with
  | nil => simp [splitAt]
  | cons c r ih =>
    rw [List.cons_append, splitAt, splitAt, ih]
    split
    · rfl
    · cases hparts : splitAt sep r with
      | nil => exact absurd hparts (splitAt_ne_nil sep r)
      | cons part parts => rfl

/-- A text without separators is its only part. -/
theorem splitAt_of_not_mem {sep : Char} {cs : List Char} (h : sep ∉ cs) :
    splitAt sep cs = [cs] := by
  induction cs with
  | nil => rfl
  | cons c r ih =>
    rw [List.mem_cons, not_or] at h
    rw [splitAt, if_neg (Ne.symm h.1), ih h.2]

/-- No part holds a separator. -/
theorem not_mem_of_mem_splitAt {sep : Char} {cs : List Char} :
    ∀ part ∈ splitAt sep cs, sep ∉ part := by
  induction cs with
  | nil =>
    intro part hpart
    rw [List.mem_singleton.mp hpart]
    exact List.not_mem_nil
  | cons c r ih =>
    rw [splitAt]
    split
    · exact List.forall_mem_cons.mpr ⟨List.not_mem_nil, ih⟩
    · rename_i hc
      cases hparts : splitAt sep r with
      | nil => exact absurd hparts (splitAt_ne_nil sep r)
      | cons part parts =>
        rw [hparts] at ih
        obtain ⟨hpart, hrest⟩ := List.forall_mem_cons.mp ih
        refine List.forall_mem_cons.mpr ⟨?_, hrest⟩
        rw [List.mem_cons, not_or]
        exact ⟨Ne.symm hc, hpart⟩

/-- Of texts that are joined the parts are found again. -/
theorem splitAt_intercalate {sep : Char} : ∀ {texts : List (List Char)}, texts ≠ [] →
    splitAt sep ([sep].intercalate texts) = texts.flatMap (splitAt sep)
  | [text], _ => by rw [List.intercalate_singleton, List.flatMap_singleton]
  | text :: next :: rest, _ => by
    have hparts : (text :: next :: rest).flatMap (splitAt sep) =
        splitAt sep text ++ (next :: rest).flatMap (splitAt sep) := List.flatMap_cons
    rw [List.intercalate_cons_cons, List.append_assoc, List.singleton_append, splitAt_append_cons,
      splitAt_intercalate (List.cons_ne_nil next rest), hparts]

/-- Texts that are joined by line breaks are split into their lines. -/
theorem splitAt_joined {texts : List String} (h : texts ≠ []) :
    splitAt '\n' ("\n".intercalate texts).toList =
      (texts.map String.toList).flatMap (splitAt '\n') := by
  rw [String.toList_intercalate]
  exact splitAt_intercalate (by simpa using h)

/-- Where each of some texts ends with a line break, its lines are found again, and an empty one at
the end. -/
theorem splitAt_lines {texts : List String} (h : texts ≠ []) :
    splitAt '\n' ("\n".intercalate texts ++ "\n").toList =
      (texts.map String.toList).flatMap (splitAt '\n') ++ [[]] := by
  rw [String.toList_append]
  exact (splitAt_append_cons _ []).trans (congrArg (· ++ [[]]) (splitAt_joined h))

/-- Texts without separators are the parts of themselves. -/
theorem flatMap_splitAt {sep : Char} {texts : List (List Char)} (h : ∀ text ∈ texts, sep ∉ text) :
    texts.flatMap (splitAt sep) = texts := by
  rw [List.flatMap_congr fun text htext => splitAt_of_not_mem (h text htext)]
  exact List.flatMap_singleton' texts

/-- What stands behind a prefix that is dropped. -/
theorem dropPrefix?_append (cs rest : List Char) : (cs ++ rest).dropPrefix? cs = some rest :=
  List.dropPrefix?_eq_some_iff.mpr ⟨cs, rfl, beq_self_eq_true cs⟩

/-- What stands in front of the first character that is not wanted. -/
theorem takeWhile_append_cons {wanted : Char → Bool} {cs : List Char} (h : ∀ c ∈ cs, wanted c)
    {c : Char} (hc : ¬ wanted c) (rest : List Char) : (cs ++ c :: rest).takeWhile wanted = cs := by
  rw [List.takeWhile_append_of_pos h, List.takeWhile_cons_of_neg hc, List.append_nil]

/-- What stands behind the last character that is not wanted. -/
theorem rtakeWhile_append_cons {wanted : Char → Bool} {cs : List Char} (h : ∀ c ∈ cs, wanted c)
    {c : Char} (hc : ¬ wanted c) (front : List Char) :
    (front ++ c :: cs).rtakeWhile wanted = cs := by
  have hreverse : ∀ c ∈ cs.reverse, wanted c := fun c hc => h c (List.mem_reverse.mp hc)
  rw [List.rtakeWhile, List.reverse_append, List.reverse_cons, List.append_assoc,
    List.singleton_append, takeWhile_append_cons hreverse hc, List.reverse_reverse]

/-- A text does not have a prefix that begins with another character. -/
theorem dropPrefix?_of_ne {c d : Char} (h : c ≠ d) (cs ds : List Char) :
    (c :: cs).dropPrefix? (d :: ds) = none := by
  rw [List.dropPrefix?, if_neg (by simpa using h)]

/-- What stands in front of a suffix that is dropped. -/
theorem dropSuffix?_append (front cs : List Char) : (front ++ cs).dropSuffix? cs = some front :=
  List.dropSuffix?_eq_some_iff.mpr ⟨cs, rfl, beq_self_eq_true cs⟩

/-- The characters of a text are not one that it does not hold. -/
theorem decide_ne_of_not_mem {c : Char} {cs : List Char} (h : c ∉ cs) :
    ∀ d ∈ cs, decide (d ≠ c) := by
  intro d hd
  exact decide_eq_true (ne_of_mem_of_not_mem hd h)

/-- What is left up to the last character that is not wanted. -/
theorem rdropWhile_append_cons {wanted : Char → Bool} {cs : List Char} (h : ∀ c ∈ cs, wanted c)
    {c : Char} (hc : ¬ wanted c) (front : List Char) :
    (front ++ c :: cs).rdropWhile wanted = front ++ [c] := by
  have hwhole := List.rdropWhile_append_rtakeWhile (p := wanted) (l := front ++ c :: cs)
  rw [rtakeWhile_append_cons h hc] at hwhole
  exact List.append_cancel_right (hwhole.trans (List.append_cons front c cs))

end CallFlow.Text
