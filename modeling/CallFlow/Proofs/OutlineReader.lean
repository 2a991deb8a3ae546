import CallFlow.Proofs.Except
import CallFlow.Proofs.NumberText
import CallFlow.Proofs.TextParts

/-!
# Outlines read line by line

A line of an outline is told by its first characters (`Outline.Line`). What it says is then found
from the end of the line: the id of a node behind the last equals sign, the option or the handle of
an edge behind the last opening bracket. Names and labels stand in front of these, so almost any
text may be in them; it is the ids, the options and the handles that must not hold the character
that they are looked for behind.

* `Outline.Line.read?_item`, `read?_arrow`, `read?_unused`, `read?_leftOver`: each kind of line is
  read back, with its number, its target or its option.
* `Outline.read?_joined`: so is a text of such lines, where no line break is in one of them.
-/

namespace CallFlow.Outline

/-- What a line of an outline says. -/
inductive Line where
  /-- The title names the node that the walk begins at. -/
  | title (start : String)
  /-- The walk comes to a node. -/
  | item (number : Nat) (id : String)
  /-- An edge leads from the node above to one with this name. -/
  | arrow (target : String) (handle : Option String)
  /-- No edge leaves the node above by this option. -/
  | unused (option : String)
  /-- The nodes below are left over. -/
  | rest
  /-- The walk does not come to a node. -/
  | leftOver (id : String)
  deriving DecidableEq, Repr

namespace Line

/-- What stands behind the last place of a character. -/
def behind (c : Char) (cs : List Char) : String := String.ofList (cs.rtakeWhile (· ≠ c))

/-- Reads what stands behind an arrow. Without brackets about a handle the whole is a name. -/
def readArrow (cs : List Char) : Line :=
  match (cs.rdropWhile (· ≠ '(')).dropSuffix? "  (".toList,
    (cs.rtakeWhile (· ≠ '(')).dropPrefix? "on ".toList with
  | some target, some back =>
    .arrow (String.ofList target) ((back.dropSuffix? ")".toList).map String.ofList)
  | _, _ => .arrow (String.ofList cs) none

/-- Reads what stands behind a cross. -/
def readUnused? (cs : List Char) : Option Line := do
  let back ← (cs.rtakeWhile (· ≠ '(')).dropPrefix? "on ".toList
  let option ← back.dropSuffix? ", not connected)".toList
  some (.unused (String.ofList option))

/-- Reads a line that is not indented: a node, or one of the two headings. -/
def readFront? (cs : List Char) : Option Line :=
  match cs.dropPrefix? "# ".toList with
  | none => do
    let back ← (cs.dropWhile Text.isDigit).dropPrefix? ". ".toList
    some (.item (Text.natOfDigits (cs.takeWhile Text.isDigit)) (behind '=' back))
  | some heading =>
    if heading = "Unreachable".toList then some .rest
    else do
      let back ← heading.dropPrefix? "ASCII Plan (depth-first from '".toList
      let start ← back.dropSuffix? "')".toList
      some (.title (String.ofList start))

/-- Reads a line. -/
def read? (line : List Char) : Option Line :=
  match line.dropPrefix? "    └─▶ ".toList, line.dropPrefix? "    └─✗ ".toList,
    line.dropPrefix? "  - ".toList with
  | some back, _, _ => some (readArrow back)
  | none, some back, _ => readUnused? back
  | none, none, some back => some (.leftOver (behind '=' back))
  | none, none, none => readFront? line

/-! ## Each kind of line -/

/-- What holds no place of a character is found behind its last one. -/
theorem behind_append_cons {c : Char} {back : String} (h : c ∉ back.toList) (front : List Char) :
    behind c (front ++ c :: back.toList) = back := by
  rw [behind, Text.rtakeWhile_append_cons (Text.decide_ne_of_not_mem h) (by simp),
    String.ofList_toList]

/-- A line that is not indented is one of a node, or a heading. -/
theorem read?_of_ne {c : Char} (h : c ≠ ' ') (r : List Char) :
    read? (c :: r) = readFront? (c :: r) := by
  unfold read?
  simp only [String.reduceToList, Text.dropPrefix?_of_ne h]

/-- The title is read, whatever the name in it. -/
theorem read?_title (start : String) :
    read? ("# ASCII Plan (depth-first from '" ++ start ++ "')").toList = some (.title start) := by
  have hfront : read? ("# ASCII Plan (depth-first from '" ++ start ++ "')").toList =
      readFront? ("# ".toList ++ ("ASCII Plan (depth-first from '".toList ++
        (start.toList ++ "')".toList))) := by
    simp only [String.toList_append, List.append_assoc]
    exact read?_of_ne (by decide) _
  have hheading : "ASCII Plan (depth-first from '".toList ++ (start.toList ++ "')".toList) ≠
      "Unreachable".toList := fun h => absurd (List.cons.inj h).1 (by decide)
  rw [hfront, readFront?, Text.dropPrefix?_append]
  simp only [if_neg hheading, Text.dropPrefix?_append, Text.dropSuffix?_append,
    Option.bind_eq_bind, Option.bind_some, String.ofList_toList]

/-- A line that begins with digits is that of a node, and its id is at the end. -/
theorem readFront?_digits {digits back : List Char} {id : String} (hne : digits ≠ [])
    (hdigits : ∀ c ∈ digits, Text.isDigit c) (hid : '=' ∉ id.toList) :
    readFront? (digits ++ '.' :: ' ' :: (back ++ '=' :: id.toList)) =
      some (.item (Text.natOfDigits digits) id) := by
  have hheading : (digits ++ '.' :: ' ' :: (back ++ '=' :: id.toList)).dropPrefix? "# ".toList =
      none := by
    obtain ⟨c, r, rfl⟩ := List.exists_cons_of_ne_nil hne
    refine Text.dropPrefix?_of_ne ?_ _ _
    rintro rfl
    exact absurd (hdigits _ List.mem_cons_self) (by decide)
  have hback : (digits ++ '.' :: ' ' :: (back ++ '=' :: id.toList)).dropWhile Text.isDigit =
      ". ".toList ++ (back ++ '=' :: id.toList) := by
    rw [List.dropWhile_append_of_pos hdigits, List.dropWhile_cons_of_neg (by decide)]
    rfl
  rw [readFront?, hheading]
  simp only [hback, Text.takeWhile_append_cons hdigits (c := '.') (by decide),
    Text.dropPrefix?_append, behind_append_cons hid, Option.bind_eq_bind, Option.bind_some]

/-- The number of a node is what its line begins with, and its id stands at the end. -/
theorem read?_item (number : Nat) (name type : String) {id : String} (hid : '=' ∉ id.toList) :
    read? (Text.twoDigits number ++ ". " ++ name ++ " [" ++ type ++ "]  id=" ++ id).toList =
      some (.item number id) := by
  obtain ⟨hne, hdigits, hnumber⟩ := Text.toList_twoDigits number
  have hline : (Text.twoDigits number ++ ". " ++ name ++ " [" ++ type ++ "]  id=" ++ id).toList =
      (Text.twoDigits number).toList ++ '.' :: ' ' ::
        ((name.toList ++ " [".toList ++ type.toList ++ "]  id".toList) ++ '=' :: id.toList) := by
    simp
  rw [hline, ← hnumber, ← readFront?_digits hne hdigits hid, hnumber]
  obtain ⟨c, r, hc⟩ := List.exists_cons_of_ne_nil hne
  rw [hc]
  refine read?_of_ne ?_ _
  rintro rfl
  exact absurd (hdigits _ (hc ▸ List.mem_cons_self)) (by decide)

/-- Brackets about a handle are told from those in a name, which do not begin in the same way. -/
theorem readArrow_of_not_infix {target : String} (h : ¬ "(on ".toList <:+: target.toList) :
    readArrow target.toList = .arrow target none := by
  unfold readArrow
  split
  · rename_i front back hfront hback
    obtain ⟨s, hfront, hs⟩ := List.dropSuffix?_eq_some_iff.mp hfront
    obtain ⟨p, hback, hp⟩ := List.dropPrefix?_eq_some_iff.mp hback
    obtain rfl := eq_of_beq hs
    obtain rfl := eq_of_beq hp
    refine absurd ⟨front ++ "  ".toList, back, ?_⟩ h
    have hwhole := List.rdropWhile_append_rtakeWhile (p := (· ≠ '(')) (l := target.toList)
    rw [hfront, hback] at hwhole
    simpa using hwhole
  · rw [String.ofList_toList]

/-- The name behind an arrow is read, and the handle if there is one. -/
theorem read?_arrow {target : String} {handle : Option String}
    (htarget : ¬ "(on ".toList <:+: target.toList) (hhandle : ∀ h ∈ handle, '(' ∉ h.toList) :
    read? ("    └─▶ " ++ target ++ handle.elim "" fun h => "  (on " ++ h ++ ")").toList =
      some (.arrow target handle) := by
  rw [String.toList_append, String.toList_append, List.append_assoc, read?, Text.dropPrefix?_append]
  refine congrArg some ?_
  cases handle with
  | none => simpa using readArrow_of_not_infix htarget
  | some h =>
    have hback : '(' ∉ "on ".toList ++ (h.toList ++ ")".toList) := by simp [hhandle h rfl]
    have hback := Text.decide_ne_of_not_mem hback
    have hline : target.toList ++ ("  (on " ++ h ++ ")").toList =
        (target.toList ++ "  ".toList) ++ '(' :: ("on ".toList ++ (h.toList ++ ")".toList)) := by
      simp
    have hfront : target.toList ++ "  ".toList ++ ['('] = target.toList ++ "  (".toList := by simp
    rw [Option.elim_some, hline, readArrow, Text.rdropWhile_append_cons hback (by decide),
      Text.rtakeWhile_append_cons hback (by decide), hfront]
    simp only [Text.dropSuffix?_append, Text.dropPrefix?_append, Option.map_some,
      String.ofList_toList]

/-- The option that no edge leaves by is read, whatever its label. -/
theorem read?_unused (label : String) {option : String} (h : '(' ∉ option.toList) :
    read? ("    └─✗ " ++ label ++ "  (on " ++ option ++ ", not connected)").toList =
      some (.unused option) := by
  have hback : '(' ∉ "on ".toList ++ (option.toList ++ ", not connected)".toList) := by simp [h]
  have hback := Text.decide_ne_of_not_mem hback
  have hline : ("    └─✗ " ++ label ++ "  (on " ++ option ++ ", not connected)").toList =
      "    └─✗ ".toList ++ ((label.toList ++ "  ".toList) ++ '(' ::
        ("on ".toList ++ (option.toList ++ ", not connected)".toList))) := by
    simp
  have harrow : ("    └─✗ ".toList ++ ((label.toList ++ "  ".toList) ++ '(' ::
      ("on ".toList ++ (option.toList ++ ", not connected)".toList)))).dropPrefix?
        "    └─▶ ".toList = none := rfl
  rw [hline, read?, harrow, Text.dropPrefix?_append]
  simp only [readUnused?, Text.rtakeWhile_append_cons hback (c := '(') (by decide),
    Text.dropPrefix?_append, Text.dropSuffix?_append, Option.bind_eq_bind, Option.bind_some,
    String.ofList_toList]

/-- The id of a node that is left over stands at the end of its line. -/
theorem read?_leftOver (name type : String) {id : String} (h : '=' ∉ id.toList) :
    read? ("  - " ++ name ++ " [" ++ type ++ "]  id=" ++ id).toList = some (.leftOver id) := by
  have hline : ("  - " ++ name ++ " [" ++ type ++ "]  id=" ++ id).toList = "  - ".toList ++
      ((name.toList ++ " [".toList ++ type.toList ++ "]  id".toList) ++ '=' :: id.toList) := by
    simp
  have harrow : ("  - ".toList ++ ((name.toList ++ " [".toList ++ type.toList ++ "]  id".toList) ++
      '=' :: id.toList)).dropPrefix? "    └─▶ ".toList = none := rfl
  have hcross : ("  - ".toList ++ ((name.toList ++ " [".toList ++ type.toList ++ "]  id".toList) ++
      '=' :: id.toList)).dropPrefix? "    └─✗ ".toList = none := rfl
  rw [hline, read?, harrow, hcross, Text.dropPrefix?_append]
  simp only [behind_append_cons h]

end Line

/-! ## Whole texts -/

/-- Reads the lines of an outline. -/
def read? (text : String) : Option (List Line) :=
  (Text.splitAt '\n' text.toList).mapM Line.read?

/-- A line says something, and is one line. -/
structure Line.Says (line : String) (said : Line) : Prop where
  whole : '\n' ∉ line.toList
  read : Line.read? line.toList = some said

/-- Lines that are joined are read one after the other. -/
theorem read?_joined {lines : List String} {said : List Line} (hne : lines ≠ [])
    (h : List.Forall₂ Line.Says lines said) : read? ("\n".intercalate lines) = some said := by
  have hwhole : ∀ cs ∈ lines.map String.toList, '\n' ∉ cs := by
    intro cs hcs
    obtain ⟨line, hline, rfl⟩ := List.mem_map.mp hcs
    obtain ⟨x, -, hsays⟩ := h.exists_mem line hline
    exact hsays.whole
  rw [read?, Text.splitAt_joined hne, Text.flatMap_splitAt hwhole, List.mapM_map]
  clear hne hwhole
  induction h with
  | nil => rfl
  | cons hsays _ ih =>
    rw [List.mapM_cons, Function.comp_apply, hsays.read, ih]
    rfl

end CallFlow.Outline
