import CallFlow.Dialplan
import CallFlow.Proofs.NumberText
import CallFlow.Proofs.TextParts

/-!
# Dialplans read line by line

Of a line of a dialplan three things matter to control: the label it is entered at, the label it may
jump to, and whether the line below it may be next (`Dialplan.Instruction`). A reader finds them in
the text (`Dialplan.readPlan?`): it leaves out the header, takes the lines that begin with a
semicolon for remarks, and looks for labels between brackets and behind question marks.

* `Dialplan.Instruction.read?_line`: the line of a step says what the step does. No text of a script
  can be taken for a label, because labels hold no brackets and no question marks.
* `Dialplan.readPlan?_lines`: where no line break is in the remarks and in the header, the lines of
  the text are the steps of the blocks, one after the other.
-/

namespace CallFlow

/-! ## Characters of numbers -/

namespace Text

/-- The characters of a whole number are a sign and digits. -/
theorem mem_ofInt {n : Int} {c : Char} (h : c ∈ (ofInt n).toList) : c = '-' ∨ isDigit c := by
  unfold ofInt at h
  split at h
  · rw [String.toList_ofList] at h
    exact .inr (isDigit_of_mem_digits h)
  · rw [String.toList_ofList, List.mem_cons] at h
    exact h.imp_right isDigit_of_mem_digits

/-- The newline, which ends a line, and the carriage return, which may be taken for the end of one.
-/
def isLineBreak (c : Char) : Prop := c = '\n' ∨ c = '\r'

/-- No line break is in a number. -/
theorem not_mem_ofInt (n : Int) {c : Char} (hc : isLineBreak c) : c ∉ (ofInt n).toList := by
  intro h
  rcases hc with rfl | rfl <;> rcases mem_ofInt h with h | h <;> exact absurd h (by decide)

end Text

namespace Dialplan

/-! ## Labels -/

namespace Label

/-- The characters of a label are letters, a low line and digits. -/
theorem mem_text {l : Label} {c : Char} (h : c ∈ l.text.toList) :
    c ∈ "u_ask".toList ∨ Text.isDigit c := by
  cases l with
  | entry unit =>
    simp only [text, String.toList_append, String.toList_ofList, List.mem_append] at h
    rcases h with h | h
    · rw [List.mem_singleton.mp h]
      exact .inl (by decide)
    · exact .inr (Text.isDigit_of_mem_digits h)
  | ask unit =>
    simp only [text, String.toList_append, String.toList_ofList, List.mem_append] at h
    rcases h with (h | h) | h
    · rw [List.mem_singleton.mp h]
      exact .inl (by decide)
    · exact .inr (Text.isDigit_of_mem_digits h)
    · exact .inl (List.mem_cons_of_mem _ h)

/-- The characters of a label are none but its letters and digits. -/
theorem ne_of_mem_text {l : Label} {c d : Char} (hc : c ∈ l.text.toList)
    (hd : d ∉ "u_ask".toList) (hdigit : ¬ Text.isDigit d) : c ≠ d := by
  rintro rfl
  rcases mem_text hc with h | h
  · exact hd h
  · exact hdigit h

/-- No line break is in a label. -/
theorem not_mem_text (l : Label) {c : Char} (hc : Text.isLineBreak c) : c ∉ l.text.toList := by
  intro h
  rcases hc with rfl | rfl <;> exact ne_of_mem_text h (by decide) (by decide) rfl

/-- The digits of a label are followed by a low line or by nothing. -/
theorem digits_ne_append (m n : Nat) : Text.digits m ≠ Text.digits n ++ "_ask".toList := by
  intro h
  have hmem : '_' ∈ Text.digits m := h ▸ List.mem_append_right _ List.mem_cons_self
  exact absurd (Text.isDigit_of_mem_digits hmem) (by decide)

/-- Different labels have different texts. -/
theorem text_injective : Function.Injective text := by
  intro l l' h
  have hchars := congrArg String.toList h
  cases l with
  | entry m =>
    cases l' with
    | entry n =>
      simp only [text, String.toList_append, String.toList_ofList,
        List.append_cancel_left_eq] at hchars
      rw [Text.digits_injective hchars]
    | ask n =>
      simp only [text, String.toList_append, String.toList_ofList, List.append_assoc,
        List.append_cancel_left_eq] at hchars
      exact absurd hchars (digits_ne_append m n)
  | ask m =>
    cases l' with
    | entry n =>
      simp only [text, String.toList_append, String.toList_ofList, List.append_assoc,
        List.append_cancel_left_eq] at hchars
      exact absurd hchars.symm (digits_ne_append n m)
    | ask n =>
      simp only [text, String.toList_append, String.toList_ofList, List.append_cancel_left_eq,
        List.append_cancel_right_eq] at hchars
      rw [Text.digits_injective hchars]

end Label

/-! ## What lines say -/

/-- What a line says about control: the label it is entered at, the label it may jump to, and
whether the line below it may be next. -/
structure Instruction where
  label : Option String
  target : Option String
  goesOn : Bool
  deriving DecidableEq, Repr

namespace Instruction

/-- What a step with the given label and application says. -/
def ofApplication (label : Option String) (app : List Char) : Instruction :=
  match app.dropPrefix? "Goto(".toList, app.dropPrefix? "GotoIf(".toList with
  | some rest, _ => ⟨label, some (String.ofList (rest.takeWhile (· ≠ ')'))), false⟩
  | none, some rest =>
    ⟨label, some (String.ofList ((rest.rtakeWhile (· ≠ '?')).takeWhile (· ≠ ')'))), true⟩
  | none, none => ⟨label, none, app ≠ "Hangup()".toList⟩

/-- Reads a step, which has a label in brackets or none. -/
def read? (line : List Char) : Option Instruction := do
  let rest ← line.dropPrefix? " same => n".toList
  match rest with
  | ',' :: app => some (ofApplication none app)
  | '(' :: rest =>
    let app ← (rest.dropWhile (· ≠ ')')).dropPrefix? "),".toList
    some (ofApplication (some (String.ofList (rest.takeWhile (· ≠ ')')))) app)
  | _ => none

end Instruction

/-- Whether a line is neither empty nor a remark. -/
def saysSomething (line : List Char) : Bool := !line.head?.all (· = ';')

/-- Reads the lines behind the header. -/
def readPlan? (text : String) : Option (List Instruction) :=
  (((Text.splitAt '\n' text.toList).drop 4).filter saysSomething).mapM Instruction.read?

/-! ## What steps do -/

namespace Operation

/-- The label that an operation may jump to. -/
def target? : Operation → Option Label
  | goTo target | retry _ target | branch _ _ target => some target
  | _ => none

/-- Whether the step below may be next. -/
def goesOn : Operation → Bool
  | goTo _ | hangup => false
  | _ => true

/-- The variable that an operation sets or looks at. -/
def var? : Operation → Option String
  | ask var _ _ | branch var _ _ => some var
  | _ => none

end Operation

/-- What a step says about control. -/
def Step.instruction (s : Step) : Instruction :=
  ⟨s.label.map Label.text, s.operation.target?.map Label.text, s.operation.goesOn⟩

/-- The line of a step without a label. -/
theorem Step.toList_line_none (op : Operation) :
    (line ⟨none, op⟩).toList = " same => n".toList ++ ',' :: op.text.toList := by
  simp only [line, String.toList_append, List.append_assoc]
  rfl

/-- The line of a step with a label, which stands in brackets. -/
theorem Step.toList_line_some (l : Label) (op : Operation) :
    (line ⟨some l, op⟩).toList =
      " same => n".toList ++ '(' :: (l.text.toList ++ ')' :: ',' :: op.text.toList) := by
  simp only [line, String.toList_append, List.append_assoc]
  rfl

/-! ## Line breaks -/

section

variable {c : Char} (hc : Text.isLineBreak c)

include hc

/-- An argument holds no line breaks. -/
theorem not_mem_escape (s : String) : c ∉ (escape s).toList := by
  unfold escape
  rw [String.toList_ofList, List.mem_flatMap]
  rintro ⟨d, -, hd⟩
  unfold escapeChar at hd
  split at hd
  · rcases hc with rfl | rfl <;> simp at hd
  · rcases hc with rfl | rfl <;> simp at hd
  · rcases hc with rfl | rfl <;> simp at hd
  · rcases hc with rfl | rfl <;> simp at hd
  · rename_i hreturn hnewline
    obtain rfl := List.mem_singleton.mp hd
    exact hc.elim hnewline hreturn

/-- An operation is written without line breaks, whatever its texts. -/
theorem Operation.not_mem_text {op : Operation}
    (h : ∀ var, op.var? = some var → c ∉ var.toList) : c ∉ op.text.toList := by
  have hescape := not_mem_escape hc
  have hnumber := fun n => Text.not_mem_ofInt n hc
  have hlabel := fun l => Label.not_mem_text l hc
  unfold text
  cases op with
  | ask var | branch var =>
    have hvar : c ∉ var.toList := h var rfl
    rcases hc with rfl | rfl <;> simp [hvar, escape?, hescape, hnumber, hlabel]
  | _ => rcases hc with rfl | rfl <;> simp [escape?, hescape, hnumber, hlabel]

/-- A step is written on one line, if the names of its variables are. -/
theorem Step.not_mem_line {x : Step}
    (h : ∀ var, x.operation.var? = some var → c ∉ var.toList) : c ∉ x.line.toList := by
  have hoperation := Operation.not_mem_text hc h
  unfold line
  cases x.label with
  | none => rcases hc with rfl | rfl <;> simp [hoperation]
  | some l =>
    have hlabel := Label.not_mem_text l hc
    rcases hc with rfl | rfl <;> simp [hoperation, hlabel]

end

/-! ## Reading back -/

namespace Instruction

/-- No closing bracket is in a label. -/
theorem forall_mem_label (l : Label) : ∀ c ∈ l.text.toList, decide (c ≠ ')') := by
  intro c hc
  exact decide_eq_true (Label.ne_of_mem_text hc (by decide) (by decide))

/-- A label is found in front of a closing bracket. -/
theorem takeWhile_label (l : Label) (rest : List Char) :
    String.ofList ((l.text.toList ++ ')' :: rest).takeWhile (· ≠ ')')) = l.text := by
  rw [Text.takeWhile_append_cons (forall_mem_label l) (by decide), String.ofList_toList]

/-- A label is found behind the last question mark. -/
theorem rtakeWhile_label (front : List Char) (l : Label) :
    (front ++ '?' :: (l.text.toList ++ [')'])).rtakeWhile (· ≠ '?') = l.text.toList ++ [')'] := by
  apply Text.rtakeWhile_append_cons
  · intro c hc
    rcases List.mem_append.mp hc with hc | hc
    · exact decide_eq_true (Label.ne_of_mem_text hc (by decide) (by decide))
    · rw [List.mem_singleton.mp hc]
      decide
  · decide

variable (label : Option String)

/-- A jump says where it goes, and that it does not go on. -/
theorem ofApplication_goto (l : Label) :
    ofApplication label ("Goto(".toList ++ (l.text.toList ++ [')'])) =
      ⟨label, some l.text, false⟩ := by
  unfold ofApplication
  rw [Text.dropPrefix?_append]
  simp only [takeWhile_label]

/-- A jump under a condition says where it may go, and that it may go on. -/
theorem ofApplication_gotoIf (front : List Char) (l : Label) :
    ofApplication label ("GotoIf(".toList ++ (front ++ '?' :: (l.text.toList ++ [')']))) =
      ⟨label, some l.text, true⟩ := by
  have hgoto : ("GotoIf(".toList ++ (front ++ '?' :: (l.text.toList ++ [')']))).dropPrefix?
      "Goto(".toList = none := rfl
  unfold ofApplication
  rw [hgoto, Text.dropPrefix?_append]
  simp only [rtakeWhile_label, takeWhile_label]

/-- The text of an operation says what the operation does. -/
theorem ofApplication_text (op : Operation) :
    ofApplication label op.text.toList = ⟨label, op.target?.map Label.text, op.goesOn⟩ := by
  unfold Operation.text
  cases op with
  | goTo target =>
    simp only [String.toList_append, List.append_assoc]
    exact ofApplication_goto label target
  | retry limit target =>
    have hjump := ofApplication_gotoIf label
      ("$[$\x7bTRIES\x7d < ".toList ++ (Text.ofInt limit).toList ++ "]".toList) target
    simp only [String.toList_append, List.append_assoc] at hjump ⊢
    exact hjump
  | branch var value target =>
    have hjump := ofApplication_gotoIf label
      ("$[\"$\x7b".toList ++ var.toList ++ "\x7d\" = \"".toList ++ (escape value).toList ++
        "\"]".toList) target
    simp only [String.toList_append, List.append_assoc] at hjump ⊢
    exact hjump
  | noOperation | hangup | countTry | clearTries => rfl
  | _ =>
    -- the first letters tell it from the applications that jump or hang up
    simp only [String.toList_append, List.append_assoc]
    rfl

/-- A step is read back from its line. -/
theorem read?_line (x : Step) : read? x.line.toList = some x.instruction := by
  obtain ⟨label, op⟩ := x
  cases label with
  | none =>
    unfold read?
    rw [Step.toList_line_none, Text.dropPrefix?_append]
    exact congrArg some (ofApplication_text none op)
  | some l =>
    have hrest : (l.text.toList ++ ')' :: ',' :: op.text.toList).dropWhile (· ≠ ')') =
        ')' :: ',' :: op.text.toList := by
      rw [List.dropWhile_append_of_pos (forall_mem_label l), List.dropWhile_cons_of_neg (by decide)]
    have happ : (')' :: ',' :: op.text.toList).dropPrefix? "),".toList = some op.text.toList :=
      Text.dropPrefix?_append "),".toList op.text.toList
    unfold read?
    rw [Step.toList_line_some, Text.dropPrefix?_append]
    simp only [Option.bind_eq_bind, Option.bind_some, takeWhile_label]
    rw [hrest, happ]
    exact congrArg some (ofApplication_text _ op)

end Instruction

/-- Of the lines of a block, those of the steps are read. -/
theorem filter_lines (b : Block) :
    (b.lines.map String.toList).filter saysSomething = b.steps.map fun x => x.line.toList := by
  have hremark : ¬ saysSomething ("; " ++ b.remark).toList := by
    rw [String.toList_append]
    exact Bool.false_ne_true
  have hsteps : ∀ line ∈ b.steps.map fun x => x.line.toList, saysSomething line := by
    intro line hline
    obtain ⟨x, -, rfl⟩ := List.mem_map.mp hline
    simp only [Step.line, String.toList_append, List.append_assoc]
    rfl
  rw [Block.lines, List.map_cons, List.map_map, List.filter_cons_of_neg hremark]
  exact List.filter_eq_self.mpr hsteps

/-- The lines that are read are the steps of the blocks. -/
theorem readPlan?_lines {s : Script} {context : String} {bs : List Block}
    (hheader : ∀ line ∈ header s context, '\n' ∉ line.toList)
    (hlines : ∀ b ∈ bs, ∀ line ∈ b.lines, '\n' ∉ line.toList) :
    readPlan? ("\n".intercalate (header s context ++ bs.flatMap Block.lines) ++ "\n") =
      some ((bs.flatMap Block.steps).map Step.instruction) := by
  have hne : header s context ++ bs.flatMap Block.lines ≠ [] := List.cons_ne_nil _ _
  have hwhole : ∀ text ∈ (header s context ++ bs.flatMap Block.lines).map String.toList,
      '\n' ∉ text := by
    intro text htext
    obtain ⟨line, hline, rfl⟩ := List.mem_map.mp htext
    rcases List.mem_append.mp hline with hline | hline
    · exact hheader line hline
    · obtain ⟨b, hb, hline⟩ := List.mem_flatMap.mp hline
      exact hlines b hb line hline
  have hdrop : ((header s context ++ bs.flatMap Block.lines).map String.toList ++ [[]]).drop 4 =
      (bs.flatMap Block.lines).map String.toList ++ [[]] := rfl
  have hkept : ((bs.flatMap Block.lines).map String.toList ++ [[]]).filter saysSomething =
      (bs.flatMap Block.steps).map fun x => x.line.toList := by
    have hempty : [[]].filter saysSomething = [] := rfl
    rw [List.filter_append, List.map_flatMap, List.filter_flatMap, hempty, List.append_nil,
      List.map_flatMap]
    exact congrArg (bs.flatMap ·) (funext filter_lines)
  have hread : (Instruction.read? ∘ fun x : Step => x.line.toList) =
      fun x => pure x.instruction := funext Instruction.read?_line
  unfold readPlan?
  rw [Text.splitAt_lines hne, Text.flatMap_splitAt hwhole, hdrop, hkept, List.mapM_map, hread,
    List.mapM_pure]
  rfl

end Dialplan

end CallFlow
