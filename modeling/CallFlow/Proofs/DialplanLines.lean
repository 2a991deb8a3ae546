import CallFlow.Proofs.ControlFlow

/-!
# The lines of a dialplan

A dialplan is put together line by line, but a text of the flow that comes into a line may hold
newlines of its own. The texts in arguments of steps lose theirs (`Dialplan.Step.not_mem_line`). The
label where the script starts and the names of its units are written as they are: each newline in
one of them ends the line, and what is behind it is read as a line of the dialplan.

* `Text.lines_joined`: texts that are each ended by a newline give their lines, one after the other.
* `Script.lines_dialplan`: the lines of a dialplan are those of the header and, for each unit, of a
  remark and of its steps, and no others, exactly if the start and the names hold no newlines.
* `Flow.lines_dialplan_loudName`: by a name, a flow can bring a step of its own into the dialplan.
-/

namespace CallFlow

/-! ## Lines -/

namespace Text

/-- The lines of a text, which stand between its newlines. A carriage return does not end a line. -/
def lines (s : String) : List String := (splitAt '\n' s.toList).map String.ofList

/-- A text without a newline is one line. -/
theorem lines_of_not_mem {s : String} (h : '\n' ∉ s.toList) : lines s = [s] := by
  rw [lines, splitAt_of_not_mem h, List.map_singleton, String.ofList_toList]

/-- No line holds a newline. -/
theorem not_mem_of_mem_lines {s line : String} (h : line ∈ lines s) : '\n' ∉ line.toList := by
  obtain ⟨part, hpart, rfl⟩ := List.mem_map.mp h
  rw [String.toList_ofList]
  exact not_mem_of_mem_splitAt part hpart

/-- Texts that are each ended by a line break have their lines, and an empty one at the end. -/
theorem lines_joined {texts : List String} (h : texts ≠ []) :
    lines ("\n".intercalate texts ++ "\n") = texts.flatMap lines ++ [""] := by
  rw [lines, splitAt_lines h, List.map_append, List.flatMap_map, List.map_flatMap]
  rfl

/-- Texts without line breaks are lines. -/
theorem flatMap_lines {texts : List String} (h : ∀ s ∈ texts, '\n' ∉ s.toList) :
    texts.flatMap lines = texts := by
  rw [List.flatMap_congr fun s hs => lines_of_not_mem (h s hs)]
  exact List.flatMap_singleton' texts

/-- The lines are the texts that were joined exactly if these hold no line breaks. -/
theorem lines_joined_eq_iff {texts : List String} (h : texts ≠ []) :
    lines ("\n".intercalate texts ++ "\n") = texts ++ [""] ↔ ∀ s ∈ texts, '\n' ∉ s.toList := by
  constructor
  · intro hlines s hs
    exact not_mem_of_mem_lines (hlines ▸ List.mem_append_left _ hs)
  · intro hwhole
    rw [lines_joined h, flatMap_lines hwhole]

end Text

namespace Dialplan

variable {s : Script} {limit : Int}

/-- The line that says how many units there are and where the script starts. -/
def summary (s : Script) : String :=
  "; Units: " ++ Text.ofInt s.units.length ++ ", Start: " ++ s.start

/-- In a context of one line, only the start can break a line of the header. -/
theorem flatMap_lines_header {context : String} (hcontext : '\n' ∉ context.toList) :
    (header s context).flatMap Text.lines =
      "; AGI Script" :: Text.lines (summary s) ++
        ["[" ++ context ++ "]", "exten => s,1,Answer()"] := by
  have hframe : '\n' ∉ ("[" ++ context ++ "]").toList := by simp [hcontext]
  simp only [header, List.flatMap_cons, List.flatMap_nil, Text.lines_of_not_mem hframe]
  rfl

/-- Only the name of its unit can break a line of a block. -/
theorem flatMap_lines_block {us : List ScriptUnit} {bs : List Block}
    (h : blocks s limit us = .ok bs) {b : Block} (hb : b ∈ bs) :
    b.lines.flatMap Text.lines = Text.lines ("; " ++ b.remark) ++ b.steps.map Step.line := by
  have hsteps : ∀ line ∈ b.steps.map Step.line, '\n' ∉ line.toList := by
    intro line hline
    obtain ⟨x, hx, rfl⟩ := List.mem_map.mp hline
    exact not_mem_step h hb hx (.inl rfl)
  rw [Block.lines, List.flatMap_cons, Text.flatMap_lines hsteps]

/-- The line of a step begins with the word that says that it belongs to the extension above. -/
theorem Step.prefix_line (x : Step) : " same => n".toList <+: x.line.toList := by
  rw [line, String.toList_append, String.toList_append, String.toList_append, List.append_assoc,
    List.append_assoc]
  exact List.prefix_append _ _

/-- In a context of one line, no line of a dialplan breaks exactly if the start and the names do
not. -/
theorem forall_not_mem_iff {context : String} (hcontext : '\n' ∉ context.toList)
    {bs : List Block} (h : blocks s limit s.units = .ok bs) :
    (∀ line ∈ header s context ++ bs.flatMap Block.lines, '\n' ∉ line.toList) ↔
      '\n' ∉ s.start.toList ∧ ∀ u ∈ s.units, '\n' ∉ u.name.toList := by
  constructor
  · intro hwhole
    refine ⟨fun hstart => ?_, fun u hu hname => ?_⟩
    · refine hwhole (summary s) (List.mem_append_left _ ?_) (by simp [summary, hstart])
      simp [header, summary]
    · have hremark : u.name ++ " (" ++ u.action.kindName ++ ")" ∈ bs.map Block.remark := by
        rw [map_remark_blocks h]
        exact List.mem_map.mpr ⟨u, hu, rfl⟩
      obtain ⟨b, hb, hremark⟩ := List.mem_map.mp hremark
      refine hwhole ("; " ++ b.remark) (List.mem_append_right _ ?_) (by simp [hremark, hname])
      exact List.mem_flatMap.mpr ⟨b, hb, List.mem_cons_self⟩
  · rintro ⟨hstart, hnames⟩ line hline
    rcases List.mem_append.mp hline with hline | hline
    · exact not_mem_header hstart hcontext line hline
    · obtain ⟨b, hb, hline⟩ := List.mem_flatMap.mp hline
      exact not_mem_lines h hnames b hb line hline

end Dialplan

namespace Script

variable {s : Script} {limit : Int} {context text : String}

/-- **Only the start and the names add lines to a dialplan.** Lines end at newlines. In a context
without a newline, the lines of the dialplan are those of the header and, for each unit, the lines
of a remark with its name and those of its steps. Each step is one line, which begins as steps do
and holds neither a newline nor a carriage return, whatever texts are in its arguments. So the text
has four lines for the header and, for each unit, one for the remark and one for each step exactly
if the label of the start and the names of the units hold no newline; a carriage return in them
stays in its line. -/
theorem lines_dialplan (hcontext : '\n' ∉ context.toList)
    (htext : s.dialplan context limit = .ok text) :
    ∃ bs, Dialplan.blocks s limit s.units = .ok bs ∧
      bs.map Dialplan.Block.remark =
        s.units.map (fun u => u.name ++ " (" ++ u.action.kindName ++ ")") ∧
      (∀ b ∈ bs, ∀ x ∈ b.steps, " same => n".toList <+: x.line.toList ∧
        ∀ c ∈ x.line.toList, ¬ Text.isLineBreak c) ∧
      Text.lines text =
        "; AGI Script" :: Text.lines (Dialplan.summary s) ++
          ["[" ++ context ++ "]", "exten => s,1,Answer()"] ++
          bs.flatMap (fun b => Text.lines ("; " ++ b.remark) ++ b.steps.map Dialplan.Step.line) ++
          [""] ∧
      (Text.lines text = Dialplan.header s context ++ bs.flatMap Dialplan.Block.lines ++ [""] ↔
        '\n' ∉ s.start.toList ∧ ∀ u ∈ s.units, '\n' ∉ u.name.toList) := by
  obtain ⟨bs, hbs, htext⟩ := Except.bind_eq_ok_iff.mp htext
  obtain rfl := Except.ok.inj htext
  have hne : Dialplan.header s context ++ bs.flatMap Dialplan.Block.lines ≠ [] :=
    List.cons_ne_nil _ _
  refine ⟨bs, hbs, Dialplan.map_remark_blocks hbs, fun b hb x hx => ⟨x.prefix_line, ?_⟩, ?_, ?_⟩
  · intro c hmem hbreak
    exact Dialplan.not_mem_step hbs hb hx hbreak hmem
  · rw [Text.lines_joined hne, List.flatMap_append, Dialplan.flatMap_lines_header hcontext,
      List.flatMap_assoc, List.flatMap_congr fun b hb => Dialplan.flatMap_lines_block hbs hb]
  · rw [Text.lines_joined_eq_iff hne, Dialplan.forall_not_mem_iff hcontext hbs]

end Script

namespace Flow

/-- A prompt whose message goes on behind a line break as a step would. -/
def loudPrompt : Flow where
  nodes := [⟨"hello", "Hello", .known (.prompt ⟨some "Hello\r\n same => n,System(reboot)", none,
    none⟩), Node.origin⟩]
  edges := []
  start := none
  distinct := by decide

/-- The message stays in its line. -/
theorem lines_dialplan_loudPrompt : ∃ s text, loudPrompt.compile .hangup = .ok s ∧
    s.dialplan "main" 3 = .ok text ∧ '\n' ∉ "main".toList ∧
      Text.lines text = ["; AGI Script", "; Units: 1, Start: hello", "[main]",
        "exten => s,1,Answer()", "; Hello (play)",
        " same => n(u0),Festival(Hello   same => n\\,System(reboot))", " same => n,Hangup()",
        ""] := by
  obtain ⟨s, hs⟩ : ∃ s, loudPrompt.compile .hangup = .ok s := ⟨_, rfl⟩
  obtain ⟨text, htext⟩ : ∃ text, s.dialplan "main" 3 = .ok text := by
    cases hs
    exact ⟨_, rfl⟩
  have hcontext : '\n' ∉ "main".toList := by decide
  obtain ⟨bs, hbs, -, -, -, hlines⟩ := Script.lines_dialplan hcontext htext
  have hwhole := hlines.mpr (by cases hs; decide)
  refine ⟨s, text, hs, htext, hcontext, hwhole.trans ?_⟩
  cases hs
  cases hbs
  decide

/-- A node whose name goes on behind a line break as a step would. -/
def loudName : Flow where
  nodes := [⟨"bye", "Bye\n same => n,System(reboot) ;", .known .hangup, Node.origin⟩]
  edges := []
  start := none
  distinct := by decide

/-- The name brings a step into the dialplan that is not one of the unit. -/
theorem lines_dialplan_loudName : ∃ s text bs, loudName.compile .hangup = .ok s ∧
    '\n' ∉ "main".toList ∧ s.dialplan "main" 3 = .ok text ∧
      Dialplan.blocks s 3 s.units = .ok bs ∧
      bs.flatMap (fun b => b.steps.map Dialplan.Step.line) = [" same => n(u0),Hangup()"] ∧
      Text.lines text = ["; AGI Script", "; Units: 1, Start: bye", "[main]",
        "exten => s,1,Answer()", "; Bye", " same => n,System(reboot) ; (hangup)",
        " same => n(u0),Hangup()", ""] ∧
      Text.lines text ≠ Dialplan.header s "main" ++ bs.flatMap Dialplan.Block.lines ++ [""] := by
  obtain ⟨s, hs⟩ : ∃ s, loudName.compile .hangup = .ok s := ⟨_, rfl⟩
  obtain ⟨text, htext⟩ : ∃ text, s.dialplan "main" 3 = .ok text := by
    cases hs
    exact ⟨_, rfl⟩
  obtain ⟨bs, hbs⟩ : ∃ bs, Dialplan.blocks s 3 s.units = .ok bs := by
    cases hs
    exact ⟨_, rfl⟩
  have hlines : Text.lines text = ["; AGI Script", "; Units: 1, Start: bye", "[main]",
      "exten => s,1,Answer()", "; Bye", " same => n,System(reboot) ; (hangup)",
      " same => n(u0),Hangup()", ""] := by
    cases hs
    cases htext
    decide +kernel
  refine ⟨s, text, bs, hs, by decide, htext, hbs, ?_, hlines, ?_⟩
  · cases hs
    cases hbs
    rfl
  · rw [hlines]
    cases hs
    cases hbs
    exact fun h => absurd (congrArg List.length h) (by decide)

end Flow

end CallFlow
