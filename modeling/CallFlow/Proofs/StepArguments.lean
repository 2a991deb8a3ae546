import CallFlow.Proofs.Blocks

/-!
# The arguments of steps

A step of a dialplan calls an application with arguments between commas. A reader takes them apart
again (`Dialplan.readArguments`): it splits where a comma is not escaped by a backslash, and drops
the backslashes that escape something. A text that is written as an argument holds no comma that is
not escaped, and nothing behind it is escaped by it, whatever it ends with
(`Dialplan.mark_escape_append`).

* `Dialplan.readArguments_intercalate`: texts that are escaped and joined with commas are read back,
  with spaces for line breaks.
* `Dialplan.Operation.text_eq_call`: an operation is written as a call with a list of arguments.
  Numbers, labels and names of variables are written in them as they are.
* `Script.arguments_dialplan`: from the line of each step of a dialplan its call is read back.
-/

namespace CallFlow

namespace Dialplan

/-! ## Reading arguments -/

/-- The characters of a text, each with whether it is escaped: whether there is a backslash in front
of it that is not escaped itself. -/
def mark (escaped : Bool) : List Char → List (Char × Bool)
  | [] => []
  | c :: rest => (c, escaped) :: mark (c = '\\' && !escaped) rest

/-- What stands between two arguments: a comma that is not escaped. -/
def separator : Char × Bool := (',', false)

/-- What escapes the character behind it: a backslash that is not escaped. -/
def escaping : Char × Bool := ('\\', false)

/-- Marked characters as a text, without the backslashes that escape others. -/
def unescape (part : List (Char × Bool)) : String :=
  String.ofList ((part.filter (· ≠ escaping)).map Prod.fst)

/-- Reads the arguments that stand between commas. -/
def readArguments (cs : List Char) : List String :=
  ((mark false cs).splitOn separator).map unescape

/-- A character, or a space for one that ends a line. -/
def spaced (c : Char) : Char := if c = '\r' ∨ c = '\n' then ' ' else c

/-- A text with spaces for line breaks. -/
def unbroken (s : String) : String := String.ofList (s.toList.map spaced)

/-! ## Escaped texts -/

/-- A text is escaped character by character. -/
theorem toList_escape (s : String) : (escape s).toList = s.toList.flatMap escapeChar :=
  String.toList_ofList

/-- So what is joined is escaped part by part. -/
theorem escape_append (s t : String) : escape (s ++ t) = escape s ++ escape t := by
  rw [← String.toList_inj, String.toList_append]
  simp only [toList_escape, String.toList_append, List.flatMap_append]

/-- What a character is written as, marked. -/
def markedChar (c : Char) : List (Char × Bool) :=
  if c = '\\' ∨ c = ',' then [escaping, (c, true)] else [(spaced c, false)]

/-- Nothing that is written for a character escapes what comes behind it. -/
theorem mark_escapeChar_append (c : Char) (rest : List Char) :
    mark false (escapeChar c ++ rest) = markedChar c ++ mark false rest := by
  unfold escapeChar
  split
  · rfl
  · rfl
  · rfl
  · rfl
  · rename_i hslash hcomma hreturn hnewline
    have hplain : ¬ (c = '\\' ∨ c = ',') := not_or.mpr ⟨hslash, hcomma⟩
    have hbreak : ¬ (c = '\r' ∨ c = '\n') := not_or.mpr ⟨hreturn, hnewline⟩
    have hnext : (decide (c = '\\') && !false) = false := by simpa using hslash
    rw [List.singleton_append, mark, hnext, markedChar, if_neg hplain, spaced, if_neg hbreak,
      List.singleton_append]

/-- No character is put in place of another but the space. -/
theorem spaced_ne {c d : Char} (hd : d ≠ ' ') (h : c ≠ d) : spaced c ≠ d := by
  unfold spaced
  split
  · exact Ne.symm hd
  · exact h

/-- No comma that is written for a character separates arguments. -/
theorem separator_not_mem_markedChar (c : Char) : separator ∉ markedChar c := by
  unfold markedChar
  split
  · simp [separator, escaping]
  · rename_i hplain
    have hcomma : spaced c ≠ ',' := spaced_ne (by decide) (not_or.mp hplain).2
    simp [separator, Ne.symm hcomma]

/-- Without the backslash that escapes it, a character is itself or a space. -/
theorem filter_markedChar (c : Char) :
    ((markedChar c).filter (· ≠ escaping)).map Prod.fst = [spaced c] := by
  unfold markedChar
  split
  · rename_i hescaped
    rcases hescaped with rfl | rfl <;> rfl
  · rename_i hplain
    have hslash : spaced c ≠ '\\' := spaced_ne (by decide) (not_or.mp hplain).1
    simp [escaping, hslash]

/-- A text that is escaped is marked in the same way wherever it stands, and so is what comes behind
it. -/
theorem mark_escape_append (s : String) (rest : List Char) :
    mark false ((escape s).toList ++ rest) = s.toList.flatMap markedChar ++ mark false rest := by
  rw [toList_escape]
  induction s.toList with
  | nil => rfl
  | cons c cs ih =>
    rw [List.flatMap_cons, List.flatMap_cons, List.append_assoc, mark_escapeChar_append, ih,
      List.append_assoc]

/-- In an escaped text each character is marked on its own. -/
theorem mark_escape (s : String) : mark false (escape s).toList = s.toList.flatMap markedChar := by
  have h := mark_escape_append s []
  rwa [List.append_nil, mark, List.append_nil] at h

/-- No separator is in what is written for a text. -/
theorem separator_not_mem_flatMap (s : String) : separator ∉ s.toList.flatMap markedChar := by
  rw [List.mem_flatMap]
  rintro ⟨c, -, hc⟩
  exact separator_not_mem_markedChar c hc

/-- Unescaping gives the text back, with spaces for line breaks. -/
theorem unescape_flatMap (s : String) : unescape (s.toList.flatMap markedChar) = unbroken s := by
  rw [unescape, unbroken, List.filter_flatMap, List.map_flatMap, List.map_eq_flatMap,
    List.flatMap_congr fun c _ => filter_markedChar c]

/-- Of escaped texts that are joined, the commas between them are the separators. -/
theorem mark_intercalate : ∀ {texts : List String}, texts ≠ [] →
    mark false (",".intercalate (texts.map escape)).toList =
      [separator].intercalate (texts.map fun s => s.toList.flatMap markedChar)
  | [s], _ => by
    rw [List.map_singleton, List.map_singleton, String.intercalate_singleton,
      List.intercalate_singleton, mark_escape]
  | s :: next :: rest, _ => by
    have hrest := mark_intercalate (List.cons_ne_nil next rest)
    have hcomma : ∀ cs, mark false (",".toList ++ cs) = [separator] ++ mark false cs := fun _ => rfl
    simp only [List.map_cons] at hrest ⊢
    rw [String.intercalate_cons_cons, List.intercalate_cons_cons, String.toList_append,
      String.toList_append, List.append_assoc, mark_escape_append, hcomma, hrest, List.append_assoc]

/-- Texts that are escaped and joined with commas are read back, with spaces for line breaks. -/
theorem readArguments_intercalate {texts : List String} (h : texts ≠ []) :
    readArguments (",".intercalate (texts.map escape)).toList = texts.map unbroken := by
  have hparts : ∀ part ∈ texts.map fun s => s.toList.flatMap markedChar, separator ∉ part := by
    intro part hpart
    obtain ⟨s, -, rfl⟩ := List.mem_map.mp hpart
    exact separator_not_mem_flatMap s
  rw [readArguments, mark_intercalate h, List.splitOn_intercalate _ hparts (by simpa using h),
    List.map_map]
  exact List.map_congr_left fun s _ => unescape_flatMap s

example : readArguments "a\\,b,c\\\\,,d".toList = ["a,b", "c\\", "", "d"] := by decide

/-! ## Calls of applications -/

/-- A call of an application. -/
structure Call where
  application : String
  arguments : List String
  deriving DecidableEq, Repr

namespace Call

/-- A call as text. -/
def text (c : Call) : String :=
  c.application ++ "(" ++ ",".intercalate (c.arguments.map escape) ++ ")"

/-- A call with spaces for the line breaks in its arguments. -/
def unbroken (c : Call) : Call := ⟨c.application, c.arguments.map Dialplan.unbroken⟩

/-- Reads a call. Its arguments stand between the first bracket and the last character, which is a
bracket too. -/
def read? (cs : List Char) : Option Call :=
  match cs.dropWhile (· ≠ '(') with
  | '(' :: rest =>
    if rest.getLast? = some ')' then
      some ⟨String.ofList (cs.takeWhile (· ≠ '(')), readArguments rest.dropLast⟩
    else none
  | _ => none

/-- Reads the call in a line, where it stands behind the first comma. -/
def ofLine? (line : List Char) : Option Call :=
  match line.dropWhile (· ≠ ',') with
  | ',' :: app => read? app
  | _ => none

/-- A call is read back, with spaces for line breaks. -/
theorem read?_text {c : Call} (happlication : '(' ∉ c.application.toList)
    (harguments : c.arguments ≠ []) : read? c.text.toList = some c.unbroken := by
  have hfront : ∀ d ∈ c.application.toList, decide (d ≠ '(') := by
    intro d hd
    exact decide_eq_true fun h => happlication (h ▸ hd)
  have htext : c.text.toList = c.application.toList ++
      '(' :: ((",".intercalate (c.arguments.map escape)).toList ++ [')']) := by
    simp only [text, String.toList_append, List.append_assoc]
    rfl
  rw [read?, htext, List.dropWhile_append_of_pos hfront, List.dropWhile_cons_of_neg (by decide),
    Text.takeWhile_append_cons hfront (by decide)]
  simp only [List.getLast?_concat, if_true, List.dropLast_concat,
    readArguments_intercalate harguments, String.ofList_toList, unbroken]

/-- In front of the call of a step there is no other comma. -/
theorem ofLine?_line (x : Step) : ofLine? x.line.toList = read? x.operation.text.toList := by
  obtain ⟨front, hcomma, hline⟩ : ∃ front : List Char, ',' ∉ front ∧
      x.line.toList = front ++ ',' :: x.operation.text.toList := by
    obtain ⟨label, op⟩ := x
    cases label with
    | none => exact ⟨" same => n".toList, by decide, Step.toList_line_none op⟩
    | some l =>
      have hlabel : ',' ∉ l.text.toList := fun h =>
        Label.ne_of_mem_text h (by decide) (by decide) rfl
      refine ⟨" same => n".toList ++ '(' :: (l.text.toList ++ [')']), by simp [hlabel], ?_⟩
      rw [Step.toList_line_some, List.append_assoc, List.cons_append, List.append_assoc]
      rfl
  have hfront : ∀ c ∈ front, decide (c ≠ ',') := by
    intro c hc
    exact decide_eq_true fun h => hcomma (h ▸ hc)
  rw [ofLine?, hline, List.dropWhile_append_of_pos hfront, List.dropWhile_cons_of_neg (by decide)]
  rfl

end Call

/-! ## The calls of operations -/

/-- The call that carries out an operation. -/
def Operation.call : Operation → Call
  | playback url => ⟨"Playback", [url]⟩
  | speak message => ⟨"Festival", [message]⟩
  | noOperation => ⟨"NoOp", [""]⟩
  | hangup => ⟨"Hangup", [""]⟩
  | goTo target => ⟨"Goto", [target.text]⟩
  | clearTries => ⟨"Set", ["TRIES=0"]⟩
  | countTry => ⟨"Set", ["TRIES=$[$\x7bTRIES\x7d + 1]"]⟩
  | retry limit target =>
    ⟨"GotoIf", ["$[$\x7bTRIES\x7d < " ++ Text.ofInt limit ++ "]?" ++ target.text]⟩
  | ask var prompt digits =>
    ⟨"Read", [var, prompt.getD "", Text.ofInt digits, "", "", Text.ofInt digitTimeout]⟩
  | branch var value target =>
    ⟨"GotoIf", ["$[\"$\x7b" ++ var ++ "\x7d\" = \"" ++ value ++ "\"]?" ++ target.text]⟩
  | request method endpoint => ⟨"AGI", ["http-request.agi", method, endpoint]⟩
  | setStatus status => ⟨"Set", ["API_STATUS=" ++ status.getD ""]⟩
  | record unit seconds =>
    ⟨"Record", [(Label.entry unit).text ++ "-%d.wav", "3", Text.ofInt seconds]⟩
  | dial destination => ⟨"Dial", [destination]⟩
  | queue name => ⟨"Queue", [name]⟩
  | voicemail mailbox => ⟨"VoiceMail", [mailbox, "u"]⟩

/-- A character that is not written as itself. -/
def isSpecial (c : Char) : Bool := c = '\\' || c = ',' || c = '\r' || c = '\n'

/-- A text that is written as itself. -/
def isPlain (s : String) : Bool := s.toList.all fun c => !isSpecial c

/-- A text is written as itself if each of its characters is. -/
theorem isPlain_iff {s : String} : isPlain s ↔ ∀ c ∈ s.toList, ¬ isSpecial c := by
  simp only [isPlain, List.all_eq_true, Bool.not_eq_true', Bool.not_eq_true]

/-- A character that is not special is written as itself. -/
theorem escapeChar_of_not_isSpecial {c : Char} (h : ¬ isSpecial c) : escapeChar c = [c] := by
  unfold escapeChar
  split
  · exact absurd rfl h
  · exact absurd rfl h
  · exact absurd rfl h
  · exact absurd rfl h
  · rfl

/-- So is a text of such characters. -/
theorem escape_of_isPlain {s : String} (h : isPlain s) : escape s = s := by
  rw [← String.toList_inj, toList_escape,
    List.flatMap_congr fun c hc => escapeChar_of_not_isSpecial (isPlain_iff.mp h c hc)]
  exact List.flatMap_singleton' s.toList

/-- Digits are written as themselves. -/
theorem not_isSpecial_of_isDigit {c : Char} (h : Text.isDigit c) : ¬ isSpecial c := by
  simp only [isSpecial, Bool.or_eq_true, decide_eq_true_eq]
  rintro (((rfl | rfl) | rfl) | rfl) <;> exact absurd h (by decide)

/-- So are whole numbers. -/
theorem isPlain_ofInt (n : Int) : isPlain (Text.ofInt n) := by
  refine isPlain_iff.mpr fun c hc => ?_
  rcases Text.mem_ofInt hc with rfl | hdigit
  · decide
  · exact not_isSpecial_of_isDigit hdigit

/-- So are labels. -/
theorem isPlain_label (l : Label) : isPlain l.text := by
  have hletters : isPlain "u_ask" := by decide
  refine isPlain_iff.mpr fun c hc => ?_
  rcases Label.mem_text hc with hletter | hdigit
  · exact isPlain_iff.mp hletters c hletter
  · exact not_isSpecial_of_isDigit hdigit

namespace Operation

/-- An operation is written as its call, if the name of its variable needs no escapes. -/
theorem text_eq_call {op : Operation} (h : ∀ var, op.var? = some var → isPlain var) :
    op.text = op.call.text := by
  have hnumber := fun n => escape_of_isPlain (isPlain_ofInt n)
  have hlabel := fun l => escape_of_isPlain (isPlain_label l)
  unfold text call Call.text
  cases op with
  | ask var prompt digits =>
    have hempty : escape "" = "" := escape_of_isPlain (by decide)
    simp only [List.map_cons, List.map_nil, String.intercalate_cons_cons,
      String.intercalate_singleton, escape?, hempty, hnumber, escape_of_isPlain (h var rfl),
      ← String.append_assoc, String.reduceAppend]
    -- the two empty arguments and the commas around them are written as one text
    rw [@String.append_assoc _ "," ",,"]
    rfl
  | branch var value target =>
    simp only [List.map_cons, List.map_nil, String.intercalate_singleton, escape_append,
      escape_of_isPlain (h var rfl), hlabel]
    simp (disch := decide) only [escape_of_isPlain, ← String.append_assoc, String.reduceAppend]
  | record unit seconds =>
    simp only [List.map_cons, List.map_nil, String.intercalate_cons_cons,
      String.intercalate_singleton, escape_append, hnumber, hlabel]
    simp (disch := decide) only [escape_of_isPlain, ← String.append_assoc, String.reduceAppend]
    rw [@String.append_assoc _ "," "3,", @String.append_assoc _ "-%d.wav"]
    rfl
  | voicemail mailbox =>
    simp only [List.map_cons, List.map_nil, String.intercalate_cons_cons,
      String.intercalate_singleton]
    simp (disch := decide) only [escape_of_isPlain, ← String.append_assoc, String.reduceAppend]
    rw [@String.append_assoc _ "u" ")", @String.append_assoc _ ","]
    rfl
  | _ =>
    simp only [List.map_cons, List.map_nil, String.intercalate_cons_cons,
      String.intercalate_singleton, escape?, escape_append, hnumber, hlabel]
    simp (disch := decide) only [escape_of_isPlain, ← String.append_assoc, String.reduceAppend]

/-- No application has an opening bracket in its name. -/
theorem not_mem_application_call (op : Operation) : '(' ∉ op.call.application.toList := by
  cases op <;> simp [call]

/-- Each call has an argument. -/
theorem arguments_call_ne_nil (op : Operation) : op.call.arguments ≠ [] := by
  cases op <;> exact List.cons_ne_nil _ _

end Operation

/-- From the line of a step its call is read back, with spaces for line breaks. -/
theorem ofLine?_of_mem {s : Script} {limit : Int} {us : List ScriptUnit} {bs : List Block}
    (h : blocks s limit us = .ok bs) {b : Block} (hb : b ∈ bs) {x : Step} (hx : x ∈ b.steps) :
    Call.ofLine? x.line.toList = some x.operation.call.unbroken := by
  have hnames : ∀ var ∈ answerNames, isPlain var := by decide
  rw [Call.ofLine?_line, Operation.text_eq_call fun var hvar =>
    hnames var (mem_answerNames_of_mem_blocks h hb hx hvar)]
  exact Call.read?_text x.operation.not_mem_application_call x.operation.arguments_call_ne_nil

end Dialplan

namespace Script

/-- **No text changes the arguments of a step.** Texts that are escaped and joined with commas are
read back as they are, one for one, with spaces for line breaks. A dialplan is written from blocks,
and from the line of each of their steps the application is read back with the arguments that
the operation of the step has, in their order and with spaces for line breaks: no text adds an
argument, takes one away or moves one to another place. -/
theorem arguments_dialplan :
    (∀ texts : List String, texts ≠ [] →
      Dialplan.readArguments (",".intercalate (texts.map Dialplan.escape)).toList =
        texts.map Dialplan.unbroken) ∧
    ∀ (s : Script) (context : String) (limit : Int) (text : String),
      s.dialplan context limit = .ok text →
        ∃ bs, Dialplan.blocks s limit s.units = .ok bs ∧
          text = "\n".intercalate
            (Dialplan.header s context ++ bs.flatMap Dialplan.Block.lines) ++ "\n" ∧
          ∀ b ∈ bs, ∀ x ∈ b.steps,
            Dialplan.Call.ofLine? x.line.toList = some x.operation.call.unbroken := by
  refine ⟨fun texts => Dialplan.readArguments_intercalate, fun s context limit text htext => ?_⟩
  obtain ⟨bs, hbs, htext⟩ := Except.bind_eq_ok_iff.mp htext
  exact ⟨bs, hbs, (Except.ok.inj htext).symm, fun b hb x hx => Dialplan.ofLine?_of_mem hbs hb hx⟩

/-- A request with commas and backslashes where they could be taken for others. -/
def twistedRequest : Script where
  start := "fetch"
  units := [⟨"fetch", "Fetch", .apiCall none (some "http://host/a,b\\") (some "POST\\,\r\n") none none
    []⟩]

/-- The request has its three arguments. -/
theorem arguments_dialplan_twistedRequest :
    ["a\\", ",b\\\\,", "", "c\r\nd"] ≠ [] ∧
    Dialplan.readArguments
        (",".intercalate (["a\\", ",b\\\\,", "", "c\r\nd"].map Dialplan.escape)).toList =
      ["a\\", ",b\\\\,", "", "c  d"] ∧
    ∃ text, twistedRequest.dialplan "main" 3 = .ok text ∧
      ∃ bs, Dialplan.blocks twistedRequest 3 twistedRequest.units = .ok bs ∧
        ∃ b ∈ bs, ∃ x ∈ b.steps,
          x.line = " same => n(u0),AGI(http-request.agi,POST\\\\\\,  ,http://host/a\\,b\\\\)" ∧
          Dialplan.Call.ofLine? x.line.toList =
            some ⟨"AGI", ["http-request.agi", "POST\\,  ", "http://host/a,b\\"]⟩ := by
  obtain ⟨hjoined, hdialplan⟩ := arguments_dialplan
  obtain ⟨text, htext⟩ : ∃ text, twistedRequest.dialplan "main" 3 = .ok text := ⟨_, rfl⟩
  obtain ⟨bs, hbs, -, hlines⟩ := hdialplan twistedRequest "main" 3 text htext
  refine ⟨List.cons_ne_nil _ _, (hjoined _ (List.cons_ne_nil _ _)).trans (by decide), text, htext,
    bs, hbs, ?_⟩
  have hblock : ∃ b ∈ bs, ∃ x ∈ b.steps, x = ⟨some (.entry 0), .request "POST\\,\r\n"
      "http://host/a,b\\"⟩ := by
    cases hbs
    exact ⟨_, List.mem_cons_self, _, List.mem_cons_self, rfl⟩
  obtain ⟨b, hb, x, hx, rfl⟩ := hblock
  exact ⟨b, hb, _, hx, by decide, (hlines b hb _ hx).trans (by decide)⟩

end Script

end CallFlow
