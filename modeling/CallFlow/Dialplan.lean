import CallFlow.Script

/-!
# Dialplans

A script as a dialplan: one extension whose steps are run from top to bottom. Each unit is a block
of steps that is entered at a label, `u0` for the first one. A unit falls through to the block
behind it when that is where the call goes on, and jumps otherwise.

`Dialplan.blocks` makes the blocks as data and `Script.dialplan` writes them as text. Texts of the
script become arguments of steps, where commas and backslashes are escaped and line breaks become
spaces. There is no dialplan if a label has no unit, or if a number is too long to be written.
-/

namespace CallFlow

namespace Dialplan

/-! ## Arguments -/

/-- One character of an argument. -/
def escapeChar : Char → List Char
  | '\\' => ['\\', '\\']
  | ',' => ['\\', ',']
  | '\r' => [' ']
  | '\n' => [' ']
  | c => [c]

/-- A text as an argument of a step. -/
def escape (s : String) : String := String.ofList (s.toList.flatMap escapeChar)

/-- A text that may be absent, which is an empty argument. -/
def escape? (s : Option String) : String := escape (s.getD "")

/-! ## Steps -/

/-- A place to jump to: the entry of a block, or where its question is asked. -/
inductive Label where
  | entry (unit : Nat)
  | ask (unit : Nat)
  deriving DecidableEq, Repr

/-- A label as text. -/
def Label.text : Label → String
  | entry unit => "u" ++ String.ofList (Text.digits unit)
  | ask unit => "u" ++ String.ofList (Text.digits unit) ++ "_ask"

/-- What a step does. -/
inductive Operation where
  | playback (url : String)
  | speak (message : String)
  | noOperation
  | hangup
  | goTo (target : Label)
  /-- Sets the count of tries to zero. -/
  | clearTries
  /-- Adds one to the count of tries. -/
  | countTry
  /-- Jumps while the count of tries is below the limit. -/
  | retry (limit : Int) (target : Label)
  /-- Asks for at most so many keys. -/
  | ask (var : String) (prompt : Option String) (digits : Nat)
  /-- Jumps if a variable has the given value. -/
  | branch (var value : String) (target : Label)
  | request (method endpoint : String)
  | setStatus (status : Option String)
  | record (unit : Nat) (seconds : Int)
  | dial (destination : String)
  | queue (name : String)
  | voicemail (mailbox : String)
  deriving DecidableEq, Repr

/-- How long a caller has for an answer, in seconds. -/
def digitTimeout : Nat := 5

/-- An operation as text. -/
def Operation.text : Operation → String
  | playback url => "Playback(" ++ escape url ++ ")"
  | speak message => "Festival(" ++ escape message ++ ")"
  | noOperation => "NoOp()"
  | hangup => "Hangup()"
  | goTo target => "Goto(" ++ target.text ++ ")"
  | clearTries => "Set(TRIES=0)"
  | countTry => "Set(TRIES=$[$\x7bTRIES\x7d + 1])"
  | retry limit target =>
    "GotoIf($[$\x7bTRIES\x7d < " ++ Text.ofInt limit ++ "]?" ++ target.text ++ ")"
  | ask var prompt digits =>
    "Read(" ++ var ++ "," ++ escape? prompt ++ "," ++ Text.ofInt digits ++ ",,," ++
      Text.ofInt digitTimeout ++ ")"
  | branch var value target =>
    "GotoIf($[\"$\x7b" ++ var ++ "\x7d\" = \"" ++ escape value ++ "\"]?" ++ target.text ++ ")"
  | request method endpoint =>
    "AGI(http-request.agi," ++ escape method ++ "," ++ escape endpoint ++ ")"
  | setStatus status => "Set(API_STATUS=" ++ escape? status ++ ")"
  | record unit seconds =>
    "Record(" ++ (Label.entry unit).text ++ "-%d.wav,3," ++ Text.ofInt seconds ++ ")"
  | dial destination => "Dial(" ++ escape destination ++ ")"
  | queue name => "Queue(" ++ escape name ++ ")"
  | voicemail mailbox => "VoiceMail(" ++ escape mailbox ++ ",u)"

/-- A step of a block, which may have a label. -/
structure Step where
  label : Option Label
  operation : Operation
  deriving DecidableEq, Repr

/-- A step as a line. -/
def Step.line (s : Step) : String :=
  " same => n" ++
    (match s.label with
      | some l => "(" ++ l.text ++ ")"
      | none => "") ++
    "," ++ s.operation.text

/-- The block of a unit: a remark and the steps. -/
structure Block where
  remark : String
  steps : List Step
  deriving DecidableEq, Repr

/-- The lines of a block. -/
def Block.lines (b : Block) : List String := ("; " ++ b.remark) :: b.steps.map Step.line

/-! ## The blocks of a script -/

/-- Why a script has no dialplan. -/
inductive Fault where
  /-- A label has no unit. -/
  | unitMissing (label : String)
  /-- A number has too many digits to be written. -/
  | numberTooLong
  deriving DecidableEq, Repr

/-- A step without a label. -/
def plain (operation : Operation) : Step := ⟨none, operation⟩

/-- A step that writes a number. -/
def numbered (n : Int) (step : Step) : Except Fault Step :=
  if Text.isTooLong n then .error .numberTooLong else .ok step

/-- The entry of the block that a label of the script stands for: the last one with that label. -/
def entryOf (s : Script) (label : String) : Except Fault Label :=
  match ((s.labels.zipIdx).reverse.find? fun p => p.1 = label) with
  | some p => .ok (.entry p.2)
  | none => .error (.unitMissing label)

/-- A text that is not empty. -/
def filled? (s : Option String) : Option String := s.filter (· ≠ "")

/-- The step that says something: a recording if there is one, else a message, else nothing. -/
def speech (url message : Option String) : Operation :=
  match filled? url, filled? message with
  | some url, _ => .playback url
  | none, some message => .speak message
  | none, none => .noOperation

/-- The steps that go on to another unit, given the label of the unit behind this one. -/
def continuation (s : Script) (behind next : Option String) : Except Fault (List Step) :=
  match next with
  | none => .ok [plain .hangup]
  | some label =>
    if behind = some label then .ok []
    else (entryOf s label).map fun l => [plain (.goTo l)]

/-- The steps that branch on the value of a variable. -/
def branchSteps (s : Script) (var : String) (branches : TextTable) : Except Fault (List Step) :=
  branches.mapM fun b => (entryOf s b.2).map fun l => plain (.branch var b.1 l)

/-- The greatest length of an option, at least when there are options; one otherwise. -/
def longestOption (options : TextTable) : Nat :=
  match options with
  | [] => 1
  | options => (options.map fun o => o.1.length).foldl max 0

/-- The number of a label. -/
def Label.unit : Label → Nat
  | entry unit | ask unit => unit

/-- The steps of a unit that offers a choice. -/
def choiceSteps (s : Script) (limit : Int) (entry : Label) (table : BranchTable) (var : String)
    (url message : Option String) : Except Fault (List Step) := do
  let ask := Label.ask entry.unit
  let digits := longestOption table.options
  let question :=
    match filled? url, filled? message with
    | none, some message => [⟨some ask, .speak message⟩, plain (.ask var none digits)]
    | url, _ => [⟨some ask, .ask var url digits⟩]
  let branches ← branchSteps s var table.branches
  let retry ←
    match table.fallback with
    | .reprompt => (numbered limit (plain (.retry limit ask))).map fun r => [plain .countTry, r]
    | .hangup => .ok []
  .ok ([⟨some entry, .clearTries⟩] ++ question ++ branches ++ retry ++ [plain .hangup])

/-- How long a recording lasts at most, in seconds: a minute unless another length is given. -/
def recordSeconds (maxSeconds : Option Int) : Int := (maxSeconds.filter (· ≠ 0)).getD 60

/-- The steps of a unit, given the label of the unit behind it. -/
def steps (s : Script) (limit : Int) (entry : Label) (behind : Option String) :
    Action → Except Fault (List Step)
  | .play next message url => do
    .ok (⟨some entry, speech url message⟩ :: (← continuation s behind next))
  | .collectDigit table message url => choiceSteps s limit entry table "DIGIT" url message
  | .language table summary => choiceSteps s limit entry table "LANGUAGE_CHOICE" none summary
  | .apiCall next endpoint method mock _ branches => do
    let call :=
      match filled? endpoint with
      | some endpoint => Operation.request ((filled? method).getD "GET") endpoint
      | none => .setStatus mock
    let branches ← branchSteps s "API_STATUS" branches
    .ok (⟨some entry, call⟩ :: (branches ++ (← continuation s behind next)))
  | .record next maxSeconds _ => do
    let seconds := recordSeconds maxSeconds
    let record ← numbered seconds ⟨some entry, .record entry.unit seconds⟩
    .ok (record :: (← continuation s behind next))
  | .menu next summary _ _ => do
    .ok (⟨some entry, speech none summary⟩ :: (← continuation s behind next))
  | .transfer destination _ => .ok [⟨some entry, .dial destination⟩, plain .hangup]
  | .queue name _ => .ok [⟨some entry, .queue name⟩, plain .hangup]
  | .voicemail mailbox _ => .ok [⟨some entry, .voicemail mailbox⟩, plain .hangup]
  | .hangup => .ok [⟨some entry, .hangup⟩]

/-- The block of a unit, given the units behind it. -/
def block (s : Script) (limit : Int) (u : ScriptUnit) (rest : List ScriptUnit) :
    Except Fault Block := do
  let entry ← entryOf s u.label
  let steps ← steps s limit entry (rest.head?.map ScriptUnit.label) u.action
  .ok ⟨u.name ++ " (" ++ u.action.kindName ++ ")", steps⟩

/-- The blocks of some units of a script. -/
def blocks (s : Script) (limit : Int) : List ScriptUnit → Except Fault (List Block)
  | [] => .ok []
  | u :: rest => do
    let b ← block s limit u rest
    let bs ← blocks s limit rest
    .ok (b :: bs)

/-- The lines in front of the blocks. -/
def header (s : Script) (context : String) : List String :=
  ["; AGI Script",
    "; Units: " ++ Text.ofInt s.units.length ++ ", Start: " ++ s.start,
    "[" ++ context ++ "]",
    "exten => s,1,Answer()"]

end Dialplan

/-- The dialplan of a script in a context. -/
def Script.dialplan (s : Script) (context : String) (limit : Int) :
    Except Dialplan.Fault String := do
  let blocks ← Dialplan.blocks s limit s.units
  .ok ("\n".intercalate (Dialplan.header s context ++ blocks.flatMap Dialplan.Block.lines) ++ "\n")

end CallFlow
