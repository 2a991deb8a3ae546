import CallFlow.Value
import CallFlow.Json.Writer

/-!
# Call scripts

What a flow is compiled to: a list of units, each with a label, and the label of the unit where a
call begins. A unit does one thing and says by label where the call goes on: to the one next unit,
through a table of branches that the caller chooses from, or nowhere.
-/

namespace CallFlow

/-- What a unit with a table of branches does with an input that is in none of them. -/
inductive Policy where
  /-- Asks again. -/
  | reprompt
  /-- Ends the call. -/
  | hangup
  deriving DecidableEq, Repr

namespace Policy

/-- The word for a policy. -/
def name : Policy → String
  | reprompt => "reprompt"
  | hangup => "hangup"

/-- The policy with the given word. -/
def ofName? (s : String) : Option Policy := [reprompt, hangup].find? (·.name = s)

end Policy

/-- The choice a caller has: the options on offer, where each connected one leads, and what happens
with any other input. -/
structure BranchTable where
  options : TextTable
  branches : TextTable
  fallback : Policy
  deriving DecidableEq, Repr

/-- What a unit does. -/
inductive Action where
  | play (next message audioUrl : Option String)
  | collectDigit (table : BranchTable) (message audioUrl : Option String)
  | language (table : BranchTable) (summary : Option String)
  | apiCall (next endpoint method mockResponse conditions : Option String) (branches : TextTable)
  | record (next : Option String) (maxSeconds : Option Int) (summary : Option String)
  | menu (next summary destination conditions : Option String)
  | transfer (destination : String) (conditions : Option String)
  | hangup
  | queue (name : String) (conditions : Option String)
  | voicemail (mailbox : String) (conditions : Option String)
  deriving DecidableEq, Repr

namespace Action

/-- The word for what a unit does. -/
def kindName : Action → String
  | play .. => "play"
  | collectDigit .. => "collect_digit"
  | language .. => "language"
  | apiCall .. => "api_call"
  | record .. => "record"
  | menu .. => "menu"
  | transfer .. => "transfer"
  | hangup => "hangup"
  | queue .. => "queue"
  | voicemail .. => "voicemail"

/-- Where the call goes on without a choice. -/
def next? : Action → Option String
  | play next .. | apiCall next .. | record next .. | menu next .. => next
  | _ => none

/-- Where the call goes on by a choice or a response. -/
def branches : Action → TextTable
  | collectDigit table .. | language table _ => table.branches
  | apiCall _ _ _ _ _ branches => branches
  | _ => []

/-- The labels that an action refers to. -/
def targets (a : Action) : List String := a.next?.toList ++ a.branches.map Prod.snd

private def textOr (o : Option String) : Value := (o.map Value.text).getD .null

/-- The fields that stand before the word for the kind. -/
def leadingFields : Action → List (String × Value)
  | play next .. | apiCall next .. | record next .. | menu next .. => [("next", textOr next)]
  | collectDigit table .. | language table _ =>
    [("options", table.options.toValue), ("branches", table.branches.toValue),
      ("fallback", .text table.fallback.name)]
  | transfer .. | hangup | queue .. | voicemail .. => []

/-- The fields that stand behind it. -/
def ownFields : Action → List (String × Value)
  | play _ message audioUrl | collectDigit _ message audioUrl =>
    [("message", textOr message), ("audio_url", textOr audioUrl)]
  | language _ summary => [("summary", textOr summary)]
  | apiCall _ endpoint method mockResponse conditions branches =>
    [("endpoint", textOr endpoint), ("method", textOr method),
      ("mock_response", textOr mockResponse), ("conditions", textOr conditions),
      ("branches", branches.toValue)]
  | record _ maxSeconds summary =>
    [("max_seconds", (maxSeconds.map Value.int).getD .null), ("summary", textOr summary)]
  | menu _ summary destination conditions =>
    [("summary", textOr summary), ("destination", textOr destination),
      ("conditions", textOr conditions)]
  | transfer destination conditions =>
    [("destination", .text destination), ("conditions", textOr conditions)]
  | hangup => []
  | queue name conditions => [("queue", .text name), ("conditions", textOr conditions)]
  | voicemail mailbox conditions =>
    [("mailbox", .text mailbox), ("conditions", textOr conditions)]

end Action

/-- One unit of a script. Its label is the id of the node it was compiled from. -/
structure ScriptUnit where
  label : String
  name : String
  action : Action
  deriving DecidableEq, Repr

/-- All fields of a unit, in order, the unset ones with the absent value. -/
def ScriptUnit.toEntries (u : ScriptUnit) : Entries :=
  Entries.ofFields ([("label", .text u.label), ("name", .text u.name)] ++ u.action.leadingFields ++
    [("kind", .text u.action.kindName)] ++ u.action.ownFields)

/-- A compiled flow. -/
structure Script where
  start : String
  units : List ScriptUnit
  deriving DecidableEq, Repr

namespace Script

/-- The labels of the units, in order. -/
def labels (s : Script) : List String := s.units.map ScriptUnit.label

/-- The first unit with a label. -/
def unit? (s : Script) (label : String) : Option ScriptUnit :=
  s.units.find? (·.label = label)

/-- The unit that a jump to a label comes to: the last one with it. -/
def target? (s : Script) (label : String) : Option ScriptUnit :=
  s.units.reverse.find? (·.label = label)

/-- The script as a document value. -/
def toValue (s : Script) : Value :=
  .mapping [(.text "start", .text s.start),
    (.text "units", .list (s.units.map fun u => .mapping u.toEntries))]

/-- The JSON text of a script. -/
def write (indent : Option Nat) (s : Script) : String := Json.write (.script indent) s.toValue

end Script

end CallFlow
