import CallFlow.Script
import CallFlow.Fitting
import CallFlow.Json.Reader

/-!
# Reading scripts

A script is read from a document value. The kind of a unit decides on its fields; fields that it
does not have are passed over, and those that it need not have may be absent. All issues are found.
-/

namespace CallFlow.Script

/-- Gives a part to what is built from parts, or adds the issues of the part to those before. -/
def give {α β : Type} (part : Except (List Issue) α) (build : Except (List Issue) (α → β)) :
    Except (List Issue) β :=
  match build, part with
  | .ok f, .ok a => .ok (f a)
  | .ok _, .error e => .error e
  | .error e, .ok _ => .error e
  | .error e, .error e' => .error (e ++ e')

/-- An issue with a field. -/
def fieldIssue (name : String) (kind : IssueKind) : List Issue := [⟨[.name name], kind⟩]

/-- Reads a field that must be there. -/
def required {α : Type} (name : String) (fit : Value → Except IssueKind α) (entries : Entries) :
    Except (List Issue) α :=
  match entries.find? (.text name) with
  | none => .error (fieldIssue name .missing)
  | some v => (fit v).mapError (fieldIssue name)

/-- Reads a field that is unset if it is not there. -/
def optional {α : Type} (name : String) (fit : Value → Except IssueKind (Option α))
    (entries : Entries) : Except (List Issue) (Option α) :=
  match entries.find? (.text name) with
  | none => .ok none
  | some v => (fit v).mapError (fieldIssue name)

/-- The issues of an entry of a table of texts. -/
def tableEntryIssues (name : String) (e : Scalar × Value) : List Issue :=
  (match e.1 with
    | .text _ => []
    | k => [⟨[.name name, Step.ofKey k, .name "[key]"], .notText⟩]) ++
  (match e.2 with
    | .text _ => []
    | _ => [⟨[.name name, Step.ofKey e.1], .notText⟩])

/-- A table of texts, whose entries have no issues. -/
def tableOf (entries : Entries) : TextTable :=
  entries.filterMap fun e =>
    match e with
    | (.text k, .text v) => some (k, v)
    | _ => none

/-- Reads a table of texts; it is empty if it is not there. -/
def table (name : String) (entries : Entries) : Except (List Issue) TextTable :=
  match entries.find? (.text name) with
  | none => .ok []
  | some (.mapping given) =>
    match given.flatMap (tableEntryIssues name) with
    | [] => .ok (tableOf given)
    | issues => .error issues
  | some _ => .error (fieldIssue name .notMapping)

/-- A value as a policy. -/
def fitPolicy : Value → Except IssueKind Policy
  | .text s =>
    match Policy.ofName? s with
    | some p => .ok p
    | none => .error .notChoice
  | _ => .error .notChoice

/-- Reads a table of branches with its options and its fallback. -/
def branchTable (entries : Entries) : Except (List Issue) BranchTable :=
  give (required "fallback" fitPolicy entries)
    (give (table "branches" entries) (give (table "options" entries) (.ok BranchTable.mk)))

/-- Reads a text field that may be unset. -/
def text? (name : String) (entries : Entries) : Except (List Issue) (Option String) :=
  optional name Fitting.optionalText entries

/-- Reads a text field that must be there. -/
def text (name : String) (entries : Entries) : Except (List Issue) String :=
  required name Fitting.text entries

/-- Reads what a unit of the given kind does, if there is such a kind. -/
def action? (kind : String) (e : Entries) : Option (Except (List Issue) Action) :=
  match kind with
  | "play" =>
    some (give (text? "audio_url" e) (give (text? "message" e) (give (text? "next" e)
      (.ok Action.play))))
  | "collect_digit" =>
    some (give (text? "audio_url" e) (give (text? "message" e) (give (branchTable e)
      (.ok Action.collectDigit))))
  | "language" =>
    some (give (text? "summary" e) (give (branchTable e) (.ok Action.language)))
  | "api_call" =>
    some (give (table "branches" e) (give (text? "conditions" e) (give (text? "mock_response" e)
      (give (text? "method" e) (give (text? "endpoint" e) (give (text? "next" e)
        (.ok Action.apiCall)))))))
  | "record" =>
    some (give (text? "summary" e) (give (optional "max_seconds" Fitting.optionalWhole e)
      (give (text? "next" e) (.ok Action.record))))
  | "menu" =>
    some (give (text? "conditions" e) (give (text? "destination" e) (give (text? "summary" e)
      (give (text? "next" e) (.ok Action.menu)))))
  | "transfer" =>
    some (give (text? "conditions" e) (give (text "destination" e) (.ok Action.transfer)))
  | "hangup" => some (.ok .hangup)
  | "queue" => some (give (text? "conditions" e) (give (text "queue" e) (.ok Action.queue)))
  | "voicemail" =>
    some (give (text? "conditions" e) (give (text "mailbox" e) (.ok Action.voicemail)))
  | _ => none

/-- Reads a unit; its kind decides which fields it has. -/
def readUnit : Value → Except (List Issue) ScriptUnit
  | .mapping e =>
    match Entries.find? e (.text "kind") with
    | none => .error [⟨[], .kindMissing⟩]
    | some (.text kind) =>
      match action? kind e with
      | none => .error [⟨[], .kindUnknown⟩]
      | some action =>
        (give action (give (text "name" e) (give (text "label" e)
          (.ok ScriptUnit.mk)))).mapError (·.map (Issue.within [.name kind]))
    | some _ => .error [⟨[], .kindUnknown⟩]
  | _ => .error [⟨[], .notUnit⟩]

/-- Reads the units of a list, from the given index on. -/
def readUnits : Nat → List Value → Except (List Issue) (List ScriptUnit)
  | _, [] => .ok []
  | index, v :: rest =>
    give (readUnits (index + 1) rest)
      (((readUnit v).mapError (·.map (Issue.within [.name "units", .index index]))).map List.cons)

/-- Reads the list of units. -/
def readUnitList (entries : Entries) : Except (List Issue) (List ScriptUnit) :=
  match entries.find? (.text "units") with
  | none => .error (fieldIssue "units" .missing)
  | some (.list items) => readUnits 0 items
  | some _ => .error (fieldIssue "units" .notList)

/-- Reads a script. -/
def ofValue : Value → Except (List Issue) Script
  | .mapping e => give (readUnitList e) (give (text "start" e) (.ok Script.mk))
  | _ => .error [⟨[], .notScript⟩]

/-- Why a text is not a script. -/
inductive TextFault where
  | text (fault : Json.Fault)
  | unfit (issues : List Issue)
  deriving DecidableEq, Repr

/-- Reads the script that a JSON text holds. -/
def read (s : String) : Except TextFault Script := do
  let v ← (Json.read s).mapError .text
  (ofValue v).mapError .unfit

/-- Tables are equal whatever the order of their entries. -/
def sameTable (a b : BranchTable) : Bool :=
  a.options.same b.options && a.branches.same b.branches && a.fallback = b.fallback

/-- Actions are equal if all their fields are. -/
def sameAction : Action → Action → Bool
  | .collectDigit s m a, .collectDigit t n b => sameTable s t && m = n && a = b
  | .language s m, .language t n => sameTable s t && m = n
  | .apiCall n e m r c s, .apiCall n' e' m' r' c' t =>
    n = n' && e = e' && m = m' && r = r' && c = c' && s.same t
  | a, b => a = b

/-- Scripts are equal if they have the same start and equal units in the same order. -/
def same (a b : Script) : Bool :=
  a.start = b.start && a.units.length = b.units.length &&
    (a.units.zip b.units).all fun p =>
      p.1.label = p.2.label && p.1.name = p.2.name && sameAction p.1.action p.2.action

end CallFlow.Script
