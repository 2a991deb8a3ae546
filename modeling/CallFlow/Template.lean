import CallFlow.Flow

/-!
# Templates

Call flows to start from: a menu of options, a choice of language, and an answer outside office
hours. A template is asked for by its name, in letters of either case and with dashes or
underscores (`Template.ofName?`).
-/

namespace CallFlow

/-- The bundled call flows. -/
inductive Template where
  | afterHours
  | languageSelect
  | mainMenu
  deriving DecidableEq, Repr

/-- No template has the name that was asked for. -/
structure TemplateMissing where
  asked : String
  deriving DecidableEq, Repr

namespace Template

/-- All templates, in the order of their names. -/
def all : List Template := [afterHours, languageSelect, mainMenu]

/-- The name of a template. -/
def name : Template → String
  | afterHours => "after_hours"
  | languageSelect => "language_select"
  | mainMenu => "main_menu"

/-- The name that is meant by the given one. -/
def normalize (s : String) : String :=
  String.ofList (s.toList.map fun c => if c = '-' then '_' else c.toLower)

/-- The template of a name. -/
def ofName? (s : String) : Option Template := all.find? fun t => t.name = normalize s

/-! ## The flows -/

/-- A node at a place of the canvas. -/
def placed (id name : String) (config : Config) (x y : Int) : Node :=
  ⟨id, name, .known config, [(.text "x", .int x), (.text "y", .int y)]⟩

/-- A block that plays a message. -/
def saying (message : String) : Config := .prompt ⟨some message, none, none⟩

/-- A block that hands the call over. -/
def transferTo (destination : String) : Config := .transfer ⟨some destination, none, none⟩

/-- The place that a queue or mailbox block leads to. -/
def leadingTo (destination : String) (summary : Option String) : RoutingConfig :=
  ⟨summary, some destination, none⟩

/-- An edge for any option of its source. -/
def always (source target : String) : Edge :=
  ⟨Edge.derivedId source target none, source, target, none⟩

/-- An edge for one option of its source. -/
def onOption (source handle target : String) : Edge :=
  ⟨Edge.derivedId source target (some handle), source, target, some handle⟩

/-- A message outside office hours, and a recording or a mailbox behind it. -/
def afterHoursFlow : Flow where
  nodes := [
    placed "closed" "Office closed" (saying "Our office is currently closed.") 200 0,
    placed "on-call" "On-call lookup"
      (.api ⟨some "200", some "https://example.com/api/on-call", some "GET", none, none⟩) 200 150,
    placed "record-reason" "Record reason"
      (.record ⟨some "Ask the caller to describe the emergency.", some 60⟩) 0 300,
    placed "on-call-engineer" "On-call engineer" (transferTo "SIP/on-call") 0 450,
    placed "leave-message" "After-hours mailbox" (.voicemail (leadingTo "200@default" none)) 400 300]
  edges := [
    always "closed" "on-call",
    onOption "on-call" "200" "record-reason",
    onOption "on-call" "404" "leave-message",
    always "record-reason" "on-call-engineer"]
  start := none
  distinct := by decide

/-- A choice between two languages, with a greeting and a queue for each. -/
def languageSelectFlow : Flow where
  nodes := [
    placed "choose-language" "Choose language"
      (.language ⟨[("en", "English"), ("es", "Spanish")], some "Say English or Español."⟩) 200 0,
    placed "greeting-en" "Greeting (en)"
      (saying "Please hold while we connect you to an agent.") 0 150,
    placed "greeting-es" "Greeting (es)"
      (saying "Por favor espere, le comunicamos con un agente.") 400 150,
    placed "queue-en" "English agents" (.queue (leadingTo "agents-en" none)) 0 300,
    placed "queue-es" "Spanish agents" (.queue (leadingTo "agents-es" none)) 400 300]
  edges := [
    onOption "choose-language" "en" "greeting-en",
    onOption "choose-language" "es" "greeting-es",
    always "greeting-en" "queue-en",
    always "greeting-es" "queue-es"]
  start := none
  distinct := by decide

/-- A welcome and a menu of four options. -/
def mainMenuFlow : Flow where
  nodes := [
    placed "welcome" "Welcome"
      (saying ("Thank you for calling. " ++
        "Please listen carefully as our options have changed.")) 250 0,
    placed "main-menu" "Main menu"
      (.key ⟨[("1", "Sales"), ("2", "Support"), ("3", "Voicemail"), ("0", "Operator")],
        some ("For sales press 1. For support press 2. " ++
          "To leave a message press 3. For the operator press 0."), none, none⟩) 250 150,
    placed "sales" "Sales" (transferTo "SIP/sales") 0 300,
    placed "support" "Support queue" (.queue (leadingTo "support" (some "First-line support"))) 200 300,
    placed "voicemail" "General mailbox" (.voicemail (leadingTo "100@default" none)) 400 300,
    placed "operator" "Operator" (transferTo "SIP/operator") 600 300]
  edges := [
    always "welcome" "main-menu",
    onOption "main-menu" "1" "sales",
    onOption "main-menu" "2" "support",
    onOption "main-menu" "3" "voicemail",
    onOption "main-menu" "0" "operator"]
  start := none
  distinct := by decide

/-- The flow of a template. -/
def flow : Template → Flow
  | afterHours => afterHoursFlow
  | languageSelect => languageSelectFlow
  | mainMenu => mainMenuFlow

/-- A template is found under its name. -/
theorem ofName?_name (t : Template) : ofName? t.name = some t := by cases t <;> decide +kernel

end Template

/-- What is wrong, in words. -/
def TemplateMissing.message (e : TemplateMissing) : String :=
  "Unknown template '" ++ e.asked ++ "'. Use one of: " ++
    ", ".intercalate (Template.all.map Template.name)

/-- The flow of the template with the given name. -/
def Flow.ofTemplate (name : String) : Except TemplateMissing Flow :=
  match Template.ofName? name with
  | some t => .ok t.flow
  | none => .error ⟨name⟩

end CallFlow
