import CallFlow.Block.Kind
import CallFlow.Fitting

/-!
# Block configurations

The settings of a block. Each kind of block has its own record of fields; a text field is unset or
holds a text that is not blank. `Config.get?` looks at all records alike, as settings under field
names, and `Config.ofSettings` builds a record from such settings.

A configuration is read from the entries of a mapping (`Config.read`). Fields go by the names of
documents (`audioUrl`) or by their own names (`audio_url`); entries of no field are passed over,
and the issues of all fields are found. Written back (`Config.toEntries`), a configuration has the
names of documents and leaves out what is unset.
-/

namespace CallFlow

/-! ## Fields -/

/-- The fields that block configurations are made of. -/
inductive Field where
  | message
  | audioUrl
  | summary
  | options
  | destination
  | conditions
  | apiMock
  | endpoint
  | method
  | maxSeconds
  deriving DecidableEq, Repr

namespace Field

/-- All fields. -/
def all : List Field :=
  [message, audioUrl, summary, options, destination, conditions, apiMock, endpoint, method,
    maxSeconds]

/-- The name of a field. -/
def name : Field → String
  | message => "message"
  | audioUrl => "audio_url"
  | summary => "summary"
  | options => "options"
  | destination => "destination"
  | conditions => "conditions"
  | apiMock => "api_mock"
  | endpoint => "endpoint"
  | method => "method"
  | maxSeconds => "max_seconds"

/-- The name of a field in documents. -/
def documentName : Field → String
  | audioUrl => "audioUrl"
  | apiMock => "apiMock"
  | maxSeconds => "maxSeconds"
  | f => f.name

/-- Fields have different names. -/
theorem name_injective {a b : Field} (h : a.name = b.name) : a = b := by
  revert h; cases a <;> cases b <;> decide

/-- The names that documents use for the fields are different too. -/
theorem documentName_injective {a b : Field} (h : a.documentName = b.documentName) : a = b := by
  revert h; cases a <;> cases b <;> decide

end Field

namespace BlockKind

/-- The fields of a kind of block, in the order of its record. -/
def fields : BlockKind → List Field
  | prompt => [.message, .audioUrl, .summary]
  | key => [.options, .message, .audioUrl, .summary]
  | transfer => [.destination, .conditions, .summary]
  | hangup => []
  | api => [.apiMock, .endpoint, .method, .conditions, .summary]
  | record => [.summary, .maxSeconds]
  | language => [.options, .summary]
  | menu | queue | voicemail => [.summary, .destination, .conditions]

/-- The groups of fields of which at least one must be set before a block can be used. -/
def required : BlockKind → List (List Field)
  | prompt => [[.message, .audioUrl]]
  | key | language => [[.options]]
  | transfer => [[.destination]]
  | api => [[.apiMock, .endpoint]]
  | menu | queue | voicemail => [[.summary, .destination]]
  | hangup | record => []

/-- The field of this kind that an entry with the given document name sets, where that name is
not the name of the field itself. -/
def aliased? (kind : BlockKind) (key : String) : Option Field :=
  kind.fields.find? fun f => f.documentName = key && f.documentName ≠ f.name

end BlockKind

/-! ## Records -/

/-- What a prompt plays. -/
structure PromptConfig where
  message : Option String
  audioUrl : Option String
  summary : Option String
  deriving DecidableEq, Repr

/-- What a key block asks, and its options by key. -/
structure KeyConfig where
  options : TextTable
  message : Option String
  audioUrl : Option String
  summary : Option String
  deriving DecidableEq, Repr

/-- Where a call is handed over to. -/
structure TransferConfig where
  destination : Option String
  conditions : Option String
  summary : Option String
  deriving DecidableEq, Repr

/-- Which service is asked, and the answer that stands in for it. -/
structure ApiConfig where
  apiMock : Option String
  endpoint : Option String
  method : Option String
  conditions : Option String
  summary : Option String
  deriving DecidableEq, Repr

/-- How long a caller is recorded. -/
structure RecordConfig where
  summary : Option String
  maxSeconds : Option Int
  deriving DecidableEq, Repr

/-- The languages to choose from. -/
structure LanguageConfig where
  options : TextTable
  summary : Option String
  deriving DecidableEq, Repr

/-- Where a menu, queue or mailbox is. -/
structure RoutingConfig where
  summary : Option String
  destination : Option String
  conditions : Option String
  deriving DecidableEq, Repr

/-- The configuration of a block of one of the known kinds. -/
inductive Config where
  | prompt (c : PromptConfig)
  | key (c : KeyConfig)
  | transfer (c : TransferConfig)
  | hangup
  | api (c : ApiConfig)
  | record (c : RecordConfig)
  | language (c : LanguageConfig)
  | menu (c : RoutingConfig)
  | queue (c : RoutingConfig)
  | voicemail (c : RoutingConfig)
  deriving DecidableEq, Repr

/-- The value that a field is set to. -/
inductive Setting where
  | text (s : String)
  | table (t : TextTable)
  | number (n : Int)
  deriving DecidableEq, Repr

namespace Setting

/-- A text as a setting. -/
def text? : Option Setting → Option String
  | some (.text s) => some s
  | _ => none

/-- A table as a setting; without one it is empty. -/
def table? : Option Setting → TextTable
  | some (.table t) => t
  | _ => []

/-- A number as a setting. -/
def number? : Option Setting → Option Int
  | some (.number n) => some n
  | _ => none

/-- A text that may be absent is read back as it was. -/
@[simp] theorem text?_map (o : Option String) : text? (o.map .text) = o := by cases o <;> rfl

/-- A number that may be absent is read back as it was. -/
@[simp] theorem number?_map (o : Option Int) : number? (o.map .number) = o := by cases o <;> rfl

/-- A table is read back as it was. -/
@[simp] theorem table?_some (t : TextTable) : table? (some (.table t)) = t := rfl

/-- The setting as a document value. -/
def toValue : Setting → Value
  | .text s => .text s
  | .table t => t.toValue
  | .number n => .int n

/-- A setting with content: a text or a table that is not empty, or any number. -/
def isFilled : Setting → Bool
  | .text s => s ≠ ""
  | .table t => !t.isEmpty
  | .number _ => true

end Setting

namespace Config

/-- The kind of block that a configuration belongs to. -/
def kind : Config → BlockKind
  | prompt _ => .prompt
  | key _ => .key
  | transfer _ => .transfer
  | hangup => .hangup
  | api _ => .api
  | record _ => .record
  | language _ => .language
  | menu _ => .menu
  | queue _ => .queue
  | voicemail _ => .voicemail

/-- What a field is set to. A table of options is always set, if only to the empty table. -/
def get? : Config → Field → Option Setting
  | prompt c, .message => c.message.map .text
  | prompt c, .audioUrl => c.audioUrl.map .text
  | prompt c, .summary => c.summary.map .text
  | key c, .options => some (.table c.options)
  | key c, .message => c.message.map .text
  | key c, .audioUrl => c.audioUrl.map .text
  | key c, .summary => c.summary.map .text
  | transfer c, .destination => c.destination.map .text
  | transfer c, .conditions => c.conditions.map .text
  | transfer c, .summary => c.summary.map .text
  | api c, .apiMock => c.apiMock.map .text
  | api c, .endpoint => c.endpoint.map .text
  | api c, .method => c.method.map .text
  | api c, .conditions => c.conditions.map .text
  | api c, .summary => c.summary.map .text
  | record c, .summary => c.summary.map .text
  | record c, .maxSeconds => c.maxSeconds.map .number
  | language c, .options => some (.table c.options)
  | language c, .summary => c.summary.map .text
  | menu c, .summary | queue c, .summary | voicemail c, .summary => c.summary.map .text
  | menu c, .destination | queue c, .destination | voicemail c, .destination =>
    c.destination.map .text
  | menu c, .conditions | queue c, .conditions | voicemail c, .conditions =>
    c.conditions.map .text
  | _, _ => none

/-- The configuration of a kind with the given settings. -/
def ofSettings (kind : BlockKind) (s : Field → Option Setting) : Config :=
  let text f := Setting.text? (s f)
  let routing : RoutingConfig := ⟨text .summary, text .destination, text .conditions⟩
  match kind with
  | .prompt => prompt ⟨text .message, text .audioUrl, text .summary⟩
  | .key => key ⟨Setting.table? (s .options), text .message, text .audioUrl, text .summary⟩
  | .transfer => transfer ⟨text .destination, text .conditions, text .summary⟩
  | .hangup => hangup
  | .api =>
    api ⟨text .apiMock, text .endpoint, text .method, text .conditions, text .summary⟩
  | .record => record ⟨text .summary, Setting.number? (s .maxSeconds)⟩
  | .language => language ⟨Setting.table? (s .options), text .summary⟩
  | .menu => menu routing
  | .queue => queue routing
  | .voicemail => voicemail routing

/-- A configuration that is put together is of the kind that was asked for. -/
@[simp] theorem kind_ofSettings (k : BlockKind) (s : Field → Option Setting) :
    (ofSettings k s).kind = k := by cases k <;> rfl

/-- Nothing is lost in the settings of a configuration. -/
@[simp] theorem ofSettings_get? (c : Config) : ofSettings c.kind c.get? = c := by
  cases c <;> simp [ofSettings, kind, get?]

/-- The groups of required fields without a member that is filled in, by the names of documents. -/
def missing (c : Config) : List String :=
  (c.kind.required.filter fun group => !group.any fun f => (c.get? f).any Setting.isFilled).map
    fun group => " or ".intercalate (group.map Field.documentName)

/-- The options of a branching block. -/
def options : Config → TextTable
  | key c => c.options
  | language c => c.options
  | _ => []

/-! ## Writing -/

/-- The settings in the order of the record, under the names that are wanted. -/
def entriesBy (name : Field → String) (c : Config) : Entries :=
  c.kind.fields.filterMap fun f => (c.get? f).map fun s => (.text (name f), s.toValue)

/-- The configuration as it stands in a document. -/
def toEntries (c : Config) : Entries := c.entriesBy Field.documentName

/-- All fields under their own names, the unset ones with the absent value. -/
def toFields (c : Config) : Entries :=
  c.kind.fields.map fun f => (.text f.name, ((c.get? f).map Setting.toValue).getD .null)

/-! ## Reading -/

/-- The key of an entry by the name of the field that it sets. -/
def fieldKey (kind : BlockKind) : Scalar → Scalar
  | .text s => .text (((kind.aliased? s).map Field.name).getD s)
  | k => k

/-- The entries with field names for the names of documents. Where both are given, the later
entry wins. -/
def normalizeKeys (kind : BlockKind) (entries : Entries) : Entries :=
  Entries.ofPairs (entries.map fun e => (fieldKey kind e.1, e.2))

/-- The table of options in a mapping. Keys and labels become texts, and an absent label the
empty one. Whole numbers among them are taken to be short enough to be written. -/
def optionTable (entries : Entries) : TextTable :=
  TextTable.ofPairs (entries.map fun e =>
    (e.1.display, match e.2 with | .null => "" | label => label.display))

/-- Reads the value of one field; a field without an entry is unset. -/
def readField (f : Field) (given : Option Value) : Except IssueKind (Option Setting) :=
  match f, given.map Fitting.unsetBlank with
  | _, none => .ok none
  | .options, some (.mapping entries) => .ok (some (.table (optionTable entries)))
  | .options, some _ => .error .notMapping
  | .maxSeconds, some v =>
    match Fitting.optionalWhole v with
    | .ok (some n) => if 0 < n then .ok (some (.number n)) else .error .notPositive
    | .ok none => .ok none
    | .error e => .error e
  | _, some v => (Fitting.optionalText v).map (·.map .text)

/-- Reads the value of one field from entries under field names. -/
def readEntry (entries : Entries) (f : Field) : Except IssueKind (Option Setting) :=
  readField f (entries.find? (.text f.name))

/-- The issue of one field. -/
def issueOf (entries : Entries) (f : Field) : Option Issue :=
  match readEntry entries f with
  | .ok _ => none
  | .error kind => some ⟨[.name f.name], kind⟩

/-- The setting of one field, where it has no issue. -/
def settingOf (entries : Entries) (f : Field) : Option Setting :=
  (readEntry entries f).toOption.join

/-- Reads a configuration from entries under field names. -/
def readNormalized (kind : BlockKind) (entries : Entries) : Except (List Issue) Config :=
  match kind.fields.filterMap (issueOf entries) with
  | [] => .ok (ofSettings kind (settingOf entries))
  | issues => .error issues

/-- Reads a configuration from the entries of a mapping. -/
def read (kind : BlockKind) (entries : Entries) : Except (List Issue) Config :=
  readNormalized kind (normalizeKeys kind entries)

/-- Reads the configuration with some entries replaced. -/
def update (c : Config) (partialEntries : Entries) : Except (List Issue) Config :=
  readNormalized c.kind
    ((c.entriesBy Field.name).setAll (normalizeKeys c.kind partialEntries))

/-- Two configurations are equal if they have the same settings; the order of options does not
matter. -/
def same (a b : Config) : Bool :=
  a.kind = b.kind && a.kind.fields.all fun f =>
    match a.get? f, b.get? f with
    | some (.table s), some (.table t) => s.same t
    | s, t => s = t

end Config

end CallFlow
