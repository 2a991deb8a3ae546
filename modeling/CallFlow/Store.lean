import CallFlow.Document
import CallFlow.FileName
import CallFlow.Text.Order

/-!
# Stored flows

A directory of flows, one file for each. A file holds an envelope: the flow and the number of its
revision. Whoever saves a flow names the revision it was loaded at, and the save is refused if the
stored flow is at another one, so that nobody's changes are lost.

A flow is written to a file beside its own first, which then takes the place of its own.
-/

namespace CallFlow

/-- The files of a directory by name. -/
abbrev Directory := TextTable

/-- A directory of flows. -/
structure Store where
  /-- The path of the directory, as it stands in messages. -/
  root : String
  files : Directory
  deriving Repr

/-- Why an operation on stored flows fails. -/
inductive StoreFault where
  | invalidName (name : String)
  | missing (name : String)
  | notJson (path : String)
  | numberTooLong (path : String)
  /-- The envelope has half of a pair of units, which is no character. -/
  | halfPair (path : String)
  | notEnvelope (path : String)
  | document (fault : DocumentFault)
  | stale (name : String) (expected : Value) (actual : Option Scalar)

/-- Why an operation fails, in words, for the faults that have some. -/
def StoreFault.message? : StoreFault → Option String
  | invalidName name => some ("Invalid flow name '" ++ name ++ "'.")
  | notJson path => some (path ++ " is not valid JSON")
  | notEnvelope path => some (path ++ " is not a flow envelope.")
  | document fault => some fault.message
  | stale name expected actual =>
    some ("Flow '" ++ name ++ "' is at revision " ++
      ((actual.map Scalar.display).getD "None") ++ ", not " ++ expected.display ++
      "; reload and reapply your changes.")
  | missing _ | numberTooLong _ | halfPair _ => none

namespace Store

/-! ## Names -/

/-- The letters and digits a name may start with. -/
def isInitial (c : Char) : Bool :=
  ('a' ≤ c && c ≤ 'z') || ('A' ≤ c && c ≤ 'Z') || Text.isDigit c

/-- The characters a name may go on with. -/
def isInner (c : Char) : Bool := isInitial c || c = '_' || c = '.' || c = '-'

/-- A name is a letter or digit with more of them, points, dashes and underscores behind it. One
line break may end it. -/
def isName (name : String) : Bool :=
  match name.toList with
  | [] => false
  | c :: rest =>
    isInitial c && (rest.all isInner || (rest.getLast? = some '\n' && rest.dropLast.all isInner))

/-- The file of a flow. -/
def fileOf (name : String) : String := name ++ ".json"

/-- The file that a flow is first written to. -/
def draftOf (name : String) : String := fileOf name ++ ".tmp"

/-- The path of a file, as it stands in messages. -/
def pathOf (s : Store) (name : String) : String := s.root ++ "/" ++ fileOf name

/-! ## Files -/

/-- A directory with a file written. -/
def writeFile (d : Directory) (file text : String) : Directory :=
  Association.insert (· = ·) file text d

/-- A directory without a file. -/
def removeFile (d : Directory) (file : String) : Directory := d.filter (·.1 ≠ file)

/-! ## Envelopes -/

/-- A flow with the number of its revision, which is kept as it stands in the file. -/
structure Envelope where
  revision : Scalar
  flow : Value

/-- The number of a revision; truth values count as one and zero. -/
def revisionNumber? : Scalar → Option Int
  | .bool b => some (if b then 1 else 0)
  | .int n => some n
  | _ => none

/-- Reads the text of an envelope. -/
def readEnvelope (path text : String) : Except StoreFault Envelope :=
  match Json.read text with
  | .error .malformed => .error (.notJson path)
  | .error .numberTooLong => .error (.numberTooLong path)
  | .error .halfPair => .error (.halfPair path)
  | .ok (.mapping entries) =>
    match Entries.field entries "revision" with
    | .scalar r =>
      if (revisionNumber? r).isSome then .ok ⟨r, Entries.field entries "flow"⟩
      else .error (.notEnvelope path)
    | _ => .error (.notEnvelope path)
  | .ok _ => .error (.notEnvelope path)

/-- A flow and the number of its revision as a document value. -/
def ofEnvelope (revision : Int) (f : Flow) : Value :=
  .mapping [(.text "revision", .int revision), (.text "flow", Document.ofFlow f)]

/-- The text of an envelope. -/
def envelopeText (revision : Int) (f : Flow) : String :=
  Json.write (.document (some 2)) (ofEnvelope revision f)

/-- The text of an envelope, if all its numbers can be written. -/
def writeEnvelope (path : String) (revision : Int) (f : Flow) : Except StoreFault String :=
  if Json.canWrite (ofEnvelope revision f) then .ok (envelopeText revision f)
  else .error (.numberTooLong path)

/-- The envelope of a flow, if the flow is there. -/
def envelope? (s : Store) (name : String) : Except StoreFault (Option Envelope) :=
  if isName name then
    match s.files.find? (fileOf name) with
    | none => .ok none
    | some text => (readEnvelope (s.pathOf name) text).map some
  else .error (.invalidName name)

/-! ## Operations -/

/-- The revision of a flow, if the flow is there. -/
def revision? (s : Store) (name : String) : Except StoreFault (Option Scalar) :=
  (s.envelope? name).map (·.map Envelope.revision)

/-- A flow and its revision. -/
def load (s : Store) (name : String) : Except StoreFault (Flow × Scalar) := do
  match ← s.envelope? name with
  | none => .error (.missing name)
  | some e =>
    let f ← (Document.toFlow e.flow).mapError .document
    .ok (f, e.revision)

/-- Whether a revision is the one that is expected; the absent value expects no flow. -/
def isExpected (actual : Option Scalar) (expected : Value) : Bool :=
  (Value.scalar (actual.getD .null)).same expected

/-- Saves a flow that was loaded at the expected revision, or that was not there. -/
def save (s : Store) (name : String) (f : Flow) (expected : Value) :
    Except StoreFault (Store × Int) := do
  let current ← s.revision? name
  if isExpected current expected then
    let next := (current.bind revisionNumber?).getD 0 + 1
    let drafted := writeFile s.files (draftOf name) (← writeEnvelope (s.pathOf name) next f)
    let text := (TextTable.find? drafted (draftOf name)).getD ""
    let moved := writeFile (removeFile drafted (draftOf name)) (fileOf name) text
    .ok ({ s with files := moved }, next)
  else .error (.stale name expected current)

/-- Deletes a flow, if it is at the expected revision or none is expected. -/
def delete (s : Store) (name : String) (expected : Value) : Except StoreFault Store := do
  match ← s.revision? name with
  | none => .ok s
  | some current =>
    match expected with
    | .null => .ok { s with files := removeFile s.files (fileOf name) }
    | expected =>
      if isExpected (some current) expected then
        .ok { s with files := removeFile s.files (fileOf name) }
      else .error (.stale name expected (some current))

/-- Whether a file holds a flow by its name. -/
def isFlowFile (file : String) : Bool := ".json".toList.isSuffixOf file.toList

/-- The names of the flows, sorted. -/
def list (s : Store) : List String :=
  Text.sorted ((s.files.keys.filter isFlowFile).map FileName.stem)

end Store

end CallFlow
