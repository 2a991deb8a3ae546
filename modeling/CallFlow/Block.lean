import CallFlow.Block.Config
import CallFlow.Value.Pairs

/-!
# Blocks

What a node of a flow does: one of the known kinds of blocks with its configuration, or a block of
a kind that only a newer version knows. The latter keeps the name of its kind and its entries
verbatim, so that nothing is lost when the flow is saved again.
-/

namespace CallFlow

/-- What a node does. -/
inductive Block where
  | known (config : Config)
  /-- A block of an unknown kind, with the name of the kind and the entries of its configuration. -/
  | unknown (declared : String) (entries : Entries)
  deriving Repr

/-- The name that stands for every kind that is not known. -/
def unknownName : String := "unknown"

/-- Why a configuration is refused. -/
inductive ConfigFault where
  /-- It is not a mapping but a value of the named kind. -/
  | notMapping (kind : String)
  /-- Some values do not fit their fields. -/
  | unfit (issues : List Issue)
  deriving DecidableEq, Repr

namespace ConfigFault

/-- Why the configuration of a node is refused, in words. -/
def message (node : Option String) (fault : ConfigFault) : String :=
  let subject := "Invalid config for node '" ++ node.getD "None" ++ "'"
  match fault with
  | notMapping kind => subject ++ ": expected a mapping, got " ++ kind
  | unfit _ => subject

/-- The issues behind a fault, where values do not fit their fields. -/
def issues : ConfigFault → Option (List Issue)
  | notMapping _ => none
  | unfit issues => some issues

end ConfigFault

namespace Block

/-- The known kind of a block. -/
def kind? : Block → Option BlockKind
  | known c => some c.kind
  | unknown _ _ => none

/-- The name of the kind, which is the same for all unknown kinds. -/
def typeName : Block → String
  | known c => c.kind.name
  | unknown _ _ => unknownName

/-- The name of an unknown kind. -/
def declared? : Block → Option String
  | known _ => none
  | unknown declared _ => some declared

/-- The name of the kind as it stands in a document. -/
def documentType : Block → String
  | known c => c.kind.name
  | unknown declared _ => declared

def isKnown (b : Block) : Bool := b.kind?.isSome
def isBranching (b : Block) : Bool := b.kind?.any BlockKind.isBranching
def isTerminal (b : Block) : Bool := b.kind?.any BlockKind.isTerminal

/-- The groups of required fields that are not filled in. An unknown kind requires nothing. -/
def missing : Block → List String
  | known c => c.missing
  | unknown _ _ => []

/-- The configuration as it stands in a document. -/
def toEntries : Block → Entries
  | known c => c.toEntries
  | unknown _ entries => entries

/-- The options of a block by key. An unknown block may have an entry of that name with any value,
which is taken as a mapping if it can be. -/
def options : Block → Except PairFault Entries
  | known c => .ok (c.options.map fun o => (.text o.1, .text o.2))
  | unknown _ entries => (entries.field "options").entriesOrEmpty

/-- The issues of the entries of an unknown block: all keys must be texts. -/
def keyIssues (entries : Entries) : List Issue :=
  entries.filterMap fun e =>
    match e.1 with
    | .text _ => none
    | k => some ⟨[Step.ofKey k], .keyNotText⟩

/-- Entries for an unknown block. -/
def readOpaque (entries : Entries) : Except (List Issue) Entries :=
  match keyIssues entries with
  | [] => .ok entries
  | issues => .error issues

/-- Reads the configuration of a known kind from a value; an absent one has no entries. -/
def readKnown (kind : BlockKind) : Value → Except ConfigFault Config
  | .null => (Config.read kind []).mapError .unfit
  | .mapping entries => (Config.read kind entries).mapError .unfit
  | v => .error (.notMapping v.kindName)

/-- Reads a configuration under the name of its kind, where the name for unknown kinds stands for a
block that keeps its entries. There is none under any other name. -/
def readNamed? (kindName : String) (v : Value) : Option (Except ConfigFault Block) :=
  match BlockKind.ofName? kindName with
  | some kind => some ((readKnown kind v).map .known)
  | none =>
    if kindName = unknownName then
      match v with
      | .null => some (.ok (.unknown kindName []))
      | .mapping entries =>
        some (((readOpaque entries).map (.unknown kindName)).mapError .unfit)
      | v => some (.error (.notMapping v.kindName))
    else none

/-- All fields under their own names, the unset ones with the absent value. -/
def toFields : Block → Entries
  | known c => c.toFields
  | unknown _ entries => entries

/-- Replaces some entries of the configuration of a block. For an unknown block, entries without a
value are dropped first. -/
def update (b : Block) (more : Entries) : Except (List Issue) Block :=
  match b with
  | known c => (c.update more).map known
  | unknown declared entries =>
    let kept := entries.filter fun e => match e.2 with | .null => false | _ => true
    (readOpaque (Entries.setAll kept more)).map (unknown declared)

/-- Equality by value. -/
def same : Block → Block → Bool
  | known a, known b => a.same b
  | unknown d xs, unknown e ys => d = e && Entries.same xs ys
  | _, _ => false

end Block

end CallFlow
