import CallFlow.Yaml.Token

/-!
# Nodes of a YAML document

The tree that the tokens of a text make up. A part that is left out between two marks is an empty
plain text. In a list between brackets, a key with its value is a mapping of one entry.

An anchor names the node behind it, and an alias stands for the node of that name. A name is given
once, and only to a node that is complete can an alias lead.
-/

namespace CallFlow.Yaml

/-- A node of a document. -/
inductive Node where
  | plain (text : String)
  | quoted (text : String)
  | list (items : List Node)
  | map (entries : List (Node × Node))
  deriving Repr, Inhabited

namespace Node

/-- The node of a part that is left out. -/
def absent : Node := .plain ""

/-- What is left to read, and the nodes that were named. A name is without a node until its node
is complete. -/
structure Reading where
  rest : List Token
  named : List (String × Option Node)

namespace Reading

/-- The node of a name. -/
def find? (r : Reading) (name : String) : Option Node :=
  (r.named.find? (·.1 = name)).bind Prod.snd

/-- The reading behind the first token. -/
def next (r : Reading) : Reading := { r with rest := r.rest.tail }

end Reading

/-- Whether a token ends an entry inside of brackets that the given token closes. -/
def endsEntry (close t : Token) : Bool := t = .comma || t = close

/-- What stands between two commas: a node, or a key with its value. -/
inductive Entry where
  | single (node : Node)
  | pair (key value : Node)

/-- An entry as an item of a list. -/
def Entry.toItem : Entry → Node
  | single n => n
  | pair k v => .map [(k, v)]

/-- An entry of a mapping; without a value it has an empty one. -/
def Entry.toPair : Entry → Node × Node
  | single n => (n, absent)
  | pair k v => (k, v)

mutual

/-- Reads a node. Block collections are read where `block` allows them, and items at the column of
the key before them where `dashes` does. Behind a name the node may be left out; a node that is
there but broken is left out as well, and then what is left of it fits nowhere. Each step down
uses up a unit of fuel; four times the number of tokens is always enough. -/
def readNode (block dashes : Bool) : Nat → Reading → Option (Node × Reading)
  | 0, _ => none
  | fuel + 1, r =>
    match r.rest with
    | .reference name :: _ => (r.find? name).map fun n => (n, r.next)
    | .anchor name :: _ =>
      if r.named.any (·.1 = name) then none
      else
        match readContent block dashes fuel { r.next with named := (name, none) :: r.named } with
        | some (n, r) => some (n, { r with named := (name, some n) :: r.named })
        | none => some (absent, { r.next with named := (name, some absent) :: r.named })
    | _ => readContent block dashes fuel r

/-- Reads a node behind its name. -/
def readContent (block dashes : Bool) : Nat → Reading → Option (Node × Reading)
  | 0, _ => none
  | fuel + 1, r =>
    match r.rest with
    | .plain s :: _ => some (.plain s, r.next)
    | .quoted s :: _ => some (.quoted s, r.next)
    | .openList :: _ =>
      (readEntries .closeList true fuel r.next).map fun p => (.list (p.1.map Entry.toItem), p.2)
    | .openMap :: _ =>
      (readEntries .closeMap true fuel r.next).map fun p => (.map (p.1.map Entry.toPair), p.2)
    | .sequenceStart :: _ =>
      if block then
        (readItems fuel r.next).bind fun p =>
          if p.2.rest.head? = some .blockEnd then some (.list p.1, p.2.next) else none
      else none
    | .dash :: _ =>
      if dashes then (readItems fuel r).map fun p => (.list p.1, p.2) else none
    | .mappingStart :: _ =>
      if block then (readPairs fuel r.next).map fun p => (.map p.1, p.2) else none
    | _ => none

/-- Reads a node, which may be left out before some tokens. -/
def readOptional (block dashes : Bool) (ends : Token → Bool) : Nat → Reading → Option (Node × Reading)
  | 0, _ => none
  | fuel + 1, r =>
    if r.rest.head?.any ends then some (absent, r) else readNode block dashes fuel r

/-- Reads the items behind their dashes. -/
def readItems : Nat → Reading → Option (List Node × Reading)
  | 0, _ => none
  | fuel + 1, r =>
    if r.rest.head? = some .dash then do
      let (n, r) ← readOptional true false
        (fun t => t = .dash || t = .key || t = .colon || t = .blockEnd) fuel r.next
      let (ns, r) ← readItems fuel r
      some (n :: ns, r)
    else some ([], r)

/-- Reads the entries of a block mapping, up to and with its end. -/
def readPairs : Nat → Reading → Option (List (Node × Node) × Reading)
  | 0, _ => none
  | fuel + 1, r =>
    let ends (t : Token) : Bool := t = .key || t = .colon || t = .blockEnd
    match r.rest with
    | .key :: _ => do
      let (k, r) ← readOptional true true ends fuel r.next
      let (v, r) ←
        if r.rest.head? = some .colon then readOptional true true ends fuel r.next
        else some (absent, r)
      let (es, r) ← readPairs fuel r
      some ((k, v) :: es, r)
    | .blockEnd :: _ => some ([], r.next)
    | _ => none

/-- Reads the entries inside of brackets, up to and with the closing one. Before all entries but
the first there is a comma. -/
def readEntries (close : Token) (first : Bool) : Nat → Reading → Option (List Entry × Reading)
  | 0, _ => none
  | fuel + 1, r =>
    if r.rest.head? = some close then some ([], r.next)
    else if !first && r.rest.head? ≠ some .comma then none
    else
      let r := if first then r else r.next
      match r.rest with
      | .key :: _ => do
        let (k, r) ← readOptional false false (fun t => t = .colon || endsEntry close t) fuel r.next
        let (v, r) ←
          if r.rest.head? = some .colon then readOptional false false (endsEntry close) fuel r.next
          else some (absent, r)
        let (es, r) ← readEntries close false fuel r
        some (.pair k v :: es, r)
      | t :: _ =>
        if t = close then some ([], r.next)
        else do
          let (n, r) ← readNode false false fuel r
          let (es, r) ← readEntries close false fuel r
          some (.single n :: es, r)
      | [] => none

end

/-- The node of a document. A text without tokens has an absent one, and behind the document there
is nothing but the mark of its end. -/
def ofTokens? (ts : List Token) : Option Node :=
  let fuel := 4 * ts.length + 4
  let isMark (t : Token) : Bool := t = .documentStart || t = .documentEnd
  let read : Option (Node × Reading) :=
    match ts with
    | [] => some (absent, ⟨[], []⟩)
    | .documentStart :: rest =>
      if rest.isEmpty || rest.head?.any isMark then some (absent, ⟨rest, []⟩)
      else readNode true false fuel ⟨rest, []⟩
    | ts => readNode true false fuel ⟨ts, []⟩
  read.bind fun p =>
    if (p.2.rest.dropWhile (· = .documentEnd)).isEmpty then some p.1 else none

end Node

end CallFlow.Yaml
