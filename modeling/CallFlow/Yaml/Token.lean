import CallFlow.Yaml.Quoted

/-!
# Tokens of a YAML text

A text is cut into tokens from left to right (`tokens`). Outside of brackets the column of a line
shows which block collection its entries belong to, so the starts and ends of block collections
become tokens of their own (`Layout.indents` holds the columns of those that are open).

A mapping key is seen to be one only when the colon behind it is reached. So a place where a key
may start is remembered as a `Candidate`, and the colon puts the token for a key in front of what
was read since. A candidate is given up when its line ends or when it grows too long.

Tags, block scalars and directives are not read.
-/

namespace CallFlow.Yaml

/-- The words of a YAML text. -/
inductive Token where
  | documentStart
  | documentEnd
  /-- The start of a block sequence, before its first dash. -/
  | sequenceStart
  /-- The start of a block mapping, before its first key. -/
  | mappingStart
  /-- The end of a block collection. -/
  | blockEnd
  /-- The dash before an item. -/
  | dash
  /-- The start of a mapping key, which the text need not show. -/
  | key
  /-- The colon between a key and its value. -/
  | colon
  | openList
  | closeList
  | openMap
  | closeMap
  | comma
  | anchor (name : String)
  | reference (name : String)
  | plain (text : String)
  | quoted (text : String)
  deriving DecidableEq, Repr

/-- A place where a mapping key may have started. -/
structure Candidate where
  /-- How many tokens come before it. -/
  place : Nat
  /-- Whether nothing but a key can stand there. -/
  required : Bool
  index : Nat
  line : Nat
  column : Nat
  deriving Repr

/-- What is known when a text is read up to some place. -/
structure Layout where
  /-- The tokens, the last one first. -/
  emitted : List Token
  /-- The number of the tokens. -/
  count : Nat
  /-- The columns of the open block collections, the innermost first. -/
  indents : List Nat
  /-- Where a key may have started inside of the innermost open bracket. -/
  candidate : Option Candidate
  /-- Where a key may have started around each open bracket, the innermost first. -/
  outer : List (Option Candidate)
  /-- Whether a key may start at this place. -/
  keyAllowed : Bool

namespace Layout

/-- The layout at the front of a text. -/
def start : Layout := ⟨[], 0, [], none, [], true⟩

/-- Whether a bracket is open. -/
def inBrackets (l : Layout) : Bool := !l.outer.isEmpty

/-- The least column at which a line goes on with what the innermost block collection holds. -/
def inner (l : Layout) : Nat :=
  match l.indents with
  | [] => 0
  | c :: _ => c + 1

/-- A layout with one token more. -/
def emit (l : Layout) (t : Token) : Layout :=
  { l with emitted := t :: l.emitted, count := l.count + 1 }

/-- A layout with tokens put in after the first `place` ones. The last of them comes first. -/
def emitAt (l : Layout) (place : Nat) (ts : List Token) : Layout :=
  let behind := l.count - place
  { l with
    emitted := l.emitted.take behind ++ ts ++ l.emitted.drop behind
    count := l.count + ts.length }

/-- Opens a block collection at a column, if none of that column is open. -/
def indent? (l : Layout) (column : Nat) : Option Layout :=
  if l.inner ≤ column then some { l with indents := column :: l.indents } else none

/-- Closes the block collections of the given columns. -/
def unindent (l : Layout) : List Nat → (Nat → Bool) → Layout
  | [], _ => l
  | c :: rest, isOver =>
    if isOver c then unindent ({ l with indents := rest }.emit .blockEnd) rest isOver else l

/-- Closes the block collections to the right of a column. Inside of brackets columns do not
count. -/
def unwind (l : Layout) (column : Nat) : Layout :=
  if l.inBrackets then l else l.unindent l.indents (column < ·)

/-- Closes all block collections. -/
def unwindAll (l : Layout) : Layout :=
  if l.inBrackets then l else l.unindent l.indents fun _ => true

/-! ## Candidates -/

/-- The longest key that a candidate is kept for. -/
def keyLimit : Nat := 1024

/-- The candidate at a later place, unless it is given up there. -/
def keep (p : Cursor) : Option Candidate → Except Fault (Option Candidate)
  | none => .ok none
  | some c =>
    if c.line ≠ p.line || p.index - c.index > keyLimit then
      if c.required then .error .malformed else .ok none
    else .ok (some c)

/-- Gives up the candidates that cannot be keys at this place. -/
def dropStale (l : Layout) (p : Cursor) : Except Fault Layout := do
  let candidate ← keep p l.candidate
  let outer ← l.outer.mapM (keep p)
  .ok { l with candidate := candidate, outer := outer }

/-- Gives up the candidate inside of the innermost bracket. -/
def dropCandidate (l : Layout) : Except Fault Layout :=
  match l.candidate with
  | some c => if c.required then .error .malformed else .ok { l with candidate := none }
  | none => .ok l

/-- Remembers this place, if a key may start here. A key is required where a line starts at the
column of the innermost block collection. -/
def saveCandidate (l : Layout) (p : Cursor) : Except Fault Layout :=
  if l.keyAllowed then do
    let l ← l.dropCandidate
    let required := !l.inBrackets && l.indents.head? = some p.column
    .ok { l with candidate := some ⟨l.count, required, p.index, p.line, p.column⟩ }
  else .ok l

/-! ## Tokens -/

/-- A mark between documents. -/
def marker (l : Layout) (t : Token) : Except Fault Layout := do
  let l ← l.unwindAll.dropCandidate
  .ok ({ l with keyAllowed := false }.emit t)

/-- An opening bracket, which may start a key. -/
def openBracket (l : Layout) (p : Cursor) (t : Token) : Except Fault Layout := do
  let l ← l.saveCandidate p
  .ok ({ l with candidate := none, outer := l.candidate :: l.outer, keyAllowed := true }.emit t)

/-- A closing bracket. One must be open, of either kind. -/
def closeBracket (l : Layout) (t : Token) : Except Fault Layout :=
  match l.outer with
  | [] => .error .malformed
  | c :: outer => .ok ({ l with candidate := c, outer := outer, keyAllowed := false }.emit t)

/-- A comma. -/
def comma (l : Layout) : Except Fault Layout := do
  let l ← l.dropCandidate
  .ok ({ l with keyAllowed := true }.emit .comma)

/-- A dash or a question mark, before which a block collection may start. -/
def indicator (l : Layout) (p : Cursor) (opening t : Token) (allows : Bool) :
    Except Fault Layout := do
  if !l.inBrackets && !l.keyAllowed then .error .malformed
  else
    let l :=
      if l.inBrackets then l
      else
        match l.indent? p.column with
        | some l => l.emit opening
        | none => l
    let l ← l.dropCandidate
    .ok ({ l with keyAllowed := allows }.emit t)

/-- A colon. With a candidate before it, the candidate is a key, and a block mapping may start
there; without one the key was given by a question mark, or it is empty. -/
def colon (l : Layout) (p : Cursor) : Except Fault Layout :=
  match l.candidate with
  | some c =>
    let l := { l with candidate := none, keyAllowed := false }
    let l :=
      match if l.inBrackets then none else l.indent? c.column with
      | some l => l.emitAt c.place [.key, .mappingStart]
      | none => l.emitAt c.place [.key]
    .ok (l.emit .colon)
  | none => l.indicator p .mappingStart .colon (!l.inBrackets)

/-- A word that may start a key, behind which no key may start. -/
def word (l : Layout) (p : Cursor) : Except Fault Layout := do
  let l ← l.saveCandidate p
  .ok { l with keyAllowed := false }

end Layout

/-! ## Plain texts -/

/-- The brackets and the comma between them. -/
def brackets : List Char := [',', '[', ']', '\x7b', '\x7d']

/-- The characters that start something else than a plain text. -/
def indicators : List Char :=
  ['-', '?', ':', ',', '[', ']', '\x7b', '\x7d', '#', '&', '*', '!', '|', '>', '\'', '"', '%', '@',
    '\x60']

/-- The number of characters up to the first blank or mark that ends a plain text on its line. -/
def plainLength (inBrackets : Bool) : List Char → Nat
  | [] => 0
  | c :: r =>
    if isGap c then 0
    else if c = ':' && (endsWord r || inBrackets && r.head?.any (brackets.contains ·)) then 0
    else if inBrackets && (c = '?' || brackets.contains c) then 0
    else plainLength inBrackets r + 1

/-- Whether a plain text starts with the given characters. -/
def startsPlain (inBrackets : Bool) : List Char → Bool
  | [] => false
  | c :: r =>
    !(isGap c || indicators.contains c) ||
      (!endsWord r && (c = '-' || (!inBrackets && (c = '?' || c = ':'))))

/-- What stands between two parts of a plain text. -/
structure PlainGap where
  /-- What is left of it in the text; nothing if the text ends here. -/
  text : List Char
  /-- The place behind it. -/
  after : Cursor
  /-- Whether a line ended. -/
  newLine : Bool

/-- The line breaks at a place, with the blanks around them, and the place behind them; nothing
of them counts before a mark between documents. -/
def plainBreaks : Nat → Cursor → Option (List Char) × Cursor
  | 0, p => (some [], p)
  | fuel + 1, p =>
    let p := p.skip (· = ' ')
    match p.break? with
    | none => (some [], p)
    | some (c, p) =>
      if p.atMarker then (none, p)
      else
        let (cs, p) := plainBreaks fuel p
        (cs.map (c :: ·), p)

/-- The blanks and line breaks behind a part of a plain text. -/
def plainGap (p : Cursor) : PlainGap :=
  let blanks := p.rest.takeWhile (· = ' ')
  let p := p.advance blanks.length
  match p.break? with
  | none => ⟨blanks, p, false⟩
  | some (c, p) =>
    if p.atMarker then ⟨[], p, true⟩
    else
      match plainBreaks (p.rest.length + 1) p with
      | (some cs, p) => ⟨fold c cs, p, true⟩
      | (none, p) => ⟨[], p, true⟩

/-- Reads a plain text from its first character on. Outside of brackets its further lines must
start at the given column or to the right of it. Also tells whether a line ended behind it. -/
def readPlain (inBrackets : Bool) (column : Nat) : Nat → Cursor → List Char × Cursor × Bool
  | 0, p => ([], p, false)
  | fuel + 1, p =>
    let length := plainLength inBrackets p.rest
    let part := p.rest.take length
    let gap := plainGap (p.advance length)
    let q := gap.after
    if gap.text.isEmpty || q.rest.head? = some '#' || (!inBrackets && q.column < column)
        || plainLength inBrackets q.rest = 0 then
      (part, q, gap.newLine)
    else
      let (more, p, newLine) := readPlain inBrackets column fuel q
      (part ++ gap.text ++ more, p, newLine)

/-! ## The whole text -/

/-- The place behind blanks, comments and line breaks. A line that ends outside of brackets lets a
key start. -/
def skipFiller : Nat → Layout → Cursor → Layout × Cursor
  | 0, l, p => (l, p)
  | fuel + 1, l, p =>
    let p := p.skip (· = ' ')
    let p := if p.rest.head? = some '#' then p.skip (!isBreak ·) else p
    match p.break? with
    | none => (l, p)
    | some (_, p) => skipFiller fuel { l with keyAllowed := l.keyAllowed || !l.inBrackets } p

/-- The characters of a name of an anchor. -/
def isNameChar (c : Char) : Bool := c.isAlphanum || c = '-' || c = '_'

/-- The marks that may follow a name. -/
def nameEnds : List Char := ['?', ':', ',', ']', '\x7d', '%', '@', '\x60']

/-- Reads the name of an anchor or an alias, behind its mark. -/
def readName (p : Cursor) : Except Fault (String × Cursor) :=
  let name := p.rest.takeWhile isNameChar
  let p := p.advance name.length
  if !name.isEmpty && (endsWord p.rest || p.rest.head?.any (nameEnds.contains ·)) then
    .ok (String.ofList name, p)
  else .error .malformed

/-- Reads the token at a place where one starts with the given character. -/
def readToken (l : Layout) (p : Cursor) (c : Char) : Except Fault (Layout × Cursor) :=
  let single (l : Except Fault Layout) := l.map fun l => (l, p.next)
  let spaced := endsWord p.next.rest
  if p.column = 0 && c = '%' then .error .malformed
  else if p.column = 0 && p.atMarker then
    (l.marker (if c = '-' then .documentStart else .documentEnd)).map fun l => (l, p.advance 3)
  else if c = '[' then single (l.openBracket p .openList)
  else if c = '\x7b' then single (l.openBracket p .openMap)
  else if c = ']' then single (l.closeBracket .closeList)
  else if c = '\x7d' then single (l.closeBracket .closeMap)
  else if c = ',' then single l.comma
  else if c = '-' && spaced then single (l.indicator p .sequenceStart .dash true)
  else if c = '?' && (l.inBrackets || spaced) then
    single (l.indicator p .mappingStart .key (!l.inBrackets))
  else if c = ':' && (l.inBrackets || spaced) then single (l.colon p)
  else if c = '*' || c = '&' then do
    let l ← l.word p
    let (name, p) ← readName p.next
    .ok (l.emit (if c = '*' then .reference name else .anchor name), p)
  else if c = '\'' || c = '"' then do
    let l ← l.word p
    let (cs, p) ← readQuoted (c = '"') (p.rest.length + 1) p.next
    .ok (l.emit (.quoted (String.ofList cs)), p)
  else if startsPlain l.inBrackets p.rest then do
    let l ← l.word p
    let (cs, p, newLine) := readPlain l.inBrackets l.inner (p.rest.length + 1) p
    .ok ({ l with keyAllowed := newLine }.emit (.plain (String.ofList cs)), p)
  else .error .malformed

/-- Reads the tokens behind a place. -/
def readTokens : Nat → Layout → Cursor → Except Fault (List Token)
  | 0, _, _ => .error .malformed
  | fuel + 1, l, p => do
    let (l, p) := skipFiller (p.rest.length + 1) l p
    let l ← l.dropStale p
    match p.rest with
    | [] =>
      let l ← l.unwindAll.dropCandidate
      .ok l.emitted.reverse
    | c :: _ =>
      let (l, p) ← readToken (l.unwind p.column) p c
      readTokens fuel l p

/-- The tokens of a text. A byte order mark at its front is passed over. -/
def tokens (s : String) : Except Fault (List Token) :=
  let cs := s.toList
  if cs.all isAllowed then
    let p := Cursor.start cs
    readTokens (cs.length + 2) .start (if cs.head? = some byteOrderMark then p.next else p)
  else .error .malformed

end CallFlow.Yaml
