import CallFlow.Text.Digits

/-!
# Places in a YAML text

A `Cursor` is a place in a text: what is left to read, with the line and the column, which decide
about the layout of blocks. Line breaks of all kinds are told apart here and nowhere else.
-/

namespace CallFlow.Yaml

/-- Why a text is not read. -/
inductive Fault where
  /-- The text is not in the form of a document that is read here. -/
  | malformed
  /-- A number stands for nothing: it has no digits, or more than are converted, or is the code
  of no character. -/
  | numberOutOfRange
  deriving DecidableEq, Repr

/-- Characters that end a line. -/
def isBreak (c : Char) : Bool :=
  c = '\n' || c = '\r' || c = '\u0085' || c = '\u2028' || c = '\u2029'

/-- Characters that stand between words: blanks, tabs and the ends of lines. -/
def isGap (c : Char) : Bool := c = ' ' || c = '\t' || isBreak c

/-- Whether a word ends before the given rest of a text. -/
def endsWord : List Char → Bool
  | [] => true
  | c :: _ => isGap c

/-- Characters that may stand in a document at all. -/
def isAllowed (c : Char) : Bool :=
  let n := c.toNat
  n = 0x09 || n = 0x0A || n = 0x0D || (0x20 ≤ n && n ≤ 0x7E) || n = 0x85 ||
    (0xA0 ≤ n && n ≤ 0xFFFD) || 0x10000 ≤ n

/-- The mark that tells the order of bytes. It takes no column. -/
def byteOrderMark : Char := '\uFEFF'

/-- A place in a text. -/
structure Cursor where
  /-- What is left to read. -/
  rest : List Char
  /-- The number of characters before the place. -/
  index : Nat
  line : Nat
  column : Nat
  deriving Repr

namespace Cursor

/-- The front of a text. -/
def start (cs : List Char) : Cursor := ⟨cs, 0, 0, 0⟩

/-- The place behind the next character. Of a carriage return and a line feed the second one ends
the line. -/
def next (p : Cursor) : Cursor :=
  match p.rest with
  | [] => p
  | c :: r =>
    if isBreak c && !(c = '\r' && r.head? = some '\n') then ⟨r, p.index + 1, p.line + 1, 0⟩
    else ⟨r, p.index + 1, p.line, if c = byteOrderMark then p.column else p.column + 1⟩

/-- The place behind the next characters. -/
def advance : Nat → Cursor → Cursor
  | 0, p => p
  | n + 1, p => advance n p.next

/-- The place behind the characters of a class. -/
def skip (p : Cursor) (f : Char → Bool) : Cursor := p.advance (p.rest.takeWhile f).length

/-- A line break at this place: the character that it counts as and the place behind it. The two
separators of Unicode stand for themselves, and every other break counts as a line feed. -/
def break? (p : Cursor) : Option (Char × Cursor) :=
  match p.rest with
  | '\r' :: '\n' :: _ => some ('\n', p.advance 2)
  | c :: _ =>
    if c = '\u2028' || c = '\u2029' then some (c, p.next)
    else if isBreak c then some ('\n', p.next)
    else none
  | [] => none

/-- Whether the next three characters are the given one and a word ends behind them. -/
def atTriple (p : Cursor) (mark : Char) : Bool :=
  p.rest.take 3 = [mark, mark, mark] && endsWord (p.rest.drop 3)

/-- Whether a mark between documents stands at this place. -/
def atMarker (p : Cursor) : Bool := p.atTriple '-' || p.atTriple '.'

end Cursor

/-- What is left of line breaks in a text: a single one is a blank, and of several the first one
is dropped. The separators of Unicode are always kept. -/
def fold (first : Char) (others : List Char) : List Char :=
  (if first ≠ '\n' then [first] else if others.isEmpty then [' '] else []) ++ others

end CallFlow.Yaml
