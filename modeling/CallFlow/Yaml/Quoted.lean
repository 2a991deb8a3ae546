import CallFlow.Yaml.Cursor

/-!
# Quoted texts of YAML

A text between quotes may go on over several lines; the blanks around a line break are dropped and
the breaks are folded. Between apostrophes, an apostrophe is written twice. Between double quotes
a backslash starts an escape, also of a line break, which then leaves nothing behind.
-/

namespace CallFlow.Yaml

open Text

/-- The character that a one-letter escape stands for. -/
def escaped? : Char → Option Char
  | '0' => some '\x00'
  | 'a' => some '\x07'
  | 'b' => some '\x08'
  | 't' | '\t' => some '\t'
  | 'n' => some '\n'
  | 'v' => some '\x0b'
  | 'f' => some '\x0c'
  | 'r' => some '\r'
  | 'e' => some '\x1b'
  | ' ' => some ' '
  | '"' => some '"'
  | '\\' => some '\\'
  | '/' => some '/'
  | 'N' => some '\u0085'
  | '_' => some '\u00a0'
  | 'L' => some '\u2028'
  | 'P' => some '\u2029'
  | _ => none

/-- The number of hexadecimal digits behind the letter of an escape by code. -/
def codeWidth? : Char → Option Nat
  | 'x' => some 2
  | 'u' => some 4
  | 'U' => some 8
  | _ => none

/-- The number in the next hexadecimal digits. -/
def code? (width : Nat) (cs : List Char) : Option Nat :=
  if (cs.take width).length = width then hex? (cs.take width) else none

/-- The second half of a pair of units, written as an escape of its own. -/
def secondHalf? : List Char → Option Nat
  | '\\' :: 'u' :: r =>
    match code? 4 r with
    | some n => if 0xDC00 ≤ n ∧ n < 0xE000 then some (n - 0xDC00) else none
    | none => none
  | _ => none

/-- Reads the character of an escape by code, behind its letter. The halves of a pair of units
make one character, and half of a pair alone makes none. -/
def readCode (width : Nat) (p : Cursor) : Except Fault (Char × Cursor) :=
  match code? width p.rest with
  | none => .error .malformed
  | some n =>
    let q := p.advance width
    if n > 0x10FFFF then .error .numberOutOfRange
    else if 0xD800 ≤ n ∧ n < 0xDC00 then
      match secondHalf? q.rest with
      | some m => .ok (Char.ofNat (0x10000 + (n - 0xD800) * 0x400 + m), q.advance 6)
      | none => .error .malformed
    else if 0xDC00 ≤ n ∧ n < 0xE000 then .error .malformed
    else .ok (Char.ofNat n, q)

/-- Reads the line breaks at a place, with the blanks at the front of each line. A mark between
documents may not follow. -/
def readBreaks : Nat → Cursor → Except Fault (List Char × Cursor)
  | 0, _ => .error .malformed
  | fuel + 1, p =>
    if p.atMarker then .error .malformed
    else
      let p := p.skip fun c => c = ' ' || c = '\t'
      match p.break? with
      | none => .ok ([], p)
      | some (c, p) => do
        let (cs, p) ← readBreaks fuel p
        .ok (c :: cs, p)

/-- Reads the blanks and line breaks at a place inside of quotes. -/
def readGap (p : Cursor) : Except Fault (List Char × Cursor) :=
  let blanks := p.rest.takeWhile fun c => c = ' ' || c = '\t'
  let p := p.advance blanks.length
  match p.break? with
  | some (c, p) => do
    let (cs, p) ← readBreaks (p.rest.length + 1) p
    .ok (fold c cs, p)
  | none => if p.rest.isEmpty then .error .malformed else .ok (blanks, p)

/-- Reads an escape behind its backslash: the characters that it stands for. -/
def readEscape (p : Cursor) : Except Fault (List Char × Cursor) :=
  match p.rest with
  | [] => .error .malformed
  | c :: _ =>
    match escaped? c, codeWidth? c, p.break? with
    | some e, _, _ => .ok ([e], p.next)
    | none, some width, _ => (readCode width p.next).map fun r => ([r.1], r.2)
    | none, none, some (_, p) => readBreaks (p.rest.length + 1) p
    | none, none, none => .error .malformed

/-- Reads a text behind its opening quote, up to and with the closing one. -/
def readQuoted (double : Bool) : Nat → Cursor → Except Fault (List Char × Cursor)
  | 0, _ => .error .malformed
  | fuel + 1, p =>
    let andThen (part : Except Fault (List Char × Cursor)) := do
      let (cs, p) ← part
      let (more, p) ← readQuoted double fuel p
      .ok (cs ++ more, p)
    match p.rest with
    | '\'' :: '\'' :: _ =>
      if double then andThen (.ok (['\''], p.next)) else andThen (.ok (['\''], p.advance 2))
    | c :: _ =>
      if isGap c then andThen (readGap p)
      else if c = (if double then '"' else '\'') then .ok ([], p.next)
      else if double && c = '\\' then andThen (readEscape p.next)
      else andThen (.ok ([c], p.next))
    | [] => .error .malformed

end CallFlow.Yaml
