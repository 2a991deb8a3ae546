import CallFlow.Association
import CallFlow.Text.Blank

/-!
# Files of variables

A file of variables has one `NAME=value` for each line, which may start with `export`. Values stand
as they are up to the end of the line or a comment, or in quotes, and may name other variables as
`${NAME}` or `${NAME:-default}`. A line in no such form is passed over. Lines may end in a carriage
return, a line feed or both, also within quotes.
-/

namespace CallFlow.EnvFile

open Text

/-- A variable and its value; a name without `=` has none. -/
abbrev Binding := String × Option String

/-! ## Parts of lines -/

/-- A text with all its lines ended by line feeds. -/
def unifyLines : List Char → List Char
  | [] => []
  | '\r' :: '\n' :: r => '\n' :: unifyLines r
  | '\r' :: r => '\n' :: unifyLines r
  | c :: r => c :: unifyLines r

/-- Characters that are not the end of a line. -/
def inLine (c : Char) : Bool := c ≠ '\n'

/-- Blanks that do not end a line. -/
def isLineBlank (c : Char) : Bool := isBlank c && inLine c

/-- A part of a file and the rest behind it. Where the part is not there, the place where it was
missed is given. -/
abbrev Part (α : Type) := Except (List Char) (α × List Char)

/-- What is behind the line. -/
def nextLine (cs : List Char) : List Char := (cs.dropWhile inLine).drop 1

/-- The end of a line, with blanks and a comment before it. -/
def lineEnd (cs : List Char) : Part Unit :=
  let cs :=
    match cs.dropWhile isLineBlank with
    | '#' :: r => r.dropWhile inLine
    | _ => cs
  match cs.dropWhile isLineBlank with
  | [] => .ok ((), [])
  | c :: r => if inLine c then .error cs else .ok ((), r)

/-- Drops the word `export` with blanks behind it. -/
def dropExport (cs : List Char) : List Char :=
  match cs with
  | 'e' :: 'x' :: 'p' :: 'o' :: 'r' :: 't' :: c :: r =>
    if isLineBlank c then r.dropWhile isLineBlank else cs
  | _ => cs

/-- A name, which may be in quotes. A comment has none. -/
def name (cs : List Char) : Part (Option String) :=
  match cs with
  | '#' :: _ => .ok (none, cs)
  | '\'' :: r =>
    match r.takeWhile (· ≠ '\''), r.dropWhile (· ≠ '\'') with
    | c :: inner, _ :: rest => .ok (some (String.ofList (c :: inner)), rest)
    | _, _ => .error cs
  | _ =>
    let part (c : Char) : Bool := c ≠ '=' && c ≠ '#' && !isBlank c
    match cs.takeWhile part with
    | [] => .error cs
    | found => .ok (some (String.ofList found), cs.dropWhile part)

/-! ## Values -/

/-- The characters up to the closing quote, and the rest behind it. A quote behind a backslash
does not close, unless there is no other one behind it. -/
def upToQuote (quote : Char) : List Char → Option (List Char × List Char)
  | [] => none
  | '\\' :: c :: r =>
    if c = quote then
      match upToQuote quote r with
      | some (v, rest) => some ('\\' :: c :: v, rest)
      | none => some (['\\'], r)
    else (upToQuote quote (c :: r)).map fun p => ('\\' :: p.1, p.2)
  | c :: r => if c = quote then some ([], r) else (upToQuote quote r).map fun p => (c :: p.1, p.2)

/-- The character that stands behind a backslash for another one. -/
def escaped? (double : Bool) : Char → Option Char
  | '\\' => some '\\'
  | '\'' => some '\''
  | c =>
    if !double then none
    else
      match c with
      | '"' => some '"'
      | 'a' => some '\x07'
      | 'b' => some '\x08'
      | 'f' => some '\x0c'
      | 'n' => some '\n'
      | 'r' => some '\r'
      | 't' => some '\t'
      | 'v' => some '\x0b'
      | _ => none

/-- A quoted value with its escapes replaced; other backslashes stand for themselves. -/
def unescape (double : Bool) : List Char → List Char
  | '\\' :: c :: r =>
    match escaped? double c with
    | some d => d :: unescape double r
    | none => '\\' :: unescape double (c :: r)
  | c :: r => c :: unescape double r
  | [] => []

/-- A line without the comment at its end, which starts behind a blank. -/
def dropComment : List Char → List Char
  | [] => []
  | c :: r =>
    if isBlank c && (r.dropWhile isBlank).head? = some '#' then [] else c :: dropComment r

/-- A value: in quotes, or up to the end of the line. -/
def value (cs : List Char) : Part String :=
  match cs with
  | [] => .ok ("", [])
  | c :: r =>
    if c = '\'' || c = '"' then
      match upToQuote c r with
      | some (v, rest) => .ok (String.ofList (unescape (c = '"') v), rest)
      | none => .error cs
    else if inLine c then
      let kept := dropComment (cs.takeWhile inLine)
      .ok (String.ofList (kept.reverse.dropWhile isBlank).reverse, cs.dropWhile inLine)
    else .ok ("", cs)

/-! ## Lines -/

/-- One binding, if the line holds one. -/
def binding (cs : List Char) : Except (List Char) (Option Binding × List Char) := do
  let (found, cs) ← name (dropExport cs)
  let cs := cs.dropWhile isLineBlank
  let (v, cs) ←
    match cs with
    | '=' :: r => (value (r.dropWhile isLineBlank)).map fun p => (some p.1, p.2)
    | _ => .ok (none, cs)
  let (_, cs) ← lineEnd cs
  .ok (found.map fun n => (n, v), cs)

/-- The bindings of a file, as they are written. Each line uses up a unit of fuel. -/
def bindings : Nat → List Char → List Binding
  | 0, _ => []
  | fuel + 1, cs =>
    match cs.dropWhile isBlank with
    | [] => []
    | cs =>
      match binding cs with
      | .ok (some b, rest) => b :: bindings fuel rest
      | .ok (none, rest) => bindings fuel rest
      | .error rest => bindings fuel (nextLine rest)

/-! ## References -/

/-- A reference behind its `$`: the name, the default, and the rest. -/
def reference? : List Char → Option (String × String × List Char)
  | '\x7b' :: r =>
    let inName (c : Char) : Bool := c ≠ '\x7d' && c ≠ ':'
    let name := String.ofList (r.takeWhile inName)
    match r.dropWhile inName with
    | '\x7d' :: rest => some (name, "", rest)
    | ':' :: '-' :: r =>
      match r.dropWhile (· ≠ '\x7d') with
      | _ :: rest => some (name, String.ofList (r.takeWhile (· ≠ '\x7d')), rest)
      | [] => none
    | _ => none
  | _ => none

/-- A value with its references replaced by what `find` gives for a name and a default. -/
def resolve (find : String → String → String) : Nat → List Char → List Char
  | 0, cs => cs
  | _ + 1, [] => []
  | fuel + 1, '$' :: r =>
    match reference? r with
    | some (name, default, rest) => (find name default).toList ++ resolve find fuel rest
    | none => '$' :: resolve find fuel r
  | fuel + 1, c :: r => c :: resolve find fuel r

/-- The value of a variable: from the bindings, where one without value counts as empty, or from
the environment. -/
def lookup (environment : List (String × String)) (found : List Binding) (name default : String) :
    String :=
  match Association.lookup? (· = ·) name found with
  | some v => v.getD ""
  | none => (Association.lookup? (· = ·) name environment).getD default

/-- Reads the variables of a file. A value may refer to the variables before it and to those of the
environment; of several bindings of one name the last one counts. -/
def read (environment : List (String × String)) (text : String) : List Binding :=
  let cs := unifyLines text.toList
  (bindings (cs.length + 1) cs).foldl (fun found b =>
    let v := b.2.map fun s =>
      String.ofList (resolve (lookup environment found) (s.length + 1) s.toList)
    Association.insert (· = ·) b.1 v found) []

example : read [] "# c\n\nexport A='6'\r\nB=1 # x\nC=\"q\\n${A}${D:-d}\"\nE\n=\n" =
    [("A", some "6"), ("B", some "1"), ("C", some "q\n6d"), ("E", none)] := by decide +kernel

end CallFlow.EnvFile
