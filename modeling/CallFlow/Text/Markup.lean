import CallFlow.Text.Blank

/-!
# Texts with tags

A text for a terminal may hold tags in brackets that style what stands behind them: `[bold]` opens
a style, `[/bold]` closes it, and `[/]` closes the last one. A backslash in front of a tag makes it
plain text, and two backslashes in front of a tag stand for one.

`Markup.plain?` is the text without its tags, if each closing tag closes something, and
`Markup.escape` puts backslashes in front of all tags.
-/

namespace CallFlow.Text.Markup

/-- The characters that a tag starts with; other brackets are plain text. -/
def isInitial (c : Char) : Bool := ('a' ≤ c && c ≤ 'z') || c = '#' || c = '/' || c = '@'

/-- The tag behind an opening bracket, if there is one. -/
def tag? : List Char → Option (List Char)
  | [] => none
  | c :: r =>
    let inTag (c : Char) : Bool := c ≠ '[' && c ≠ ']'
    if isInitial c && (r.dropWhile inTag).head? = some ']' then some (c :: r.takeWhile inTag)
    else none

/-- So many backslashes. -/
def backslashes (n : Nat) : List Char := List.replicate n '\\'

/-! ## Pieces -/

/-- A part of a text. -/
inductive Piece where
  | plain (text : List Char)
  | tag (text : List Char)
  deriving DecidableEq, Repr

/-- The pieces of a text of which some characters are to be skipped, with the given number of
backslashes in front. A bracket that starts no tag uses up one backslash in front of it. -/
def pieces : Nat → Nat → List Char → List Piece
  | _, slashes, [] => [.plain (backslashes slashes)]
  | skip + 1, _, _ :: r => pieces skip 0 r
  | 0, slashes, '\\' :: r => pieces 0 (slashes + 1) r
  | 0, slashes, '[' :: r =>
    match tag? r with
    | some t =>
      let piece := if slashes % 2 = 1 then Piece.plain ('[' :: t ++ [']']) else .tag t
      .plain (backslashes (slashes / 2)) :: piece :: pieces (t.length + 1) 0 r
    | none => .plain (backslashes (slashes - 1) ++ ['[']) :: pieces 0 0 r
  | 0, slashes, c :: r => .plain (backslashes slashes ++ [c]) :: pieces 0 0 r

/-! ## Styles -/

/-- The name of a style, without blanks around it and in lower case. -/
def styleName (cs : List Char) : List Char := (trimList isBlank cs).map Char.toLower

/-- The open styles after a tag, the last one first. A closing tag needs a style to close. -/
def follow (opened : List (List Char)) (tag : List Char) : Option (List (List Char)) :=
  match tag.takeWhile (· ≠ '=') with
  | '/' :: name =>
    if (styleName name).isEmpty then
      match opened with
      | [] => none
      | _ :: rest => some rest
    else if opened.contains (styleName name) then some (opened.erase (styleName name))
    else none
  | name => some (styleName name :: opened)

/-- The plain pieces put together, given the open styles. -/
def collect (opened : List (List Char)) : List Piece → Option (List Char)
  | [] => some []
  | .plain text :: rest => (collect opened rest).map (text ++ ·)
  | .tag t :: rest => (follow opened t).bind fun opened => collect opened rest

/-- Characters that would move the cursor of a terminal or ring its bell. They are not shown. -/
def isControl (c : Char) : Bool :=
  c = '\x07' || c = '\x08' || c = '\x0b' || c = '\x0c' || c = '\x0d'

/-- What is shown of a text with tags, if each closing tag closes something. -/
def plain? (s : String) : Option String :=
  (collect [] (pieces 0 0 s.toList)).map fun cs => String.ofList (cs.filter (!isControl ·))

/-! ## Escaping -/

/-- A text with its tags made plain. The arguments are as in `pieces`, but what is skipped is
kept. -/
def escapeFrom : Nat → Nat → List Char → List Char
  | _, slashes, [] => backslashes (if slashes = 1 then 2 else slashes)
  | skip + 1, _, c :: r => c :: escapeFrom skip 0 r
  | 0, slashes, '\\' :: r => escapeFrom 0 (slashes + 1) r
  | 0, slashes, '[' :: r =>
    match tag? r with
    | some t => backslashes (2 * slashes + 1) ++ '[' :: escapeFrom (t.length + 1) 0 r
    | none => backslashes slashes ++ '[' :: escapeFrom 0 0 r
  | 0, slashes, c :: r => backslashes slashes ++ c :: escapeFrom 0 0 r

/-- A text with backslashes in front of its tags. -/
def escape (s : String) : String := String.ofList (escapeFrom 0 0 s.toList)

example : plain? "a [bold]b[/] \\[c] [D]\\[E]" = some "a b [c] [D][E]" := by decide +kernel
example : plain? (escape "a [bold]b[/] \\[c]") = some "a [bold]b[/] \\[c]" := by decide +kernel
example : plain? "a[/]" = none ∧ plain? "[b][u]a[/b][/]" = some "a" := by decide +kernel

end CallFlow.Text.Markup
