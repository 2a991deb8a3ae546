import CallFlow.Value.Nested
import CallFlow.Number.Shortest

/-!
# Writing JSON text

The JSON text of a document value in one of several styles: on one line or indented, with all
characters outside printed ASCII escaped or with only those escaped that a JSON text must not
hold. Keys that are not texts are written as the text of their JSON form, since JSON has only
text keys.
-/

namespace CallFlow.Json

open Text

/-- How a JSON text is laid out. -/
structure Style where
  /-- Escapes every character outside printed ASCII. -/
  asciiOnly : Bool
  /-- Leaves out the space behind a comma and a colon on one line. -/
  compact : Bool
  /-- Puts each entry on a line of its own, indented by so many columns for each level. A negative
  indent is no columns. -/
  indent : Option Int
  deriving DecidableEq, Repr

/-- The style of documents: ASCII, with spaces behind the separators. -/
def Style.document (indent : Option Int) : Style := ⟨true, false, indent⟩

/-- The style of scripts: characters as they are, and no spaces on one line. Their indent is a
natural number. -/
def Style.script (indent : Option Nat) : Style := ⟨false, true, indent.map Int.ofNat⟩

/-- The short escapes that a JSON text has for some characters. -/
def shortEscape? : Char → Option Char
  | '"' => some '"'
  | '\\' => some '\\'
  | '\n' => some 'n'
  | '\r' => some 'r'
  | '\t' => some 't'
  | '\x08' => some 'b'
  | '\x0c' => some 'f'
  | _ => none

/-- The escape of a character by its code; a character beyond the first plane is two units. -/
def codeEscape (n : Nat) : List Char :=
  if n < 0x10000 then '\\' :: 'u' :: hex 4 n
  else
    '\\' :: 'u' :: hex 4 (0xD800 + (n - 0x10000) / 0x400) ++
      '\\' :: 'u' :: hex 4 (0xDC00 + (n - 0x10000) % 0x400)

/-- One character of a text. -/
def writeChar (asciiOnly : Bool) (c : Char) : List Char :=
  match shortEscape? c with
  | some e => ['\\', e]
  | none =>
    if c.toNat < 0x20 || (asciiOnly && 0x7F ≤ c.toNat) then codeEscape c.toNat else [c]

/-- A text with its quotes. -/
def writeText (asciiOnly : Bool) (s : String) : List Char :=
  '"' :: (s.toList.flatMap (writeChar asciiOnly) ++ ['"'])

/-- A double-precision number; the numbers without digits have names. -/
def writeFloat (x : Binary64) : String := x.renderWith ⟨"NaN", "Infinity", "-Infinity"⟩

/-- A scalar that is not a text, which is also what stands between the quotes of such a key. -/
def bareScalar : Scalar → String
  | .null => "null"
  | .bool b => if b then "true" else "false"
  | .int n => ofInt n
  | .float x => writeFloat x
  | .text s => s

/-- A scalar as a value. -/
def writeScalar (style : Style) : Scalar → List Char
  | .text s => writeText style.asciiOnly s
  | s => (bareScalar s).toList

/-- The line break before an entry of the given level. -/
def lineBreak (style : Style) (level : Nat) : List Char :=
  match style.indent with
  | none => []
  | some columns => '\n' :: List.replicate (columns.toNat * level) ' '

/-- What stands between two entries, both of the given level. -/
def entrySeparator (style : Style) (level : Nat) : List Char :=
  if style.indent.isSome || style.compact then ',' :: lineBreak style level else [',', ' ']

/-- What stands between a key and its value. -/
def keySeparator (style : Style) : List Char :=
  if style.indent.isNone && style.compact then [':'] else [':', ' ']

mutual

/-- A value whose entries, if it has any, are of the given level. -/
def writeValue (style : Style) (level : Nat) : Value → List Char
  | .scalar s => writeScalar style s
  | .list [] => ['[', ']']
  | .list (v :: rest) =>
    '[' :: lineBreak style level ++ writeValue style (level + 1) v ++
      writeItems style level rest ++ lineBreak style (level - 1) ++ [']']
  | .mapping [] => ['\x7b', '\x7d']
  | .mapping ((k, v) :: rest) =>
    '\x7b' :: lineBreak style level ++
      (writeText style.asciiOnly (bareScalar k) ++ keySeparator style ++
        writeValue style (level + 1) v) ++
      writeMembers style level rest ++ lineBreak style (level - 1) ++ ['\x7d']

/-- The items of a list behind the first one. -/
def writeItems (style : Style) (level : Nat) : List Value → List Char
  | [] => []
  | v :: rest =>
    entrySeparator style level ++ writeValue style (level + 1) v ++ writeItems style level rest

/-- The entries of a mapping behind the first one. -/
def writeMembers (style : Style) (level : Nat) : List (Scalar × Value) → List Char
  | [] => []
  | (k, v) :: rest =>
    entrySeparator style level ++
      (writeText style.asciiOnly (bareScalar k) ++ keySeparator style ++
        writeValue style (level + 1) v) ++
      writeMembers style level rest

end

/-- Whether a scalar is short enough to be written: a whole number may have too many digits. -/
def isShort : Scalar → Bool
  | .int n => !isTooLong n
  | _ => true

/-- Whether a value can be written: each whole number in it, also as a key, is short enough. -/
def canWrite (v : Value) : Bool :=
  v.all fun
    | .scalar s => isShort s
    | .list _ => true
    | .mapping entries => entries.all fun e => isShort e.1

/-- The JSON text of a value. -/
def write (style : Style) (v : Value) : String := String.ofList (writeValue style 1 v)

example : write (.document none) (.list [.int 1, .text "é"]) = "[1, \"\\u00e9\"]" := by
  decide +kernel
example : write (.document (some 1)) (.list [.null]) = "[\n null\n]" := by decide +kernel

end CallFlow.Json
