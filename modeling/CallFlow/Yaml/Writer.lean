import CallFlow.Number.Shortest
import CallFlow.Text.Quoted
import CallFlow.Yaml.Reader

/-!
# Writing YAML text

A value as YAML text that reads back as the same value. Collections that hold something are written
as blocks, each entry on a line of its own. Texts are quoted, so that none of them is taken for
something else, and written in printed ASCII.
-/

namespace CallFlow.Yaml

open Text

/-- One character of a quoted text. -/
def writeChar (c : Char) : List Char :=
  if c = '"' ∨ c = '\\' then ['\\', c]
  else if c = '\n' then ['\\', 'n']
  else if 0x20 ≤ c.toNat ∧ c.toNat ≤ 0x7E then [c]
  else codeEscape c.toNat

/-- A text with its quotes. -/
def writeText (s : String) : List Char := '"' :: (s.toList.flatMap writeChar ++ ['"'])

/-- A number with a point, which tells double-precision numbers from texts. -/
def writeFloat (x : Binary64) : List Char :=
  let cs := (x.renderWith ⟨".nan", ".inf", "-.inf"⟩).toList
  if cs.contains '.' then cs
  else cs.takeWhile (· ≠ 'e') ++ ['.', '0'] ++ cs.dropWhile (· ≠ 'e')

/-- A scalar. -/
def writeScalar : Scalar → List Char
  | .null => "null".toList
  | .bool b => if b then "true".toList else "false".toList
  | .int n => (ofInt n).toList
  | .float x => writeFloat x
  | .text s => writeText s

/-- The longest key that is written without a question mark. -/
def shortKey : Nat := 128

/-- A key up to its colon, in a mapping at a column. -/
def writeKey (column : Nat) (k : Scalar) : List Char :=
  let cs := writeScalar k
  if cs.length ≤ shortKey then cs ++ [':']
  else '?' :: ' ' :: cs ++ '\n' :: List.replicate column ' ' ++ [':']

/-- The start of a line behind the first one of a block at a column. -/
def newLine (column : Nat) : List Char := '\n' :: List.replicate column ' '

mutual

/-- A value as a block at a column, from the first entry on. -/
def writeBlock (column : Nat) : Value → List Char
  | .scalar s => writeScalar s
  | .list [] => ['[', ']']
  | .mapping [] => ['\x7b', '\x7d']
  | .list (v :: rest) => '-' :: ' ' :: writeBlock (column + 2) v ++ writeItems column rest
  | .mapping ((k, v) :: rest) => writeKey column k ++ writeBehind column v ++ writeEntries column rest

/-- The value behind the colon of a key, in a mapping at a column. -/
def writeBehind (column : Nat) : Value → List Char
  | .scalar s => ' ' :: writeScalar s
  | .list [] => [' ', '[', ']']
  | .mapping [] => [' ', '\x7b', '\x7d']
  | .list (v :: rest) =>
    newLine (column + 2) ++ '-' :: ' ' :: writeBlock (column + 4) v ++ writeItems (column + 2) rest
  | .mapping ((k, v) :: rest) =>
    newLine (column + 2) ++ writeKey (column + 2) k ++ writeBehind (column + 2) v ++
      writeEntries (column + 2) rest

/-- The items of a list behind the first one. -/
def writeItems (column : Nat) : List Value → List Char
  | [] => []
  | v :: rest =>
    newLine column ++ '-' :: ' ' :: writeBlock (column + 2) v ++ writeItems column rest

/-- The entries of a mapping behind the first one. -/
def writeEntries (column : Nat) : List (Scalar × Value) → List Char
  | [] => []
  | (k, v) :: rest =>
    newLine column ++ writeKey column k ++ writeBehind column v ++ writeEntries column rest

end

/-- The YAML text of a value. -/
def write (v : Value) : String := String.ofList (writeBlock 0 v ++ ['\n'])

/-- Values of all kinds, with texts that are written like other scalars. -/
private def sample : Value :=
  .mapping [(.text "yes", .list [.null, .bool true, .int (-7), .float (.ofDecimal true ⟨1, 22⟩)]),
    (.int 1, .mapping [(.null, .list []), (.text "", .mapping [])]),
    (.text "é: \n#", .list [.list [.text " x", .mapping [(.text "a", .text "1")]], .text "\t'\""])]

example : (read (write sample)).toOption.any (·.same sample) = true := by decide +kernel

end CallFlow.Yaml
