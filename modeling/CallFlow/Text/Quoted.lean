import CallFlow.Text.Printable
import CallFlow.Text.Digits

/-!
# Quoted text

How a text is shown inside a list or a mapping: between quotes, with the characters that have no
printed form replaced by escapes. The apostrophe is the quote unless the text holds an apostrophe
and no double quote.
-/

namespace CallFlow.Text

/-- The quote that is put around a text. -/
def quoteFor (cs : List Char) : Char :=
  if cs.contains '\'' && !cs.contains '"' then '"' else '\''

/-- The escape of a character by its code, in the shortest of the three widths. -/
def codeEscape (n : Nat) : List Char :=
  if n ≤ 0xFF then '\\' :: 'x' :: hex 2 n
  else if n ≤ 0xFFFF then '\\' :: 'u' :: hex 4 n
  else '\\' :: 'U' :: hex 8 n

/-- One character between the given quotes. -/
def quoteChar (quote c : Char) : List Char :=
  if c = quote ∨ c = '\\' then ['\\', c]
  else match c with
    | '\n' => ['\\', 'n']
    | '\r' => ['\\', 'r']
    | '\t' => ['\\', 't']
    | _ => if isPrintable c then [c] else codeEscape c.toNat

/-- The quoted form of a text. -/
def quoted (s : String) : String :=
  let cs := s.toList
  let quote := quoteFor cs
  String.ofList (quote :: (cs.flatMap (quoteChar quote) ++ [quote]))

example : quoted "it's" = "\"it's\"" := by decide +kernel
example : quoted "a'\"\n\x07" = "'a\\'\"\\n\\x07'" := by decide +kernel

end CallFlow.Text
