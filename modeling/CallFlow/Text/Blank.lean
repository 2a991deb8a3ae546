/-!
# Blank text

Which characters count as blank when a configuration field is tested for being filled in, and the
trimming of text at both ends. A field that holds only blank characters is treated as unset, so
the class is the wide one: the separators U+001C to U+001F and the non-breaking spaces belong to it.
-/

namespace CallFlow.Text

/-- A character that leaves a text field empty: the Unicode white space characters and the four
information separators U+001C to U+001F. -/
def isBlank (c : Char) : Bool :=
  let n := c.toNat
  (0x09 ≤ n && n ≤ 0x0D) || (0x1C ≤ n && n ≤ 0x20) || n == 0x85 || n == 0xA0 || n == 0x1680 ||
    (0x2000 ≤ n && n ≤ 0x200A) || n == 0x2028 || n == 0x2029 || n == 0x202F || n == 0x205F ||
    n == 0x3000

/-- The Unicode white space characters. The information separators are not among them. -/
def isSpace (c : Char) : Bool :=
  isBlank c && !(0x1C ≤ c.toNat && c.toNat ≤ 0x1F)

/-- A text without any character that is not blank. The empty text is blank. -/
def blank (s : String) : Bool := s.toList.all isBlank

/-- Drops the characters of a class from both ends. -/
def trimList (p : Char → Bool) (cs : List Char) : List Char :=
  ((cs.dropWhile p).reverse.dropWhile p).reverse

/-- Drops the characters of a class from both ends of a text. -/
def trim (p : Char → Bool) (s : String) : String := String.ofList (trimList p s.toList)

example : isBlank '\x1c' = true ∧ isSpace '\x1c' = false := by decide

end CallFlow.Text
