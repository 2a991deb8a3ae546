import CallFlow.Text.Split
import CallFlow.Value
import CallFlow.Yaml.Cursor

/-!
# What plain texts stand for

A text without quotes stands for a truth value, a number or nothing if it is written like one, and
for itself otherwise. Numbers may have underscores between their digits. Whole numbers are decimal,
binary (`0b`), hexadecimal (`0x`), octal (a leading zero), or parts of sixty with colons between
them; a double-precision number has a point.

The format also knows dates and times. There is no value for them, so the reader departs from the
format here: a text that is written like a date stands for itself.
-/

namespace CallFlow.Yaml

open Text

/-! ## Words -/

/-- Whether a text is a lower-case word, in lower case, with a capital or in capitals. -/
def isWord (word : String) (cs : List Char) : Bool :=
  let w := word.toList
  cs = w || cs = (w.take 1).map Char.toUpper ++ w.drop 1 || cs = w.map Char.toUpper

/-- The words for the truth values. -/
def truthWords : List (String × Bool) :=
  [("yes", true), ("no", false), ("true", true), ("false", false), ("on", true), ("off", false)]

/-- The truth value of a word. -/
def truth? (cs : List Char) : Option Bool := (truthWords.find? (isWord ·.1 cs)).map Prod.snd

/-- Whether a text stands for nothing. -/
def isNull (cs : List Char) : Bool := cs.isEmpty || cs = ['~'] || isWord "null" cs

/-! ## Digits -/

/-- Whether a text is made of characters of a class and underscores, and is not empty. -/
def isRow (p : Char → Bool) (cs : List Char) : Bool :=
  !cs.isEmpty && cs.all fun c => p c || c = '_'

/-- Whether a text is a row of digits and underscores that starts with a digit. -/
def isNumeral (cs : List Char) : Bool := isRow isDigit cs && cs.head?.any isDigit

/-- A row without its underscores. -/
def ungrouped (cs : List Char) : List Char := cs.filter (· ≠ '_')

/-- The number of a row in a base that is a power of two; one digit there must be. -/
def ofRow (base : Nat) (cs : List Char) : Except Fault Nat :=
  match ungrouped cs with
  | [] => .error .numberOutOfRange
  | ds => .ok (valueOfDigits base (fun c => (hexValue? c).getD 0) 0 ds)

/-- The number of a row of decimal digits. -/
def ofDecimalRow (cs : List Char) : Except Fault Nat :=
  let ds := ungrouped cs
  if ds.length > digitLimit then .error .numberOutOfRange else .ok (natOfDigits ds)

/-- Whether a text is a part of sixty: a digit, or two of which the first is below six. -/
def isSixtieth : List Char → Bool
  | [d] => isDigit d
  | [c, d] => '0' ≤ c && c ≤ '5' && isDigit d
  | _ => false

/-! ## Numbers -/

/-- The whole number that a text without sign is written like. -/
def whole? (cs : List Char) : Option (Except Fault Nat) :=
  match cs with
  | ['0'] => some (.ok 0)
  | '0' :: 'b' :: r => if isRow (fun c => c = '0' || c = '1') r then some (ofRow 2 r) else none
  | '0' :: 'x' :: r => if isRow (fun c => (hexValue? c).isSome) r then some (ofRow 16 r) else none
  | '0' :: r =>
    if isRow (fun c => '0' ≤ c && c ≤ '7') r then some (ofRow 8 ('0' :: r)) else none
  | cs =>
    match splitAt ':' cs with
    | [] => none
    | first :: rest =>
      if isNumeral first && rest.all isSixtieth then
        some ((ofDecimalRow first).map fun n =>
          rest.foldl (fun n part => n * 60 + natOfDigits part) n)
      else none

/-- The exponent behind the digits of a number; its sign is written. -/
def exponent? : List Char → Option Int
  | [] => some 0
  | e :: s :: ds =>
    if (e = 'e' || e = 'E') && (s = '-' || s = '+') && !ds.isEmpty && ds.all isDigit then
      some (if s = '-' then -(natOfDigits ds : Int) else natOfDigits ds)
    else none
  | _ => none

/-- The decimal number that a text without sign is written like, with a point. Behind a sign a
digit must come before the point. -/
def decimal? (signed : Bool) (cs : List Char) : Option Decimal :=
  let digit (c : Char) : Bool := isDigit c || c = '_'
  let whole := cs.takeWhile digit
  match cs.dropWhile digit with
  | '.' :: r =>
    let fraction := r.takeWhile digit
    if (if whole.isEmpty then !signed && isNumeral fraction else isNumeral whole) then
      (exponent? (r.dropWhile digit)).map (.ofParts (ungrouped whole) (ungrouped fraction))
    else none
  | _ => none

/-- The rank of a sum of magnitudes, where the second one is multiplied by a whole number first;
each step is rounded. -/
def addScaled (rank other factor : Nat) : Nat :=
  let (num, den) := Binary64.fraction other
  let (fnum, fden) := Binary64.fraction (Binary64.rankOfRatio factor 1)
  let (pnum, pden) := Binary64.fraction (Binary64.rankOfRatio (num * fnum) (den * fden))
  let (snum, sden) := Binary64.fraction rank
  Binary64.rankOfRatio (snum * pden + pnum * sden) (sden * pden)

/-- The rank of a number in parts of sixty with a point in the last part, added up from there. -/
def sixtieths? (cs : List Char) : Option Nat :=
  match (splitAt ':' cs).reverse with
  | last :: middle =>
    let before := last.takeWhile (· ≠ '.')
    match last.dropWhile (· ≠ '.'), middle.reverse with
    | '.' :: fraction, first :: between =>
      if isNumeral first && between.all isSixtieth && isSixtieth before
          && fraction.all (fun c => isDigit c || c = '_') then
        let lastRank := Binary64.rankOfDecimal (.ofParts before (ungrouped fraction) 0)
        let ranks := middle.map fun part => Binary64.rankOfDecimal (.ofParts (ungrouped part) [] 0)
        some (ranks.foldl (fun (acc : Nat × Nat) r => (addScaled acc.1 r acc.2, acc.2 * 60))
          (addScaled 0 lastRank 1, 60)).1
      else none
    | _, _ => none
  | [] => none

/-- The double-precision number that a text is written like. -/
def float? (cs : List Char) : Option Binary64 :=
  let (negative, r) := Decimal.takeSign cs
  let signed := r.length < cs.length
  if r.head? = some '.' && isWord "inf" r.tail then some (.infinity negative)
  else if !signed && (cs = ".nan".toList || cs = ".NaN".toList || cs = ".NAN".toList) then some .nan
  else
    match decimal? signed r with
    | some d => some (.ofDecimal negative d)
    | none => (sixtieths? r).map (.ofRank negative)

/-- What a plain text stands for. The sign of equality and the mark of a merge have a meaning of
their own, which is not read. A date is a text here, though the format has a type of its own for
it. -/
def resolve (s : String) : Except Fault Scalar :=
  let cs := s.toList
  let (negative, r) := Decimal.takeSign cs
  if isNull cs then .ok .null
  else if s = "=" || s = "<<" then .error .malformed
  else
    match truth? cs, whole? r, float? cs with
    | some b, _, _ => .ok (.bool b)
    | none, some n, _ => n.map fun n => .int (if negative then -(n : Int) else n)
    | none, none, some x => .ok (.float x)
    | none, none, none => .ok (.text s)

/-- What a plain text stands for as a key. There the sign of equality is a text. -/
def resolveKey (s : String) : Except Fault Scalar :=
  if s = "=" then .ok (.text s) else resolve s

example : ["010", "0x1F", "0b11", "1_000", "10:30", "-0"].map (fun s => (resolve s).toOption) =
    [8, 31, 3, 1000, 630, 0].map fun n => some (.int n) := by decide +kernel
example : ["1e5", "08", "1:60", "-.5", "y", "2001-01-01"].map (fun s => (resolve s).toOption) =
    ["1e5", "08", "1:60", "-.5", "y", "2001-01-01"].map fun s => some (.text s) := by decide +kernel
example : (resolve "1:30.5").toOption = (resolve "90.5").toOption := by decide +kernel
example : ["No", "ON", ".5", "1.0e+3", "~"].map (fun s => (resolve s).toOption) =
    [.bool false, .bool true, .float (.ofDecimal false ⟨5, -1⟩), .float (.ofDecimal false ⟨1, 3⟩),
      .null].map some := by decide +kernel

end CallFlow.Yaml
