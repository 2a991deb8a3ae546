import CallFlow.Value

/-!
# Reading JSON text

A JSON text is read from left to right; the first fault ends the reading. Beyond the standard the
reader knows the names `NaN`, `Infinity` and `-Infinity`. A number with a point or an exponent is
a double-precision number, every other one is whole. In a mapping the last of several entries with
one key gives the value, at the place of the first.

A character beyond the first plane may be escaped as a pair of units. Half of a pair without its
other half is JSON as well, but it stands for no character, so there is no value for such a text:
it is read to its end, for the sake of the faults that it may have, and then set aside
(`Fault.halfPair`).
-/

namespace CallFlow.Json

open Text

/-- Why a text is not read. -/
inductive Fault where
  /-- The text is not JSON. -/
  | malformed
  /-- A whole number has more digits than are converted. -/
  | numberTooLong
  /-- The text is JSON, but half of a pair of units in it stands for no character. -/
  | halfPair
  deriving DecidableEq, Repr

/-- What a reader of a part gives: the part and the text behind it. -/
abbrev Read (α : Type) := Except Fault (α × List Char)

/-- The characters that may stand between the parts of a text. -/
def isFiller (c : Char) : Bool := c = ' ' || c = '\t' || c = '\n' || c = '\r'

/-- Drops the filler at the front. -/
def skipFiller (cs : List Char) : List Char := cs.dropWhile isFiller

/-! ## Texts -/

/-- The character that a one-letter escape stands for. -/
def escaped? : Char → Option Char
  | '"' => some '"'
  | '\\' => some '\\'
  | '/' => some '/'
  | 'b' => some '\x08'
  | 'f' => some '\x0c'
  | 'n' => some '\n'
  | 'r' => some '\r'
  | 't' => some '\t'
  | _ => none

/-- Puts a character in front of a text that was read. -/
def prepend (c : Char) : Read (List Char) → Read (List Char)
  | .ok (cs, r) => .ok (c :: cs, r)
  | .error e => .error e

/-- Whether a unit is the first half of a pair. -/
def isHighHalf (n : Nat) : Bool := 0xD800 ≤ n && n < 0xDC00

/-- Whether a unit is the second half of a pair. -/
def isLowHalf (n : Nat) : Bool := 0xDC00 ≤ n && n < 0xE000

/-- The character of a pair of units. -/
def ofPair (high low : Nat) : Char :=
  Char.ofNat (0x10000 + (high - 0xD800) * 0x400 + (low - 0xDC00))

/-- What stands for half of a pair while the rest of a text is read. -/
def replacement : Char := '\uFFFD'

/-- Reads a text behind its opening quote, up to and with the closing one. Half of a pair of units
without its other half does not end the reading. -/
def readText : List Char → Read (List Char)
  | [] => .error .malformed
  | '"' :: r => .ok ([], r)
  | '\\' :: 'u' :: a :: b :: c :: d :: r =>
    match hex? [a, b, c, d] with
    | none => .error .malformed
    | some n =>
      if isHighHalf n then
        match r with
        | '\\' :: 'u' :: e :: f :: g :: h :: r' =>
          match hex? [e, f, g, h] with
          | some m =>
            if isLowHalf m then prepend (ofPair n m) (readText r')
            else prepend replacement (readText ('\\' :: 'u' :: e :: f :: g :: h :: r'))
          | none => .error .malformed
        | r => prepend replacement (readText r)
      else if isLowHalf n then prepend replacement (readText r)
      else prepend (Char.ofNat n) (readText r)
  | '\\' :: e :: r =>
    match escaped? e with
    | some c => prepend c (readText r)
    | none => .error .malformed
  | c :: r => if c = '\\' ∨ c.toNat < 0x20 then .error .malformed else prepend c (readText r)

/-- Whether half of a pair of units is escaped in a JSON text without its other half. Outside the
texts in quotes there is no backslash. -/
def hasHalfPair : List Char → Bool
  | [] => false
  | '\\' :: 'u' :: a :: b :: c :: d :: r =>
    match hex? [a, b, c, d] with
    | none => hasHalfPair r
    | some n =>
      if isHighHalf n then
        match r with
        | '\\' :: 'u' :: e :: f :: g :: h :: r' =>
          !(hex? [e, f, g, h]).any isLowHalf || hasHalfPair r'
        | _ => true
      else isLowHalf n || hasHalfPair r
  | '\\' :: _ :: r => hasHalfPair r
  | _ :: r => hasHalfPair r

/-! ## Numbers -/

/-- The digits before the point: one zero, or digits that start with another one. -/
def readWhole : List Char → Option (List Char × List Char)
  | '0' :: r => some (['0'], r)
  | c :: r => if isDigit c then some ((c :: r).takeWhile isDigit, (c :: r).dropWhile isDigit) else none
  | [] => none

/-- The digits behind a point, if a point with a digit follows. -/
def readFraction : List Char → Option (List Char) × List Char
  | '.' :: c :: r =>
    if isDigit c then (some ((c :: r).takeWhile isDigit), (c :: r).dropWhile isDigit)
    else (none, '.' :: c :: r)
  | r => (none, r)

/-- The power of ten, if an exponent with a digit follows. -/
def readPower (cs : List Char) : Option Int × List Char :=
  match cs with
  | e :: r =>
    let (negative, ds) := Decimal.takeSign r
    if (e = 'e' || e = 'E') && (ds.head?.any isDigit) then
      let n : Int := natOfDigits (ds.takeWhile isDigit)
      (some (if negative then -n else n), ds.dropWhile isDigit)
    else (none, cs)
  | [] => (none, [])

/-- Reads a number behind its sign. -/
def readUnsigned (negative : Bool) (cs : List Char) : Read Value :=
  match readWhole cs with
  | none => .error .malformed
  | some (whole, r) =>
    let (fraction, r) := readFraction r
    let (power, r) := readPower r
    if fraction.isNone && power.isNone then
      if whole.length > digitLimit then .error .numberTooLong
      else
        let n : Int := natOfDigits whole
        .ok (.int (if negative then -n else n), r)
    else
      .ok (.float (.ofDecimal negative (.ofParts whole (fraction.getD []) (power.getD 0))), r)

/-- Takes a word off the front. -/
def takeWord? (word : List Char) (cs : List Char) : Option (List Char) :=
  if word.isPrefixOf cs then some (cs.drop word.length) else none

/-- The words that stand for a value. -/
def words : List (List Char × Value) :=
  [("null".toList, .null), ("true".toList, .bool true), ("false".toList, .bool false),
    ("NaN".toList, .float .nan), ("Infinity".toList, .float (.infinity false)),
    ("-Infinity".toList, .float (.infinity true))]

/-- Reads a value without parts that is not a text. -/
def readBare (cs : List Char) : Read Value :=
  match words.findSome? fun w => (takeWord? w.1 cs).map fun r => (w.2, r) with
  | some found => .ok found
  | none =>
    match cs with
    | '-' :: r => readUnsigned true r
    | r => readUnsigned false r

/-! ## Values -/

mutual

/-- Reads a value at the front of a text. Each step down uses up a unit of fuel; twice the
length of the text is always enough. -/
def readValue : Nat → List Char → Except Fault (Value × List Char)
  | 0, _ => .error .malformed
  | fuel + 1, cs =>
    match cs with
    | '"' :: r => (readText r).map fun p => (.text (String.ofList p.1), p.2)
    | '[' :: r =>
      match skipFiller r with
      | ']' :: r => .ok (.list [], r)
      | r => (readItems fuel r).map fun p => (.list p.1, p.2)
    | '\x7b' :: r =>
      match skipFiller r with
      | '\x7d' :: r => .ok (.mapping [], r)
      | r => (readMembers fuel r).map fun p => (.mapping (Entries.ofPairs p.1), p.2)
    | cs => readBare cs

/-- Reads the items of a list that has some, up to and with its closing bracket. -/
def readItems : Nat → List Char → Except Fault (List Value × List Char)
  | 0, _ => .error .malformed
  | fuel + 1, cs => do
    let (v, r) ← readValue fuel cs
    match skipFiller r with
    | ']' :: r => .ok ([v], r)
    | ',' :: r => do
      let (vs, r) ← readItems fuel (skipFiller r)
      .ok (v :: vs, r)
    | _ => .error .malformed

/-- Reads the entries of a mapping that has some, up to and with its closing brace. -/
def readMembers : Nat → List Char → Except Fault (Entries × List Char)
  | 0, _ => .error .malformed
  | fuel + 1, cs =>
    match cs with
    | '"' :: r => do
      let (key, r) ← readText r
      match skipFiller r with
      | ':' :: r => do
        let (v, r) ← readValue fuel (skipFiller r)
        match skipFiller r with
        | '\x7d' :: r => .ok ([(.text (String.ofList key), v)], r)
        | ',' :: r => do
          let (es, r) ← readMembers fuel (skipFiller r)
          .ok ((.text (String.ofList key), v) :: es, r)
        | _ => .error .malformed
      | _ => .error .malformed
    | _ => .error .malformed

end

/-- Reads a JSON text. A byte order mark at the front is not part of JSON. -/
def read (s : String) : Except Fault Value := do
  let cs := s.toList
  let (v, r) ← readValue (2 * cs.length + 2) (skipFiller cs)
  if !(skipFiller r).isEmpty then .error .malformed
  else if hasHalfPair cs then .error .halfPair
  else .ok v

example : (read " [1, -0, 2.50e1, \"\\u00e9\"] ").toOption.any
    (·.same (.list [.int 1, .int 0, .int 25, .text "é"])) = true := by decide +kernel
example : (read "[1,]").isOk = false := by decide +kernel
example : (read "\"\\uD83D\\uDE00\"").toOption.any (·.same (.text "😀")) = true := by
  decide +kernel
example : ["\"\\uD83D\"", "[\"\\uDE00\", x]"].map
    (fun s => match read s with | .ok _ => none | .error fault => some fault) =
      [some .halfPair, some .malformed] := by decide +kernel

end CallFlow.Json
