/-!
# Decimal digits

Whole numbers written in decimal, and the reading of a row of ASCII digits. A row longer than
`digitLimit` is too long to be taken for a number where a text is converted, and a number with a
longer row is not converted to a text.
-/

namespace CallFlow.Text

/-- The longest row of decimal digits that is converted to a number, or a number to. -/
def digitLimit : Nat := 4300

/-- One of the ten ASCII digits. Digits of other scripts are ordinary characters here. -/
def isDigit (c : Char) : Bool := '0' ≤ c && c ≤ '9'

/-- The value of an ASCII digit. -/
def digitValue (c : Char) : Nat := c.toNat - '0'.toNat

/-- The number that a row of digits stands for in the given base, continuing from `start`. -/
def valueOfDigits (base : Nat) (value : Char → Nat) (start : Nat) (cs : List Char) : Nat :=
  cs.foldl (fun n c => n * base + value c) start

/-- The number that a row of decimal digits stands for. -/
def natOfDigits (cs : List Char) : Nat := valueOfDigits 10 digitValue 0 cs

/-- The decimal digits of a number, without leading zeros; zero has the one digit `0`. -/
def digits (n : Nat) : List Char := Nat.toDigits 10 n

/-- The text of a whole number. -/
def ofInt : Int → String
  | .ofNat n => String.ofList (digits n)
  | .negSucc n => String.ofList ('-' :: digits (n + 1))

/-- Whether a number has too many digits to be written. The sign does not count. -/
def isTooLong (n : Int) : Bool := digitLimit < (digits n.natAbs).length

/-- A number written with at least two digits. -/
def twoDigits (n : Nat) : String :=
  String.ofList (if n < 10 then '0' :: digits n else digits n)

/-- The value of a hexadecimal digit of either case. -/
def hexValue? (c : Char) : Option Nat :=
  if isDigit c then some (digitValue c)
  else if 'a' ≤ c && c ≤ 'f' then some (c.toNat - 'a'.toNat + 10)
  else if 'A' ≤ c && c ≤ 'F' then some (c.toNat - 'A'.toNat + 10)
  else none

/-- The number that a row of hexadecimal digits stands for, if all of them are. -/
def hex? (cs : List Char) : Option Nat :=
  cs.foldlM (fun n c => (hexValue? c).map (n * 16 + ·)) 0

/-- The lower-case hexadecimal digits of a number, filled up with zeros to the given width. -/
def hex (width n : Nat) : List Char :=
  let ds := Nat.toDigits 16 n
  List.replicate (width - ds.length) '0' ++ ds

/-- The value of digits goes on from that of the digits in front of them. -/
theorem valueOfDigits_append (base : Nat) (value : Char → Nat) (start : Nat) (xs ys : List Char) :
    valueOfDigits base value start (xs ++ ys) =
      valueOfDigits base value (valueOfDigits base value start xs) ys := by
  simp [valueOfDigits]

end CallFlow.Text
