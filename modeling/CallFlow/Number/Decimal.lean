import CallFlow.Text.Digits

/-!
# Decimal numbers

A number given by its decimal digits and a power of ten, the reading of one from text, and the
layout of one as text: in positions while the point stays near the digits, with an exponent
otherwise.
-/

namespace CallFlow

/-- The number `significand * 10 ^ exponent`. -/
structure Decimal where
  significand : Nat
  exponent : Int
  deriving DecidableEq, Repr

namespace Decimal

open Text

/-- The number written as whole digits, a point, further digits, and a power of ten. -/
def ofParts (whole fraction : List Char) (exponent : Int) : Decimal :=
  ⟨natOfDigits (whole ++ fraction), exponent - fraction.length⟩

/-- Takes a sign off the front of a text; without one the number is not negative. -/
def takeSign : List Char → Bool × List Char
  | '-' :: r => (true, r)
  | '+' :: r => (false, r)
  | r => (false, r)

/-- Reads a whole number with an optional sign, up to the end of the text. -/
def readInt? (cs : List Char) : Option Int :=
  let (negative, ds) := takeSign cs
  if ds.isEmpty || !ds.all isDigit then none
  else some (if negative then -(natOfDigits ds : Int) else natOfDigits ds)

/-- Reads the end of a decimal number behind its digits: nothing, or an exponent. -/
def readExponent? : List Char → Option Int
  | [] => some 0
  | c :: r => if c = 'e' ∨ c = 'E' then readInt? r else none

/-- Reads a decimal number without sign, up to the end of the text. A point may stand before,
between or behind the digits, but one digit there must be. -/
def read? (cs : List Char) : Option Decimal :=
  let whole := cs.takeWhile isDigit
  match cs.dropWhile isDigit with
  | '.' :: r =>
    let fraction := r.takeWhile isDigit
    if whole.isEmpty && fraction.isEmpty then none
    else (readExponent? (r.dropWhile isDigit)).map (ofParts whole fraction)
  | r => if whole.isEmpty then none else (readExponent? r).map (ofParts whole [])

/-- The digits of a number without the zeros at their end. -/
def significantDigits (d : Decimal) : List Char :=
  ((digits d.significand).reverse.dropWhile (· = '0')).reverse

/-- The place of the point, counted from the first digit. -/
def pointPlace (d : Decimal) : Int := (digits d.significand).length + d.exponent

/-- Writes an exponent: its sign and at least two digits. -/
def exponentText (e : Int) : List Char :=
  'e' :: (if e < 0 then '-' else '+') :: (twoDigits e.natAbs).toList

/-- Writes a number. The point is put in its place if it is at most 16 digits behind the first
digit and at most three zeros before it; otherwise it follows the first digit and the power of
ten is written out. A whole number ends in `.0` when it is written in positions. -/
def render (d : Decimal) : List Char :=
  let ds := d.significantDigits
  let place := d.pointPlace
  if d.significand = 0 then ['0', '.', '0']
  else if place > 16 || place ≤ -4 then
    match ds with
    | [] => []
    | [c] => c :: exponentText (place - 1)
    | c :: r => c :: '.' :: r ++ exponentText (place - 1)
  else if place ≤ 0 then
    '0' :: '.' :: (List.replicate (-place).toNat '0' ++ ds)
  else if ds.length ≤ place.toNat then
    ds ++ List.replicate (place.toNat - ds.length) '0' ++ ['.', '0']
  else
    ds.take place.toNat ++ '.' :: ds.drop place.toNat

example : String.ofList (render ⟨15, -1⟩) = "1.5" := by decide +kernel
example : String.ofList (render ⟨1, 16⟩) = "1e+16" := by decide +kernel
example : String.ofList (render ⟨1, 15⟩) = "1000000000000000.0" := by decide +kernel
example : String.ofList (render ⟨1, -4⟩) = "0.0001" := by decide +kernel
example : String.ofList (render ⟨125, -7⟩) = "1.25e-05" := by decide +kernel
example : read? "12.50e1".toList = some ⟨1250, -1⟩ := by decide +kernel
example : read? ".".toList = none := by decide +kernel

end Decimal

end CallFlow
