import CallFlow.Number.Decimal

/-!
# Double-precision numbers

The numbers of the 64-bit binary floating-point format, in exact arithmetic on natural numbers.
A magnitude is given by its rank: the magnitudes in increasing order are numbered from zero on,
and the last of them is infinity. So the representation is unique, two numbers are compared by
their ranks, and the neighbours of a number are one rank away.

The main operation is `ofDecimal`, which rounds to the nearest number, a tie to the even rank.
-/

namespace CallFlow

-- powers mean the same whether or not an algebra library is imported
attribute [local instance (high)] instPowNat

/-- The rank of infinity: there are `2 ^ 52` magnitudes for each of the 2047 finite exponents. -/
def infiniteRank : Nat := 2047 * 2 ^ (52 : Nat)

/-- A double-precision number. -/
inductive Binary64 where
  /-- The value that is not a number. -/
  | nan
  /-- A number with a sign and the rank of its magnitude. -/
  | signed (negative : Bool) (rank : Fin (infiniteRank + 1))
  deriving DecidableEq, Repr

namespace Binary64

/-! ## The value of a finite rank -/

/-- The integer significand of a finite magnitude. -/
def significand (rank : Nat) : Nat :=
  if rank < 2 ^ (52 : Nat) then rank else 2 ^ (52 : Nat) + rank % 2 ^ (52 : Nat)

/-- The power of two that the significand is multiplied by. -/
def scale (rank : Nat) : Int := (max (rank / 2 ^ (52 : Nat)) 1 : Nat) - 1075

/-- The value of a finite magnitude as a fraction with a power of two below. -/
def fraction (rank : Nat) : Nat × Nat :=
  let q := scale rank
  if 0 ≤ q then (significand rank * 2 ^ q.toNat, 1) else (significand rank, 2 ^ (-q).toNat)

/-! ## Rounding -/

/-- The natural number nearest to `num / den`; a tie goes to the even one. -/
def roundHalfEven (num den : Nat) : Nat :=
  let k := num / den
  let r := num % den
  if 2 * r < den then k else if den < 2 * r then k + 1 else k + k % 2

/-- The greatest power of two that is not above `num / den`, both positive. -/
def binaryMagnitude (num den : Nat) : Int :=
  let d : Int := (num.log2 : Int) - den.log2
  let below := if 0 ≤ d then den * 2 ^ d.toNat ≤ num else den ≤ num * 2 ^ (-d).toNat
  if below then d else d - 1

/-- The rank of the magnitude nearest to `num / den`. -/
def rankOfRatio (num den : Nat) : Nat :=
  if num = 0 then 0
  else
    let q := max (binaryMagnitude num den - 52) (-1074)
    let m :=
      if 0 ≤ q then roundHalfEven num (den * 2 ^ q.toNat)
      else roundHalfEven (num * 2 ^ (-q).toNat) den
    min ((q + 1074).toNat * 2 ^ (52 : Nat) + m) infiniteRank

/-- The rank of the magnitude nearest to a decimal number. Numbers with more than 310 places
before the point are infinite and numbers with more than 330 zeros behind it are zero, whatever
their digits. -/
def rankOfDecimal (d : Decimal) : Nat :=
  if d.significand = 0 then 0
  else
    let place := d.pointPlace
    if place > 310 then infiniteRank
    else if place < -330 then 0
    else if 0 ≤ d.exponent then rankOfRatio (d.significand * 10 ^ d.exponent.toNat) 1
    else rankOfRatio d.significand (10 ^ (-d.exponent).toNat)

/-- The number with the given sign and rank; a rank beyond infinity is infinity. -/
def ofRank (negative : Bool) (rank : Nat) : Binary64 :=
  .signed negative ⟨min rank infiniteRank, Nat.lt_succ_of_le (Nat.min_le_right _ _)⟩

/-- The number nearest to a decimal number. -/
def ofDecimal (negative : Bool) (d : Decimal) : Binary64 := ofRank negative (rankOfDecimal d)

/-! ## Particular numbers and tests -/

/-- Infinity of the given sign. -/
def infinity (negative : Bool) : Binary64 := .signed negative (Fin.last _)

/-- A number with a value: neither infinite nor `nan`. -/
def isFinite : Binary64 → Bool
  | .nan => false
  | .signed _ rank => rank.val < infiniteRank

/-- A number equals another if they have the same value. Zero has one value with either sign, and
`nan` has none. -/
def same : Binary64 → Binary64 → Bool
  | .signed s a, .signed t b => a = b && (s = t || a.val = 0)
  | _, _ => false

/-- The value of a finite number that is whole. -/
def toInt? : Binary64 → Option Int
  | .nan => none
  | .signed negative rank =>
    if rank.val < infiniteRank then
      let (num, den) := fraction rank.val
      if num % den = 0 then
        some (if negative then -((num / den : Nat) : Int) else (num / den : Nat))
      else none
    else none

/-- Zero of either sign. -/
def isZero : Binary64 → Bool
  | .nan => false
  | .signed _ rank => rank.val = 0

/-! ## Reading -/

/-- Lower case for the ASCII letters, which are all that the names of the special numbers hold. -/
def lower (cs : List Char) : List Char := cs.map Char.toLower

/-- Reads a number without sign: a decimal number, or the name of infinity or of `nan`. -/
def readUnsigned? (negative : Bool) (cs : List Char) : Option Binary64 :=
  if lower cs = "inf".toList ∨ lower cs = "infinity".toList then some (infinity negative)
  else if lower cs = "nan".toList then some .nan
  else (Decimal.read? cs).map (ofDecimal negative)

/-- Reads a number with an optional sign, up to the end of the text. -/
def read? (cs : List Char) : Option Binary64 :=
  let (negative, r) := Decimal.takeSign cs
  readUnsigned? negative r

end Binary64

end CallFlow
