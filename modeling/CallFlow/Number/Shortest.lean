import CallFlow.Number.Binary64

/-!
# The shortest decimal of a double-precision number

The text of a number has the fewest digits that read back to it, and of the decimals with that
many digits the nearest one. For each count of digits the two decimals next to the number are
tried, first the lower one; reading is the exact `rankOfDecimal`. The exact decimal expansion
stands at the end of the search, so that a result reads back in every case.
-/

namespace CallFlow.Binary64

open Text

-- powers mean the same whether or not an algebra library is imported
attribute [local instance (high)] instPowNat

/-- The place of the point of `num / den`: the count of digits before it, or the negated count of
zeros behind it. -/
def decimalPlace (num den : Nat) : Int :=
  if den ≤ num then (digits (num / den)).length else 1 - ((digits (den / num)).length : Int)

/-- Of two neighbours on a decimal grid that both read back, takes the nearer one, and the even one
of two that are equally near; `twice` is twice the distance to the lower one, in units of `unit`. -/
def nearer (low twice unit : Nat) : Nat :=
  if twice < unit then low else if unit < twice then low + 1 else low + low % 2

/-- The multiple of `10 ^ grid` next to the value `num / den` that reads back to the rank. -/
def onGrid? (rank num den : Nat) (grid : Int) : Option Decimal :=
  let a := if 0 ≤ grid then num else num * 10 ^ (-grid).toNat
  let b := if 0 ≤ grid then den * 10 ^ grid.toNat else den
  let low := a / b
  let readsBack (m : Nat) : Bool := rankOfDecimal ⟨m, grid⟩ = rank
  match readsBack low, readsBack (low + 1) with
  | true, true => some ⟨nearer low (2 * (a % b)) b, grid⟩
  | true, false => some ⟨low, grid⟩
  | false, true => some ⟨low + 1, grid⟩
  | false, false => none

/-- The exact decimal value of a finite magnitude. -/
def exactDecimal (rank : Nat) : Decimal :=
  let q := scale rank
  if 0 ≤ q then ⟨significand rank * 2 ^ q.toNat, 0⟩ else ⟨significand rank * 5 ^ (-q).toNat, q⟩

/-- The shortest decimal that reads back to a finite magnitude; 17 digits are always enough. -/
def shortest (rank : Nat) : Decimal :=
  let (num, den) := fraction rank
  let place := decimalPlace num den
  ((List.range 17).findSome? fun (k : Nat) => onGrid? rank num den (place - (k + 1 : Nat))).getD
    (exactDecimal rank)

/-- The three spellings of the numbers that have no digits. -/
structure SpecialNames where
  nan : String
  positive : String
  negative : String

/-- The text of a number: shortest digits, or the given name. -/
def renderWith (names : SpecialNames) : Binary64 → String
  | .nan => names.nan
  | .signed negative rank =>
    if rank.val < infiniteRank then
      let ds := (shortest rank.val).render
      String.ofList (if negative then '-' :: ds else ds)
    else if negative then names.negative else names.positive

/-- The text of a number as a name, label or key. -/
def text (x : Binary64) : String := x.renderWith ⟨"nan", "inf", "-inf"⟩

end CallFlow.Binary64
