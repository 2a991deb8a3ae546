import CallFlow.Value.Display
import CallFlow.Text.Blank

/-!
# Fitting values to declared types

A field of a configuration, a script or the settings has a declared type, and a value from outside
either fits it or there is an issue. An issue says what is wrong (`IssueKind`) and where
(`Issue.location`, the path from the outermost record inwards). Whole numbers are accepted in
several forms: as numbers of any kind without a fraction, as truth values, and as text.
-/

namespace CallFlow

open Text

-- powers mean the same whether or not an algebra library is imported
attribute [local instance (high)] instPowNat

/-- What is wrong with a value. -/
inductive IssueKind where
  | notText
  | notMapping
  | notNumber
  | notNumeral
  | tooManyDigits
  | fractional
  | notFinite
  | notPositive
  | belowLeast
  | keyNotText
  | notChoice
  | missing
  | kindUnknown
  | kindMissing
  | notList
  | notScript
  | notUnit
  deriving DecidableEq, Repr

/-- The word for what is wrong. -/
def IssueKind.name : IssueKind → String
  | .notText => "string_type"
  | .notMapping => "dict_type"
  | .notNumber => "int_type"
  | .notNumeral => "int_parsing"
  | .tooManyDigits => "int_parsing_size"
  | .fractional => "int_from_float"
  | .notFinite => "finite_number"
  | .notPositive => "greater_than"
  | .belowLeast => "greater_than_equal"
  | .keyNotText => "invalid_key"
  | .notChoice => "enum"
  | .missing => "missing"
  | .kindUnknown => "union_tag_invalid"
  | .kindMissing => "union_tag_not_found"
  | .notList => "tuple_type"
  | .notScript => "model_type"
  | .notUnit => "model_attributes_type"

/-- One step of the path to a value: the name of a field or key, or a number. -/
inductive Step where
  | name (s : String)
  | index (n : Int)
  deriving DecidableEq, Repr

/-- The step to an entry of a mapping. Truth values are numbered like whole numbers. -/
def Step.ofKey : Scalar → Step
  | .bool b => .index (if b then 1 else 0)
  | .int n => .index n
  | k => .name k.display

/-- Something wrong with a value, and where the value is. -/
structure Issue where
  location : List Step
  kind : IssueKind
  deriving DecidableEq, Repr

/-- The issue as seen from outside a part. -/
def Issue.within (outer : List Step) (i : Issue) : Issue := { i with location := outer ++ i.location }

namespace Fitting

/-! ## Whole numbers -/

/-- The digits of a row in which single underscores may stand between digits. -/
def ungroup? : List Char → Option (List Char)
  | [] => none
  | c :: r =>
    if isDigit c then
      match r with
      | [] => some [c]
      | '_' :: r' => (ungroup? r').map (c :: ·)
      | r => (ungroup? r).map (c :: ·)
    else none

/-- Splits off a point with zeros behind it, which a whole number may have. -/
def dropZeroFraction (cs : List Char) : List Char :=
  let whole := cs.takeWhile (· ≠ '.')
  match cs.dropWhile (· ≠ '.') with
  | '.' :: '0' :: r => if r.all (· = '0') then whole else cs
  | _ => cs

/-- Reads a whole number from text with white space around it. -/
def wholeOfText (s : String) : Except IssueKind Int :=
  let (negative, cs) := Decimal.takeSign (trimList isSpace s.toList)
  match ungroup? (dropZeroFraction cs) with
  | none => .error .notNumeral
  | some ds =>
    if (ds.dropWhile (· = '0')).length > digitLimit then .error .tooManyDigits
    else .ok (if negative then -(natOfDigits ds : Int) else natOfDigits ds)

/-- A double-precision number is a whole one if it has no fraction and less than 64 bits. -/
def wholeOfFloat (x : Binary64) : Except IssueKind Int :=
  if !x.isFinite then .error .notFinite
  else
    match x.toInt? with
    | none => .error .fractional
    | some n => if -(2 ^ (63 : Nat)) < n ∧ n < 2 ^ (63 : Nat) then .ok n else .error .tooManyDigits

/-- A value as a whole number. -/
def whole : Value → Except IssueKind Int
  | .bool b => .ok (if b then 1 else 0)
  | .int n => .ok n
  | .float x => wholeOfFloat x
  | .text s => wholeOfText s
  | _ => .error .notNumber

/-! ## Texts -/

/-- A value as a text. -/
def text : Value → Except IssueKind String
  | .text s => .ok s
  | _ => .error .notText

/-- A value as a text that may be absent. -/
def optionalText : Value → Except IssueKind (Option String)
  | .null => .ok none
  | .text s => .ok (some s)
  | _ => .error .notText

/-- A value as a whole number that may be absent. -/
def optionalWhole : Value → Except IssueKind (Option Int)
  | .null => .ok none
  | v => (whole v).map some

/-- Blank texts count as absent values. -/
def unsetBlank : Value → Value
  | .text s => if blank s then .null else .text s
  | v => v

example : (wholeOfText " 1_0.00 ").toOption = some 10 := by decide +kernel
example : (wholeOfText "60.").toOption = none := by decide +kernel
example : (wholeOfText "6__0").toOption = none := by decide +kernel

end Fitting

end CallFlow
