import CallFlow.Association
import CallFlow.Number.Binary64

/-!
# Document values

The values that an interchange document is made of: scalars, lists, and mappings from scalars to
values in the order of their entries. Equality of documents (`Value.same`) goes by value: a whole
number equals the double-precision number of the same value, truth values count as one and zero,
and the order of a mapping's entries does not matter.
-/

namespace CallFlow

/-- A value without parts. Scalars are also the keys of mappings. -/
inductive Scalar where
  | null
  | bool (b : Bool)
  | int (n : Int)
  | float (x : Binary64)
  | text (s : String)
  deriving DecidableEq, Repr, Inhabited

namespace Scalar

/-- The whole number that a scalar is equal to. -/
def toInt? : Scalar → Option Int
  | .bool b => some (if b then 1 else 0)
  | .int n => some n
  | .float x => x.toInt?
  | _ => none

/-- Equality by value, also of keys: numbers of all kinds compare with each other. -/
def same : Scalar → Scalar → Bool
  | .null, .null => true
  | .text a, .text b => a = b
  | .float x, .float y => x.same y
  | a, b =>
    match a.toInt?, b.toInt? with
    | some m, some n => m = n
    | _, _ => false

/-- Only an empty, zero or absent scalar does not hold. -/
def holds : Scalar → Bool
  | .null => false
  | .bool b => b
  | .int n => n ≠ 0
  | .float x => !x.isZero
  | .text s => s ≠ ""

end Scalar

/-- A value of a document. -/
inductive Value where
  | scalar (s : Scalar)
  | list (items : List Value)
  | mapping (entries : List (Scalar × Value))
  deriving Repr, Inhabited

/-- The entries of a mapping, in order. -/
abbrev Entries := List (Scalar × Value)

namespace Value

/-- The absent value. -/
@[match_pattern] abbrev null : Value := .scalar .null

/-- A truth value. -/
@[match_pattern] abbrev bool (b : Bool) : Value := .scalar (.bool b)

/-- A whole number. -/
@[match_pattern] abbrev int (n : Int) : Value := .scalar (.int n)

/-- A double-precision number. -/
@[match_pattern] abbrev float (x : Binary64) : Value := .scalar (.float x)

/-- A text. -/
@[match_pattern] abbrev text (s : String) : Value := .scalar (.text s)

/-- The word for the kind of a value, as it stands in messages. -/
def kindName : Value → String
  | .null => "NoneType"
  | .bool _ => "bool"
  | .int _ => "int"
  | .float _ => "float"
  | .text _ => "str"
  | .list _ => "list"
  | .mapping _ => "dict"

/-- Only an empty, zero or absent value does not hold. -/
def holds : Value → Bool
  | .scalar s => s.holds
  | .list items => !items.isEmpty
  | .mapping entries => !entries.isEmpty

mutual

/-- Equality by value. -/
def same : Value → Value → Bool
  | .scalar a, .scalar b => a.same b
  | .list xs, .list ys => sameItems xs ys
  | .mapping xs, .mapping ys => xs.length = ys.length && within xs ys
  | _, _ => false

/-- Lists are equal if they have equal items in the same places. -/
def sameItems : List Value → List Value → Bool
  | [], [] => true
  | x :: xs, y :: ys => same x y && sameItems xs ys
  | _, _ => false

/-- Each entry of the first mapping has an equal value under its key in the second one. -/
def within : List (Scalar × Value) → List (Scalar × Value) → Bool
  | [], _ => true
  | (k, v) :: rest, ys =>
    (match Association.lookup? Scalar.same k ys with
      | some w => same v w
      | none => false) && within rest ys

end

end Value

namespace Entries

/-- The value under a key of a mapping. -/
def find? (entries : Entries) (key : Scalar) : Option Value :=
  Association.lookup? Scalar.same key entries

/-- The value under a text key. A key without an entry has the absent value. -/
def field (entries : Entries) (name : String) : Value :=
  (find? entries (.text name)).getD .null

/-- Whether a text key has an entry. -/
def has (entries : Entries) (name : String) : Bool :=
  (find? entries (.text name)).isSome

/-- Sets the value under a key. -/
def set (entries : Entries) (key : Scalar) (value : Value) : Entries :=
  Association.insert Scalar.same key value entries

/-- Sets the entries of another mapping. -/
def setAll (entries : Entries) (more : Entries) : Entries :=
  Association.insertAll Scalar.same entries more

/-- The mapping of a list of pairs. -/
def ofPairs (pairs : List (Scalar × Value)) : Entries :=
  Association.ofPairs Scalar.same pairs

/-- Entries under text keys. -/
def ofFields (fields : List (String × Value)) : Entries :=
  fields.map fun f => (.text f.1, f.2)

/-- Equality of two mappings by value. -/
def same (xs ys : Entries) : Bool := (Value.mapping xs).same (.mapping ys)

end Entries

/-- A table of texts by text keys, in insertion order. -/
abbrev TextTable := List (String × String)

namespace TextTable

/-- The text under a key. -/
def find? (table : TextTable) (key : String) : Option String :=
  Association.lookup? (· = ·) key table

/-- The table of a list of pairs. -/
def ofPairs (pairs : List (String × String)) : TextTable :=
  Association.ofPairs (· = ·) pairs

/-- The keys of a table, in order. -/
def keys (table : TextTable) : List String := table.map Prod.fst

/-- The table as a document value. -/
def toValue (table : TextTable) : Value :=
  .mapping (table.map fun e => (.text e.1, .text e.2))

/-- Tables are equal if they have the same texts under the same keys, in any order. -/
def same (xs ys : TextTable) : Bool :=
  xs.length = ys.length && xs.all fun e => find? ys e.1 = some e.2

end TextTable

end CallFlow
