import CallFlow.Value

/-!
# Mappings from pairs

A mapping may also be given as a list of pairs. A pair is anything with two parts: a list of two
items, a text of two characters, or a mapping with two keys.
-/

namespace CallFlow

/-- Why a value is not a mapping given by pairs. -/
inductive PairFault where
  /-- A value without parts, or a key that cannot be one. -/
  | wrongKind
  /-- A part that is not a pair. -/
  | wrongLength
  deriving DecidableEq, Repr

namespace Value

/-- The parts of a value that has some. -/
def parts? : Value → Option (List Value)
  | .text s => some (s.toList.map fun c => .text (String.ofList [c]))
  | .list items => some items
  | .mapping entries => some (entries.map fun e => .scalar e.1)
  | _ => none

/-- A value as a pair of a key and a value. -/
def pair (v : Value) : Except PairFault (Scalar × Value) :=
  match v.parts? with
  | none => .error .wrongKind
  | some [.scalar k, w] => .ok (k, w)
  | some [_, _] => .error .wrongKind
  | some _ => .error .wrongLength

/-- A value as a mapping: a mapping as it is, or a list of pairs. -/
def entries (v : Value) : Except PairFault Entries :=
  match v with
  | .mapping entries => .ok entries
  | v =>
    match v.parts? with
    | none => .error .wrongKind
    | some items => (items.mapM pair).map Entries.ofPairs

/-- A value as a mapping, where an empty, zero or absent value is the empty mapping. -/
def entriesOrEmpty (v : Value) : Except PairFault Entries :=
  if v.holds then v.entries else .ok []

end Value

end CallFlow
