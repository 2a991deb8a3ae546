import CallFlow.Text.Blank

/-!
# File names

The parts of a file name: its suffix, which starts at the last point, and its stem before that. A
name that starts or ends with its only point has no suffix.
-/

namespace CallFlow.FileName

/-- The characters of a name up to its last point and from there on, if it has a suffix. -/
def split (name : List Char) : List Char × List Char :=
  let tail := name.reverse.takeWhile (· ≠ '.')
  match name.reverse.dropWhile (· ≠ '.') with
  | '.' :: stem =>
    if stem.isEmpty || tail.isEmpty then (name, []) else (stem.reverse, '.' :: tail.reverse)
  | _ => (name, [])

/-- The name without its suffix. -/
def stem (name : String) : String := String.ofList (split name.toList).1

/-- The suffix of a name, with its point. -/
def suffix (name : String) : String := String.ofList (split name.toList).2

/-- The name with another suffix. -/
def withSuffix (name newSuffix : String) : String := stem name ++ newSuffix

example : (stem "a.tar.gz", suffix "a.tar.gz") = ("a.tar", ".gz") := by decide +kernel
example : (stem ".yaml", suffix ".yaml") = (".yaml", "") := by decide +kernel

end CallFlow.FileName
