import CallFlow.FileName
import CallFlow.Text.Split

/-!
# Paths

A path as the names that lead to a file, with the slashes that it starts with if it does not start
at the working directory. Empty names and single points are dropped, so that a path has one text.
-/

namespace CallFlow

/-- A path. -/
structure Path where
  /-- No, one or two slashes. -/
  root : String
  parts : List String
  deriving DecidableEq, Repr

namespace Path

/-- The slashes that are kept of those at the front: two are told apart from one, and more count
as one. -/
def rootOf (cs : List Char) : String :=
  match (cs.takeWhile (· = '/')).length with
  | 0 => ""
  | 2 => "//"
  | _ => "/"

/-- The path of a text. -/
def ofText (s : String) : Path where
  root := rootOf s.toList
  parts := ((Text.splitAt '/' s.toList).map String.ofList).filter fun p => p ≠ "" && p ≠ "."

/-- The text of a path. The path without names is the working directory. -/
def text (p : Path) : String :=
  if p.root = "" && p.parts.isEmpty then "." else p.root ++ "/".intercalate p.parts

/-- The path that the second one is, seen from the directory that the first one leads to. -/
def join (p q : Path) : Path := if q.root = "" then ⟨p.root, p.parts ++ q.parts⟩ else q

/-- The directory that a path leads into. A path without names has itself. -/
def parent (p : Path) : Path := { p with parts := p.parts.dropLast }

/-- The last name, which is empty if there is none. -/
def name (p : Path) : String := p.parts.getLast?.getD ""

/-- The suffix of the last name. -/
def suffix (p : Path) : String := FileName.suffix p.name

/-- The last name without its suffix. -/
def stem (p : Path) : String := FileName.stem p.name

/-- The path with another suffix, if it has a last name. -/
def withSuffix? (p : Path) (newSuffix : String) : Option Path :=
  if p.parts.isEmpty then none
  else some { p with parts := p.parts.dropLast ++ [FileName.withSuffix p.name newSuffix] }

example : (ofText "a//b/./c/").text = "a/b/c" := by decide +kernel
example : ((ofText "flows").join (ofText "x.v2")).withSuffix? ".yaml" = some (ofText "flows/x.yaml") := by
  decide +kernel

end Path

end CallFlow
