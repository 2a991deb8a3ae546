import CallFlow.Value
import CallFlow.Number.Shortest
import CallFlow.Text.Quoted

/-!
# The text of a value

How a value is written where a text is wanted: in names, labels, handles and messages. A text
stands for itself; inside a list or a mapping it is quoted.
-/

namespace CallFlow

namespace Scalar

/-- A scalar inside a list or a mapping. -/
def literal : Scalar → String
  | .null => "None"
  | .bool b => if b then "True" else "False"
  | .int n => Text.ofInt n
  | .float x => x.text
  | .text s => Text.quoted s

/-- A scalar on its own. -/
def display : Scalar → String
  | .text s => s
  | s => s.literal

end Scalar

namespace Value

mutual

/-- A value inside a list or a mapping. -/
def literal : Value → String
  | .scalar s => s.literal
  | .list items => "[" ++ ", ".intercalate (itemLiterals items) ++ "]"
  | .mapping entries => "\x7b" ++ ", ".intercalate (entryLiterals entries) ++ "\x7d"

/-- The items of a list. -/
def itemLiterals : List Value → List String
  | [] => []
  | v :: rest => literal v :: itemLiterals rest

/-- The entries of a mapping. -/
def entryLiterals : List (Scalar × Value) → List String
  | [] => []
  | (k, v) :: rest => (k.literal ++ ": " ++ literal v) :: entryLiterals rest

end

/-- A value on its own. -/
def display : Value → String
  | .scalar s => s.display
  | v => v.literal

example : display (.list [.int 1, .text "a", .null]) = "[1, 'a', None]" := by decide +kernel

end Value

end CallFlow
