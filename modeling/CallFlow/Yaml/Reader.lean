import CallFlow.Yaml.Node
import CallFlow.Yaml.Plain

/-!
# Reading YAML text

A YAML text holds one document (`Yaml.read`). In a mapping the last of several entries with one
key gives the value, at the place of the first; keys are scalars. What is read is the part of the
language that documents are written in: tags, block scalars, merged mappings and directives are
refused.
-/

namespace CallFlow.Yaml

namespace Node

/-- A node as the key of an entry. -/
def toKey : Node → Except Fault Scalar
  | .plain s => resolveKey s
  | .quoted s => .ok (.text s)
  | _ => .error .malformed

mutual

/-- The value of a node. -/
def toValue : Node → Except Fault Value
  | .plain s => (resolve s).map .scalar
  | .quoted s => .ok (.text s)
  | .list items => do
    let vs ← toValues items
    .ok (.list vs)
  | .map entries => do
    let es ← toEntries entries
    .ok (.mapping (Entries.ofPairs es))

/-- The values of the items of a list. -/
def toValues : List Node → Except Fault (List Value)
  | [] => .ok []
  | n :: rest => do
    let v ← toValue n
    let vs ← toValues rest
    .ok (v :: vs)

/-- The entries of a mapping, as they are written. -/
def toEntries : List (Node × Node) → Except Fault (List (Scalar × Value))
  | [] => .ok []
  | (k, n) :: rest => do
    let key ← toKey k
    let v ← toValue n
    let es ← toEntries rest
    .ok ((key, v) :: es)

end

end Node

/-- Reads the document of a YAML text. -/
def read (s : String) : Except Fault Value := do
  let ts ← tokens s
  match Node.ofTokens? ts with
  | some n => n.toValue
  | none => .error .malformed

example : (read "a: [1, 'x']\nb:\n- c: {d: ~}\n- e\n").toOption.any (·.same
    (.mapping [(.text "a", .list [.int 1, .text "x"]),
      (.text "b", .list [.mapping [(.text "c", .mapping [(.text "d", .null)])], .text "e"])])) =
    true := by decide +kernel
example : ["a: b: c", "\ta", "[a", "a: 1\n b: 2", "*x", "- a\nb"].all
    (fun s => (read s).toOption.isNone) = true := by decide +kernel

end CallFlow.Yaml
