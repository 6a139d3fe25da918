import AdaptiveArray.Traversal.Basic
import AdaptiveArray.Decimal.Layout
import AdaptiveArray.Text.Quoted

/-!
`inspect`: values as text for people.

An array that is being printed already, or that cannot be read, is shown as `[...]`.
-/

namespace AdaptiveArray

/-- Floats are positional from `0.0001` up to below `10 ^ 16`, and have two digits of exponent at
least. -/
def inspectLayout : Decimal.Layout :=
  { plainFrom := -4, plainTo := 16, keepPoint := true, exponentDigits := 2, tie := .up }

def Binary64.inspect (x : Binary64) : String :=
  if x.isNaN then "NaN"
  else if !x.isFinite then if x.isNegative then "-Infinity" else "Infinity"
  else inspectLayout.write x

namespace Traversal

def elided : String := "[...]"

def inspectValue (nested : ArrayId → Traversal String) : Value → Traversal String
  | .nil => return "nil"
  | .bool b => return if b then "true" else "false"
  | .int i => return toString i.toInt
  | .float x => return x.inspect
  | .symbol name => return ":" ++ name
  | .string _ text => return Text.quote text
  | .array id => nested id

def inspectItems (nested : ArrayId → Traversal String) (items : List Value) : Traversal String := do
  let shown ← items.mapM (inspectValue nested)
  return "[" ++ String.intercalate ", " shown ++ "]"

def inspectArray (a : Arena) : Nat → ArrayId → Traversal String
  | 0, _ => return elided
  | depth + 1, id =>
      guarded id elided do
        match a.readable? id with
        | some b => inspectItems (inspectArray a depth) b.toList
        | none => return elided

end Traversal

namespace Arena

def inspect (a : Arena) (v : Value) : String :=
  (Traversal.inspectValue (Traversal.inspectArray a a.depth) v).run

def inspectBody (a : Arena) (b : Body) : String :=
  (Traversal.inspectItems (Traversal.inspectArray a a.depth) b.toList).run

end Arena

end AdaptiveArray
