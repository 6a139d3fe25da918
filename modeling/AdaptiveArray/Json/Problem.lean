import AdaptiveArray.Decimal.Layout
import AdaptiveArray.Text.Quoted

/-!
What can be wrong with a JSON text, and how floats are laid out in one.
-/

namespace AdaptiveArray.Json

/-- Floats are positional from `0.00001` up to below `10 ^ 16`, and their exponents are not
padded. -/
def layout : Decimal.Layout :=
  { plainFrom := -5, plainTo := 16, keepPoint := false, exponentDigits := 1, tie := .even }

inductive Found where
  | null
  | bool (b : Bool)
  | integer (i : Int)
  | float (x : Binary64)
  | string (text : String)
  | sequence
  | map
  deriving DecidableEq, Repr

/-- The text ends too early, breaks the grammar or a limit, or is well formed but not what was
expected. -/
inductive Problem where
  | truncated
  | malformed
  | wrongType (found : Found) (expected : String)
  | wrongValue (integer : Int) (expected : String)
  | duplicateField (name : String)
  | beingModified
  deriving DecidableEq, Repr

def Found.describe : Found → String
  | null => "null"
  | bool b => "boolean \x60" ++ (if b then "true" else "false") ++ "\x60"
  | integer i => "integer \x60" ++ toString i ++ "\x60"
  | float x => "floating point \x60" ++ layout.write x ++ "\x60"
  | string text => "string " ++ Text.quote text
  | sequence => "sequence"
  | map => "map"

namespace Problem

def category : Problem → String
  | truncated => "Eof"
  | malformed => "Syntax"
  | _ => "Data"

def message? : Problem → Option String
  | truncated => none
  | malformed => none
  | wrongType found expected =>
      some ("invalid type: " ++ found.describe ++ ", expected " ++ expected)
  | wrongValue i expected =>
      some ("invalid value: integer \x60" ++ toString i ++ "\x60, expected " ++ expected)
  | duplicateField name => some ("duplicate field \x60" ++ name ++ "\x60")
  | beingModified => some "array is being modified"

end Problem

end AdaptiveArray.Json
