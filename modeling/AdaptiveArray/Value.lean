import AdaptiveArray.Binary64.Basic

/-!
Guest values.

Integers, floats, booleans, `nil` and symbols are known by what they are.  A string
also carries the identity it got when it was made, and an array is a handle: its
elements live in the arena.  So equality of `Value` is identity.
-/

namespace AdaptiveArray

abbrev ArrayId := Nat

abbrev StringId := Nat

inductive Value where
  | nil
  | bool (b : Bool)
  | int (i : Int64)
  | float (x : Binary64)
  | symbol (name : String)
  | string (id : StringId) (text : String)
  | array (id : ArrayId)
  deriving DecidableEq, Repr, Inhabited

namespace Value

def isNil : Value → Bool
  | nil => true
  | _ => false

def isTruthy : Value → Bool
  | nil => false
  | bool b => b
  | _ => true

def arrayId? : Value → Option ArrayId
  | array id => some id
  | _ => none

def isReference : Value → Bool
  | symbol _ => true
  | string _ _ => true
  | array _ => true
  | _ => false

def className : Value → String
  | nil => "NilClass"
  | bool true => "TrueClass"
  | bool false => "FalseClass"
  | int _ => "Integer"
  | float _ => "Float"
  | symbol _ => "Symbol"
  | string _ _ => "String"
  | array _ => "Array"

end Value

end AdaptiveArray
