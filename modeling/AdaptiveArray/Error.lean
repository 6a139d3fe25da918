/-!
Why an operation on arrays fails.

Each constructor of `ArrayError` is one cause.  Its message and the class a guest
program sees are functions of the cause.
-/

namespace AdaptiveArray

inductive ErrorClass where
  | argument
  | range
  | frozen
  | type
  | index
  | runtime
  deriving DecidableEq, Repr

def ErrorClass.name : ErrorClass → String
  | argument => "ArgumentError"
  | range => "RangeError"
  | frozen => "FrozenError"
  | type => "TypeError"
  | index => "IndexError"
  | runtime => "RuntimeError"

inductive Installed where
  | options
  | hook
  deriving DecidableEq, Repr

def Installed.name : Installed → String
  | options => "options"
  | hook => "safepoint hook"

inductive ArrayError where
  | negativeSize
  | sizeTooBig
  | combinedSizeTooBig
  | negativeCount
  | productTooBig
  | incomparable (left right : String)
  | notFinite (text : String)
  | notAnInteger (className : String)
  | frozen (shown : String)
  | indexTooSmall (index : Int) (minimum : Nat)
  | indexTooBig (index : Int)
  | outsideNative (index capacity : Nat)
  | released
  | contended
  | alreadyInstalled (what : Installed)
  | block (family : ErrorClass) (message : String)
  deriving DecidableEq, Repr

namespace ArrayError

def family : ArrayError → ErrorClass
  | negativeSize => .argument
  | sizeTooBig => .argument
  | combinedSizeTooBig => .range
  | negativeCount => .argument
  | productTooBig => .range
  | incomparable _ _ => .argument
  | notFinite _ => .range
  | notAnInteger _ => .type
  | frozen _ => .frozen
  | indexTooSmall _ _ => .index
  | indexTooBig _ => .index
  | outsideNative _ _ => .index
  | released => .runtime
  | contended => .runtime
  | alreadyInstalled _ => .runtime
  | block family _ => family

def message : ArrayError → String
  | negativeSize => "negative array size"
  | sizeTooBig => "array size too big"
  | combinedSizeTooBig => "array size too big"
  | negativeCount => "negative argument"
  | productTooBig => "argument too big"
  | incomparable left right => "comparison of " ++ left ++ " with " ++ right ++ " failed"
  | notFinite text => "float " ++ text ++ " out of range of integer"
  | notAnInteger className => "no implicit conversion of " ++ className ++ " into Integer"
  | frozen shown => "can't modify frozen Array: " ++ shown
  | indexTooSmall index minimum =>
      "index " ++ toString index ++ " too small for array; minimum: -" ++ toString minimum
  | indexTooBig index => "index " ++ toString index ++ " too big"
  | outsideNative index capacity =>
      "index " ++ toString index ++ " outside of native storage of capacity " ++ toString capacity
  | released => "native storage has been released"
  | contended => "array is being modified concurrently"
  | alreadyInstalled what => what.name ++ " already initialized"
  | block _ message => message

end ArrayError

/-- How an operation ends early: an error of the guest program, a buffer too large for any memory,
or a broken internal check.  After the last two nothing more is promised. -/
inductive Fault where
  | raised (error : ArrayError)
  | outOfMemory
  | broken
  deriving DecidableEq, Repr

end AdaptiveArray
