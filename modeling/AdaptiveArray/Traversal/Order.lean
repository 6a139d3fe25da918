import AdaptiveArray.Traversal.Equality

/-!
`<=>`: the order of values, where there is one.

Numbers are ordered by value, strings and symbols each by their bytes, and arrays by
their first unequal elements, then by size.
-/

namespace AdaptiveArray

namespace Traversal

def orderValues (nested : ArrayId → ArrayId → Traversal (Option Ordering)) :
    Value → Value → Traversal (Option Ordering)
  | .int x, .int y => return some (compare x.toInt y.toInt)
  | .float x, .float y => return Binary64.compare? x y
  | .int x, .float y => return Binary64.compareInt? x y
  | .float x, .int y => return (Binary64.compareInt? y x).map Ordering.swap
  | .string _ x, .string _ y => return some (compare x y)
  | .symbol x, .symbol y => return some (compare x y)
  | .array x, .array y => if x = y then return some .eq else nested x y
  | .nil, .nil => return some .eq
  | .bool x, .bool y => return if x = y then some .eq else none
  | _, _ => return none

/-- The order at the first pair that is not equal, and none from a pair that has no order. -/
def orderPairs (nested : ArrayId → ArrayId → Traversal (Option Ordering)) :
    List (Value × Value) → Traversal (Option Ordering)
  | [] => return some .eq
  | (x, y) :: rest => do
      match ← orderValues nested x y with
      | some .eq => orderPairs nested rest
      | other => return other

def orderBodies (nested : ArrayId → ArrayId → Traversal (Option Ordering))
    (x y : Body) : Traversal (Option Ordering) := do
  match ← orderPairs nested (x.toList.zip y.toList) with
  | some .eq => return some (compare x.size y.size)
  | other => return other

def orderNested (a : Arena) : Nat → ArrayId → ArrayId → Traversal (Option Ordering)
  | 0, _, _ => return none
  | depth + 1, x, y =>
      guarded x none do
        match a.readable? x, a.readable? y with
        | some bx, some by' => orderBodies (orderNested a depth) bx by'
        | _, _ => return none

end Traversal

namespace Arena

def order (a : Arena) (x y : Value) : Option Ordering :=
  (Traversal.orderValues (Traversal.orderNested a a.depth) x y).run

def orderBodies (a : Arena) (x y : Body) : Option Ordering :=
  (Traversal.orderBodies (Traversal.orderNested a a.depth) x y).run

end Arena

end AdaptiveArray
