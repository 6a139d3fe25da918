import AdaptiveArray.Traversal.Basic
import AdaptiveArray.Binary64.Rounding

/-!
Equality of values: `==`, under which an integer equals the float of the same value,
and `eql?`, under which it does not.

Two handles of one array are equal whatever it holds.  Of two different arrays only the
left one is kept as in progress, and meeting it again counts as equal; an array that
cannot be read equals no other.
-/

namespace AdaptiveArray

/-- Which equality: `numeric` is `==`, `strict` is `eql?`. -/
inductive Equality where
  | numeric
  | strict
  deriving DecidableEq, Repr

def Value.same : Value → Value → Bool
  | .array x, .array y => x = y
  | .string x _, .string y _ => x = y
  | .float x, .float y => x.bits = y.bits
  | .nil, .nil => true
  | .bool x, .bool y => x = y
  | .int x, .int y => x = y
  | .symbol x, .symbol y => x = y
  | _, _ => false

namespace Traversal

def equalValues (how : Equality) (nested : ArrayId → ArrayId → Traversal Bool) :
    Value → Value → Traversal Bool
  | .nil, .nil => return true
  | .bool x, .bool y => return x = y
  | .int x, .int y => return x = y
  | .float x, .float y => return x.numEq y
  | .int x, .float y => return how = .numeric && Binary64.compareInt? x y = some .eq
  | .float x, .int y => return how = .numeric && Binary64.compareInt? y x = some .eq
  | .symbol x, .symbol y => return x = y
  | .string _ x, .string _ y => return x = y
  | .array x, .array y => if x = y then return true else nested x y
  | _, _ => return false

def equalLists (how : Equality) (nested : ArrayId → ArrayId → Traversal Bool)
    (xs ys : List Value) : Traversal Bool :=
  allM (fun pair => equalValues how nested pair.1 pair.2) (xs.zip ys)

def equalBodies (how : Equality) (nested : ArrayId → ArrayId → Traversal Bool)
    (x y : Body) : Traversal Bool :=
  if x.size ≠ y.size then return false
  else match x.buffer, y.buffer with
    | .int xs, .int ys => return xs = ys
    | .long xs, .long ys => return xs = ys
    | .double xs, .double ys => return (xs.toList.zip ys.toList).all fun p => p.1.numEq p.2
    | xs, ys => equalLists how nested xs.values.toList ys.values.toList

def equalArrays (a : Arena) (how : Equality) : Nat → ArrayId → ArrayId → Traversal Bool
  | 0, _, _ => return false
  | depth + 1, x, y =>
      guarded x true do
        match a.readable? x, a.readable? y with
        | some bx, some by' => equalBodies how (equalArrays a how depth) bx by'
        | _, _ => return false

end Traversal

namespace Arena

def equal (a : Arena) (how : Equality) (x y : Value) : Bool :=
  (Traversal.equalValues how (Traversal.equalArrays a how a.depth) x y).run

def equalBodies (a : Arena) (how : Equality) (x y : Body) : Bool :=
  (Traversal.equalBodies how (Traversal.equalArrays a how a.depth) x y).run

def includes (a : Arena) (b : Body) (v : Value) : Bool :=
  b.toList.any fun x => a.equal .numeric x v

end Arena

end AdaptiveArray
