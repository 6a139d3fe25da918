import AdaptiveArray.Builder
import AdaptiveArray.Edit.Fill
import AdaptiveArray.Traversal.Order

/-!
Sorting.

A few elements are sorted by selection, numbers of one kind by their natural order, and
all others by a stable merge sort, which also serves a comparison of the caller's.  A
comparison that fails ends the sort at once.
-/

namespace AdaptiveArray

def Arena.comparand (a : Arena) (v : Value) : String :=
  match v with
  | .string _ _ => v.className
  | .array _ => v.className
  | v => a.inspect v

namespace Action

def compare (x y : Value) : Action Ordering := do
  let a ← get
  match a.order x y with
  | some o => return o
  | none => fail (.incomparable x.className (a.comparand y))

end Action

namespace Sorting

abbrev Comparison := Value → Value → Action Ordering

/-- The least of `x` and the values, and the values that are left, each step putting the larger one
where the smaller one was. -/
def selectLeast (compare : Comparison) (x : Value) : List Value → Action (Value × List Value)
  | [] => return (x, [])
  | y :: ys => do
      if (← compare y x) = .lt then
        let (least, rest) ← selectLeast compare y ys
        return (least, x :: rest)
      else
        let (least, rest) ← selectLeast compare x ys
        return (least, y :: rest)

def bySelection (compare : Comparison) : (n : Nat) → List Value → Action (List Value)
  | n + 1, x :: xs => do
      let (least, rest) ← selectLeast compare x xs
      return least :: (← bySelection compare n rest)
  | _, xs => return xs

/-- Merges two sorted lists behind what is `done`, in reverse.  Of two values that compare equal the
left one goes first.  Polls by the number of values already merged. -/
def merge (compare : Comparison) (out : Nat) (done : List Value) :
    List Value → List Value → Action (List Value)
  | [], ys => return done.reverseAux ys
  | xs, [] => return done.reverseAux xs
  | x :: xs, y :: ys => do
      Action.pollAt out
      if (← compare x y) = .gt then merge compare (out + 1) (y :: done) (x :: xs) ys
      else merge compare (out + 1) (x :: done) xs (y :: ys)
termination_by xs ys => xs.length + ys.length

def byMerging (compare : Comparison) : (depth : Nat) → List Value → Action (List Value)
  | 0, xs => return xs
  | depth + 1, xs =>
      if xs.length ≤ 1 then return xs
      else do
        let mid := xs.length / 2
        let left ← byMerging compare depth (xs.take mid)
        let right ← byMerging compare depth (xs.drop mid)
        merge compare 0 [] left right

end Sorting

namespace Body

def sortBy (b : Body) (compare : Sorting.Comparison) : Action Body := do
  let _ ← Action.options
  let sorted ← Sorting.byMerging compare b.size b.toList
  Action.ofValues sorted

def copyForSort (b : Body) : Action Store := do
  let fresh ← Action.allocate b.kind.forCopy b.size
  Action.copyTo b.store 0 fresh 0 b.size

def sortSmall (b : Body) : Action Body := do
  let copy ← b.copyForSort
  let sorted ← Sorting.bySelection Action.compare b.size b.toList
  let store := (sorted.zipIdx).foldl (fun s (v, i) => s.set i v) copy
  Action.demand (ofStore? store b.size)

def sortNumbers (b : Body) : Action Body := do
  let copy ← b.copyForSort
  let sorted ← Action.demand (copy.buffer.sort? b.size)
  Action.demand (ofStore? (.owned sorted) b.size)

def hasNaN (b : Body) : Bool :=
  match b.buffer with
  | .double xs => xs.any Binary64.isNaN
  | _ => false

def sort (b : Body) : Action Body := do
  if b.size = 0 then return .empty
  if b.size ≤ (← Action.options).smallSize then b.sortSmall
  else if b.kind.isPrimitive && (← get).numericSortAllowed && !b.hasNaN then b.sortNumbers
  else b.sortBy Action.compare

end Body

def Edit.sort : Edit Unit := do
  checkFrozen
  let sorted ← (← get).body.sort
  replace sorted

end AdaptiveArray
