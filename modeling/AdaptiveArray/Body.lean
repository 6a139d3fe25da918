import AdaptiveArray.Store

/-!
The body of an array: a store, how many of its slots are in use, and whether the array
is frozen.
-/

namespace AdaptiveArray

def maxSize : Nat :=
  2147483647

structure Body where
  store : Store := .empty
  size : Nat := 0
  frozen : Bool := false
  deriving DecidableEq, Repr, Inhabited

namespace Body

def empty : Body := {}

def kind (b : Body) : Kind :=
  b.store.kind

def capacity (b : Body) : Nat :=
  b.store.capacity

def isEmpty (b : Body) : Bool :=
  b.size = 0

def buffer (b : Body) : Buffer :=
  b.store.slice 0 b.size

def elements (b : Body) : Array Value :=
  b.buffer.values

def toList (b : Body) : List Value :=
  b.elements.toList

def ofStore? (store : Store) (size : Nat) : Option Body :=
  if size ≤ store.capacity then some { store, size } else none

def ofBuffer (b : Buffer) : Body :=
  if b.size = 0 then empty else { store := .owned b, size := b.size }

def get? (b : Body) (i : Nat) : Option Value :=
  if i < b.size then b.store.get? i else none

/-- The position an index stands for.  A negative index counts from the end, and there is none
before the start. -/
def position? (b : Body) (index : Int64) : Option Nat :=
  if index.toInt < 0 then
    if index.toInt.natAbs ≤ b.size then some (b.size - index.toInt.natAbs) else none
  else some index.toInt.toNat

def elementAt (b : Body) (index : Int64) : Value :=
  ((b.position? index).bind b.get?).getD .nil

def first (b : Body) : Value :=
  b.elementAt 0

def last (b : Body) : Value :=
  b.elementAt (-1)

def clone (b : Body) : Body :=
  { b with store := b.store.clone }

end Body

end AdaptiveArray
