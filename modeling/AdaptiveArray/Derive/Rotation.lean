import AdaptiveArray.Arena.Storage
import AdaptiveArray.Edit.Storage

/-!
Rotation to the left.

A rotated copy is made of two block copies.  In place, a short array is rotated through
a copy of its elements and a long one by three reversals.
-/

namespace AdaptiveArray

def rotationOf (count : Int64) (size : Nat) : Nat :=
  (count.toInt % size).toNat

namespace Action

def rotateCopy (src : Store) (rotation size : Nat) (dst : Store) : Action Store := do
  let dst ← copyTo src rotation dst 0 (size - rotation)
  copyTo src 0 dst (size - rotation) rotation

end Action

def Body.rotate (b : Body) (count : Int64) : Action Body := do
  if b.size = 0 then return .empty
  let fresh ← Action.allocate b.kind.forCopy b.size
  let rotated ← Action.rotateCopy b.store (rotationOf count b.size) b.size fresh
  Action.demand (Body.ofStore? rotated b.size)

namespace Edit

def rotateByIndex (rotation size : Nat) : Edit Unit := do
  let elements := (← get).body.elements
  setSlots 0 ((List.range size).map fun i => elements.getD ((i + rotation) % size) .nil)

def rotateByReversal (rotation size : Nat) : Edit Unit := do
  reverseSlots 0 rotation
  reverseSlots rotation size
  reverseSlots 0 size

def rotate (count : Int64) : Edit Unit := do
  checkFrozen
  let n ← size
  if n = 0 then return ()
  let rotation := rotationOf count n
  if rotation = 0 then return ()
  if !(← isMutable) then
    let fresh ← Action.allocate (← kind).forMutation n
    let rotated ← Action.rotateCopy (← store) rotation n fresh
    replaceStore rotated n
  else if n ≤ (← Action.options).maxExplodeSize then rotateByIndex rotation n
  else rotateByReversal rotation n

end Edit

end AdaptiveArray
