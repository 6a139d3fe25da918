import AdaptiveArray.Edit.Storage

/-!
Parts of an array: taking elements off either end, slicing, and duplicating.

A slice, a duplicate and what `shift` leaves look at the same backing as the array does
afterwards; they are copied only when one side is written.
-/

namespace AdaptiveArray.Edit

def countArgument (n : Int64) : Edit Nat :=
  if n.toInt < 0 then Action.fail .negativeSize else return n.toInt.toNat

/-- Moves a buffer of the array's own behind a view, and answers another view of
`[start, stop)`.  Any other store stays, and the part is taken as a store takes it. -/
def shareRange (start stop : Nat) : Edit Store := do
  match ← store with
  | .owned b =>
      let backing ← Action.newBacking b
      let part ← Action.demand (View.make? backing start (stop - start))
      modify fun w =>
        { w with body := { w.body with store := .view ⟨backing, 0, b.size⟩ } }
      return .view part
  | s => Action.extract s start stop

def extractShared (start stop : Nat) : Edit Store := do
  Action.ensure (start ≤ stop && stop ≤ (← size))
  shareRange start stop

/-- The elements from `start` on, at most `length` of them.  There is no slice if `start` lies
outside the array or `length` is negative. -/
def slice (start length : Int64) : Edit (Option Body) := do
  let n ← size
  match (← get).body.position? start with
  | none => return none
  | some first =>
      if n < first || length.toInt < 0 then return none
      let stop := min (first + length.toInt.toNat) n
      let part ← extractShared first stop
      return some (← Action.demand (Body.ofStore? part (stop - first)))

def dup : Edit Body := do
  let n ← size
  if n = 0 then return .empty
  let part ← extractShared 0 n
  Action.demand (Body.ofStore? part n)

def pop : Edit Value := do
  checkFrozen
  let n ← size
  if n = 0 then return .nil
  let v ← getSlot (n - 1)
  if ← isMutable then clearSlots (n - 1) n
  setSize (n - 1)
  return v

def popN (count : Int64) : Edit Body := do
  checkFrozen
  let n ← size
  let taken := min (← countArgument count) n
  if taken = 0 then return .empty
  let part ← Action.extract (← store) (n - taken) n
  if ← isMutable then clearSlots (n - taken) n
  setSize (n - taken)
  Action.demand (Body.ofStore? part taken)

def shift : Edit Value := do
  checkFrozen
  let n ← size
  if n = 0 then return .nil
  let v ← getSlot 0
  let rest ← extractShared 1 n
  replaceStore rest (n - 1)
  return v

def shiftN (count : Int64) : Edit Body := do
  checkFrozen
  let n ← size
  let taken := min (← countArgument count) n
  if taken = 0 then return .empty
  let part ← extractShared 0 taken
  let rest ← extractShared taken n
  replaceStore rest (n - taken)
  Action.demand (Body.ofStore? part taken)

end AdaptiveArray.Edit
