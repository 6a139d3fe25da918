import AdaptiveArray.Edit.Basic

/-!
Getting a store ready to be written.

`ensureStorage` leaves the array with a store of its own, of the kind asked for and with
room for the elements asked for.  It does nothing if the store is that already, takes a
view out of sharing if only that is missing, and otherwise moves to a new store.
-/

namespace AdaptiveArray.Edit

def reallocate (target : Kind) (capacity : Nat) : Edit Unit := do
  let n ← size
  let fresh ← Action.allocate target capacity
  let grown ← Action.copyTo (← store) 0 fresh 0 n
  modify fun w => { w with arena := w.arena.attachMarker grown }
  replaceStore grown n

/-- Whether no live store, and none of those put aside, looks at the backing of a view that has been
taken out of its array. -/
def isSole (v : View) (aside : List Store) : Edit Bool := do
  let w ← get
  return w.arena.viewers v.backing.id = 0 && !aside.any fun s => s.views v.backing.id

def unshare (v : View) (aside : List Store) : Edit Unit := do
  let n ← size
  let owned ← Action.own v (← isSole v aside)
  let owned ← Action.clearRange owned n owned.capacity
  replaceStore owned n

def ensureStorage (target : Kind) (needed : Nat) (aside : List Store := []) : Edit Unit := do
  let current ← kind
  let capacity ← capacity
  if target = current && current.isMutable && needed ≤ capacity then return ()
  match ← store with
  | .view v =>
      if target = current.forMutation && needed ≤ capacity then unshare v aside
      else reallocate target (← room capacity)
  | _ => reallocate target (← room capacity)
where
  room (capacity : Nat) : Edit Nat :=
    if capacity < needed then Action.grownCapacity capacity needed else return capacity

def ensureMutable : Edit Unit := do
  ensureStorage (← kind).forMutation (← size)

end AdaptiveArray.Edit
