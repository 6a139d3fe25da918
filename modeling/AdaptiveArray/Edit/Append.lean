import AdaptiveArray.Edit.Storage

/-!
Appending: one value, several one by one, or the elements of other arrays at once.
-/

namespace AdaptiveArray.Edit

def push (v : Value) : Edit Unit := do
  checkFrozen
  propagate v
  let n ← size
  let target := (← kind).forValue v
  if n = (← capacity) then
    let room ← Action.capacityForOneMore n
    if maxSize < n + 1 then Action.fail .sizeTooBig
    reallocate target room
  else ensureStorage target (n + 1)
  setSlot n v
  setSize (n + 1)

def pushAll (vs : List Value) : Edit Unit := do
  checkFrozen
  vs.forM push

/-- Appends the elements of all arrays.  The store is widened once for all of them and grown once to
the combined size. -/
def concat (others : List Body) : Edit Unit := do
  checkFrozen
  let n ← size
  let extra := others.foldl (fun n b => n + b.size) 0
  if extra = 0 then return ()
  if maxSize < n + extra then Action.fail .combinedSizeTooBig
  let target := (others.filter fun b => !b.isEmpty).foldl (fun k b => k.forStore b.kind) (← kind)
  others.forM fun b => propagateAll b.toList
  ensureStorage target (n + extra) (others.map Body.store)
  let grown ← Action.copyAll n others (← takeStore)
  replaceStore grown (n + extra)

end AdaptiveArray.Edit
