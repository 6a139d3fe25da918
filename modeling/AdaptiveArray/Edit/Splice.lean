import AdaptiveArray.Edit.Storage

/-!
Writing at a position: inserting values, and overwriting one element.

Both may reach past the end; what lies between is filled with nil.
-/

namespace AdaptiveArray.Edit

def insertAt (position : Nat) (vs : List Value) : Edit Unit := do
  let n ← size
  let total := max position n + vs.length
  if maxSize < total then Action.fail (.indexTooBig position)
  let current ← kind
  let padded := if n < position then current.forValue .nil else current
  let target := vs.foldl Kind.forValue padded
  propagateAll vs
  ensureStorage target total
  if position < n then moveSlots position (position + vs.length) (n - position)
  else clearSlots n position
  setSlots position vs
  setSize total

def insert (index : Int64) (vs : List Value) : Edit Unit := do
  checkFrozen
  if vs.isEmpty then return ()
  let n ← size
  if index.toInt < 0 then
    let position := index.toInt + n + 1
    if position < 0 then Action.fail (.indexTooSmall index.toInt (n + 1))
    insertAt position.toNat vs
  else insertAt index.toInt.toNat vs

def unshift (vs : List Value) : Edit Unit := do
  checkFrozen
  if vs.isEmpty then return ()
  insertAt 0 vs

def set (index : Int64) (v : Value) : Edit Unit := do
  checkFrozen
  let n ← size
  match (← get).body.position? index with
  | none => Action.fail (.indexTooSmall index.toInt n)
  | some position =>
      propagate v
      let target := (← kind).forValue v
      if position < n then
        ensureStorage target n
        setSlot position v
      else
        if maxSize < position + 1 then Action.fail (.indexTooBig index.toInt)
        let padded := if n < position then target.forValue .nil else target
        ensureStorage padded (position + 1)
        clearSlots n position
        setSlot position v
        setSize (position + 1)

end AdaptiveArray.Edit
