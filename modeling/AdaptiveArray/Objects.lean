import AdaptiveArray.Derive.Sorting
import AdaptiveArray.Derive.Rotation
import AdaptiveArray.Derive.Combine
import AdaptiveArray.Edit.Splice

/-!
Operations on array objects: taking the write lock, editing under it, and the
operations that involve several objects.

Releasing a lock shares the elements if that was put off while it was held.
-/

namespace AdaptiveArray

namespace Arena

def lockOf (a : Arena) (id : ArrayId) : Option Lock :=
  (a.object? id).map ArrayObject.lock

def setLock (a : Arena) (id : ArrayId) (lock : Lock) : Arena :=
  a.modifyObject id fun o => { o with lock }

def unlock (a : Arena) (id : ArrayId) : Arena :=
  let a := a.setLock id .free
  if (a.object? id).any ArrayObject.sharePending then
    (a.modifyObject id fun o => { o with sharePending := false }).shareElements id
  else a

end Arena

namespace Action

def closing {α : Type} (act : Action α) (change : Arena → Arena) : Action α := fun a =>
  match act a with
  | .ok x a => .ok x (change a)
  | .error f a => .error f (change a)

/-- Runs an action under the write lock of an array, taking the lock unless it is held already. -/
def holding {α : Type} (id : ArrayId) (act : Action α) : Action α := do
  match (← get).lockOf id with
  | some .free =>
      modify fun a => a.setLock id .mine
      closing act fun a => a.unlock id
  | some .mine => act
  | _ => throw .broken

/-- Runs an edit on the body of an array, which is out of the arena meanwhile. -/
def editBody {α : Type} (id : ArrayId) (e : Edit α) : Action α := fun a =>
  match a.body? id with
  | none => .error .broken a
  | some b =>
      match e ⟨id, b, a.setBody id .empty⟩ with
      | .ok x w => .ok x (w.arena.setBody id w.body)
      | .error f w => .error f (w.arena.setBody id w.body)

def edit {α : Type} (id : ArrayId) (e : Edit α) : Action α :=
  holding id (editBody id e)

def bodyOf (id : ArrayId) : Action Body := do
  demand ((← get).body? id)

def dup (id : ArrayId) : Action ArrayId := do
  newObject (← edit id Edit.dup)

def snapshots : List ArrayId → Action (List Body)
  | [] => return []
  | id :: ids => do
      let b ← edit id Edit.dup
      return b :: (← snapshots ids)

/-- Appends the elements that the other arrays have now.  The array may be among them. -/
def concat (id : ArrayId) (others : List ArrayId) : Action Unit := do
  checkFrozen (← bodyOf id)
  let bodies ← snapshots others
  edit id (Edit.concat bodies)

/-- Takes over the elements of another array.  With itself only the frozen mark is looked at. -/
def replace (id other : ArrayId) : Action Unit := do
  checkFrozen (← bodyOf id)
  if id ≠ other then
    let copy ← edit other Edit.dup
    edit id (Edit.replace copy)

def steal (id other : ArrayId) : Action Unit :=
  holding other (edit id (Edit.steal other))

end Action

end AdaptiveArray
