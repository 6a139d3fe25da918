import AdaptiveArray.Arena.Storage
import AdaptiveArray.Traversal.Inspect
import AdaptiveArray.Sharing

/-!
Editing one array object.

An edit works on the body of its owner, taken out of the arena while it runs.  The
owner's write lock is held, so nobody else looks at the place the body was taken from.
Like an action, an edit that ends early keeps what it changed before.
-/

namespace AdaptiveArray

structure Workspace where
  owner : ArrayId
  body : Body
  arena : Arena
  deriving Repr, Inhabited

abbrev Edit := EStateM Fault Workspace

namespace Edit

def ofAction {α : Type} (act : Action α) : Edit α := fun ⟨owner, body, arena⟩ =>
  match act arena with
  | .ok x arena => .ok x ⟨owner, body, arena⟩
  | .error e arena => .error e ⟨owner, body, arena⟩

instance : MonadLift Action Edit := ⟨ofAction⟩

def attempt {α : Type} (e : Edit α) : Edit (Except ArrayError α) := fun w =>
  match e w with
  | .ok x w => .ok (.ok x) w
  | .error (.raised err) w => .ok (.error err) w
  | .error f w => .error f w

def size : Edit Nat :=
  return (← get).body.size

def capacity : Edit Nat :=
  return (← get).body.capacity

def kind : Edit Kind :=
  return (← get).body.kind

def store : Edit Store :=
  return (← get).body.store

def isMutable : Edit Bool :=
  return (← get).body.store.isMutable

def getSlot (i : Nat) : Edit Value := do
  Action.demand ((← get).body.store.get? i)

def setSlot (i : Nat) (v : Value) : Edit Unit := do
  Action.ensure ((← get).body.store.admits i v)
  modify fun ⟨owner, body, arena⟩ => ⟨owner, { body with store := body.store.set i v }, arena⟩

def setSlots (start : Nat) : List Value → Edit Unit
  | [] => return ()
  | v :: vs => do
      setSlot start v
      setSlots (start + 1) vs

def moveSlots (src dst len : Nat) : Edit Unit := do
  Action.ensure ((← get).body.store.canMove src dst len)
  modify fun ⟨owner, body, arena⟩ =>
    ⟨owner, { body with store := body.store.move src dst len }, arena⟩

def clearSlots (start stop : Nat) : Edit Unit := do
  if start < stop then
    Action.ensure ((← get).body.store.hasWritable start stop)
    modify fun ⟨owner, body, arena⟩ =>
      ⟨owner, { body with store := body.store.clear start stop }, arena⟩

def reverseSlots (start stop : Nat) : Edit Unit := do
  Action.ensure ((← get).body.store.hasWritable start stop)
  modify fun ⟨owner, body, arena⟩ =>
    ⟨owner, { body with store := body.store.reverse start stop }, arena⟩

def setSize (n : Nat) : Edit Unit := do
  Action.ensure (n ≤ (← get).body.capacity)
  modify fun w => { w with body := { w.body with size := n } }

def replaceStore (s : Store) (n : Nat) : Edit Unit := do
  Action.ensure (n ≤ s.capacity)
  modify fun w =>
    { w with
      arena := w.arena.release w.body.store
      body := { w.body with store := s, size := n } }

def takeStore : Edit Store := do
  let s ← store
  modify fun w => { w with body := { w.body with store := .empty, size := 0 } }
  return s

def checkFrozen : Edit Unit := do
  let w ← get
  if w.body.frozen then throw (.raised (.frozen (w.arena.inspectBody w.body)))

def propagate (v : Value) : Edit Unit := do
  let w ← get
  if w.arena.isShared w.owner then Action.shareValue v

def propagateAll (vs : List Value) : Edit Unit :=
  vs.forM propagate

def freeze : Edit Unit :=
  modify fun w => { w with body := { w.body with frozen := true } }

end Edit

namespace Action

def checkFrozen (b : Body) : Action Unit := do
  if b.frozen then fail (.frozen ((← get).inspectBody b))

end Action

end AdaptiveArray
