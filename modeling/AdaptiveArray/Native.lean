import AdaptiveArray.Edit.Storage

/-!
Storage at native addresses.

A native store is registered under its address while it is alive.  Reads and writes by
address go past the array, so they may reach the slots beyond its size; marking visits
the references in every registered store whose markers are attached.
-/

namespace AdaptiveArray

namespace Edit

def toNative : Edit Unit := do
  match ← store with
  | .native _ _ => return ()
  | s =>
      let n ← size
      let fresh ← Action.newNative (max s.capacity n)
      let moved ← Action.copyTo s 0 fresh 0 n
      modify fun w => { w with arena := w.arena.attachMarker moved }
      replaceStore moved n

end Edit

def Store.slotsAt? (address : Address) : Store → Option (Array Value)
  | .native a slots => if a = address then some slots else none
  | _ => none

def Store.writeAt (address : Address) (i : Nat) (v : Value) : Store → Store
  | .native a slots => if a = address then .native a (slots.setIfInBounds i v) else .native a slots
  | s => s

namespace Arena

def slotsAt? (a : Arena) (address : Address) : Option (Array Value) :=
  a.liveStores.findSome? (Store.slotsAt? address)

def writeAt (a : Arena) (address : Address) (i : Nat) (v : Value) : Arena :=
  let write := Store.writeAt address i v
  { a with
    objects := a.objects.map fun o =>
      o.map fun o => { o with body := { o.body with store := write o.body.store } }
    stores := a.stores.map fun (name, s) => (name, write s) }

def isRegistered (a : Arena) (address : Address) : Bool :=
  (a.registration? address).isSome

def markedReferences (a : Arena) : List Value :=
  a.registry.flatMap fun (address, entry) =>
    if entry.marked then
      (((a.slotsAt? address).getD #[]).toList.take entry.capacity).filter Value.isReference
    else []

end Arena

namespace Action

def checkSlot (address : Address) (i : Nat) : Action Unit := do
  match (← get).registration? address with
  | none => fail .released
  | some entry => if entry.capacity ≤ i then fail (.outsideNative i entry.capacity)

def nativeRead (address : Address) (i : Nat) : Action Value := do
  checkSlot address i
  demand (((← get).slotsAt? address).bind fun slots => slots[i]?)

def nativeWrite (address : Address) (i : Nat) (v : Value) : Action Unit := do
  checkSlot address i
  modify fun a => a.writeAt address i v

end Action

end AdaptiveArray
