import AdaptiveArray.Arena.Storage

/-!
Building an array one value at a time.

A builder starts with the narrowest store and widens it only when a value does not fit.
When it is full it grows to the expected size first, and doubles after that.
-/

namespace AdaptiveArray

structure Builder where
  store : Store := .empty
  size : Nat := 0
  expected : Nat := 0
  deriving DecidableEq, Repr, Inhabited

namespace Builder

def kind (b : Builder) : Kind :=
  b.store.kind

def nextCapacity (b : Builder) : Action Nat :=
  let capacity := b.store.capacity
  if b.size < capacity then return capacity
  else if b.size < b.expected then return b.expected
  else Action.capacityForOneMore capacity

def makeRoom (b : Builder) (v : Value) : Action Builder :=
  if b.kind.holds v && b.size ≠ b.store.capacity then return b
  else do
    let fresh ← Action.allocate (b.kind.forValue v) (← b.nextCapacity)
    let grown ← Action.copyTo b.store 0 fresh 0 b.size
    return { b with store := grown }

def push (b : Builder) (v : Value) : Action Builder := do
  let ⟨store, size, expected⟩ ← b.makeRoom v
  Action.ensure (store.admits size v)
  return ⟨store.set size v, size + 1, expected⟩

def pushAll (b : Builder) : List Value → Action Builder
  | [] => return b
  | v :: vs => do
      let b ← b.push v
      b.pushAll vs

def finish (b : Builder) : Action Body :=
  if b.size = 0 then return .empty else Action.demand (Body.ofStore? b.store b.size)

end Builder

namespace Action

def ofValues (vs : List Value) : Action Body := do
  let b ← Builder.pushAll { expected := vs.length } vs
  b.finish

end Action

end AdaptiveArray
