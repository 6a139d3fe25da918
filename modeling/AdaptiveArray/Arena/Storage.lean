import AdaptiveArray.Arena.Action

/-!
Allocating stores and copying between them.

Every copy of elements goes through `copyTo` or `copyBuffer`: they check both ranges,
convert where the kinds differ, and poll the safepoint hook while values are boxed or
handed on.
-/

namespace AdaptiveArray

def Element.bytes : Element → Nat
  | int => 4
  | long => 8
  | double => 8
  | object => 24

def Element.allocatable (e : Element) (n : Nat) : Bool :=
  n * e.bytes < 0x8000000000000000

namespace Action

def newBuffer (e : Element) (n : Nat) : Action Buffer :=
  if e.allocatable n then pure (.zeros e n) else throw .outOfMemory

def newNative (n : Nat) : Action Store := do
  if !Element.object.allocatable (max n 1) then throw .outOfMemory
  modifyGet fun a =>
    (.native a.nextAddress (Array.replicate n .nil),
      { a.register a.nextAddress ⟨n, false⟩ with nextAddress := a.nextAddress + 1 })

/-- A store of `n` zero elements, to be written.  A view kind gives the owned one; the empty kind
gives values, unless `n` is zero. -/
def allocate (k : Kind) (n : Nat) : Action Store :=
  match k.forMutation with
  | .empty => if n = 0 then pure .empty else return .owned (← newBuffer .object n)
  | .owned e => return .owned (← newBuffer e n)
  | .view e => return .owned (← newBuffer e n)
  | .native => newNative n

def pollForCopy (dst : Element) (n : Nat) : Action Unit := do
  let o ← options
  if dst = .object then modify fun a => { a with polls := a.polls + o.pollsIn n }

def copyTo (src : Store) (srcStart : Nat) (dst : Store) (dstStart len : Nat) : Action Store := do
  ensure (src.hasRange srcStart (srcStart + len))
  ensure (dst.hasWritable dstStart (dstStart + len))
  if len = 0 then return dst
  let e := dst.buffer.element
  let part ← demand ((src.slice srcStart (srcStart + len)).convert? e)
  pollForCopy e len
  return dst.modify fun b => b.overwrite dstStart part

def copyAll (start : Nat) : List Body → Store → Action Store
  | [], dst => return dst
  | b :: rest, dst => do
      let dst ← copyTo b.store 0 dst start b.size
      copyAll (start + b.size) rest dst

def copyBuffer (b : Buffer) : Action Store := do
  if b.element = .object && b.size ≠ 0 then pollOver b.size
  return .owned b

/-- The elements `[start, stop)` for another holder: a window of the same backing, or a copy. -/
def extract (s : Store) (start stop : Nat) : Action Store := do
  ensure (s.hasRange start stop)
  match s with
  | .owned _ => copyBuffer (s.slice start stop)
  | .native _ _ => copyBuffer (s.slice start stop)
  | s => return s.extract start stop

/-- A store with the elements of the view and no other owner.  The only view of a backing takes the
backing over when it begins at its start, and clears what lies past its end. -/
def own (v : View) (sole : Bool) : Action Store :=
  if sole && v.offset = 0 then
    let b := v.backing.buffer
    return .owned (b.clear v.length b.size)
  else copyBuffer v.buffer

def boxedCopy (s : Store) (size capacity : Nat) : Action (Array Value) := do
  ensure (size ≤ capacity)
  let all ← newBuffer .object capacity
  let copy ← copyTo s 0 (.owned all) 0 size
  return copy.values

def clearRange (s : Store) (start stop : Nat) : Action Store := do
  if start < stop then
    ensure (s.hasWritable start stop)
    return s.clear start stop
  else return s

def grownCapacity (current needed : Nat) : Action Nat := do
  if needed = 0 then return 0
  ensure (current < needed)
  return (← options).grownCapacity current needed

def capacityForOneMore (current : Nat) : Action Nat :=
  return (← options).capacityForOneMore current

end Action

end AdaptiveArray
