import AdaptiveArray.Edit.Storage
import AdaptiveArray.Traversal.Equality

/-!
Removing elements in place, in one pass from left to right.

`removeWhere` moves what is kept over what is removed as it goes.  The array is made
writable at the first match, so a pass without a match changes nothing, and on a frozen
array fails only at a match.  When the test itself fails the rest is kept.
-/

namespace AdaptiveArray

/-- A block of the guest program, told the number of its call.  An array that is being edited is out
of the arena while a block runs, so if its store is native, the block does not reach the slots by
their address, which is registered still.  Blocks that do are left out. -/
abbrev Block (β : Type) := Nat → Value → Action β

def Block.run {β : Type} (f : Block β) (v : Value) : Action β :=
  Action.call fun n => f n v

namespace Edit

/-- Where a pass stands: what it has read, where the next kept element goes, the last element
removed, and the error that stopped it. -/
structure Pass where
  read : Nat := 0
  write : Nat := 0
  found : Option Value := none
  error : Option ArrayError := none
  deriving Repr, Inhabited

def removePass (test : Value → Edit Bool) : (left : Nat) → Pass → Edit Pass
  | 0, p => return p
  | left + 1, p => do
      Action.pollAt p.read
      let v ← getSlot p.read
      match ← attempt (test v) with
      | .error e => return { p with error := some e }
      | .ok true =>
          if p.found.isNone then
            checkFrozen
            ensureMutable
          removePass test left { p with read := p.read + 1, found := some v }
      | .ok false =>
          if p.write ≠ p.read then moveSlots p.read p.write 1
          removePass test left { p with read := p.read + 1, write := p.write + 1 }

def removeWhere (test : Value → Edit Bool) : Edit (Option Value) := do
  let n ← size
  let _ ← Action.options
  let p ← removePass test n {}
  if p.write ≠ p.read then
    let rest := n - p.read
    moveSlots p.read p.write rest
    clearSlots (p.write + rest) n
    setSize (p.write + rest)
  match p.error with
  | some e => Action.fail e
  | none => return p.found

def delete? (v : Value) : Edit (Option Value) :=
  removeWhere fun x => return (← get).arena.equal .numeric x v

def deleteOr (v : Value) (missing : Value → Edit Value) : Edit Value := do
  match ← delete? v with
  | some found => return found
  | none => missing v

def delete (v : Value) : Edit Value :=
  deleteOr v fun _ => return .nil

def deleteAt (index : Int64) : Edit Value := do
  checkFrozen
  let n ← size
  match (← get).body.position? index with
  | none => return .nil
  | some position =>
      if n ≤ position then return .nil
      let v ← getSlot position
      ensureMutable
      moveSlots (position + 1) position (n - position - 1)
      clearSlots (n - 1) n
      setSize (n - 1)
      return v

def compact : Edit Bool := do
  checkFrozen
  if (← kind).isPrimitive then return false
  return (← removeWhere fun x => return x.isNil).isSome

def reject (f : Block Bool) : Edit Bool := do
  checkFrozen
  return (← removeWhere fun x => f.run x).isSome

def keepIf (f : Block Bool) : Edit Unit := do
  checkFrozen
  let _ ← removeWhere fun x => return !(← f.run x)

end Edit

end AdaptiveArray
