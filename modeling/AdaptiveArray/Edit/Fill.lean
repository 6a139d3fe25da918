import AdaptiveArray.Edit.Removal
import AdaptiveArray.Edit.Append
import AdaptiveArray.Edit.Parts

/-!
Writing every element, and starting an array afresh.
-/

namespace AdaptiveArray.Edit

def fill (v : Value) : Edit Unit := do
  checkFrozen
  let n ← size
  if n = 0 then return ()
  propagate v
  ensureStorage ((← kind).forValue v) n
  Action.pollOver n
  setSlots 0 (List.replicate n v)

def mapFrom (f : Block Value) (n : Nat) : (left : Nat) → (i : Nat) → Edit Unit
  | 0, _ => return ()
  | left + 1, i => do
      let v ← getSlot i
      let mapped ← f.run v
      propagate mapped
      ensureStorage ((← kind).forValue mapped) n
      setSlot i mapped
      mapFrom f n left (i + 1)

/-- Replaces every element by what the block answers.  A failing block leaves the elements it has
not seen. -/
def map (f : Block Value) : Edit Unit := do
  checkFrozen
  let n ← size
  mapFrom f n n 0

def clear : Edit Unit := do
  checkFrozen
  replaceStore .empty 0

def replace (other : Body) : Edit Unit := do
  checkFrozen
  propagateAll other.toList
  replaceStore other.store other.size

def steal (other : ArrayId) : Edit Unit := do
  checkFrozen
  let b ← Action.demand ((← get).arena.body? other)
  Action.checkFrozen b
  propagateAll b.toList
  modify fun w =>
    { w with arena := w.arena.setBody other { b with store := .empty, size := 0 } }
  replaceStore b.store b.size

def sizeArgument (n : Int64) : Edit Nat := do
  if n.toInt < 0 then Action.fail .negativeSize
  if maxSize < n.toInt.toNat then Action.fail .sizeTooBig
  return n.toInt.toNat

def restartFilled (n : Nat) (v : Value) : Edit Unit := do
  if n = 0 then
    replaceStore .empty 0
  else
    propagate v
    let fresh ← Action.allocate (Kind.ofValue v) n
    if v.isNil then replaceStore fresh n
    else
      Action.pollOver n
      replaceStore ((List.range n).foldl (fun s i => s.set i v) fresh) n

def nonFiniteText (x : Binary64) : String :=
  if x.isNaN then "NaN" else if x.isNegative then "-inf" else "inf"

/-- Starts afresh: empty, as a copy of another array, or with `size` copies of the fill value. -/
def restart (size? fill? : Option Value) : Edit Unit := do
  checkFrozen
  let filled (n : Int64) : Edit Unit := do
    restartFilled (← sizeArgument n) (fill?.getD .nil)
  match size?, fill? with
  | none, _ => replaceStore .empty 0
  | some (.array source), none =>
      let w ← get
      if source = w.owner then return ()
      match w.arena.readable? source with
      | some b => replace b.clone
      | none => Action.fail .contended
  | some (.int n), _ => filled n
  | some (.float x), _ =>
      if !x.isFinite then Action.fail (.notFinite (nonFiniteText x))
      filled x.toInt64
  | some other, _ => Action.fail (.notAnInteger other.className)

def pushFrom (f : Block Value) : (left : Nat) → (i : Nat) → Edit Unit
  | 0, _ => return ()
  | left + 1, i => do
      push (← f.run (.int (Int64.ofNat i)))
      pushFrom f left (i + 1)

def restartWith (n : Int64) (f : Block Value) : Edit Unit := do
  checkFrozen
  let n ← sizeArgument n
  replaceStore .empty 0
  pushFrom f n 0

end AdaptiveArray.Edit
