import AdaptiveArray.Builder
import AdaptiveArray.Edit.Removal

/-!
New arrays from the elements of others: sums, repetitions, filters, maps, folds and
rows.  The operands stay as they are.
-/

namespace AdaptiveArray.Body

def add (x y : Body) : Action Body := do
  let total := x.size + y.size
  if maxSize < total then Action.fail .sizeTooBig
  if total = 0 then return .empty
  let fresh ← Action.allocate (x.kind.join y.kind).forCopy total
  let sum ← Action.copyAll 0 [x, y] fresh
  Action.demand (ofStore? sum total)

def repeatInto (b : Body) : (left : Nat) → (i : Nat) → Store → Action Store
  | 0, _, dst => return dst
  | left + 1, i, dst => do
      Action.pollAt i
      let dst ← Action.copyTo b.store 0 dst (i * b.size) b.size
      repeatInto b left (i + 1) dst

def mul (b : Body) (count : Int64) : Action Body := do
  if count.toInt < 0 then Action.fail .negativeCount
  let total := count.toInt.toNat * b.size
  if maxSize < total then Action.fail .productTooBig
  if total = 0 then return .empty
  let fresh ← Action.allocate b.kind.forCopy total
  let product ← repeatInto b count.toInt.toNat 0 fresh
  Action.demand (ofStore? product total)

def keepInto (test : Value → Action Bool) : List Value → (kept : Nat) → Store →
    Action (Store × Nat)
  | [], kept, dst => return (dst, kept)
  | v :: vs, kept, dst => do
      if ← test v then
        Action.ensure (dst.admits kept v)
        keepInto test vs (kept + 1) (dst.set kept v)
      else keepInto test vs kept dst

def filter (b : Body) (test : Value → Action Bool) : Action Body := do
  let fresh ← Action.allocate b.kind.forCopy b.size
  let (store, kept) ← keepInto test b.toList 0 fresh
  if kept = 0 then return .empty
  Action.demand (ofStore? store kept)

def compact (b : Body) : Action Body :=
  if b.kind.isPrimitive then b.filter fun _ => return true
  else b.filter fun v => return !v.isNil

def select (b : Body) (f : Block Bool) : Action Body :=
  b.filter fun v => f.run v

def reject (b : Body) (f : Block Bool) : Action Body :=
  b.filter fun v => return !(← f.run v)

def mapInto (f : Block Value) : List Value → Builder → Action Builder
  | [], rows => return rows
  | v :: vs, rows => do
      let rows ← rows.push (← f.run v)
      mapInto f vs rows

def map (b : Body) (f : Block Value) : Action Body := do
  let rows ← mapInto f b.toList { expected := b.size }
  rows.finish

def foldFrom (f : Nat → Value → Value → Action Value) : List Value → (memo : Value) → Action Value
  | [], memo => return memo
  | v :: vs, memo => do
      let memo ← Action.call fun n => f n memo v
      foldFrom f vs memo

/-- The fold of the elements.  Without a seed the first element is one, and an empty array gives
nil. -/
def inject (b : Body) (seed? : Option Value) (f : Nat → Value → Value → Action Value) :
    Action Value :=
  match seed?, b.toList with
  | some seed, vs => foldFrom f vs seed
  | none, v :: vs => foldFrom f vs v
  | none, [] => return .nil

def zipInto (others : List Body) : List Value → (i : Nat) → Builder → Action Builder
  | [], _, rows => return rows
  | v :: vs, i, rows => do
      let row ← Action.ofValues (v :: others.map fun b => (b.get? i).getD .nil)
      let id ← Action.newObject row
      let rows ← rows.push (.array id)
      zipInto others vs (i + 1) rows

/-- One row for each element, as long as all operands together, and nil where one is shorter. -/
def zip (b : Body) (others : List Body) : Action Body := do
  let rows ← zipInto others b.toList 0 { expected := b.size }
  rows.finish

end AdaptiveArray.Body
