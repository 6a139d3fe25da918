import AdaptiveArray.Buffer

/-!
Stores: who owns the buffer behind an array.

A store is empty, owns its buffer, looks at a window of a shared backing, or keeps its
values at a native address.  A backing never changes while it is shared; its identity
tells which views look at the same one.  The functions here are total; each has a test
for the ranges and values it is meant for, and callers make the test first.
-/

namespace AdaptiveArray

abbrev BackingId := Nat

abbrev Address := Nat

structure Backing where
  id : BackingId
  buffer : Buffer
  deriving DecidableEq, Repr, Inhabited

structure View where
  backing : Backing
  offset : Nat
  length : Nat
  deriving DecidableEq, Repr, Inhabited

inductive Store where
  | empty
  | owned (buffer : Buffer)
  | view (v : View)
  | native (address : Address) (slots : Array Value)
  deriving DecidableEq, Repr, Inhabited

namespace View

def buffer (v : View) : Buffer :=
  v.backing.buffer.slice v.offset (v.offset + v.length)

def make? (backing : Backing) (offset length : Nat) : Option View :=
  if offset + length ≤ backing.buffer.size then some ⟨backing, offset, length⟩ else none

end View

namespace Store

def kind : Store → Kind
  | empty => .empty
  | owned b => .owned b.element
  | view v => .view v.backing.buffer.element
  | native _ _ => .native

def capacity : Store → Nat
  | empty => 0
  | owned b => b.size
  | view v => v.length
  | native _ slots => slots.size

def isMutable (s : Store) : Bool :=
  s.kind.isMutable

def address? : Store → Option Address
  | native address _ => some address
  | _ => none

def backing? : Store → Option Backing
  | view v => some v.backing
  | _ => none

def views (s : Store) (id : BackingId) : Bool :=
  s.backing?.any fun backing => backing.id = id

def buffer : Store → Buffer
  | empty => .object #[]
  | owned b => b
  | view v => v.buffer
  | native _ slots => .object slots

def values (s : Store) : Array Value :=
  s.buffer.values

/-- Whether `[start, stop)` may be read.  Of an empty store only the end is looked at. -/
def hasRange (s : Store) (start stop : Nat) : Bool :=
  match s with
  | empty => stop = 0
  | view v => start ≤ stop && stop ≤ v.length
  | s => s.buffer.hasRange start stop

def slice (s : Store) (start stop : Nat) : Buffer :=
  match s with
  | view v => v.backing.buffer.slice (v.offset + start) (v.offset + stop)
  | s => s.buffer.slice start stop

def slice? (s : Store) (start stop : Nat) : Option Buffer :=
  if s.hasRange start stop then some (s.slice start stop) else none

def get? (s : Store) (i : Nat) : Option Value :=
  match s with
  | empty => none
  | owned b => b.get? i
  | view v => if i < v.length then v.backing.buffer.get? (v.offset + i) else none
  | native _ slots => slots[i]?

def hasWritable (s : Store) (start stop : Nat) : Bool :=
  match s with
  | view _ => false
  | s => s.hasRange start stop

def modify (s : Store) (change : Buffer → Buffer) : Store :=
  match s with
  | empty => empty
  | owned b => owned (change b)
  | view v => view v
  | native address slots =>
      match change (.object slots) with
      | .object slots => native address slots
      | _ => empty

def admits (s : Store) (i : Nat) (v : Value) : Bool :=
  match s with
  | owned b => b.takes v && i < b.size
  | native _ slots => i < slots.size
  | _ => false

def set (s : Store) (i : Nat) (v : Value) : Store :=
  match s with
  | owned b => owned (b.set i v)
  | native address slots => native address (slots.setIfInBounds i v)
  | s => s

def clear (s : Store) (start stop : Nat) : Store :=
  s.modify fun b => b.clear start stop

def reverse (s : Store) (start stop : Nat) : Store :=
  s.modify fun b => b.reverse start stop

def canMove (s : Store) (src dst len : Nat) : Bool :=
  match s with
  | view _ => false
  | s => s.buffer.canMove src dst len

def move (s : Store) (src dst len : Nat) : Store :=
  s.modify fun b => b.move src dst len

/-- The window of a view that starts `start` into this one, or a copy of the elements from a store
of any other kind. -/
def extract (s : Store) (start stop : Nat) : Store :=
  match s with
  | empty => empty
  | view v => view ⟨v.backing, v.offset + start, stop - start⟩
  | s => owned (s.slice start stop)

def clone : Store → Store
  | native _ slots => owned (.object slots)
  | s => s

def summary (s : Store) : String :=
  "Store \x7b kind: " ++ s.kind.name ++ ", capacity: " ++ toString s.capacity ++ " \x7d"

def ownedBuffer? : Store → Option Buffer
  | owned b => some b
  | _ => none

end Store

end AdaptiveArray
