import AdaptiveArray.Body
import AdaptiveArray.Error
import AdaptiveArray.Options

/-!
The arena: every array object and bare store that is alive, the registry of native
storage, the installed options, and the counters that a client can observe.

An array object is a body with a lock and two marks for sharing between threads.
Objects are never renumbered, so a handle stays valid until its object is gone.
-/

namespace AdaptiveArray

inductive Lock where
  | free
  | mine
  | elsewhere
  deriving DecidableEq, Repr, Inhabited

/-- `shared` says that other threads may see the array; `sharePending` that its elements are to be
shared when its write lock is released. -/
structure ArrayObject where
  body : Body
  shared : Bool := false
  sharePending : Bool := false
  lock : Lock := .free
  deriving DecidableEq, Repr, Inhabited

structure Registration where
  capacity : Nat
  marked : Bool
  deriving DecidableEq, Repr, Inhabited

inductive Operator where
  | intOrder
  | floatOrder
  deriving DecidableEq, Repr

def Operator.name : Operator → String
  | intOrder => "Integer#<=>"
  | floatOrder => "Float#<=>"

structure Arena where
  objects : Array (Option ArrayObject) := #[]
  stores : List (String × Store) := []
  registry : List (Address × Registration) := []
  options? : Option Options := none
  redefined : List Operator := []
  nextString : StringId := 0
  nextBacking : BackingId := 0
  nextAddress : Address := 0
  polls : Nat := 0
  calls : Nat := 0
  deriving Repr, Inhabited

namespace Arena

def object? (a : Arena) (id : ArrayId) : Option ArrayObject :=
  (a.objects[id]?).join

def body? (a : Arena) (id : ArrayId) : Option Body :=
  (a.object? id).map ArrayObject.body

/-- The body of an array that can be looked into without waiting for its lock. -/
def readable? (a : Arena) (id : ArrayId) : Option Body :=
  match a.object? id with
  | some o => if o.lock = .free then some o.body else none
  | none => none

def isShared (a : Arena) (id : ArrayId) : Bool :=
  (a.object? id).any ArrayObject.shared

def modifyObject (a : Arena) (id : ArrayId) (change : ArrayObject → ArrayObject) : Arena :=
  { a with objects := a.objects.modify id (Option.map change) }

def setBody (a : Arena) (id : ArrayId) (b : Body) : Arena :=
  a.modifyObject id fun o => { o with body := b }

def store? (a : Arena) (name : String) : Option Store :=
  a.stores.lookup name

def setStore (a : Arena) (name : String) (s : Store) : Arena :=
  { a with stores := (name, s) :: a.stores.filter fun entry => entry.1 ≠ name }

def liveStores (a : Arena) : List Store :=
  a.objects.toList.filterMap (Option.map fun o => o.body.store) ++ a.stores.map Prod.snd

def viewers (a : Arena) (id : BackingId) : Nat :=
  a.liveStores.countP fun s => s.views id

def registration? (a : Arena) (address : Address) : Option Registration :=
  a.registry.lookup address

def register (a : Arena) (address : Address) (entry : Registration) : Arena :=
  { a with registry := (address, entry) :: a.registry.filter fun e => e.1 ≠ address }

def release (a : Arena) (s : Store) : Arena :=
  match s with
  | .native address _ => { a with registry := a.registry.filter fun e => e.1 ≠ address }
  | _ => a

def attachMarker (a : Arena) (s : Store) : Arena :=
  match s with
  | .native address _ =>
      match a.registration? address with
      | some entry => a.register address { entry with marked := true }
      | none => a
  | _ => a

def isGenuine (a : Arena) (op : Operator) : Bool :=
  !a.redefined.contains op

def redefine (a : Arena) (op : Operator) : Arena :=
  { a with redefined := op :: a.redefined }

def numericSortAllowed (a : Arena) : Bool :=
  a.isGenuine .intOrder && a.isGenuine .floatOrder

end Arena

end AdaptiveArray
