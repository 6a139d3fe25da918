import AdaptiveArray.Arena.Action

/-!
How long array objects live.

An object lives while something holds it: a root, or a slot of a store that is alive.
A view holds its whole backing.  Objects that hold each other in a circle stay alive,
so giving up objects is repeated only until nothing changes.
-/

namespace AdaptiveArray

def Buffer.arrayIds : Buffer → List ArrayId
  | .object xs => xs.toList.filterMap Value.arrayId?
  | _ => []

def Store.arrayIds : Store → List ArrayId
  | .view v => v.backing.buffer.arrayIds
  | s => s.buffer.arrayIds

namespace Arena

def heldIds (a : Arena) (roots : List ArrayId) : List ArrayId :=
  roots ++ a.liveStores.flatMap Store.arrayIds

def marks (n : Nat) (ids : List ArrayId) : Array Bool :=
  ids.foldl (fun marks id => marks.setIfInBounds id true) (Array.replicate n false)

def unheld (a : Arena) (roots : List ArrayId) : List ArrayId :=
  let marks := marks a.objects.size (a.heldIds roots)
  (List.range a.objects.size).filter fun id =>
    (a.object? id).isSome && !(marks[id]?.getD false)

def drop (a : Arena) (id : ArrayId) : Arena :=
  match a.body? id with
  | some b => { a.release b.store with objects := a.objects.setIfInBounds id none }
  | none => a

def sweep (roots : List ArrayId) : Nat → Arena → Arena
  | 0, a => a
  | rounds + 1, a =>
      match a.unheld roots with
      | [] => a
      | ids => sweep roots rounds (ids.foldl drop a)

def settle (a : Arena) (roots : List ArrayId) : Arena :=
  sweep roots (a.objects.size + 1) a

def dropStore (a : Arena) (name : String) : Arena :=
  match a.store? name with
  | some s => { a.release s with stores := a.stores.filter fun entry => entry.1 ≠ name }
  | none => a

end Arena

end AdaptiveArray
