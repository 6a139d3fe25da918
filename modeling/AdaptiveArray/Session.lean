import AdaptiveArray.Mutation
import AdaptiveArray.Lifetime
import AdaptiveArray.Stores
import AdaptiveArray.Traversal.Hash
import AdaptiveArray.Json.Reader
import AdaptiveArray.Json.Writer
import AdaptiveArray.Json.Settings

/-!
A client's session: the arena, and the names by which the client holds arrays and
native addresses.

A name holds its array until it is dropped or given to another.  Between two steps the
session settles: what only the last step held is given up.
-/

namespace AdaptiveArray

/-- `locked` lists the arrays whose write lock is held from step to step. -/
structure Session where
  arena : Arena := {}
  names : List (String × ArrayId) := []
  addresses : List (String × Address) := []
  locked : List ArrayId := []
  deriving Repr, Inhabited

namespace Session

def withDefaults : Session :=
  { arena := { options? := some {} } }

def array? (s : Session) (name : String) : Option ArrayId :=
  s.names.lookup name

def nameOf? (s : Session) (id : ArrayId) : Option String :=
  (s.names.filter fun entry => entry.2 = id).foldl
    (fun least entry =>
      some (match least with
        | some name => if entry.1 < name then entry.1 else name
        | none => entry.1))
    none

def bind (s : Session) (name : String) (id : ArrayId) : Session :=
  { s with names := (name, id) :: s.names.filter fun entry => entry.1 ≠ name }

def unbind (s : Session) (name : String) : Session :=
  { s with names := s.names.filter fun entry => entry.1 ≠ name }

def bindAddress (s : Session) (name : String) (address : Address) : Session :=
  { s with addresses := (name, address) :: s.addresses.filter fun entry => entry.1 ≠ name }

def roots (s : Session) : List ArrayId :=
  s.names.map Prod.snd ++ s.locked

def lock (s : Session) (id : ArrayId) (holder : Lock) : Session :=
  { s with arena := s.arena.setLock id holder, locked := id :: s.locked }

def unlock (s : Session) (id : ArrayId) : Session :=
  { s with arena := s.arena.unlock id, locked := s.locked.erase id }

def settle (s : Session) : Session :=
  { s with arena := s.arena.settle s.roots }

def run {α : Type} (act : Action α) : EStateM Fault Session α :=
  fun ⟨arena, names, addresses, locked⟩ =>
    match act arena with
    | .ok x arena => .ok x ⟨arena, names, addresses, locked⟩
    | .error f arena => .error f ⟨arena, names, addresses, locked⟩

instance : MonadLift Action (EStateM Fault Session) := ⟨run⟩

end Session

end AdaptiveArray
