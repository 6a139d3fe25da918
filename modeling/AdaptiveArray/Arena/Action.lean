import AdaptiveArray.Arena.Basic

/-!
Actions on the arena.

An action changes the arena and may end early; what it changed before that stays
changed.  The first action that looks at the options installs the defaults if none
were installed.
-/

namespace AdaptiveArray

abbrev Action := EStateM Fault Arena

namespace Action

def fail {α : Type} (e : ArrayError) : Action α :=
  throw (.raised e)

def ensure (holds : Bool) : Action Unit :=
  if holds then pure () else throw .broken

def demand {α : Type} (found : Option α) : Action α :=
  match found with
  | some a => pure a
  | none => throw .broken

def options : Action Options := do
  match (← get).options? with
  | some o => return o
  | none =>
      modify fun a => { a with options? := some {} }
      return {}

def installOptions (o : Options) : Action Unit := do
  if (← get).options?.isSome then fail (.alreadyInstalled .options)
  modify fun a => { a with options? := some o }

def installHook : Action Unit :=
  fail (.alreadyInstalled .hook)

def poll : Action Unit :=
  modify fun a => { a with polls := a.polls + 1 }

def pollAt (i : Nat) : Action Unit := do
  if (← options).isDue i then poll

def pollOver (n : Nat) : Action Unit := do
  let o ← options
  modify fun a => { a with polls := a.polls + o.pollsIn n }

def call {α : Type} (block : Nat → Action α) : Action α := do
  let n := (← get).calls
  modify fun a => { a with calls := n + 1 }
  block n

def newString (text : String) : Action Value :=
  modifyGet fun a => (.string a.nextString text, { a with nextString := a.nextString + 1 })

def newBacking (buffer : Buffer) : Action Backing :=
  modifyGet fun a => (⟨a.nextBacking, buffer⟩, { a with nextBacking := a.nextBacking + 1 })

def newObject (b : Body) : Action ArrayId :=
  modifyGet fun a => (a.objects.size, { a with objects := a.objects.push (some { body := b }) })

def release (s : Store) : Action Unit :=
  modify fun a => a.release s

end Action

end AdaptiveArray
