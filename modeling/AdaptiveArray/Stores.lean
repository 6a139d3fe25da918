import AdaptiveArray.Arena.Storage

/-!
Bare stores: stores that a client holds by name, outside any array.
-/

namespace AdaptiveArray

namespace Action

def storeNamed (name : String) : Action Store := do
  demand ((← get).store? name)

def bindStore (name : String) (s : Store) : Action Unit :=
  modify fun a => ((a.store? name).elim a a.release).setStore name s

def changeStore (name : String) (change : Store → Action Store) : Action Unit := do
  let changed ← change (← storeNamed name)
  modify fun a => a.setStore name changed

def takeStore (name : String) : Action Store := do
  let s ← storeNamed name
  modify fun a => { a with stores := a.stores.filter fun entry => entry.1 ≠ name }
  return s

def storeGet (name : String) (i : Nat) : Action Value := do
  demand ((← storeNamed name).get? i)

def storeSet (name : String) (i : Nat) (v : Value) : Action Unit :=
  changeStore name fun s => do
    ensure (s.admits i v)
    return s.set i v

def storeCopy (name dst : String) (srcStart dstStart len : Nat) : Action Unit := do
  let src ← storeNamed name
  changeStore dst fun d => copyTo src srcStart d dstStart len

def storeMove (name : String) (src dst len : Nat) : Action Unit :=
  changeStore name fun s => do
    ensure (s.canMove src dst len)
    return s.move src dst len

def storeReverse (name : String) (start stop : Nat) : Action Unit :=
  changeStore name fun s => do
    ensure (s.hasWritable start stop)
    return s.reverse start stop

def storeClear (name : String) (start stop : Nat) : Action Unit :=
  changeStore name fun s => clearRange s start stop

def storeSort (name : String) (size : Nat) : Action Unit :=
  changeStore name fun s => do
    ensure (s.hasWritable 0 size)
    return .owned (← demand (s.buffer.sort? size))

def storeUnshare (name : String) : Action Unit :=
  changeStore name fun s => do
    match s with
    | .view v => own v ((← get).viewers v.backing.id ≤ 1)
    | s => return s

/-- Turns a store into a backing.  Only a store that owns an ordinary buffer can become one; any
other stays. -/
def storeBacking (name : String) : Action (Option Buffer) := do
  match (← storeNamed name).ownedBuffer? with
  | some b =>
      let _ ← takeStore name
      return some b
  | none => return none

def filledStore (k : Kind) (slots : List Value) : Action Store := do
  let fresh ← allocate k slots.length
  slots.zipIdx.foldlM (fun s (v, i) => do
    ensure (s.admits i v)
    return s.set i v) fresh

def viewStore (e : Element) (slots : List Value) (offset length : Nat) : Action Store := do
  let filled ← filledStore (.owned e) slots
  let backing ← newBacking filled.buffer
  return .view (← demand (View.make? backing offset length))

end Action

end AdaptiveArray
