import AdaptiveArray.Arena.Action

/-!
Sharing of arrays between threads.

Marking a value as shared marks every array that can be reached from it.  The walk does
not enter an array that was shared before, because whatever a shared array holds is
shared already.  An array whose write lock is held cannot be walked; it is marked so
that its elements are shared when the lock is released.
-/

namespace AdaptiveArray

namespace Arena

def markShared (a : Arena) (id : ArrayId) : Arena :=
  a.modifyObject id fun o => { o with shared := true }

def requestShareWalk (a : Arena) (id : ArrayId) : Arena :=
  a.modifyObject id fun o => { o with sharePending := true }

def shareArray (a : Arena) (id : ArrayId) : Arena × Bool :=
  if a.isShared id then (a, false) else (a.markShared id, (a.object? id).isSome)

def shareItems (a : Arena) (pending : List ArrayId) : List Value → Arena × List ArrayId
  | [] => (a, pending)
  | .array id :: rest =>
      match a.shareArray id with
      | (a, true) => shareItems a (id :: pending) rest
      | (a, false) => shareItems a pending rest
  | _ :: rest => shareItems a pending rest

/-- Shares what the pending arrays hold.  Every array becomes pending at most once, so the number of
objects bounds the steps. -/
def shareWalk : Nat → List ArrayId → Arena → Arena
  | 0, _, a => a
  | _ + 1, [], a => a
  | steps + 1, id :: pending, a =>
      match a.readable? id with
      | none => shareWalk steps pending (a.requestShareWalk id)
      | some b =>
          let (a, pending) := a.shareItems pending b.toList
          shareWalk steps pending a

def shareElements (a : Arena) (id : ArrayId) : Arena :=
  shareWalk (a.objects.size + 1) [id] a

def shareValue (a : Arena) (v : Value) : Arena :=
  match v with
  | .array id =>
      match a.shareArray id with
      | (a, true) => a.shareElements id
      | (a, false) => a
  | _ => a

end Arena

namespace Action

def shareValue (v : Value) : Action Unit :=
  modify fun a => a.shareValue v

end Action

end AdaptiveArray
