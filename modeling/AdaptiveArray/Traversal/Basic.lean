import AdaptiveArray.Arena.Basic

/-!
Walks through nested arrays.

Arrays form a graph, so a walk keeps the arrays it is inside of.  An array met again
there is not entered a second time; what stands for it then is up to the walk.  The
number of array objects bounds how deep a walk can get, and each walk recurses on that
bound.
-/

namespace AdaptiveArray

abbrev Traversal := StateM (List ArrayId)

namespace Traversal

/-- Runs `visit` inside the array, or answers `again` if the walk is inside it already. -/
def guarded {α : Type} (id : ArrayId) (again : α) (visit : Traversal α) : Traversal α := do
  if (← get).contains id then return again
  modify (id :: ·)
  let answer ← visit
  modify (·.erase id)
  return answer

def allM {α : Type} (test : α → Traversal Bool) : List α → Traversal Bool
  | [] => return true
  | x :: xs => do if ← test x then allM test xs else return false

def anyM {α : Type} (test : α → Traversal Bool) : List α → Traversal Bool
  | [] => return false
  | x :: xs => do if ← test x then return true else anyM test xs

def run {α : Type} (walk : Traversal α) : α :=
  (StateT.run walk []).1

end Traversal

def Arena.depth (a : Arena) : Nat :=
  a.objects.size + 1

end AdaptiveArray
