import AdaptiveArray.Json.Event
import AdaptiveArray.Builder

/-!
Building values and arrays from JSON.

Each array is built value by value as its events come, so what was built before a
problem has been built when the problem is reported.
-/

namespace AdaptiveArray

namespace Json

def Event.scalar? : Event → Action (Option Value)
  | nil => return some .nil
  | bool b => return some (.bool b)
  | int i => return some (.int i)
  | float x => return some (.float x)
  | string text => return some (← Action.newString text)
  | opening => return none
  | closing => return none

inductive Built where
  | scalar (v : Value)
  | array (b : Body)
  deriving DecidableEq, Repr

/-- Follows the events with the builders of the arrays that are open, the innermost first, and
answers the value at the top once it is complete. -/
def build : List Event → List Builder → (top : Option Built) → Action (Option Built)
  | [], _, top => return top
  | e :: es, builders, top => do
      match e, builders with
      | .opening, builders => build es ({} :: builders) top
      | .closing, [] => throw .broken
      | .closing, [b] => build es [] (some (.array (← b.finish)))
      | .closing, b :: outer :: rest =>
          let id ← Action.newObject (← b.finish)
          let outer ← outer.push (.array id)
          build es (outer :: rest) top
      | e, builders =>
          match ← e.scalar?, builders with
          | some v, [] => build es [] (some (.scalar v))
          | some v, b :: rest =>
              let b ← b.push v
              build es (b :: rest) top
          | none, _ => throw .broken

end Json

namespace Action

def readValue (text : String) : Action (Except Json.Problem Value) := do
  let es := Json.valueEvents text.toList
  let built ← Json.build es.events [] none
  match es.problem, built with
  | some p, _ => return .error p
  | none, some (.scalar v) => return .ok v
  | none, some (.array b) => return .ok (.array (← newObject b))
  | none, none => throw .broken

def readArray (text : String) : Action (Except Json.Problem Body) := do
  let es := Json.arrayEvents text.toList
  let built ← Json.build es.events [] none
  match es.problem, built with
  | some p, _ => return .error p
  | none, some (.array b) => return .ok b
  | none, _ => throw .broken

end Action

end AdaptiveArray
