import AdaptiveArray.Objects
import AdaptiveArray.Native

/-!
The changes that can be asked of one array object, each under its write lock, and what
they answer.
-/

namespace AdaptiveArray

inductive Mutation where
  | push (v : Value)
  | pushAll (vs : List Value)
  | insert (index : Int64) (vs : List Value)
  | unshift (vs : List Value)
  | set (index : Int64) (v : Value)
  | fill (v : Value)
  | map (f : Block Value)
  | concat (others : List Body)
  | delete (v : Value)
  | deleteOr (v : Value) (missing : Value → Action Value)
  | deleteAt (index : Int64)
  | compact
  | reject (f : Block Bool)
  | keepIf (f : Block Bool)
  | pop
  | popN (count : Int64)
  | shift
  | shiftN (count : Int64)
  | slice (start length : Int64)
  | dup
  | extract (start stop : Nat)
  | clear
  | replace (other : Body)
  | steal (other : ArrayId)
  | restart (size? fill? : Option Value)
  | restartWith (size : Int64) (f : Block Value)
  | rotate (count : Int64)
  | sort
  | freeze
  | toNative

inductive Reply where
  | nothing
  | value (v : Value)
  | flag (b : Bool)
  | body (b : Body)
  | store (s : Store)
  deriving Repr, Inhabited

namespace Mutation

def edit : Mutation → Edit Reply
  | push v => do Edit.push v; return .nothing
  | pushAll vs => do Edit.pushAll vs; return .nothing
  | insert index vs => do Edit.insert index vs; return .nothing
  | unshift vs => do Edit.unshift vs; return .nothing
  | set index v => do Edit.set index v; return .nothing
  | fill v => do Edit.fill v; return .nothing
  | map f => do Edit.map f; return .nothing
  | concat others => do Edit.concat others; return .nothing
  | delete v => return .value (← Edit.delete v)
  | deleteOr v missing => return .value (← Edit.deleteOr v fun v => missing v)
  | deleteAt index => return .value (← Edit.deleteAt index)
  | compact => return .flag (← Edit.compact)
  | reject f => return .flag (← Edit.reject f)
  | keepIf f => do Edit.keepIf f; return .nothing
  | pop => return .value (← Edit.pop)
  | popN count => return .body (← Edit.popN count)
  | shift => return .value (← Edit.shift)
  | shiftN count => return .body (← Edit.shiftN count)
  | slice start length => do
      match ← Edit.slice start length with
      | some b => return .body b
      | none => return .nothing
  | dup => return .body (← Edit.dup)
  | extract start stop => return .store (← Edit.extractShared start stop)
  | clear => do Edit.clear; return .nothing
  | replace other => do Edit.replace other; return .nothing
  | steal other => do Edit.steal other; return .nothing
  | restart size? fill? => do Edit.restart size? fill?; return .nothing
  | restartWith size f => do Edit.restartWith size f; return .nothing
  | rotate count => do Edit.rotate count; return .nothing
  | sort => do Edit.sort; return .nothing
  | freeze => do Edit.freeze; return .nothing
  | toNative => do Edit.toNative; return .nothing

def perform (m : Mutation) (id : ArrayId) : Action Reply :=
  Action.edit id m.edit

end Mutation

end AdaptiveArray
