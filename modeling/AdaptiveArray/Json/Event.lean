import AdaptiveArray.Json.Number

/-!
A JSON text of nested arrays as a sequence of events.

The events are those up to the end of the value or up to the first problem, so what a
reader does before it meets a problem is known.  Objects are not values here, and an
integer must have 64 bits with a sign.
-/

namespace AdaptiveArray.Json

inductive Event where
  | nil
  | bool (b : Bool)
  | int (i : Int64)
  | float (x : Binary64)
  | string (text : String)
  | opening
  | closing
  deriving DecidableEq, Repr

structure Events where
  events : List Event
  problem : Option Problem
  deriving DecidableEq, Repr

def Events.before (e : Event) (es : Events) : Events :=
  { es with events := e :: es.events }

/-- What may come next: a value; a value or the end of an array just begun; a comma or the end of an
array; or nothing. -/
inductive Expecting where
  | value
  | first
  | more
  | nothing
  deriving DecidableEq, Repr

def maxDepth : Nat :=
  127

def valueExpected : String :=
  "nil, a boolean, a number, a string or an array"

def Expecting.after (depth : Nat) : Expecting :=
  if depth = 0 then nothing else more

def Number.event : Number → Except Problem Event
  | unsigned n =>
      if n < 0x8000000000000000 then .ok (.int (Int64.ofNat n))
      else .error (.wrongValue n valueExpected)
  | negative i => .ok (.int (Int64.ofInt i))
  | float x => .ok (.float x)

def scalar (c : Char) (rest : List Char) : Except Problem (Event × List Char) := do
  if c = 'n' then return (.nil, ← word ['u', 'l', 'l'] rest)
  else if c = 't' then return (.bool true, ← word ['r', 'u', 'e'] rest)
  else if c = 'f' then return (.bool false, ← word ['a', 'l', 's', 'e'] rest)
  else if c = '"' then
    let (text, rest) ← string rest
    return (.string text, rest)
  else if c = '-' || c.isDigit then
    let (n, rest) ← number (c :: rest)
    return (← n.event, rest)
  else throw .malformed

def eventsFrom : (steps : Nat) → Expecting → (depth : Nat) → List Char → Events
  | 0, _, _, _ => ⟨[], some .truncated⟩
  | steps + 1, expecting, depth, text =>
      match expecting, skipBlanks text with
      | .nothing, [] => ⟨[], none⟩
      | .nothing, _ :: _ => ⟨[], some .malformed⟩
      | _, [] => ⟨[], some .truncated⟩
      | .more, c :: rest =>
          if c = ']' then (eventsFrom steps (.after (depth - 1)) (depth - 1) rest).before .closing
          else if c = ',' then eventsFrom steps .value depth rest
          else ⟨[], some .malformed⟩
      | expecting, c :: rest =>
          if c = ']' && expecting = .first then
            (eventsFrom steps (.after (depth - 1)) (depth - 1) rest).before .closing
          else if c = '[' then
            if depth = maxDepth then ⟨[], some .malformed⟩
            else (eventsFrom steps .first (depth + 1) rest).before .opening
          else if c = '\x7b' then
            if depth = maxDepth then ⟨[], some .malformed⟩
            else ⟨[], some (.wrongType .map valueExpected)⟩
          else match scalar c rest with
            | .ok (e, rest) => (eventsFrom steps (.after depth) depth rest).before e
            | .error p => ⟨[], some p⟩

def valueEvents (text : List Char) : Events :=
  eventsFrom (text.length + 1) .value 0 text

def misplaced (expected : String) (c : Char) (rest : List Char) : Problem :=
  let found : Except Problem Found := do
    if c = 'n' then let _ ← word ['u', 'l', 'l'] rest; return .null
    else if c = 't' then let _ ← word ['r', 'u', 'e'] rest; return .bool true
    else if c = 'f' then let _ ← word ['a', 'l', 's', 'e'] rest; return .bool false
    else if c = '"' then return .string (← string rest).1
    else if c = '-' || c.isDigit then return (← number (c :: rest)).1.found
    else if c = '[' then return .sequence
    else if c = '\x7b' then return .map
    else throw .malformed
  match found with
  | .ok found => .wrongType found expected
  | .error p => p

def arrayEvents (text : List Char) : Events :=
  match skipBlanks text with
  | [] => ⟨[], some .truncated⟩
  | c :: rest =>
      if c = '[' then valueEvents text
      else ⟨[], some (misplaced "an array" c rest)⟩

end AdaptiveArray.Json
