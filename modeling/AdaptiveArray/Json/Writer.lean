import AdaptiveArray.Json.Problem
import AdaptiveArray.Arena.Basic

/-!
Values as compact JSON.

Symbols are written as strings and floats that are not finite as `null`.  An array that
cannot be read is an error.  Nothing keeps track of the arrays being written, so an
array that contains itself is written without end: `writeValue` answers nothing when the
depth it is given is used up, and on such an array it does so for every depth.
-/

namespace AdaptiveArray

namespace Json

def escapeChar (c : Char) : List Char :=
  match c with
  | '"' => ['\\', '"']
  | '\\' => ['\\', '\\']
  | '\x08' => ['\\', 'b']
  | '\x0c' => ['\\', 'f']
  | '\n' => ['\\', 'n']
  | '\r' => ['\\', 'r']
  | '\t' => ['\\', 't']
  | c =>
      if c.toNat < 32 then
        ['\\', 'u', '0', '0', Nat.digitChar (c.toNat / 16), Nat.digitChar (c.toNat % 16)]
      else [c]

def quote (text : String) : String :=
  String.ofList ('"' :: text.toList.flatMap escapeChar ++ ['"'])

def writeFloat (x : Binary64) : String :=
  if x.isFinite then layout.write x else "null"

abbrev Written := Option (Except Problem String)

def writeAll (write : Value → Written) : List Value → Option (Except Problem (List String))
  | [] => some (.ok [])
  | v :: vs =>
      match write v with
      | none => none
      | some (.error p) => some (.error p)
      | some (.ok text) => (writeAll write vs).map fun rest => rest.map (text :: ·)

def writeItems (write : Value → Written) (items : List Value) : Written :=
  (writeAll write items).map fun written =>
    written.map fun texts => "[" ++ String.intercalate "," texts ++ "]"

def writeValue (a : Arena) : (depth : Nat) → Value → Written
  | _, .nil => some (.ok "null")
  | _, .bool b => some (.ok (if b then "true" else "false"))
  | _, .int i => some (.ok (toString i.toInt))
  | _, .float x => some (.ok (writeFloat x))
  | _, .symbol name => some (.ok (quote name))
  | _, .string _ text => some (.ok (quote text))
  | 0, .array _ => none
  | depth + 1, .array id =>
      match a.readable? id with
      | some b => writeItems (writeValue a depth) b.toList
      | none => some (.error .beingModified)

def writeBody (a : Arena) (depth : Nat) (b : Body) : Written :=
  writeItems (writeValue a depth) b.toList

end Json

namespace Arena

def json? (a : Arena) (v : Value) : Json.Written :=
  Json.writeValue a (a.objects.size + 1) v

def bodyJson? (a : Arena) (b : Body) : Json.Written :=
  Json.writeBody a (a.objects.size + 1) b

end Arena

end AdaptiveArray
