import AdaptiveArray.Traversal.Basic

/-!
Hashing of values, in agreement with `eql?`.

The bytes given to a hash function are what makes two hash codes equal: a tag for the
type, then the content.  The two zeros give the same bytes, and an array in progress or
unreadable gives its tag alone.
-/

namespace AdaptiveArray

def wordBytes (w : UInt64) : List UInt8 :=
  (List.range 8).map fun i => (w >>> (8 * UInt64.ofNat i)).toUInt8

def textBytes (text : String) : List UInt8 :=
  text.toUTF8.toList ++ [0xff]

def Value.tag : Value → UInt64
  | .nil => 0
  | .bool _ => 1
  | .int _ => 2
  | .float _ => 3
  | .symbol _ => 4
  | .string _ _ => 5
  | .array _ => 6

namespace Traversal

def hashContent (nested : ArrayId → Traversal (List UInt8)) : Value → Traversal (List UInt8)
  | .nil => return []
  | .bool b => return [if b then 1 else 0]
  | .int i => return wordBytes i.toUInt64
  | .float x => return wordBytes (if x.numEq Binary64.zero then 0 else x.bits)
  | .symbol name => return textBytes name
  | .string _ text => return textBytes text
  | .array id => nested id

def hashValue (nested : ArrayId → Traversal (List UInt8)) (v : Value) : Traversal (List UInt8) :=
  return wordBytes v.tag ++ (← hashContent nested v)

def hashBody (nested : ArrayId → Traversal (List UInt8)) (b : Body) : Traversal (List UInt8) := do
  let parts ← b.toList.mapM (hashValue nested)
  return wordBytes (UInt64.ofNat b.size) ++ parts.flatten

def hashArray (a : Arena) : Nat → ArrayId → Traversal (List UInt8)
  | 0, _ => return []
  | depth + 1, id =>
      guarded id [] do
        match a.readable? id with
        | some b => hashBody (hashArray a depth) b
        | none => return []

end Traversal

namespace Arena

def hashBytes (a : Arena) (v : Value) : List UInt8 :=
  (Traversal.hashValue (Traversal.hashArray a a.depth) v).run

def hashBodyBytes (a : Arena) (b : Body) : List UInt8 :=
  (Traversal.hashBody (Traversal.hashArray a a.depth) b).run

end Arena

end AdaptiveArray
