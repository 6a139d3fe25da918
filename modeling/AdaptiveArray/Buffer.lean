import AdaptiveArray.Kind
import AdaptiveArray.Span

/-!
Typed buffers: 32-bit integers, 64-bit integers, floats, or guest values.

Reading boxes an element.  A write must suit the element kind, and a copy into a wider
buffer converts: integers widen, and everything boxes into objects.
-/

namespace AdaptiveArray

inductive Buffer where
  | int (xs : Array Int32)
  | long (xs : Array Int64)
  | double (xs : Array Binary64)
  | object (xs : Array Value)
  deriving DecidableEq, Repr

namespace Buffer

instance : Inhabited Buffer := ⟨object #[]⟩

def element : Buffer → Element
  | int _ => .int
  | long _ => .long
  | double _ => .double
  | object _ => .object

def size : Buffer → Nat
  | int xs => xs.size
  | long xs => xs.size
  | double xs => xs.size
  | object xs => xs.size

def zeros (e : Element) (n : Nat) : Buffer :=
  match e with
  | .int => int (Array.replicate n 0)
  | .long => long (Array.replicate n 0)
  | .double => double (Array.replicate n Binary64.zero)
  | .object => object (Array.replicate n .nil)

def values : Buffer → Array Value
  | int xs => xs.map fun x => .int x.toInt64
  | long xs => xs.map .int
  | double xs => xs.map .float
  | object xs => xs

def get? (b : Buffer) (i : Nat) : Option Value :=
  match b with
  | int xs => xs[i]?.map fun x => .int x.toInt64
  | long xs => xs[i]?.map .int
  | double xs => xs[i]?.map .float
  | object xs => xs[i]?

def takes (b : Buffer) (v : Value) : Bool :=
  match b, v with
  | int _, .int i => fitsInt32 i
  | long _, .int _ => true
  | double _, .float _ => true
  | object _, _ => true
  | _, _ => false

def set (b : Buffer) (i : Nat) (v : Value) : Buffer :=
  match b, v with
  | int xs, .int x => int (xs.setIfInBounds i x.toInt32)
  | long xs, .int x => long (xs.setIfInBounds i x)
  | double xs, .float x => double (xs.setIfInBounds i x)
  | object xs, v => object (xs.setIfInBounds i v)
  | b, _ => b

def hasRange (b : Buffer) (start stop : Nat) : Bool :=
  start ≤ stop && stop ≤ b.size

def slice (b : Buffer) (start stop : Nat) : Buffer :=
  match b with
  | int xs => int (xs.extract start stop)
  | long xs => long (xs.extract start stop)
  | double xs => double (xs.extract start stop)
  | object xs => object (xs.extract start stop)

def slice? (b : Buffer) (start stop : Nat) : Option Buffer :=
  if b.hasRange start stop then some (b.slice start stop) else none

def reverse (b : Buffer) (start stop : Nat) : Buffer :=
  match b with
  | int xs => int (Span.reverse xs start stop)
  | long xs => long (Span.reverse xs start stop)
  | double xs => double (Span.reverse xs start stop)
  | object xs => object (Span.reverse xs start stop)

def clear (b : Buffer) (start stop : Nat) : Buffer :=
  match b with
  | int xs => int (Span.fill xs start stop 0)
  | long xs => long (Span.fill xs start stop 0)
  | double xs => double (Span.fill xs start stop Binary64.zero)
  | object xs => object (Span.fill xs start stop .nil)

/-- Whether `move` stays inside the buffer.  Numbers are moved as a block, whose two ends are
checked even when it is empty; values are moved one by one. -/
def canMove (b : Buffer) (src dst len : Nat) : Bool :=
  match b with
  | object xs => len = 0 || (src + len ≤ xs.size && dst + len ≤ xs.size)
  | b => src + len ≤ b.size && dst + len ≤ b.size

def move (b : Buffer) (src dst len : Nat) : Buffer :=
  match b with
  | int xs => int (Span.blockMove xs src dst len)
  | long xs => long (Span.blockMove xs src dst len)
  | double xs => double (Span.blockMove xs src dst len)
  | object xs => object (Span.stepMove xs src dst len)

def convert? (b : Buffer) (e : Element) : Option Buffer :=
  match b, e with
  | int xs, .long => some (long (xs.map Int32.toInt64))
  | b, .object => some (object b.values)
  | b, e => if b.element = e then some b else none

def overwrite (dst : Buffer) (start : Nat) (src : Buffer) : Buffer :=
  match dst, src with
  | int xs, int ys => int (Span.overwrite xs start ys)
  | long xs, long ys => long (Span.overwrite xs start ys)
  | double xs, double ys => double (Span.overwrite xs start ys)
  | object xs, object ys => object (Span.overwrite xs start ys)
  | dst, _ => dst

def insertFloat (x : Binary64) : List Binary64 → List Binary64
  | [] => [x]
  | y :: ys =>
      if Binary64.compare? x y = some .lt then y :: insertFloat x ys else x :: y :: ys

/-- Floats in numeric order, equal ones staying in place.  With a NaN, which is neither less nor
greater than any float, there is no such order, and one float after the other is inserted. -/
def orderedFloats (xs : List Binary64) : List Binary64 :=
  if xs.any Binary64.isNaN then (xs.foldl (fun before x => insertFloat x before) []).reverse
  else xs.mergeSort fun x y => Binary64.compare? y x ≠ some .lt

def sort? (b : Buffer) (size : Nat) : Option Buffer :=
  match b with
  | int xs => some (int (Span.overwrite xs 0
      ((xs.toList.take size).mergeSort fun x y => x ≤ y).toArray))
  | long xs => some (long (Span.overwrite xs 0
      ((xs.toList.take size).mergeSort fun x y => x ≤ y).toArray))
  | double xs => some (double (Span.overwrite xs 0 (orderedFloats (xs.toList.take size)).toArray))
  | object _ => none

end Buffer

end AdaptiveArray
