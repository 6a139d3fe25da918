import AdaptiveArray.Value

/-!
Kinds of storage and how they widen.

An element kind says what a buffer holds; a kind of storage adds who owns the buffer.
`Kind.join` is the narrowest kind that holds the values of both sides, `forStore` what
a store must become to take values of another kind, and `forValue` what it must become
to take one value.
-/

namespace AdaptiveArray

inductive Element where
  | int
  | long
  | double
  | object
  deriving DecidableEq, Repr, Inhabited

inductive Kind where
  | empty
  | owned (element : Element)
  | view (element : Element)
  | native
  deriving DecidableEq, Repr, Inhabited

def Element.name : Element → String
  | int => "Int"
  | long => "Long"
  | double => "Double"
  | object => "Object"

def fitsInt32 (i : Int64) : Bool :=
  -2147483648 ≤ i.toInt && i.toInt ≤ 2147483647

namespace Kind

def all : List Kind :=
  [empty, owned .int, owned .long, owned .double, owned .object,
    view .int, view .long, view .double, view .object, native]

def name : Kind → String
  | empty => "Empty"
  | owned e => e.name
  | view e => "Delegated(" ++ e.name ++ ")"
  | native => "Native"

def element? : Kind → Option Element
  | empty => none
  | owned e => some e
  | view e => some e
  | native => some .object

def isPrimitive (k : Kind) : Bool :=
  match k.element? with
  | some .int => true
  | some .long => true
  | some .double => true
  | _ => false

def isMutable : Kind → Bool
  | owned _ => true
  | native => true
  | _ => false

def forMutation : Kind → Kind
  | view e => owned e
  | k => k

def forCopy (k : Kind) : Kind :=
  match k.forMutation with
  | native => owned .object
  | k => k

/-- The narrowest kind for the values of both.  Integers and floats meet only in objects, so that
an integer keeps its class and its digits. -/
def join (a b : Kind) : Kind :=
  if a = b then a
  else match a, b with
    | empty, k => k.forMutation
    | k, empty => k.forMutation
    | native, _ => owned .object
    | _, native => owned .object
    | a, b =>
        let x := a.forMutation
        let y := b.forMutation
        if x = y then x
        else match x, y with
          | owned .int, owned .long => owned .long
          | owned .long, owned .int => owned .long
          | _, _ => owned .object

/-- What a store must become before values of kind `incoming` are written into it.  A native store
takes them all. -/
def forStore (k incoming : Kind) : Kind :=
  match k with
  | native => native
  | k => (k.join incoming).forMutation

def ofValue : Value → Kind
  | .int i => if fitsInt32 i then owned .int else owned .long
  | .float _ => owned .double
  | _ => owned .object

def holds (k : Kind) (v : Value) : Bool :=
  match k.forMutation, v with
  | owned .int, .int i => fitsInt32 i
  | owned .long, .int _ => true
  | owned .double, .float _ => true
  | owned .object, _ => true
  | native, _ => true
  | _, _ => false

def forValue (k : Kind) (v : Value) : Kind :=
  if k.holds v then k.forMutation else k.forStore (ofValue v)

end Kind

end AdaptiveArray
