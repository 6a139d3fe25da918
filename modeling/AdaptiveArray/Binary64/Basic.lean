/-!
Floats as binary64 words.

A word that is not a NaN stands for a whole number of units of `2 ^ -1074`, the
infinities being the next steps of the same ladder.  Order, equality and the whole
part are read off those units, so no operation here rounds.
-/

namespace AdaptiveArray

structure Binary64 where
  bits : UInt64
  deriving DecidableEq, Repr, Inhabited

namespace Binary64

def zero : Binary64 := ⟨0⟩

def nan : Binary64 := ⟨0x7ff8000000000000⟩

def infinity (negative : Bool) : Binary64 :=
  ⟨if negative then 0xfff0000000000000 else 0x7ff0000000000000⟩

def signBit : Nat :=
  0x8000000000000000

def hiddenBit : Nat :=
  0x10000000000000

def isNegative (x : Binary64) : Bool :=
  signBit ≤ x.bits.toNat

def exponentField (x : Binary64) : Nat :=
  x.bits.toNat / hiddenBit % 2048

def fraction (x : Binary64) : Nat :=
  x.bits.toNat % hiddenBit

def isNaN (x : Binary64) : Bool :=
  x.exponentField = 2047 && x.fraction ≠ 0

def isFinite (x : Binary64) : Bool :=
  x.exponentField ≠ 2047

def significand (x : Binary64) : Nat :=
  if x.exponentField = 0 then x.fraction else hiddenBit + x.fraction

def scale (x : Binary64) : Nat :=
  x.exponentField - 1

def magnitude (x : Binary64) : Nat :=
  x.significand <<< x.scale

/-- The value in units of `2 ^ -1074`. -/
def units (x : Binary64) : Int :=
  if x.isNegative then -x.magnitude else x.magnitude

def unitsPerOne : Nat :=
  1 <<< 1074

def isZero (x : Binary64) : Bool :=
  x.magnitude = 0

/-- Numeric equality: a NaN equals nothing, and the two zeros are equal. -/
def numEq (x y : Binary64) : Bool :=
  !x.isNaN && !y.isNaN && x.units = y.units

def compare? (x y : Binary64) : Option Ordering :=
  if x.isNaN || y.isNaN then none else some (compare x.units y.units)

def isIntegral (x : Binary64) : Bool :=
  x.magnitude % unitsPerOne = 0

def truncate (x : Binary64) : Int :=
  x.units.tdiv unitsPerOne

/-- The whole part in the range of `Int64`; what lies outside goes to the nearest end, and a
NaN to zero. -/
def toInt64 (x : Binary64) : Int64 :=
  if x.isNaN then 0
  else Int64.ofInt (max (-9223372036854775808) (min 9223372036854775807 x.truncate))

end Binary64

end AdaptiveArray
