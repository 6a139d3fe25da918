import AdaptiveArray.Binary64.Basic

/-!
Rounding to binary64, to nearest with ties to even.

`ofRatio` rounds a quotient of natural numbers.  Every operation of this module
forms its exact result first and rounds once.
-/

namespace AdaptiveArray.Binary64

private def bitLength (n : Nat) : Nat :=
  if n = 0 then 0 else n.log2 + 1

/-- The quotient rounded to nearest, a tie going to the even neighbour. -/
def roundQuotient (num den : Nat) : Nat :=
  let q := num / den
  let rest := 2 * (num % den)
  if rest < den then q
  else if rest = den && q % 2 = 0 then q
  else q + 1

def ofWord (negative : Bool) (word : Nat) : Binary64 :=
  ⟨UInt64.ofNat (if negative then signBit + word else word)⟩

/-- The float nearest to `num / den`, infinity from half a step past the largest one. -/
def ofRatio (negative : Bool) (num den : Nat) : Binary64 :=
  let scaled := num * unitsPerOne
  let shift := bitLength (scaled / den) - 53
  let word := shift * hiddenBit + roundQuotient scaled (den <<< shift)
  if 2047 * hiddenBit ≤ word then infinity negative else ofWord negative word

theorem ofRatio_eq (negative : Bool) {num den : Nat} (h : num * unitsPerOne / den ≠ 0) :
    ofRatio negative num den =
      let shift := (num * unitsPerOne / den).log2 - 52
      let word := shift * hiddenBit + roundQuotient (num * unitsPerOne) (den <<< shift)
      if 2047 * hiddenBit ≤ word then infinity negative else ofWord negative word := by
  simp only [ofRatio, bitLength, if_neg h, Nat.add_sub_add_right _ 1 52]

def ofInt (i : Int) : Binary64 :=
  ofRatio (i < 0) i.natAbs 1

/-- The order of an integer and a float.  A whole float in the range of `Int64` is compared
as an integer; for any other the integer is rounded to a float first. -/
def compareInt? (i : Int64) (x : Binary64) : Option Ordering :=
  if x.isNaN then none
  else if x.isIntegral && x.toInt64.toInt = x.truncate then
    some (compare i.toInt x.truncate)
  else compare? (ofInt i.toInt) x

private def quiet (x : Binary64) : Binary64 :=
  ⟨x.bits ||| 0x0008000000000000⟩

def mulFinite (x y : Binary64) : Binary64 :=
  ofRatio (x.isNegative != y.isNegative) (x.magnitude * y.magnitude) (unitsPerOne * unitsPerOne)

def divFinite (x y : Binary64) : Binary64 :=
  ofRatio (x.isNegative != y.isNegative) x.magnitude y.magnitude

/-- The sum.  A NaN operand is passed on; opposite infinities give a NaN; an exact zero is
negative only when both operands are. -/
def add (x y : Binary64) : Binary64 :=
  if x.isNaN then quiet x
  else if y.isNaN then quiet y
  else if !x.isFinite then
    if !y.isFinite && x.isNegative != y.isNegative then ⟨0xfff8000000000000⟩ else x
  else if !y.isFinite then y
  else
    let sum := x.units + y.units
    if sum = 0 then ofWord (x.isNegative && y.isNegative) 0
    else ofRatio (sum < 0) sum.natAbs unitsPerOne

end AdaptiveArray.Binary64
