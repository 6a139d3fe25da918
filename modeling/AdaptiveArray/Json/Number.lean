import AdaptiveArray.Json.Lexeme
import AdaptiveArray.Binary64.Rounding

/-!
The numbers that JSON numerals stand for.

Digits are gathered into a 64-bit significand while they fit; a power of ten takes up
the rest.  The significand is rounded to a float, and then multiplied or divided by the
power, so the float is near the numeral but not always the nearest.
-/

namespace AdaptiveArray.Json

inductive Number where
  | unsigned (n : Nat)
  | negative (i : Int)
  | float (x : Binary64)
  deriving DecidableEq, Repr

def Number.found : Number → Found
  | unsigned n => .integer n
  | negative i => .integer i
  | float x => .float x

def digit (c : Char) : Nat :=
  c.toNat - 48

/-- Appends digits to a significand as long as it has 64 bits, and answers the digits left over. -/
def gather (significand : Nat) : List Char → Nat × List Char
  | [] => (significand, [])
  | d :: ds =>
      if significand * 10 + digit d < UInt64.size then gather (significand * 10 + digit d) ds
      else (significand, d :: ds)

def powerOfTen (n : Nat) : Binary64 :=
  Binary64.ofRatio false (Nat.pow 10 n) 1

/-- A float scaled by a power of ten, in steps of at most 308 places downward.  There is none when
the result is too large. -/
def scaled? : (steps : Nat) → Binary64 → Int → Option Binary64
  | 0, x, _ => some x
  | steps + 1, x, exponent =>
      if exponent.natAbs ≤ 308 then
        if 0 ≤ exponent then
          let product := x.mulFinite (powerOfTen exponent.natAbs)
          if product.isFinite then some product else none
        else some (x.divFinite (powerOfTen exponent.natAbs))
      else if x.isZero then some x
      else if 0 ≤ exponent then none
      else scaled? steps (x.divFinite (powerOfTen 308)) (exponent + 308)

def signed (negative : Bool) (x : Binary64) : Binary64 :=
  if negative then Binary64.ofWord true x.bits.toNat else x

def floatOf? (negative : Bool) (significand : Nat) (exponent : Int) : Option Binary64 :=
  (scaled? (exponent.natAbs / 308 + 2) (Binary64.ofInt significand) exponent).map (signed negative)

def decimalValue (ds : List Char) : Nat :=
  ds.foldl (fun n d => n * 10 + digit d) 0

namespace Numeral

/-- The power of ten written after `e`.  One beyond 31 bits is too large to add to another. -/
def writtenExponent (n : Numeral) : Int :=
  match n.exponent with
  | some (true, ds) => decimalValue ds
  | some (false, ds) => -decimalValue ds
  | none => 0

def float? (n : Numeral) : Option Binary64 :=
  let (significand, rest) := gather 0 n.whole
  let (significand, left) := gather significand n.fraction
  let exponent : Int := rest.length + left.length - n.fraction.length
  let written := n.writtenExponent
  if written.natAbs < 0x80000000 then floatOf? n.negative significand (exponent + written)
  else if significand ≠ 0 && 0 < written then none
  else some (signed n.negative Binary64.zero)

/-- The number of a numeral.  A whole numeral of 64 bits is an integer, except `-0`. -/
def number? (n : Numeral) : Option Number :=
  let (significand, rest) := gather 0 n.whole
  if n.fraction.isEmpty && n.exponent.isNone && rest.isEmpty then
    if !n.negative then some (.unsigned significand)
    else if 0 < significand && significand ≤ 0x8000000000000000 then some (.negative (-significand))
    else n.float?.map .float
  else n.float?.map .float

end Numeral

def number (text : List Char) : Except Problem (Number × List Char) := do
  let (n, rest) ← numeral .truncated text
  match n.number? with
  | some x => return (x, rest)
  | none => throw .malformed

end AdaptiveArray.Json
