import AdaptiveArray.Binary64.Basic

/-!
The fewest decimal digits that read back as a given float.

A finite float is the centre of an interval of reals that round to it.  For one
digit, two digits and so on up to seventeen the two neighbours of the float on
that decimal grid are tried; the first grid with a point in the interval wins, and
of two points the nearer one.
-/

namespace AdaptiveArray.Decimal

inductive Tie where
  | even
  | up
  deriving DecidableEq, Repr

/-- A positive decimal `digits * 10 ^ exponent`. -/
structure Scientific where
  digits : Nat
  exponent : Int
  deriving DecidableEq, Repr

/-- The reals that round to a float, in quarter units; the ends belong to it when `closed`. -/
structure Interval where
  low : Nat
  centre : Nat
  high : Nat
  closed : Bool
  deriving DecidableEq, Repr

def quartersPerOne : Nat :=
  4 * Binary64.unitsPerOne

def Interval.ofFloat (x : Binary64) : Interval :=
  let step := 1 <<< x.scale
  let centre := 4 * x.magnitude
  let below := if x.significand = Binary64.hiddenBit && x.scale ≠ 0 then step else 2 * step
  ⟨centre - below, centre, centre + 2 * step, x.significand % 2 = 0⟩

def gridPoint (digits : Nat) (exponent : Int) : Nat × Nat :=
  (digits * Nat.pow 10 exponent.toNat * quartersPerOne, Nat.pow 10 (-exponent).toNat)

def Interval.holds (i : Interval) (point : Nat × Nat) : Bool :=
  let (num, den) := point
  if i.closed then i.low * den ≤ num && num ≤ i.high * den
  else i.low * den < num && num < i.high * den

def leadingExponent (centre : Nat) : Int :=
  (Nat.toDigits 10 (centre * Nat.pow 10 400 / quartersPerOne)).length - 401

def Interval.onGrid? (i : Interval) (tie : Tie) (exponent : Int) : Option Nat :=
  let lower :=
    i.centre * Nat.pow 10 (-exponent).toNat / (Nat.pow 10 exponent.toNat * quartersPerOne)
  let (low, den) := gridPoint lower exponent
  let (high, _) := gridPoint (lower + 1) exponent
  match i.holds (low, den), i.holds (high, den) with
  | false, false => none
  | true, false => some lower
  | false, true => some (lower + 1)
  | true, true =>
      let down := i.centre * den - low
      let up := high - i.centre * den
      if down < up then some lower
      else if up < down then some (lower + 1)
      else match tie with
        | .up => some (lower + 1)
        | .even => some (if lower % 2 = 0 then lower else lower + 1)

/-- The shortest decimal of a finite float that is not zero, its sign left aside. -/
def shortest (tie : Tie) (x : Binary64) : Scientific :=
  let i := Interval.ofFloat x
  let lead := leadingExponent i.centre
  let found := (List.range 17).findSome? fun (n : Nat) =>
    (i.onGrid? tie (lead - n)).map fun digits => (⟨digits, lead - n⟩ : Scientific)
  found.getD ⟨0, 0⟩

end AdaptiveArray.Decimal
