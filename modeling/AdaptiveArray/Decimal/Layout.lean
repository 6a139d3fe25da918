import AdaptiveArray.Decimal.Shortest

/-!
How the digits of a float are set out: positionally in a range of exponents, with a
power of ten outside it.
-/

namespace AdaptiveArray.Decimal

/-- Exponents in `[plainFrom, plainTo)` are written positionally.  Outside, `keepPoint` says
whether a single digit is followed by `.0`, and the exponent has a sign and at least
`exponentDigits` digits. -/
structure Layout where
  plainFrom : Int
  plainTo : Int
  keepPoint : Bool
  exponentDigits : Nat
  tie : Tie
  deriving DecidableEq, Repr

def Scientific.leading (s : Scientific) : List Char × Int :=
  let all := Nat.toDigits 10 s.digits
  ((all.reverse.dropWhile (· = '0')).reverse, s.exponent + all.length - 1)

private def zeros (n : Nat) : List Char :=
  List.replicate n '0'

def positional (digits : List Char) (exponent : Int) : List Char :=
  if exponent < 0 then
    '0' :: '.' :: zeros (-exponent - 1).toNat ++ digits
  else
    let whole := digits.take (exponent.toNat + 1)
    let rest := digits.drop (exponent.toNat + 1)
    whole ++ zeros (exponent.toNat + 1 - whole.length) ++
      '.' :: (if rest.isEmpty then ['0'] else rest)

namespace Layout

def withExponent (l : Layout) (digits : List Char) (exponent : Int) : List Char :=
  let mantissa :=
    match digits with
    | [d] => if l.keepPoint then [d, '.', '0'] else [d]
    | d :: rest => d :: '.' :: rest
    | [] => []
  let power := Nat.toDigits 10 exponent.natAbs
  mantissa ++ 'e' :: (if exponent < 0 then '-' else '+') ::
    zeros (l.exponentDigits - power.length) ++ power

def write (l : Layout) (x : Binary64) : String :=
  let body :=
    if x.isZero then positional ['0'] 0
    else
      let (digits, exponent) := (shortest l.tie x).leading
      if l.plainFrom ≤ exponent && exponent < l.plainTo then positional digits exponent
      else l.withExponent digits exponent
  String.ofList (if x.isNegative then '-' :: body else body)

end Layout

end AdaptiveArray.Decimal
