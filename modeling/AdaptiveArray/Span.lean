/-!
Stretches of an array: overwriting one, filling one, reversing one, and moving one
within the same array.

A move comes in two forms.  `blockMove` lifts the source out and lays it down again;
`stepMove` copies one slot at a time and starts from the end that keeps it clear of
what it has written.
-/

namespace AdaptiveArray.Span

variable {α : Type}

def overwrite (dst : Array α) (start : Nat) (src : Array α) : Array α :=
  src.size.fold (fun i _ dst => dst.setIfInBounds (start + i) src[i]) dst

def fill (xs : Array α) (start stop : Nat) (x : α) : Array α :=
  (stop - start).fold (fun i _ xs => xs.setIfInBounds (start + i) x) xs

def reverse (xs : Array α) (start stop : Nat) : Array α :=
  overwrite xs start (xs.extract start stop).reverse

def copySlot (xs : Array α) (src dst : Nat) : Array α :=
  match xs[src]? with
  | some x => xs.setIfInBounds dst x
  | none => xs

def blockMove (xs : Array α) (src dst len : Nat) : Array α :=
  overwrite xs dst (xs.extract src (src + len))

def stepMove (xs : Array α) (src dst len : Nat) : Array α :=
  if dst ≤ src then
    len.fold (fun i _ xs => copySlot xs (src + i) (dst + i)) xs
  else
    len.foldRev (fun i _ xs => copySlot xs (src + i) (dst + i)) xs

end AdaptiveArray.Span
