/-!
Tuning options of array storage.
-/

namespace AdaptiveArray

/-- `uninitializedSize` is the capacity given to a store that first needs room for fewer elements;
arrays up to `smallSize` are sorted by selection, arrays up to `maxExplodeSize` rotated by
index, and bulk loops poll once every `safepointStride` elements. -/
structure Options where
  uninitializedSize : Nat := 16
  smallSize : Nat := 3
  maxExplodeSize : Nat := 16
  safepointStride : Nat := 65536
  deriving DecidableEq, Repr, Inhabited

namespace Options

def isDue (o : Options) (i : Nat) : Bool :=
  o.safepointStride ≠ 0 && i ≠ 0 && i % o.safepointStride = 0

def pollsIn (o : Options) (n : Nat) : Nat :=
  n.fold (fun i _ count => if o.isDue i then count + 1 else count) 0

def grownCapacity (o : Options) (current needed : Nat) : Nat :=
  if needed < o.uninitializedSize then o.uninitializedSize
  else if needed ≤ min (2 * current) (UInt64.size - 1) then min (2 * current) (UInt64.size - 1)
  else needed

def capacityForOneMore (o : Options) (current : Nat) : Nat :=
  if current < o.uninitializedSize then o.uninitializedSize
  else min (2 * current) (UInt64.size - 1)

end Options

end AdaptiveArray
