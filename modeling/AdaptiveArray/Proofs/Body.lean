import AdaptiveArray.Body
import AdaptiveArray.Proofs.Store

/-!
# Bodies as lists

A body fits if its size is within the capacity of its store and the store fits; it is
tidy if a store it may write in place has no stale slot behind the elements.  Whoever
owns the store, the elements of a body that fits are the first `size` slots.
-/

namespace AdaptiveArray

namespace Body

/-- The elements lie inside the store.  A `strict` body is also tidy. -/
structure Fits (strict : Prop) (b : Body) : Prop where
  size_le : b.size ≤ b.capacity
  store : b.store.Fits
  tidy : strict → b.store.isMutable → ∀ i, b.size ≤ i → i < b.capacity →
    b.store.get? i = some b.store.zero

theorem Fits.loose {strict : Prop} {b : Body} (h : b.Fits strict) : b.Fits False :=
  ⟨h.size_le, h.store, False.elim⟩

theorem Fits.intro_view {strict : Prop} {b : Body} (hle : b.size ≤ b.capacity)
    (hfits : b.store.Fits) (hmut : b.store.isMutable = false) : b.Fits strict :=
  ⟨hle, hfits, fun _ h => by simp [hmut] at h⟩

@[simp] theorem capacity_mk (s : Store) (n : Nat) (frozen : Bool) :
    ({ store := s, size := n, frozen } : Body).capacity = s.capacity := rfl

@[simp] theorem kind_mk (s : Store) (n : Nat) (frozen : Bool) :
    ({ store := s, size := n, frozen } : Body).kind = s.kind := rfl

theorem fits_empty {strict : Prop} : empty.Fits strict :=
  Fits.intro_view (Nat.le_refl 0) trivial rfl

theorem Fits.intro_full {strict : Prop} {b : Body} (hle : b.size = b.capacity)
    (hfits : b.store.Fits) : b.Fits strict :=
  ⟨Nat.le_of_eq hle, hfits, fun _ _ i hi h => by omega⟩

theorem Fits.intro_written {strict : Prop} {s d : Store} {n : Nat} {frozen : Bool}
    (hmut : d.isMutable) (hkind : s.kind = d.kind) (hcapacity : s.capacity = d.capacity)
    (hroom : n ≤ d.capacity)
    (hrest : strict → ∀ i, n ≤ i → i < d.capacity → s.get? i = some d.zero) :
    ({ store := s, size := n, frozen } : Body).Fits strict where
  size_le := Nat.le_trans hroom (Nat.le_of_eq hcapacity.symm)
  store := Store.fits_of_isMutable (Store.isMutable_of_kind hkind hmut)
  tidy hstrict _ i hi hlt :=
    (hrest hstrict i hi (hcapacity ▸ hlt)).trans (congrArg some (Store.zero_of_kind hkind.symm))

theorem Fits.with_frozen {strict : Prop} {b : Body} (h : b.Fits strict) (frozen : Bool) :
    ({ b with frozen } : Body).Fits strict :=
  ⟨h.size_le, h.store, h.tidy⟩

variable {strict : Prop} {b : Body}

theorem kind_ne_empty (hfits : b.Fits strict)
    (hsize : b.size ≠ 0) : b.kind ≠ .empty := by
  intro hkind
  have hle := hfits.size_le
  cases hstore : b.store with
  | empty =>
      rw [capacity, hstore] at hle
      exact hsize (Nat.le_zero.mp hle)
  | _ => simp [kind, hstore, Store.kind] at hkind

/-! ## The list of the elements -/

theorem length_toList (h : b.Fits strict) : b.toList.length = b.size := by
  simp only [toList, elements, buffer, Array.length_toList, Buffer.size_values]
  rw [Store.size_slice h.store h.size_le]
  omega

theorem getElem?_toList (h : b.Fits strict) (i : Nat) :
    b.toList[i]? = if i < b.size then b.store.get? i else none := by
  simp only [toList, elements, buffer, Array.getElem?_toList, Buffer.getElem?_values]
  rw [Store.get?_slice h.store h.size_le, Nat.zero_add]

theorem getElem?_toList_of_lt (h : b.Fits strict) {i : Nat} (hi : i < b.size) :
    b.toList[i]? = b.store.get? i := by
  rw [getElem?_toList h, if_pos hi]

theorem exists_get? (h : b.Fits strict) {i : Nat} (hi : i < b.size) :
    ∃ v, b.store.get? i = some v ∧ b.toList[i]? = some v := by
  have hslot := Store.get?_isSome h.store (Nat.lt_of_lt_of_le hi h.size_le)
  obtain ⟨v, hv⟩ := Option.isSome_iff_exists.mp hslot
  exact ⟨v, hv, by rw [getElem?_toList_of_lt h hi, hv]⟩

theorem mem_of_get? (h : b.Fits strict) {i : Nat} {v : Value} (hv : b.get? i = some v) :
    v ∈ b.toList :=
  List.mem_of_getElem? ((getElem?_toList h i).trans hv)

theorem holds_of_mem (h : b.Fits strict) {v : Value} (hv : v ∈ b.toList) : b.kind.holds v := by
  obtain ⟨i, hi⟩ := List.mem_iff_getElem?.mp hv
  rw [getElem?_toList h] at hi
  split at hi
  · exact Store.holds_of_get? hi
  · cases hi

theorem toList_eq (h : b.Fits strict) {xs : List Value} (hlen : xs.length = b.size)
    (hslot : ∀ i, i < b.size → b.store.get? i = xs[i]?) : b.toList = xs := by
  apply List.ext_getElem?
  intro i
  rw [getElem?_toList h]
  by_cases hi : i < b.size
  · rw [if_pos hi, hslot i hi]
  · rw [if_neg hi, List.getElem?_eq_none (by omega)]

theorem toList_of_size_eq_zero (h : b.Fits strict) (hsize : b.size = 0) : b.toList = [] :=
  List.length_eq_zero_iff.mp (by rw [length_toList h, hsize])

theorem toList_congr {strict' : Prop} {b' : Body} (h : b.Fits strict) (h' : b'.Fits strict')
    (hsize : b'.size = b.size) (hslot : ∀ i, i < b.size → b'.store.get? i = b.store.get? i) :
    b'.toList = b.toList := by
  refine toList_eq h' (by rw [length_toList h, hsize]) fun i hi => ?_
  rw [getElem?_toList_of_lt h (by omega), hslot i (by omega)]

end Body

end AdaptiveArray
