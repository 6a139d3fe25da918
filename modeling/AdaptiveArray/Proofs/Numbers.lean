import AdaptiveArray.Proofs.Sorting
import AdaptiveArray.Proofs.Stability
import Mathlib.Data.Int.Order.Basic

/-!
# Numbers in order

Numbers of one kind are ordered by their rank: an integer by its value, a float by how
many units it is worth.  Only a NaN has no rank.  The sort of unboxed numbers is the
stable sort by rank.
-/

namespace AdaptiveArray

namespace Value

def rank? : Value → Option Int
  | int i => some i.toInt
  | float x => if x.isNaN then none else some x.units
  | _ => none

def ranked (x y : Value) : Bool :=
  x.rank?.getD 0 ≤ y.rank?.getD 0

def Uniform (vs : List Value) : Prop :=
  (∀ v ∈ vs, ∃ i, v = int i) ∨ ∀ v ∈ vs, ∃ x, v = float x

theorem ranked_iff {x y : Value} {r s : Int} (hx : x.rank? = some r) (hy : y.rank? = some s) :
    ranked x y = true ↔ r ≤ s := by
  simp [ranked, hx, hy]

theorem ranked_trans (x y z : Value) (hxy : ranked x y) (hyz : ranked y z) : ranked x z :=
  decide_eq_true (Int.le_trans (of_decide_eq_true hxy) (of_decide_eq_true hyz))

theorem ranked_total (x y : Value) : ranked x y || ranked y x := by
  simp only [ranked, Bool.or_eq_true, decide_eq_true_eq]
  exact Int.le_total _ _

end Value

namespace Sorting

def byRank (x y : Value) : Option Ordering := do
  let r ← x.rank?
  let s ← y.rank?
  return compare r s

variable {x y : Value} {xs : List Value}

theorem atMost_byRank : AtMost byRank x y ↔
    ∃ r s, x.rank? = some r ∧ y.rank? = some s ∧ r ≤ s :=
  atMost_byKey

theorem comparable_byRank : Comparable byRank x y ↔ x.rank? ≠ none ∧ y.rank? ≠ none := by
  rw [Comparable, byRank]
  cases x.rank? <;> cases y.rank? <;> simp

theorem pairwise_comparable_byRank : xs.Pairwise (Comparable byRank) ↔
    xs.length ≤ 1 ∨ ∀ v ∈ xs, v.rank? ≠ none := by
  match xs with
  | [] => simp
  | [x] => simp
  | x :: y :: rest =>
      constructor
      · intro h
        have hfirst := (List.pairwise_cons.mp h).1
        right
        intro v hv
        rcases List.mem_cons.mp hv with rfl | hv
        · exact (comparable_byRank.mp (hfirst y List.mem_cons_self)).1
        · exact (comparable_byRank.mp (hfirst v hv)).2
      · rintro (hlen | h)
        · simp at hlen
        · exact List.pairwise_of_forall_mem_list fun u hu v hv =>
            comparable_byRank.mpr ⟨h u hu, h v hv⟩

theorem consistent_byRank : Consistent byRank fun _ => True :=
  consistent_byKey Value.rank?

theorem ranked_iff_atMost (hx : x.rank? ≠ none) (hy : y.rank? ≠ none) :
    Value.ranked x y = true ↔ AtMost byRank x y := by
  obtain ⟨r, hr⟩ := Option.ne_none_iff_exists'.mp hx
  obtain ⟨s, hs⟩ := Option.ne_none_iff_exists'.mp hy
  rw [Value.ranked_iff hr hs, atMost_byRank]
  refine ⟨fun hle => ⟨r, s, hr, hs, hle⟩, ?_⟩
  rintro ⟨r', s', hr', hs', hle⟩
  rw [hr] at hr'
  rw [hs] at hs'
  cases hr'
  cases hs'
  exact hle

theorem stablySorts_ranked (h : ∀ v ∈ xs, v.rank? ≠ none) :
    StablySorts byRank (fun v => v ∈ xs) xs (xs.mergeSort Value.ranked) :=
  .mergeSort (consistent_byRank.mono fun _ _ => trivial) (fun _ hv => hv) Value.ranked_trans
    Value.ranked_total fun _ _ hx hy => ranked_iff_atMost (h _ hx) (h _ hy)

end Sorting

theorem Arena.order_of_uniform {vs : List Value} (h : Value.Uniform vs) (a : Arena) {x y : Value}
    (hx : x ∈ vs) (hy : y ∈ vs) : a.order x y = Sorting.byRank x y := by
  rcases h with h | h
  · obtain ⟨i, rfl⟩ := h x hx
    obtain ⟨j, rfl⟩ := h y hy
    rfl
  · obtain ⟨x, rfl⟩ := h x hx
    obtain ⟨y, rfl⟩ := h y hy
    change Binary64.compare? x y = _
    rw [Binary64.compare?, Sorting.byRank, Value.rank?, Value.rank?]
    cases x.isNaN <;> cases y.isNaN <;> rfl

/-! ## Unboxed numbers -/

namespace Buffer

theorem sort?_ranked {b : Buffer} (hnumbers : b.element ≠ .object)
    (hranks : ∀ v ∈ b.values.toList, v.rank? ≠ none) :
    ∃ c, b.sort? b.size = some c ∧ c.values.toList = b.values.toList.mergeSort Value.ranked := by
  have hsorted {α : Type} {xs : Array α} {r : α → α → Bool} {f : α → Value}
      (hr : ∀ x ∈ xs.toList, ∀ y ∈ xs.toList, r x y = Value.ranked (f x) (f y)) :
      ((Span.overwrite xs 0 (xs.toList.mergeSort r).toArray).map f).toList =
        (xs.map f).toList.mergeSort Value.ranked := by
    rw [overwrite_all (by rw [List.length_mergeSort, Array.length_toList]), Array.toList_map,
      Array.toList_map]
    exact List.map_mergeSort hr
  cases b with
  | int xs =>
      refine ⟨_, rfl, ?_⟩
      simp only [size, take_toList]
      refine hsorted fun x _ y _ => ?_
      simp [Value.ranked, Value.rank?, Int32.le_iff_toInt_le]
  | long xs =>
      refine ⟨_, rfl, ?_⟩
      simp only [size, take_toList]
      refine hsorted fun x _ y _ => ?_
      exact decide_eq_decide.mpr Int64.le_iff_toInt_le
  | double xs =>
      have hnan : ∀ x ∈ xs.toList, x.isNaN = false := by
        intro x hx
        have hrank := hranks (.float x) (by
          rw [values, Array.toList_map]
          exact List.mem_map_of_mem hx)
        rw [Value.rank?] at hrank
        cases hx : x.isNaN with
        | false => rfl
        | true => exact absurd (if_pos hx) hrank
      have hany : xs.toList.any Binary64.isNaN = false :=
        List.any_eq_false.mpr fun x hx => by simp [hnan x hx]
      refine ⟨_, rfl, ?_⟩
      simp only [size, take_toList, orderedFloats, hany, Bool.false_eq_true, if_false]
      refine hsorted fun x hx y hy => ?_
      simp [Value.ranked, Value.rank?, Binary64.compare?, hnan x hx, hnan y hy,
        Int.compare_eq_lt]
  | object xs => exact absurd rfl hnumbers

end Buffer

theorem Store.element_ne_object {s : Store} (h : s.kind.isPrimitive) :
    s.buffer.element ≠ .object := by
  have hne : s ≠ .empty := by
    rintro rfl
    cases h
  rw [Kind.isPrimitive, Store.element?_kind hne] at h
  intro hobject
  rw [hobject] at h
  cases h

theorem Kind.isPrimitive_forCopy (k : Kind) : k.forCopy.isPrimitive = k.isPrimitive := by
  cases k <;> rfl

namespace Body

variable {b : Body}

theorem element_ne_object (h : b.kind.isPrimitive) : b.buffer.element ≠ .object := by
  rw [buffer, Store.element_slice]
  exact Store.element_ne_object h

theorem uniform_of_isPrimitive (h : b.kind.isPrimitive) : Value.Uniform b.toList := by
  have helement := element_ne_object h
  rw [toList, elements]
  cases hbuffer : b.buffer with
  | int xs => exact .inl (by simp [Buffer.values])
  | long xs => exact .inl (by simp [Buffer.values])
  | double xs => exact .inr (by simp [Buffer.values])
  | object xs => exact absurd (by rw [hbuffer]; rfl) helement

theorem hasNaN_iff (h : b.kind.isPrimitive) : b.hasNaN = true ↔ ∃ v ∈ b.toList, v.rank? = none := by
  have helement := element_ne_object h
  rw [hasNaN, toList, elements]
  cases hbuffer : b.buffer with
  | int xs => simp [Buffer.values, Value.rank?]
  | long xs => simp [Buffer.values, Value.rank?]
  | double xs =>
      change xs.any Binary64.isNaN = true ↔ _
      rw [← Array.any_toList, List.any_eq_true]
      simp [Buffer.values, Value.rank?]
  | object xs => exact absurd (by rw [hbuffer]; rfl) helement

theorem pairwise_comparable_iff {strict : Prop} (hfits : b.Fits strict) (h : b.kind.isPrimitive) :
    b.toList.Pairwise (Sorting.Comparable Sorting.byRank) ↔ ¬(b.hasNaN ∧ 2 ≤ b.size) := by
  rw [Sorting.pairwise_comparable_byRank, hasNaN_iff h, length_toList hfits]
  constructor
  · rintro (hlen | hranks) ⟨⟨v, hv, hnone⟩, hsize⟩
    · omega
    · exact hranks v hv hnone
  · intro hnot
    by_cases hsize : 2 ≤ b.size
    · right
      intro v hv hnone
      exact hnot ⟨⟨v, hv, hnone⟩, hsize⟩
    · left
      omega

end Body

end AdaptiveArray
