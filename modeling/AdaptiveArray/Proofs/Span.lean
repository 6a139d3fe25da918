import AdaptiveArray.Span
import Mathlib.Data.List.Induction
import Mathlib.Tactic.ByContra

/-!
# Stretches, slot by slot

What each operation on a stretch leaves in a slot.  The two forms of a move agree
wherever both ends lie inside the array, so the order in which `stepMove` goes over
the slots never shows: it takes its steps in one in which none reads what another has
overwritten.
-/

namespace AdaptiveArray.Span

variable {α : Type}

private theorem size_fold_set (n start : Nat) (g : (i : Nat) → i < n → α) (xs : Array α) :
    (n.fold (fun i h ys => ys.setIfInBounds (start + i) (g i h)) xs).size = xs.size := by
  induction n with
  | zero => rfl
  | succ n ih =>
      rw [Nat.fold_succ, Array.size_setIfInBounds]
      exact ih fun i h => g i (by omega)

private theorem getElem?_fold_set (n start : Nat) (g : (i : Nat) → i < n → α) (xs : Array α)
    (j : Nat) :
    (n.fold (fun i h ys => ys.setIfInBounds (start + i) (g i h)) xs)[j]? =
      if h : start ≤ j ∧ j < start + n ∧ j < xs.size then some (g (j - start) (by omega))
      else xs[j]? := by
  induction n with
  | zero => simp; omega
  | succ n ih =>
      rw [Nat.fold_succ, Array.getElem?_setIfInBounds, size_fold_set,
        ih fun i h => g i (by omega)]
      by_cases hj : start + n = j
      · subst hj
        by_cases hin : start + n < xs.size
        · simp [hin]
        · simp [hin]
      · by_cases hin : start ≤ j ∧ j < start + n ∧ j < xs.size
        · simp [hj, hin, show j < start + (n + 1) by omega]
        · have hout : ¬(start ≤ j ∧ j < start + (n + 1) ∧ j < xs.size) := by omega
          simp [hj, hin, hout]

@[simp] theorem size_overwrite (dst : Array α) (start : Nat) (src : Array α) :
    (overwrite dst start src).size = dst.size :=
  size_fold_set src.size start (fun i h => src[i]) dst

theorem getElem?_overwrite (dst : Array α) (start : Nat) (src : Array α) (j : Nat) :
    (overwrite dst start src)[j]? =
      if start ≤ j ∧ j < start + src.size ∧ j < dst.size then src[j - start]? else dst[j]? := by
  refine (getElem?_fold_set src.size start (fun i h => src[i]) dst j).trans ?_
  by_cases h : start ≤ j ∧ j < start + src.size ∧ j < dst.size
  · rw [dif_pos h, if_pos h, Array.getElem?_eq_getElem (by omega)]
  · rw [dif_neg h, if_neg h]

@[simp] theorem size_fill (xs : Array α) (start stop : Nat) (x : α) :
    (fill xs start stop x).size = xs.size :=
  size_fold_set (stop - start) start (fun _ _ => x) xs

theorem getElem?_fill (xs : Array α) (start stop : Nat) (x : α) (j : Nat) :
    (fill xs start stop x)[j]? =
      if start ≤ j ∧ j < stop ∧ j < xs.size then some x else xs[j]? := by
  refine (getElem?_fold_set (stop - start) start (fun _ _ => x) xs j).trans ?_
  by_cases h : start ≤ j ∧ j < stop ∧ j < xs.size
  · rw [dif_pos (by omega), if_pos h]
  · rw [dif_neg (by omega), if_neg h]

@[simp] theorem size_reverse (xs : Array α) (start stop : Nat) :
    (reverse xs start stop).size = xs.size := by
  simp [reverse]

theorem getElem?_reverse {xs : Array α} {start stop : Nat} (h : stop ≤ xs.size) (j : Nat) :
    (reverse xs start stop)[j]? =
      if start ≤ j ∧ j < stop then xs[start + stop - 1 - j]? else xs[j]? := by
  rw [reverse, getElem?_overwrite]
  have hsize : (xs.extract start stop).size = stop - start := by simp; omega
  by_cases hj : start ≤ j ∧ j < stop
  · have hrev : j - start < (xs.extract start stop).size := by omega
    rw [if_pos (by simp; omega), if_pos hj, Array.getElem?_reverse hrev, hsize,
      Array.getElem?_extract, if_pos (by omega)]
    congr 1
    omega
  · rw [if_neg (by simp; omega), if_neg hj]

@[simp] theorem size_copySlot (xs : Array α) (src dst : Nat) :
    (copySlot xs src dst).size = xs.size := by
  unfold copySlot
  split <;> simp

theorem getElem?_copySlot {xs : Array α} {src dst : Nat} (hsrc : src < xs.size) (j : Nat) :
    (copySlot xs src dst)[j]? = if j = dst ∧ dst < xs.size then xs[src]? else xs[j]? := by
  rw [copySlot, Array.getElem?_eq_getElem hsrc]
  simp only [Array.getElem?_setIfInBounds]
  by_cases h : dst = j
  · subst h
    by_cases hd : dst < xs.size <;> simp [hd]
  · simp [h, Ne.symm h]

theorem getElem?_copySlot_of_ne {xs : Array α} {src dst j : Nat} (h : dst ≠ j) :
    (copySlot xs src dst)[j]? = xs[j]? := by
  unfold copySlot
  split
  · exact Array.getElem?_setIfInBounds_ne h
  · rfl

@[simp] theorem size_blockMove (xs : Array α) (src dst len : Nat) :
    (blockMove xs src dst len).size = xs.size := by
  simp [blockMove]

theorem getElem?_blockMove {xs : Array α} {src dst len : Nat} (hsrc : src + len ≤ xs.size)
    (hdst : dst + len ≤ xs.size) (j : Nat) :
    (blockMove xs src dst len)[j]? =
      if dst ≤ j ∧ j < dst + len then xs[src + (j - dst)]? else xs[j]? := by
  rw [blockMove, getElem?_overwrite]
  have hsize : (xs.extract src (src + len)).size = len := by simp; omega
  by_cases hj : dst ≤ j ∧ j < dst + len
  · rw [if_pos (by omega), if_pos hj, Array.getElem?_extract, if_pos (by omega)]
  · rw [if_neg (by omega), if_neg hj]

/-! ## Moving slot by slot -/

def copySlots (xs : Array α) (src dst : Nat) (steps : List Nat) : Array α :=
  steps.foldl (fun ys i => copySlot ys (src + i) (dst + i)) xs

def moveOrder (src dst len : Nat) : List Nat :=
  if dst ≤ src then List.range len else (List.range len).reverse

/-- No step reads a slot that a step before it has overwritten. -/
def Clear (src dst : Nat) (steps : List Nat) : Prop :=
  steps.Pairwise fun earlier later => dst + earlier ≠ src + later

theorem stepMove_eq_copySlots (xs : Array α) (src dst len : Nat) :
    stepMove xs src dst len = copySlots xs src dst (moveOrder src dst len) := by
  unfold stepMove moveOrder copySlots
  split
  · induction len with
    | zero => rfl
    | succ len ih => simp [Nat.fold_succ, ih, List.range_succ]
  · induction len generalizing xs with
    | zero => rfl
    | succ len ih =>
        rw [Nat.foldRev_succ, ih, List.range_succ, List.reverse_concat, List.foldl_cons]

@[simp] theorem mem_moveOrder {src dst len i : Nat} : i ∈ moveOrder src dst len ↔ i < len := by
  unfold moveOrder
  split <;> simp

theorem clear_range_iff {src dst len : Nat} :
    Clear src dst (List.range len) ↔ dst ≤ src ∨ src + len ≤ dst := by
  simp only [Clear, List.pairwise_iff_getElem, List.length_range, List.getElem_range]
  constructor
  · intro h
    by_contra hin
    exact h 0 (dst - src) (by omega) (by omega) (by omega) (by omega)
  · omega

theorem clear_reverse_range_iff {src dst len : Nat} :
    Clear src dst (List.range len).reverse ↔ src ≤ dst ∨ dst + len ≤ src := by
  rw [Clear, List.pairwise_reverse]
  simp only [List.pairwise_iff_getElem, List.length_range, List.getElem_range]
  constructor
  · intro h
    by_contra hin
    exact h 0 (src - dst) (by omega) (by omega) (by omega) (by omega)
  · omega

theorem clear_moveOrder (src dst len : Nat) : Clear src dst (moveOrder src dst len) := by
  unfold moveOrder
  split
  · exact clear_range_iff.mpr (.inl ‹_›)
  · exact clear_reverse_range_iff.mpr (.inl (by omega))

@[simp] theorem size_copySlots (xs : Array α) (src dst : Nat) (steps : List Nat) :
    (copySlots xs src dst steps).size = xs.size := by
  induction steps generalizing xs with
  | nil => rfl
  | cons i steps ih => exact (ih _).trans (size_copySlot _ _ _)

theorem copySlots_concat (xs : Array α) (src dst : Nat) (steps : List Nat) (i : Nat) :
    copySlots xs src dst (steps ++ [i]) =
      copySlot (copySlots xs src dst steps) (src + i) (dst + i) :=
  List.foldl_append

theorem getElem?_copySlots_of_ne {xs : Array α} {src dst j : Nat} {steps : List Nat}
    (h : ∀ i ∈ steps, dst + i ≠ j) : (copySlots xs src dst steps)[j]? = xs[j]? := by
  induction steps generalizing xs with
  | nil => rfl
  | cons i steps ih =>
      obtain ⟨hi, hsteps⟩ := List.forall_mem_cons.mp h
      exact (ih hsteps).trans (getElem?_copySlot_of_ne hi)

/-- When its turn comes, a step reads what its slot held before the move. -/
theorem getElem?_copySlots_of_clear {xs : Array α} {src dst i : Nat} {earlier later : List Nat}
    (h : Clear src dst (earlier ++ i :: later)) :
    (copySlots xs src dst earlier)[src + i]? = xs[src + i]? :=
  getElem?_copySlots_of_ne fun k hk =>
    (List.pairwise_append.mp h).2.2 k hk i List.mem_cons_self

theorem getElem?_copySlots_of_mem {xs : Array α} {src dst i : Nat} {steps : List Nat}
    (hclear : Clear src dst steps)
    (hin : ∀ k ∈ steps, src + k < xs.size ∧ dst + k < xs.size) (hi : i ∈ steps) :
    (copySlots xs src dst steps)[dst + i]? = xs[src + i]? := by
  -- From the last step backwards: only the steps before it can disturb what it reads.
  induction steps using List.reverseRecOn with
  | nil => cases hi
  | append_singleton steps k ih =>
      obtain ⟨hsrc, hdst⟩ := hin k List.mem_concat_self
      rw [copySlots_concat, getElem?_copySlot (by rwa [size_copySlots]), size_copySlots,
        getElem?_copySlots_of_clear hclear]
      by_cases hk : i = k
      · subst hk
        rw [if_pos ⟨rfl, hdst⟩]
      · rw [if_neg (by omega)]
        exact ih (List.pairwise_append.mp hclear).1
          (fun k hk => hin k (List.mem_append_left _ hk))
          ((List.mem_append.mp hi).resolve_right fun h => hk (List.mem_singleton.mp h))

@[simp] theorem size_stepMove (xs : Array α) (src dst len : Nat) :
    (stepMove xs src dst len).size = xs.size := by
  rw [stepMove_eq_copySlots, size_copySlots]

theorem getElem?_stepMove {xs : Array α} {src dst len : Nat} (hsrc : src + len ≤ xs.size)
    (hdst : dst + len ≤ xs.size) (j : Nat) :
    (stepMove xs src dst len)[j]? =
      if dst ≤ j ∧ j < dst + len then xs[src + (j - dst)]? else xs[j]? := by
  rw [stepMove_eq_copySlots]
  by_cases hj : dst ≤ j ∧ j < dst + len
  · obtain ⟨i, rfl⟩ := Nat.exists_eq_add_of_le hj.1
    have hin : ∀ k ∈ moveOrder src dst len, src + k < xs.size ∧ dst + k < xs.size := by
      intro k hk
      have hlen := mem_moveOrder.mp hk
      omega
    rw [if_pos hj, Nat.add_sub_cancel_left]
    exact getElem?_copySlots_of_mem (clear_moveOrder src dst len) hin
      (mem_moveOrder.mpr (by omega))
  · rw [if_neg hj]
    refine getElem?_copySlots_of_ne fun i hi => ?_
    have hlen := mem_moveOrder.mp hi
    omega

/-- Copying slot by slot leaves what copying the block leaves. -/
theorem stepMove_eq_blockMove {xs : Array α} {src dst len : Nat} (hsrc : src + len ≤ xs.size)
    (hdst : dst + len ≤ xs.size) : stepMove xs src dst len = blockMove xs src dst len :=
  Array.ext_getElem? fun j => by
    rw [getElem?_stepMove hsrc hdst, getElem?_blockMove hsrc hdst]

end AdaptiveArray.Span
