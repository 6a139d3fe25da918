import AdaptiveArray.Proofs.Likeness
import AdaptiveArray.Proofs.Nesting

/-!
# When arrays are equal

Two values are matched if, whatever path of indices is followed from both, the arrays met
on the way have equal lengths, and the leaves at the end are equal.  A walk finds values
equal whenever they are matched.  It also takes an array for equal that it is inside of
already on the left, whatever it is compared with then; so it answers for matched values
only where no array on the left reaches itself.
-/

namespace AdaptiveArray

def Value.equalLeaf (how : Equality) (x y : Value) : Bool :=
  (Traversal.equalValues how (fun _ _ => pure false) x y).run

theorem Value.leaf_or_arrays (u v : Value) : (∀ i j, u = .array i → v ≠ .array j) ∨
    ∃ i j, u = .array i ∧ v = .array j := by
  by_cases h : ∃ i j, u = .array i ∧ v = .array j
  · exact .inr h
  · exact .inl fun i j hi hj => h ⟨i, j, hi, hj⟩

theorem Binary64.numEq_comm (x y : Binary64) : x.numEq y = y.numEq x := by
  have hunits : decide (x.units = y.units) = decide (y.units = x.units) := by
    rw [decide_eq_decide]
    exact eq_comm
  rw [numEq, numEq, hunits, Bool.and_comm (!x.isNaN)]

theorem Value.equalLeaf_comm (how : Equality) (x y : Value) :
    x.equalLeaf how y = y.equalLeaf how x := by
  cases x <;> cases y <;>
    simp [equalLeaf, Traversal.equalValues, Traversal.run_eq_answer, eq_comm, Binary64.numEq_comm]

theorem Value.equalLeaf_array (how : Equality) (i j : ArrayId) :
    (array i).equalLeaf how (array j) = decide (i = j) := by
  unfold equalLeaf Traversal.equalValues
  by_cases h : i = j <;> simp [h, Traversal.run_eq_answer]

namespace Arena

def Beside (a : Arena) (i j : ArrayId) (u v : Value) : Prop :=
  ∃ (b c : Body) (k : Nat), a.readable? i = some b ∧ a.readable? j = some c ∧
    b.toList[k]? = some u ∧ c.toList[k]? = some v

/-- The values met on a path of indices from `x` and from `y`.  A path ends where both sides are the
same array, or one of them is no array. -/
inductive Meets (a : Arena) (x y : Value) : Value → Value → Prop
  | start : Meets a x y x y
  | beside {i j : ArrayId} {u v : Value} (met : Meets a x y (.array i) (.array j)) (ne : i ≠ j)
      (beside : a.Beside i j u v) : Meets a x y u v

def Agree (a : Arena) (how : Equality) : Value → Value → Prop
  | .array i, .array j => i = j ∨
      ∃ b c, a.readable? i = some b ∧ a.readable? j = some c ∧ b.size = c.size
  | u, v => u.equalLeaf how v

def Matched (a : Arena) (how : Equality) (x y : Value) : Prop :=
  ∀ u v, a.Meets x y u v → a.Agree how u v

variable {a : Arena} {how : Equality} {x y u v : Value} {i j : ArrayId}

/-! ## Paths -/

theorem Meets.symm (h : a.Meets x y u v) : a.Meets y x v u := by
  induction h with
  | start => exact .start
  | beside _ ne beside ih =>
      obtain ⟨b, c, k, hb, hc, hu, hv⟩ := beside
      exact .beside ih ne.symm ⟨c, b, k, hc, hb, hv, hu⟩

theorem Meets.under {p q : Value} (ne : i ≠ j) (hbeside : a.Beside i j u v)
    (h : a.Meets u v p q) : a.Meets (.array i) (.array j) p q := by
  induction h with
  | start => exact .beside .start ne hbeside
  | beside _ ne' beside ih => exact .beside ih ne' beside

theorem Meets.first {p q : Value} (h : a.Meets (.array i) (.array j) p q) :
    (p = .array i ∧ q = .array j) ∨
      i ≠ j ∧ ∃ u v, a.Beside i j u v ∧ a.Meets u v p q := by
  generalize hx : Value.array i = x at h
  generalize hy : Value.array j = y at h
  induction h with
  | start => exact .inl ⟨rfl, rfl⟩
  | beside _ ne beside ih =>
      rcases ih with ⟨hi, hj⟩ | ⟨ne', u, v, hbeside, hmet⟩
      · subst hx hy
        cases hi
        cases hj
        exact .inr ⟨ne, _, _, beside, .start⟩
      · exact .inr ⟨ne', u, v, hbeside, hmet.beside ne beside⟩

/-! ## Matched values -/

theorem Agree.symm (h : a.Agree how u v) : a.Agree how v u := by
  unfold Agree at h ⊢
  split at h
  · rcases h with rfl | ⟨b, c, hb, hc, hsize⟩
    · exact .inl rfl
    · exact .inr ⟨c, b, hc, hb, hsize.symm⟩
  case h_2 hne =>
      split
      · exact (hne _ _ rfl rfl).elim
      · rwa [Value.equalLeaf_comm]

theorem Matched.symm (h : a.Matched how x y) : a.Matched how y x :=
  fun _ _ hmet => (h _ _ hmet.symm).symm

theorem Matched.beside (h : a.Matched how (.array i) (.array j)) (ne : i ≠ j)
    (hbeside : a.Beside i j u v) : a.Matched how u v :=
  fun _ _ hmet => h _ _ (hmet.under ne hbeside)

theorem Matched.intro {b c : Body} (hb : a.readable? i = some b) (hc : a.readable? j = some c)
    (hsize : b.size = c.size) (h : ∀ u v, a.Beside i j u v → a.Matched how u v) :
    a.Matched how (.array i) (.array j) := by
  intro p q hmet
  rcases hmet.first with ⟨rfl, rfl⟩ | ⟨-, u, v, hbeside, hmet⟩
  · exact .inr ⟨b, c, hb, hc, hsize⟩
  · exact h u v hbeside p q hmet

theorem Matched.same (a : Arena) (how : Equality) (i : ArrayId) :
    a.Matched how (.array i) (.array i) := by
  intro p q hmet
  rcases hmet.first with ⟨rfl, rfl⟩ | ⟨ne, -⟩
  · exact .inl rfl
  · exact absurd rfl ne

theorem Meets.arrays (h : a.Meets x y (.array i) (.array j)) :
    ∃ i j, x = .array i ∧ y = .array j := by
  generalize hu : Value.array i = u at h
  generalize hv : Value.array j = v at h
  induction h generalizing i j with
  | start => exact ⟨i, j, hu.symm, hv.symm⟩
  | beside _ _ _ ih => exact ih rfl rfl

theorem agree_leaf (hleaf : ∀ i j, u = .array i → v ≠ .array j) :
    a.Agree how u v ↔ u.equalLeaf how v = true := by
  unfold Agree
  split
  · exact absurd rfl (hleaf _ _ rfl)
  · rfl

theorem Matched.leaf (hleaf : ∀ i j, u = .array i → v ≠ .array j)
    (h : u.equalLeaf how v = true) : a.Matched how u v := by
  intro p q hmet
  cases hmet with
  | start => exact (agree_leaf hleaf).mpr h
  | beside met =>
      obtain ⟨i, j, hu, hv⟩ := met.arrays
      exact absurd hv (hleaf i j hu)

theorem Matched.equalLeaf (h : a.Matched how u v) (hleaf : ∀ i j, u = .array i → v ≠ .array j) :
    u.equalLeaf how v = true :=
  (agree_leaf hleaf).mp (h u v .start)

theorem exists_beside {b c : Body} (hfits : a.Fits) (hb : a.readable? i = some b)
    (hc : a.readable? j = some c) (hsize : b.size = c.size) {k : Nat}
    (hv : c.toList[k]? = some v) : ∃ u, b.toList[k]? = some u := by
  refine ⟨_, List.getElem?_eq_getElem ?_⟩
  rw [Body.length_toList (hfits i b hb), hsize, ← Body.length_toList (hfits j c hc)]
  exact (List.getElem?_eq_some_iff.mp hv).1

theorem Matched.array_of_right (h : a.Matched how u (.array j)) : ∃ i, u = .array i := by
  cases u with
  | array i => exact ⟨i, rfl⟩
  | _ => cases h _ _ .start

theorem Matched.acc (h : a.Matched how (.array i) (.array j)) (hfits : a.Fits)
    (hi : Acc (fun j i => a.Holds i j) i) : Acc (fun j i => a.Holds i j) j := by
  induction hi generalizing j with
  | intro i hdown ih =>
      by_cases hij : i = j
      · exact hij ▸ ⟨i, hdown⟩
      · refine ⟨j, fun j' hj' => ?_⟩
        rcases h _ _ .start with rfl | ⟨b, c, hb, hc, hsize⟩
        · exact absurd rfl hij
        · obtain ⟨c', hc', hmem⟩ := hj'
          rw [hc] at hc'
          cases hc'
          obtain ⟨k, hv⟩ := List.mem_iff_getElem?.mp hmem
          obtain ⟨u, hu⟩ := exists_beside hfits hb hc hsize hv
          have hmatched := h.beside hij ⟨b, c, k, hb, hc, hu, hv⟩
          obtain ⟨i', rfl⟩ := hmatched.array_of_right
          exact ih i' ⟨b, hb, List.mem_of_getElem? hu⟩ hmatched

theorem Matched.unlooped (h : a.Matched how (.array i) (.array j)) (hfits : a.Fits)
    (hi : a.Unlooped i) : a.Unlooped j :=
  unlooped_of_acc (h.acc hfits hi.acc)

end Arena

/-! ## What a walk answers -/

namespace Traversal

variable {a : Arena} {how : Equality} {nested : ArrayId → ArrayId → Traversal Bool}
variable {u v : Value} {s : List ArrayId}

theorem answer_equalValues_array (i j : ArrayId) :
    answer (equalValues how nested (.array i) (.array j)) s =
      (decide (i = j) || answer (nested i j) s) := by
  unfold equalValues
  by_cases h : i = j <;> simp [h]

theorem answer_equalValues_leaf (h : ∀ i j, u = .array i → v ≠ .array j) :
    answer (equalValues how nested u v) s = u.equalLeaf how v := by
  cases u with
  | array i =>
      cases v with
      | array j => exact absurd rfl (h i j rfl)
      | _ => rfl
  | _ => cases v <;> rfl

theorem forall_mem_zip {α β : Type} {xs : List α} {ys : List β} {P : α → β → Prop} :
    (∀ pair ∈ xs.zip ys, P pair.1 pair.2) ↔
      ∀ (k : Nat) (x : α) (y : β), xs[k]? = some x → ys[k]? = some y → P x y := by
  constructor
  · intro h k x y hx hy
    exact h (x, y) (List.mem_of_getElem? (List.getElem?_zip_eq_some.mpr ⟨hx, hy⟩))
  · rintro h ⟨x, y⟩ hmem
    obtain ⟨k, hk⟩ := List.mem_iff_getElem?.mp hmem
    obtain ⟨hx, hy⟩ := List.getElem?_zip_eq_some.mp hk
    exact h k x y hx hy

theorem answer_equalBodies (h : ∀ i j, Balanced (nested i j)) {b c : Body} (hb : b.Fits False)
    (hc : c.Fits False) : answer (equalBodies how nested b c) s = true ↔ b.size = c.size ∧
      ∀ (k : Nat) (u v : Value), b.toList[k]? = some u → c.toList[k]? = some v →
        answer (equalValues how nested u v) s = true := by
  rw [equalBodies_eq hb hc, ← forall_mem_zip]
  by_cases hsize : b.size = c.size
  · rw [if_neg (not_not.mpr hsize), equalLists, answer_allM fun _ => balanced_equalValues h _ _,
      List.all_eq_true]
    exact (and_iff_right hsize).symm
  · simp [hsize]

theorem answer_equalValues_of_matched (h : a.Matched how u v)
    (hnested : ∀ i j, i ≠ j → a.Matched how (.array i) (.array j) →
      answer (nested i j) s = true) :
    answer (equalValues how nested u v) s = true := by
  rcases u.leaf_or_arrays v with hleaf | ⟨i, j, rfl, rfl⟩
  · rw [answer_equalValues_leaf hleaf]
    exact h.equalLeaf hleaf
  · rw [answer_equalValues_array]
    by_cases hij : i = j
    · simp [hij]
    · simp [hij, hnested i j hij h]

theorem matched_of_answer_equalValues (h : answer (equalValues how nested u v) s = true)
    (hnested : ∀ i j, u = .array i → v = .array j → answer (nested i j) s = true →
      a.Matched how (.array i) (.array j)) : a.Matched how u v := by
  rcases u.leaf_or_arrays v with hleaf | ⟨i, j, rfl, rfl⟩
  · rw [answer_equalValues_leaf hleaf] at h
    exact .leaf hleaf h
  · rw [answer_equalValues_array, Bool.or_eq_true, decide_eq_true_eq] at h
    rcases h with rfl | h
    · exact .same a how i
    · exact hnested i j rfl rfl h

/-- Matched arrays are found equal, whatever the walk is inside of. -/
theorem answer_equalArrays_of_matched (hfits : a.Fits) {depth : Nat} {i j : ArrayId}
    (hroom : a.Room s depth) (ne : i ≠ j) (h : a.Matched how (.array i) (.array j)) :
    answer (equalArrays a how depth i j) s = true := by
  induction depth generalizing s i j with
  | zero => exact absurd hroom.pos (Nat.lt_irrefl 0)
  | succ depth ih =>
      rw [equalArrays, answer_guarded]
      by_cases hi : i ∈ s
      · rw [if_pos hi]
      · rcases h _ _ .start with rfl | ⟨b, c, hb, hc, hsize⟩
        · exact absurd rfl ne
        · have hinside := hroom.cons hi (by rw [hb]; rfl)
          rw [if_neg hi, hb, hc]
          refine (answer_equalBodies (balanced_equalArrays a how depth) (hfits i b hb)
            (hfits j c hc)).mpr ⟨hsize, fun k u v hu hv => ?_⟩
          exact answer_equalValues_of_matched (h.beside ne ⟨b, c, k, hb, hc, hu, hv⟩)
            fun i' j' ne' h' => ih hinside ne' h'

/-- Where the left array is on no circle, arrays that are found equal are matched. -/
theorem matched_of_answer_equalArrays (hfits : a.Fits) {depth : Nat} {i j : ArrayId}
    (hs : ∀ k ∈ s, Relation.TransGen a.Holds k i) (hi : a.Unlooped i)
    (h : answer (equalArrays a how depth i j) s = true) :
    a.Matched how (.array i) (.array j) := by
  induction depth generalizing s i j with
  | zero => cases h
  | succ depth ih =>
      rw [equalArrays, answer_guarded, if_neg (hi.not_mem hs)] at h
      split at h
      case h_1 b c hb hc =>
          obtain ⟨hsize, hall⟩ := (answer_equalBodies (balanced_equalArrays a how depth)
            (hfits i b hb) (hfits j c hc)).mp h
          refine .intro hb hc hsize ?_
          rintro u v ⟨b', c', k, hb', hc', hu, hv⟩
          rw [hb] at hb'
          rw [hc] at hc'
          cases hb'
          cases hc'
          refine matched_of_answer_equalValues (hall k u v hu hv) ?_
          rintro i' j' rfl rfl h'
          have hholds : a.Holds i i' := ⟨b, hb, List.mem_of_getElem? hu⟩
          exact ih (Arena.leads_cons hs hholds) (hi.holds hholds) h'
      case h_2 => cases h

end Traversal

/-! ## Both equalities -/

namespace Arena

variable {a : Arena} {how : Equality} {x y : Value}

theorem equal_of_matched (hfits : a.Fits) (h : a.Matched how x y) : a.equal how x y = true :=
  Traversal.answer_equalValues_of_matched h fun _ _ ne h' =>
    Traversal.answer_equalArrays_of_matched hfits (room_start a) ne h'

theorem matched_of_equal (hfits : a.Fits) (hx : ∀ i, x = .array i → a.Unlooped i)
    (h : a.equal how x y = true) : a.Matched how x y := by
  refine Traversal.matched_of_answer_equalValues h ?_
  rintro i j rfl rfl h'
  exact Traversal.matched_of_answer_equalArrays hfits (List.forall_mem_nil _) (hx i rfl) h'

/-- Matched values are equal from both sides.  Where the array on the left leads into no circle,
values that are found equal are matched, and so equal from the other side, too. -/
theorem equal_sound_and_symmetric (hfits : a.Fits) (how : Equality) (x y : Value) :
    (a.Matched how x y → a.equal how x y = true ∧ a.equal how y x = true) ∧
    ((∀ i, x = .array i → a.Unlooped i) → a.equal how x y = true →
      a.Matched how x y ∧ a.equal how y x = true) := by
  constructor
  · intro h
    exact ⟨equal_of_matched hfits h, equal_of_matched hfits h.symm⟩
  · intro hx h
    have hmatched := matched_of_equal hfits hx h
    exact ⟨hmatched, equal_of_matched hfits hmatched.symm⟩

/-- Two arrays that hold an array of a `5` each. -/
theorem equal_sound_and_symmetric_nested :
    let a := ofLists [[.array 1], [.int 5], [.array 3], [.int 5]]
    a.Matched .numeric (.array 0) (.array 2) ∧ a.equal .numeric (.array 2) (.array 0) = true := by
  intro a
  have hunlooped : ∀ i, a.Unlooped i := unlooped_ofLists (by decide)
  exact (equal_sound_and_symmetric (fits_ofLists _) .numeric (.array 0) (.array 2)).2
    (fun i _ => hunlooped i) (by decide +kernel)

/-- An array that holds only itself equals an array that holds an array of a `5`, but not the other
way round; and the two are not matched. -/
theorem equal_one_way_of_circle :
    ∃ a : Arena, a.Fits ∧ ∀ how, a.equal how (.array 0) (.array 1) = true ∧
      a.equal how (.array 1) (.array 0) = false ∧ ¬a.Matched how (.array 0) (.array 1) := by
  refine ⟨ofLists [[.array 0], [.array 2], [.int 5]], fits_ofLists _, fun how => ?_⟩
  have hback : (ofLists [[.array 0], [.array 2], [.int 5]]).equal how (.array 1) (.array 0)
      = false := by
    cases how <;> decide +kernel
  refine ⟨by cases how <;> decide +kernel, hback, fun h => ?_⟩
  rw [equal_of_matched (fits_ofLists _) h.symm] at hback
  cases hback

end Arena

end AdaptiveArray
