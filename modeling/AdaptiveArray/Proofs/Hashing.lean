import AdaptiveArray.Proofs.Floats
import AdaptiveArray.Proofs.Matching
import AdaptiveArray.Traversal.Hash

/-!
# Equal arrays hash alike

Strictly equal values give the same bytes to a hash function, so that they are the same
key.  Equality and hashing stop at different arrays where arrays hold each other in a
circle: two handles of one array are equal, but each may be met inside of other arrays.
So the theorem is about arrays that lead into no circle.
-/

namespace AdaptiveArray

namespace Arena

/-- The same value, or strictly equal ones, along every path. -/
def Akin (a : Arena) (u v : Value) : Prop :=
  u = v ∨ a.Matched .strict u v

variable {a : Arena} {u v : Value} {i j : ArrayId}

theorem Akin.arrays (h : a.Akin (.array i) (.array j)) :
    (a.readable? i = none ∧ a.readable? j = none) ∨
      ∃ b c, a.readable? i = some b ∧ a.readable? j = some c ∧ b.size = c.size ∧
        ∀ (k : Nat) (u v : Value), b.toList[k]? = some u → c.toList[k]? = some v → a.Akin u v := by
  by_cases hij : i = j
  · subst hij
    cases hread : a.readable? i with
    | none => exact .inl ⟨rfl, rfl⟩
    | some b =>
        refine .inr ⟨b, b, rfl, rfl, rfl, fun k u v hu hv => .inl ?_⟩
        exact Option.some.inj (hu.symm.trans hv)
  · have hmatched : a.Matched .strict (.array i) (.array j) :=
      h.resolve_left fun heq => hij (Value.array.inj heq)
    obtain ⟨b, c, hb, hc, hsize⟩ := (hmatched _ _ .start).resolve_left hij
    exact .inr ⟨b, c, hb, hc, hsize, fun k u v hu hv =>
      .inr (hmatched.beside hij ⟨b, c, k, hb, hc, hu, hv⟩)⟩

end Arena

namespace Traversal

variable {a : Arena} {u v : Value} {nested nested' : ArrayId → Traversal (List UInt8)}
variable {s t : List ArrayId}

theorem answer_hashContent_float {x y : Binary64} (h : x.numEq y = true) :
    answer (hashContent nested (.float x)) s = answer (hashContent nested' (.float y)) t := by
  rcases Binary64.eq_or_zero_of_numEq h with rfl | ⟨hx, hy⟩
  · rfl
  · simp only [hashContent, hx, hy, if_true, answer_pure]

theorem tag_eq_and_answer_hashContent (hleaf : ∀ i j, u = .array i → v ≠ .array j)
    (h : u.equalLeaf .strict v = true) :
    u.tag = v.tag ∧ answer (hashContent nested u) s = answer (hashContent nested' v) t := by
  cases u <;> cases v <;> simp [Value.equalLeaf, run_eq_answer, equalValues] at h
  case float.float => exact ⟨rfl, answer_hashContent_float h⟩
  case array.array => exact absurd rfl (hleaf _ _ rfl)
  all_goals exact ⟨rfl, by simp only [hashContent, answer_pure, h]⟩

theorem answer_hashValue (h : ∀ id, Balanced (nested id)) (v : Value) (s : List ArrayId) :
    answer (hashValue nested v) s = wordBytes v.tag ++ answer (hashContent nested v) s := by
  rw [hashValue, answer_bind (balanced_hashContent h v)]
  rfl

theorem answer_hashValue_akin (hbal : ∀ id, Balanced (nested id))
    (hbal' : ∀ id, Balanced (nested' id)) (h : a.Akin u v)
    (hnested : ∀ i j, u = .array i → v = .array j →
      answer (nested i) s = answer (nested' j) t) :
    answer (hashValue nested u) s = answer (hashValue nested' v) t := by
  rw [answer_hashValue hbal, answer_hashValue hbal']
  rcases h with rfl | h
  · cases u with
    | array i => exact congrArg _ (hnested i i rfl rfl)
    | _ => rfl
  · rcases u.leaf_or_arrays v with hleaf | ⟨i, j, rfl, rfl⟩
    · obtain ⟨htag, hcontent⟩ := tag_eq_and_answer_hashContent hleaf (h.equalLeaf hleaf)
      rw [htag, hcontent]
    · exact congrArg _ (hnested i j rfl rfl)

theorem answer_hashBody (h : ∀ id, Balanced (nested id)) (b : Body) (s : List ArrayId) :
    answer (hashBody nested b) s = wordBytes (UInt64.ofNat b.size) ++
      (b.toList.map fun v => answer (hashValue nested v) s).flatten := by
  rw [hashBody, answer_bind (balanced_mapM (balanced_hashValue h) _),
    answer_mapM (balanced_hashValue h)]
  rfl

theorem answer_hashBody_akin (hbal : ∀ id, Balanced (nested id))
    (hbal' : ∀ id, Balanced (nested' id)) {b c : Body} (hb : b.Fits False) (hc : c.Fits False)
    (hsize : b.size = c.size)
    (h : ∀ (k : Nat) (u v : Value), b.toList[k]? = some u → c.toList[k]? = some v →
      answer (hashValue nested u) s = answer (hashValue nested' v) t) :
    answer (hashBody nested b) s = answer (hashBody nested' c) t := by
  rw [answer_hashBody hbal, answer_hashBody hbal', hsize]
  refine congrArg (fun parts => _ ++ List.flatten parts) (List.ext_getElem ?_ ?_)
  · simp only [List.length_map, Body.length_toList hb, Body.length_toList hc, hsize]
  · intro k hk hk'
    simp only [List.length_map] at hk hk'
    simp only [List.getElem_map]
    exact h k _ _ (List.getElem?_eq_getElem hk) (List.getElem?_eq_getElem hk')

/-- Two walks that start at akin arrays give the same bytes, whatever other arrays they are inside
of: neither meets one of those again. -/
theorem answer_hashArray_akin (hfits : a.Fits) {depth : Nat} {i j : ArrayId}
    (hi : a.Above s depth i) (hj : a.Above t depth j) (h : a.Akin (.array i) (.array j)) :
    answer (hashArray a depth i) s = answer (hashArray a depth j) t := by
  induction depth generalizing s t i j with
  | zero => rfl
  | succ depth ih =>
      have hbal := balanced_hashArray a depth
      rw [hashArray, hashArray, answer_guarded, answer_guarded, if_neg hi.not_mem,
        if_neg hj.not_mem]
      rcases h.arrays with ⟨hi', hj'⟩ | ⟨b, c, hb, hc, hsize, hakin⟩
      · rw [hi', hj']
        rfl
      · rw [hb, hc]
        refine answer_hashBody_akin hbal hbal (hfits i b hb) (hfits j c hc) hsize
          fun k u v hu hv => answer_hashValue_akin hbal hbal (hakin k u v hu hv) ?_
        rintro i' j' rfl rfl
        exact ih (hi.holds ⟨b, hb, List.mem_of_getElem? hu⟩)
          (hj.holds ⟨c, hc, List.mem_of_getElem? hv⟩) (hakin k _ _ hu hv)

end Traversal

/-! ## Values and bodies -/

namespace Arena

variable {a : Arena}

theorem Akin.hash_eq (hfits : a.Fits) {u v : Value} (hu : ∀ i, u = .array i → a.Unlooped i)
    (h : a.Akin u v) : Traversal.answer (Traversal.hashValue (Traversal.hashArray a a.depth) u) [] =
      Traversal.answer (Traversal.hashValue (Traversal.hashArray a a.depth) v) [] := by
  have hbal := Traversal.balanced_hashArray a a.depth
  refine Traversal.answer_hashValue_akin hbal hbal h ?_
  rintro i j rfl rfl
  have hi := hu i rfl
  have hj : a.Unlooped j := by
    rcases h with heq | h
    · cases heq
      exact hi
    · exact h.unlooped hfits hi
  exact Traversal.answer_hashArray_akin hfits (.start hi) (.start hj) h

/-- Strictly equal values hash alike, and so do strictly equal bodies, where the arrays on the left
lead into no circle. -/
theorem hash_eq_of_equal (hfits : a.Fits) :
    (∀ x y, (∀ i, x = .array i → a.Unlooped i) → a.equal .strict x y = true →
      a.hashBytes x = a.hashBytes y) ∧
    ∀ b c : Body, b.Fits False → c.Fits False → (∀ i, .array i ∈ b.toList → a.Unlooped i) →
      a.equalBodies .strict b c = true → a.hashBodyBytes b = a.hashBodyBytes c := by
  constructor
  · intro x y hx h
    exact Akin.hash_eq hfits hx (.inr (matched_of_equal hfits hx h))
  · intro b c hb hc hunlooped h
    have hbal := Traversal.balanced_hashArray a a.depth
    obtain ⟨hsize, hall⟩ := (Traversal.answer_equalBodies
      (Traversal.balanced_equalArrays a .strict a.depth) hb hc).mp h
    refine Traversal.answer_hashBody_akin hbal hbal hb hc hsize fun k u v hu hv => ?_
    have hleft : ∀ i, u = .array i → a.Unlooped i := by
      rintro i rfl
      exact hunlooped i (List.mem_of_getElem? hu)
    exact Akin.hash_eq hfits hleft (.inr (matched_of_equal hfits hleft (hall k u v hu hv)))

/-- Two arrays that hold an array of a zero each, one of them negative. -/
theorem hash_eq_of_equal_zeros :
    let a := ofLists [[.array 1], [.float ⟨0⟩], [.array 3], [.float ⟨0x8000000000000000⟩]]
    a.hashBytes (.array 0) = a.hashBytes (.array 2) ∧
      a.hashBodyBytes (bodyOf [.array 0]) = a.hashBodyBytes (bodyOf [.array 2]) := by
  intro a
  have hunlooped : ∀ i, a.Unlooped i := unlooped_ofLists (by decide)
  obtain ⟨hvalues, hbodies⟩ := hash_eq_of_equal (fits_ofLists _ : a.Fits)
  exact ⟨hvalues _ _ (fun i _ => hunlooped i) (by decide +kernel),
    hbodies _ _ (fits_bodyOf _) (fits_bodyOf _) (fun i _ => hunlooped i) (by decide +kernel)⟩

/-- An array that holds only itself, and an array that holds that one: they are strictly equal, from
either side, and do not hash alike; nor do two arrays around them. -/
theorem hash_ne_of_circle :
    ∃ a : Arena, a.Fits ∧ a.equal .strict (.array 0) (.array 1) = true ∧
      a.equal .strict (.array 1) (.array 0) = true ∧
      a.hashBytes (.array 0) ≠ a.hashBytes (.array 1) ∧
      ∃ b c : Body, b.Fits False ∧ c.Fits False ∧ a.equalBodies .strict b c = true ∧
        a.hashBodyBytes b ≠ a.hashBodyBytes c :=
  ⟨ofLists [[.array 0], [.array 0]], fits_ofLists _, by decide +kernel, by decide +kernel,
    by decide +kernel, bodyOf [.array 0], bodyOf [.array 1], fits_bodyOf _, fits_bodyOf _,
    by decide +kernel, by decide +kernel⟩

end Arena

end AdaptiveArray
