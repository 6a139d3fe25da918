import AdaptiveArray.Proofs.Matching

/-!
# Strict equality is an equivalence

Where no array reaches itself, strict equality is reflexive, symmetric and transitive,
but that a NaN does not equal itself.  Of three values the outer two are matched if each
is matched with the one between them: what is met on a path from the outer two is matched
with what the middle one holds on that path, down to where the middle one is an array
that one of the others is, too; from there on the outer two are matched directly.
-/

namespace AdaptiveArray

namespace Binary64

variable {x y z : Binary64}

theorem numEq_self (h : x.isNaN = false) : x.numEq x = true := by
  simp [numEq, h]

theorem numEq_trans (h : x.numEq y = true) (h' : y.numEq z = true) : x.numEq z = true := by
  simp only [numEq, Bool.and_eq_true, decide_eq_true_eq] at h h' ⊢
  exact ⟨⟨h.1.1, h'.1.2⟩, h.2.trans h'.2⟩

end Binary64

namespace Value

variable {u v w : Value}

def isNaN : Value → Bool
  | float x => x.isNaN
  | _ => false

theorem equalLeaf_self (how : Equality) (h : v.isNaN = false) : v.equalLeaf how v = true := by
  cases v with
  | float x => exact Binary64.numEq_self h
  | _ => simp [equalLeaf, Traversal.equalValues, Traversal.run_eq_answer]

theorem equalLeaf_strict_trans (h : u.equalLeaf .strict v = true)
    (h' : v.equalLeaf .strict w = true) : u.equalLeaf .strict w = true := by
  -- values of two classes are never strictly equal, so all three are of one
  cases u <;> cases v <;> try cases h
  all_goals cases w <;> try cases h'
  case float.float.float => exact Binary64.numEq_trans h h'
  case array.array.array =>
      simp only [equalLeaf_array, decide_eq_true_eq] at h h' ⊢
      exact h.trans h'
  all_goals simp_all [equalLeaf, Traversal.equalValues, Traversal.run_eq_answer]

end Value

namespace Arena

variable {a : Arena} {how : Equality} {x y z u v w : Value} {b c d : Body}

/-! ## Matched values -/

theorem Matched.refl (a : Arena) (how : Equality) (h : v.isNaN = false) : a.Matched how v v := by
  cases v with
  | array i => exact .same a how i
  | _ => exact .leaf nofun (Value.equalLeaf_self how h)

theorem Agree.trans (h : a.Agree .strict u v) (h' : a.Agree .strict v w) :
    a.Agree .strict u w := by
  by_cases hv : ∃ j, v = .array j
  · obtain ⟨j, rfl⟩ := hv
    cases u with
    | array i =>
        cases w with
        | array k =>
            rcases h with rfl | ⟨b, c, hb, hc, hsize⟩
            · exact h'
            · rcases h' with rfl | ⟨c', d, hc', hd, hsize'⟩
              · exact .inr ⟨b, c, hb, hc, hsize⟩
              · rw [hc] at hc'
                cases hc'
                exact .inr ⟨b, d, hb, hd, hsize.trans hsize'⟩
        | _ => cases h'
    | _ => cases h
  · have hleft := (agree_leaf fun _ j _ hj => hv ⟨j, hj⟩).mp h
    have hright := (agree_leaf fun j _ hj _ => hv ⟨j, hj⟩).mp h'
    refine (agree_leaf ?_).mpr (Value.equalLeaf_strict_trans hleft hright)
    rintro i k rfl rfl
    cases v with
    | array j => exact hv ⟨j, rfl⟩
    | _ => cases hleft

theorem Matched.through (hfits : a.Fits) (h : a.Matched .strict x y) (h' : a.Matched .strict y z)
    (hmet : a.Meets x z u w) :
    a.Matched .strict u w ∨ ∃ v, a.Matched .strict u v ∧ a.Matched .strict v w := by
  induction hmet with
  | start => exact .inr ⟨y, h, h'⟩
  | @beside i j u w _ ne hbeside ih =>
      rcases ih with hij | ⟨v, hleft, hright⟩
      · exact .inl (hij.beside ne hbeside)
      · obtain ⟨m, rfl⟩ := hright.array_of_right
        by_cases him : i = m
        · subst him
          exact .inl (hright.beside ne hbeside)
        · by_cases hmj : m = j
          · subst hmj
            exact .inl (hleft.beside ne hbeside)
          · obtain ⟨b, d, k, hb, hd, hu, hw⟩ := hbeside
            rcases hleft _ _ .start with rfl | ⟨b', c, hb', hc, hsize⟩
            · exact absurd rfl him
            · rw [hb] at hb'
              cases hb'
              obtain ⟨v, hv⟩ := exists_beside hfits hc hb hsize.symm hu
              exact .inr ⟨v, hleft.beside him ⟨b, c, k, hb, hc, hu, hv⟩,
                hright.beside hmj ⟨c, d, k, hc, hd, hv, hw⟩⟩

theorem Matched.trans (hfits : a.Fits) (h : a.Matched .strict x y)
    (h' : a.Matched .strict y z) : a.Matched .strict x z := by
  intro u w hmet
  rcases h.through hfits h' hmet with huw | ⟨v, hleft, hright⟩
  · exact huw _ _ .start
  · exact (hleft _ _ .start).trans (hright _ _ .start)

def MatchedBodies (a : Arena) (how : Equality) (b c : Body) : Prop :=
  b.size = c.size ∧ ∀ (k : Nat) (u v : Value), b.toList[k]? = some u → c.toList[k]? = some v →
    a.Matched how u v

theorem MatchedBodies.refl (a : Arena) (how : Equality) (h : ∀ v ∈ b.toList, v.isNaN = false) :
    a.MatchedBodies how b b := by
  refine ⟨rfl, fun k u v hu hv => ?_⟩
  rw [hu] at hv
  cases hv
  exact .refl a how (h u (List.mem_of_getElem? hu))

theorem MatchedBodies.symm (h : a.MatchedBodies how b c) : a.MatchedBodies how c b :=
  ⟨h.1.symm, fun k u v hu hv => (h.2 k v u hv hu).symm⟩

theorem MatchedBodies.trans (hfits : a.Fits) (hb : b.Fits False) (hc : c.Fits False)
    (h : a.MatchedBodies .strict b c) (h' : a.MatchedBodies .strict c d) :
    a.MatchedBodies .strict b d := by
  refine ⟨h.1.trans h'.1, fun k u w hu hw => ?_⟩
  have hk : k < c.toList.length := by
    rw [Body.length_toList hc, ← h.1, ← Body.length_toList hb]
    exact (List.getElem?_eq_some_iff.mp hu).1
  have hv := List.getElem?_eq_getElem hk
  exact (h.2 k u _ hu hv).trans hfits (h'.2 k _ w hv hw)

/-! ## The relation -/

theorem equal_iff_matched (hfits : a.Fits) (hloops : ∀ i, a.Unlooped i) :
    a.equal how x y = true ↔ a.Matched how x y :=
  ⟨matched_of_equal hfits fun i _ => hloops i, equal_of_matched hfits⟩

theorem equalBodies_iff_matched (hfits : a.Fits) (hloops : ∀ i, a.Unlooped i)
    (hb : b.Fits False) (hc : c.Fits False) :
    a.equalBodies how b c = true ↔ a.MatchedBodies how b c := by
  have hwalk : a.equalBodies how b c = true ↔ b.size = c.size ∧ ∀ (k : Nat) (u v : Value),
      b.toList[k]? = some u → c.toList[k]? = some v → a.equal how u v = true :=
    Traversal.answer_equalBodies (Traversal.balanced_equalArrays a how a.depth) hb hc
  simp only [hwalk, MatchedBodies, equal_iff_matched hfits hloops]

/-- Where no array reaches itself, strict equality is an equivalence of the values that are no NaN,
and of the arrays with no NaN among their elements. -/
theorem strict_equal_equivalence (hfits : a.Fits) (hloops : ∀ i, a.Unlooped i) :
    Equivalence (fun x y : { v : Value // v.isNaN = false } => a.equal .strict x y = true) ∧
    Equivalence (fun b c : { b : Body // b.Fits False ∧ ∀ v ∈ b.toList, v.isNaN = false } =>
      a.equalBodies .strict b c = true) := by
  constructor
  · simp only [equal_iff_matched hfits hloops]
    exact ⟨fun x => .refl a .strict x.2, Matched.symm, Matched.trans hfits⟩
  · have hiff : ∀ b c : { b : Body // b.Fits False ∧ ∀ v ∈ b.toList, v.isNaN = false },
        a.equalBodies .strict b c = true ↔ a.MatchedBodies .strict b c :=
      fun b c => equalBodies_iff_matched hfits hloops b.2.1 c.2.1
    simp only [hiff]
    exact ⟨fun b => .refl a .strict b.2.2, MatchedBodies.symm,
      fun {b c _} => MatchedBodies.trans hfits b.2.1 c.2.1⟩

/-- Two integers in stores of three kinds; and three arrays that hold an array of a `5` each, the
last two of them the same one. -/
theorem strict_equal_equivalence_kinds :
    let a := ofLists [[.array 3], [.array 4], [.array 4], [.int 5], [.int 5]]
    let ints : Body := { store := .owned (.int #[1, 2]), size := 2 }
    a.equal .strict (.array 0) (.array 2) = true ∧
      a.equalBodies .strict ints (bodyOf [.int 1, .int 2]) = true := by
  intro a ints
  let longs : Body := { store := .owned (.long #[1, 2, 7]), size := 2 }
  obtain ⟨hvalues, hbodies⟩ := strict_equal_equivalence (fits_ofLists _ : a.Fits)
    (unlooped_ofLists (by decide))
  have hints : ints.Fits False ∧ ∀ v ∈ ints.toList, v.isNaN = false :=
    ⟨⟨by decide, trivial, False.elim⟩, by decide +kernel⟩
  have hlongs : longs.Fits False ∧ ∀ v ∈ longs.toList, v.isNaN = false :=
    ⟨⟨by decide, trivial, False.elim⟩, by decide +kernel⟩
  have hobjects : (bodyOf [.int 1, .int 2]).Fits False ∧
      ∀ v ∈ (bodyOf [.int 1, .int 2]).toList, v.isNaN = false :=
    ⟨fits_bodyOf _, by decide +kernel⟩
  have hleft : a.equalBodies .strict ints longs = true := by decide +kernel
  have hright : a.equalBodies .strict longs (bodyOf [.int 1, .int 2]) = true := by decide +kernel
  constructor
  · exact hvalues.trans (x := ⟨.array 0, rfl⟩) (y := ⟨.array 1, rfl⟩) (z := ⟨.array 2, rfl⟩)
      (by decide +kernel) (by decide +kernel)
  · exact hbodies.trans (x := ⟨ints, hints⟩) (y := ⟨longs, hlongs⟩) (z := ⟨_, hobjects⟩)
      hleft hright

end Arena

end AdaptiveArray
