import AdaptiveArray.Proofs.Matching
import Mathlib.Data.List.Zip
import Mathlib.Data.String.Basic
import Mathlib.Order.Compare

/-!
# Order and equality agree

When two values change places their order is turned round, and it is `eq` just where the
values are equal.  Equality looks at the sizes of arrays first and order at their
elements, and an array met again inside of itself is equal to whatever it is compared
with, but has no order.  So this is about values that lead into no circle; there both
walks go down along the same pairs until one of them knows the answer.
-/

namespace AdaptiveArray

namespace Binary64

theorem compare?_swap (x y : Binary64) : compare? y x = (compare? x y).map Ordering.swap := by
  rw [compare?, compare?, Bool.or_comm]
  split
  · rfl
  · rw [Option.map_some, ← Std.OrientedCmp.eq_swap]

theorem compare?_eq_iff (x y : Binary64) : compare? x y = some .eq ↔ x.numEq y = true := by
  rw [compare?, numEq]
  cases x.isNaN <;> cases y.isNaN <;> simp

end Binary64

theorem map_swap_map_swap (o : Option Ordering) :
    (o.map Ordering.swap).map Ordering.swap = o := by
  cases o <;> simp

namespace Value

def orderLeaf (x y : Value) : Option Ordering :=
  (Traversal.orderValues (fun _ _ => pure none) x y).run

theorem orderLeaf_array (i j : ArrayId) :
    (array i).orderLeaf (array j) = if i = j then some .eq else none := by
  change (if i = j then pure (some .eq) else pure none : Traversal (Option Ordering)).run = _
  split <;> rfl

theorem orderLeaf_swap (x y : Value) : y.orderLeaf x = (x.orderLeaf y).map Ordering.swap := by
  cases x <;> cases y
  case int.int => exact congrArg some Std.OrientedCmp.eq_swap
  case float.float x y => exact Binary64.compare?_swap x y
  case float.int x i => exact (map_swap_map_swap (Binary64.compareInt? i x)).symm
  case string.string => exact congrArg some Std.OrientedCmp.eq_swap
  case symbol.symbol => exact congrArg some Std.OrientedCmp.eq_swap
  case bool.bool x y => cases x <;> cases y <;> rfl
  case array.array i j =>
      rw [orderLeaf_array, orderLeaf_array]
      by_cases hij : i = j
      · rw [if_pos hij, if_pos hij.symm, Option.map_some, Ordering.swap_eq]
      · rw [if_neg hij, if_neg (Ne.symm hij), Option.map_none]
  all_goals rfl

theorem compareInt?_eq_iff (i : Int64) (x : Binary64) :
    Binary64.compareInt? i x = some .eq ↔ (int i).equalLeaf .numeric (float x) = true := by
  change _ ↔ (decide (Equality.numeric = .numeric) && decide (_ = _)) = true
  rw [decide_eq_true rfl, Bool.true_and, decide_eq_true_iff]

theorem orderLeaf_eq_iff (x y : Value) :
    x.orderLeaf y = some .eq ↔ x.equalLeaf .numeric y = true := by
  cases x <;> cases y
  case nil.nil => exact iff_of_true rfl rfl
  case bool.bool x y => cases x <;> cases y <;> decide
  case int.int i j =>
      change some (compare i.toInt j.toInt) = some .eq ↔ decide (i = j) = true
      rw [Option.some_inj, compare_eq_iff_eq, Int64.toInt_inj, decide_eq_true_iff]
  case float.float x y => exact Binary64.compare?_eq_iff x y
  case int.float i x => exact compareInt?_eq_iff i x
  case float.int x i =>
      rw [equalLeaf_comm, ← compareInt?_eq_iff]
      change (Binary64.compareInt? i x).map Ordering.swap = some .eq ↔ _
      cases Binary64.compareInt? i x with
      | none => exact Iff.rfl
      | some o => cases o <;> decide
  case symbol.symbol x y =>
      change some (compare x y) = some .eq ↔ decide (x = y) = true
      rw [Option.some_inj, compare_eq_iff_eq, decide_eq_true_iff]
  case string.string _ x _ y =>
      change some (compare x y) = some .eq ↔ decide (x = y) = true
      rw [Option.some_inj, compare_eq_iff_eq, decide_eq_true_iff]
  case array.array i j =>
      rw [orderLeaf_array, equalLeaf_array]
      split <;> simp_all
  all_goals exact iff_of_false nofun nofun

end Value

/-! ## What a walk answers -/

namespace Traversal

variable {a : Arena} {nested nested' : ArrayId → ArrayId → Traversal (Option Ordering)}
variable {equal : ArrayId → ArrayId → Traversal Bool} {u v : Value} {b c : Body}
variable {s t : List ArrayId}

theorem answer_orderValues_array (i j : ArrayId) :
    answer (orderValues nested (.array i) (.array j)) s =
      if i = j then some .eq else answer (nested i j) s := by
  unfold orderValues
  by_cases hij : i = j <;> simp [hij]

theorem answer_orderValues_leaf (h : ∀ i j, u = .array i → v ≠ .array j) :
    answer (orderValues nested u v) s = u.orderLeaf v := by
  cases u with
  | array i =>
      cases v with
      | array j => exact absurd rfl (h i j rfl)
      | _ => rfl
  | _ => cases v <;> rfl

theorem answer_orderPairs_cons (h : ∀ i j, Balanced (nested i j)) (pair : Value × Value)
    (pairs : List (Value × Value)) : answer (orderPairs nested (pair :: pairs)) s =
      match answer (orderValues nested pair.1 pair.2) s with
      | some .eq => answer (orderPairs nested pairs) s
      | other => other := by
  obtain ⟨x, y⟩ := pair
  rw [orderPairs, answer_bind (balanced_orderValues h x y)]
  cases answer (orderValues nested x y) s with
  | none => rfl
  | some o => cases o <;> rfl

theorem answer_orderBodies (h : ∀ i j, Balanced (nested i j)) (b c : Body) :
    answer (orderBodies nested b c) s =
      match answer (orderPairs nested (b.toList.zip c.toList)) s with
      | some .eq => some (compare b.size c.size)
      | other => other := by
  rw [orderBodies, answer_bind (balanced_orderPairs h _)]
  cases answer (orderPairs nested (b.toList.zip c.toList)) s with
  | none => rfl
  | some o => cases o <;> rfl

/-! ## Changing places -/

theorem answer_orderValues_swap
    (h : ∀ i j, u = .array i → v = .array j →
      answer (nested' j i) t = (answer (nested i j) s).map Ordering.swap) :
    answer (orderValues nested' v u) t =
      (answer (orderValues nested u v) s).map Ordering.swap := by
  rcases u.leaf_or_arrays v with hleaf | ⟨i, j, rfl, rfl⟩
  · rw [answer_orderValues_leaf hleaf, answer_orderValues_leaf fun j i hj hi => hleaf i j hi hj]
    exact Value.orderLeaf_swap u v
  · rw [answer_orderValues_array, answer_orderValues_array]
    by_cases hij : i = j
    · rw [if_pos hij, if_pos hij.symm, Option.map_some, Ordering.swap_eq]
    · rw [if_neg hij, if_neg (Ne.symm hij)]
      exact h i j rfl rfl

theorem answer_orderPairs_swap (hbal : ∀ i j, Balanced (nested i j))
    (hbal' : ∀ i j, Balanced (nested' i j)) {pairs : List (Value × Value)}
    (h : ∀ pair ∈ pairs, answer (orderValues nested' pair.2 pair.1) t =
      (answer (orderValues nested pair.1 pair.2) s).map Ordering.swap) :
    answer (orderPairs nested' (pairs.map Prod.swap)) t =
      (answer (orderPairs nested pairs) s).map Ordering.swap := by
  induction pairs with
  | nil => rfl
  | cons pair pairs ih =>
      obtain ⟨hpair, hpairs⟩ := List.forall_mem_cons.mp h
      rw [List.map_cons, answer_orderPairs_cons hbal', answer_orderPairs_cons hbal,
        Prod.fst_swap, Prod.snd_swap, hpair]
      cases answer (orderValues nested pair.1 pair.2) s with
      | none => rfl
      | some o =>
          cases o with
          | eq => exact ih hpairs
          | lt => rfl
          | gt => rfl

theorem answer_orderBodies_swap (hbal : ∀ i j, Balanced (nested i j))
    (hbal' : ∀ i j, Balanced (nested' i j))
    (h : ∀ i j, .array i ∈ b.toList → .array j ∈ c.toList →
      answer (nested' j i) t = (answer (nested i j) s).map Ordering.swap) :
    answer (orderBodies nested' c b) t = (answer (orderBodies nested b c) s).map Ordering.swap := by
  have hpairs : answer (orderPairs nested' (c.toList.zip b.toList)) t =
      (answer (orderPairs nested (b.toList.zip c.toList)) s).map Ordering.swap := by
    rw [← List.zip_swap b.toList]
    refine answer_orderPairs_swap hbal hbal' fun pair hpair => answer_orderValues_swap ?_
    intro i j hi hj
    obtain ⟨hb, hc⟩ := List.of_mem_zip hpair
    exact h i j (hi ▸ hb) (hj ▸ hc)
  rw [answer_orderBodies hbal', answer_orderBodies hbal, hpairs]
  cases answer (orderPairs nested (b.toList.zip c.toList)) s with
  | none => rfl
  | some o =>
      cases o with
      | eq => exact congrArg some Std.OrientedCmp.eq_swap
      | lt => rfl
      | gt => rfl

/-- Neither walk meets an array that it is inside of, so it makes no difference whose arrays are
kept as in progress. -/
theorem answer_orderNested_swap {depth : Nat} {i j : ArrayId} (hi : a.Above s depth i)
    (hj : a.Above t depth j) : answer (orderNested a depth j i) t =
      (answer (orderNested a depth i j) s).map Ordering.swap := by
  induction depth generalizing s t i j with
  | zero => rfl
  | succ depth ih =>
      have hbal := balanced_orderNested a depth
      rw [orderNested, orderNested, answer_guarded, answer_guarded, if_neg hi.not_mem,
        if_neg hj.not_mem]
      cases hb : a.readable? i with
      | none => cases a.readable? j <;> rfl
      | some b =>
          cases hc : a.readable? j with
          | none => rfl
          | some c =>
              exact answer_orderBodies_swap hbal hbal fun i' j' hi' hj' =>
                ih (hi.holds ⟨b, hb, hi'⟩) (hj.holds ⟨c, hc, hj'⟩)

/-! ## Equal order -/

theorem answer_orderValues_eq_iff
    (h : ∀ i j, u = .array i → v = .array j →
      (answer (nested i j) s = some .eq ↔ answer (equal i j) s = true)) :
    answer (orderValues nested u v) s = some .eq ↔
      answer (equalValues .numeric equal u v) s = true := by
  rcases u.leaf_or_arrays v with hleaf | ⟨i, j, rfl, rfl⟩
  · rw [answer_orderValues_leaf hleaf, answer_equalValues_leaf hleaf]
    exact Value.orderLeaf_eq_iff u v
  · rw [answer_orderValues_array, answer_equalValues_array, Bool.or_eq_true, decide_eq_true_eq]
    split
    case isTrue hij => simp [hij]
    case isFalse hij => simp [hij, h i j rfl rfl]

theorem answer_orderPairs_eq_iff (h : ∀ i j, Balanced (nested i j)) (pairs : List (Value × Value)) :
    answer (orderPairs nested pairs) s = some .eq ↔
      ∀ pair ∈ pairs, answer (orderValues nested pair.1 pair.2) s = some .eq := by
  induction pairs with
  | nil => simp [orderPairs]
  | cons pair pairs ih =>
      rw [answer_orderPairs_cons h, List.forall_mem_cons, ← ih]
      split
      case h_1 heq => simp [heq]
      case h_2 hne => exact ⟨fun heq => absurd heq hne, fun hall => absurd hall.1 hne⟩

theorem answer_orderBodies_eq_iff (h : ∀ i j, Balanced (nested i j))
    (hequal : ∀ i j, Balanced (equal i j)) (hb : b.Fits False) (hc : c.Fits False)
    (hnested : ∀ i j, .array i ∈ b.toList → .array j ∈ c.toList →
      (answer (nested i j) s = some .eq ↔ answer (equal i j) s = true)) :
    answer (orderBodies nested b c) s = some .eq ↔
      answer (equalBodies .numeric equal b c) s = true := by
  have hordered : answer (orderBodies nested b c) s = some .eq ↔ b.size = c.size ∧
      ∀ pair ∈ b.toList.zip c.toList, answer (orderValues nested pair.1 pair.2) s = some .eq := by
    rw [answer_orderBodies h, ← answer_orderPairs_eq_iff h]
    split
    case h_1 heq => simp [heq]
    case h_2 hne => exact ⟨fun heq => absurd heq hne, fun hall => absurd hall.2 hne⟩
  rw [hordered, answer_equalBodies hequal hb hc, ← forall_mem_zip]
  refine and_congr_right' (forall₂_congr fun pair hpair => answer_orderValues_eq_iff ?_)
  intro i j hi hj
  obtain ⟨hb', hc'⟩ := List.of_mem_zip hpair
  exact hnested i j (hi ▸ hb') (hj ▸ hc')

theorem answer_orderNested_eq_iff (hfits : a.Fits) {depth : Nat} {i j : ArrayId}
    (hi : a.Above s depth i) : answer (orderNested a depth i j) s = some .eq ↔
      answer (equalArrays a .numeric depth i j) s = true := by
  induction depth generalizing s i j with
  | zero => exact absurd hi.room.pos (Nat.lt_irrefl 0)
  | succ depth ih =>
      rw [orderNested, equalArrays, answer_guarded, answer_guarded, if_neg hi.not_mem,
        if_neg hi.not_mem]
      cases hb : a.readable? i with
      | none => simp
      | some b =>
          cases hc : a.readable? j with
          | none => simp
          | some c =>
              exact answer_orderBodies_eq_iff (balanced_orderNested a depth)
                (balanced_equalArrays a .numeric depth) (hfits i b hb) (hfits j c hc)
                fun i' j' hi' _ => ih (hi.holds ⟨b, hb, hi'⟩)

end Traversal

/-! ## Values and bodies -/

namespace Arena

variable {a : Arena}

/-- The order of values that lead into no circle is turned round when they change places, and it is
`eq` where they are equal.  So it is for arrays that are not in the arena and hold such values. -/
theorem order_antisymm_and_agrees (hfits : a.Fits) :
    (∀ x y, (∀ i, x = .array i → a.Unlooped i) → (∀ j, y = .array j → a.Unlooped j) →
      a.order y x = (a.order x y).map Ordering.swap ∧
        (a.order x y = some .eq ↔ a.equal .numeric x y = true)) ∧
    ∀ b c : Body, b.Fits False → c.Fits False → (∀ i, .array i ∈ b.toList → a.Unlooped i) →
      (∀ j, .array j ∈ c.toList → a.Unlooped j) →
        a.orderBodies c b = (a.orderBodies b c).map Ordering.swap ∧
          (a.orderBodies b c = some .eq ↔ a.equalBodies .numeric b c = true) := by
  have hbal := Traversal.balanced_orderNested a a.depth
  have hequal := Traversal.balanced_equalArrays a .numeric a.depth
  constructor
  · intro x y hx hy
    constructor
    · exact Traversal.answer_orderValues_swap fun i j hi hj =>
        Traversal.answer_orderNested_swap (.start (hx i hi)) (.start (hy j hj))
    · exact Traversal.answer_orderValues_eq_iff fun i j hi _ =>
        Traversal.answer_orderNested_eq_iff hfits (.start (hx i hi))
  · intro b c hb hc hleft hright
    constructor
    · exact Traversal.answer_orderBodies_swap hbal hbal fun i j hi hj =>
        Traversal.answer_orderNested_swap (.start (hleft i hi)) (.start (hright j hj))
    · exact Traversal.answer_orderBodies_eq_iff hbal hequal hb hc fun i j hi _ =>
        Traversal.answer_orderNested_eq_iff hfits (.start (hleft i hi))

/-- Two arrays of one number, an integer and a float, and two arrays that hold these, one of them a
longer one. -/
theorem order_antisymm_and_agrees_longer :
    let a := ofLists [[.array 2], [.array 3, .nil], [.int 5], [.float ⟨0x4014000000000000⟩]]
    a.order (.array 1) (.array 0) = some .gt ∧ a.equal .numeric (.array 2) (.array 3) = true ∧
      a.orderBodies (bodyOf [.array 3, .nil]) (bodyOf [.array 2]) = some .gt := by
  intro a
  have hunlooped : ∀ i, a.Unlooped i := unlooped_ofLists (by decide)
  obtain ⟨hvalues, hbodies⟩ := order_antisymm_and_agrees (fits_ofLists _ : a.Fits)
  have hless : a.order (.array 0) (.array 1) = some .lt := rfl
  have hequal : a.order (.array 2) (.array 3) = some .eq := rfl
  have hbody : a.orderBodies (bodyOf [.array 2]) (bodyOf [.array 3, .nil]) = some .lt := by
    rfl
  refine ⟨?_, ?_, ?_⟩
  · rw [(hvalues _ _ (fun i _ => hunlooped i) fun j _ => hunlooped j).1, hless]
    rfl
  · exact (hvalues _ _ (fun i _ => hunlooped i) fun j _ => hunlooped j).2.mp hequal
  · rw [(hbodies _ _ (fits_bodyOf _) (fits_bodyOf _) (fun i _ => hunlooped i)
      fun j _ => hunlooped j).1, hbody]
    rfl

end Arena

end AdaptiveArray
