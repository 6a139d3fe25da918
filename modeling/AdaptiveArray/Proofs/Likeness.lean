import AdaptiveArray.Json.Writer
import AdaptiveArray.Proofs.Body
import AdaptiveArray.Proofs.Visiting
import AdaptiveArray.Traversal.Inspect
import AdaptiveArray.Traversal.Order

/-!
# What is observed of an array

Two arrays are alike if they have the same elements, in whatever stores, and two arenas
are alike if their arrays are, one by one.  Equality, order, hash and text do not tell
arrays from alike ones.  Most of them look at the list of the elements only; equality
compares numbers of one kind without boxing them, which comes to the same.
-/

namespace AdaptiveArray

/-- The same elements, in any stores that have room for them. -/
structure Body.Alike (b c : Body) : Prop where
  left : b.Fits False
  right : c.Fits False
  toList : b.toList = c.toList

structure Arena.Alike (a c : Arena) : Prop where
  size : a.objects.size = c.objects.size
  readable : ∀ id, a.readable? id = none ∧ c.readable? id = none ∨
    ∃ b b', a.readable? id = some b ∧ c.readable? id = some b' ∧ b.Alike b'

theorem Body.Alike.size {b c : Body} (h : b.Alike c) : b.size = c.size := by
  rw [← length_toList h.left, h.toList, length_toList h.right]

theorem Body.Alike.refl {b : Body} (h : b.Fits False) : b.Alike b := ⟨h, h, rfl⟩

/-! ## Boxing -/

namespace Traversal

theorem allM_pure {α : Type} (test : α → Bool) (xs : List α) :
    allM (fun x => pure (test x)) xs = pure (xs.all test) := by
  induction xs with
  | nil => rfl
  | cons x xs ih =>
      rw [allM, pure_bind, ih, List.all_cons]
      cases test x <;> rfl

theorem allM_map {α β : Type} (f : α → β) (test : β → Traversal Bool) (xs : List α) :
    allM test (xs.map f) = allM (fun x => test (f x)) xs := by
  induction xs with
  | nil => rfl
  | cons x xs ih => rw [List.map_cons, allM, allM, ih]

end Traversal

theorem all_zip_decide_eq {α : Type} [DecidableEq α] {xs ys : Array α}
    (h : xs.size = ys.size) :
    ((xs.toList.zip ys.toList).all fun p => decide (p.1 = p.2)) = decide (xs = ys) := by
  obtain ⟨xs⟩ := xs
  obtain ⟨ys⟩ := ys
  simp only [List.size_toArray, Array.mk.injEq] at h ⊢
  induction xs generalizing ys with
  | nil => cases ys <;> simp_all
  | cons x xs ih =>
      cases ys with
      | nil => simp at h
      | cons y ys => simp [ih ys (Nat.succ.inj h)]

namespace Traversal

section Equality

variable {how : Equality} {nested : ArrayId → ArrayId → Traversal Bool}

theorem equalLists_boxed {α : Type} (box : α → Value) (test : α → α → Bool)
    (h : ∀ x y, equalValues how nested (box x) (box y) = pure (test x y)) (xs ys : Array α) :
    equalLists how nested (xs.map box).toList (ys.map box).toList =
      pure ((xs.toList.zip ys.toList).all fun p => test p.1 p.2) := by
  rw [equalLists, Array.toList_map, Array.toList_map, List.zip_map, allM_map]
  simp only [Prod.map, h]
  exact allM_pure _ _

theorem equalBodies_eq {b c : Body} (hb : b.Fits False) (hc : c.Fits False) :
    equalBodies how nested b c = if b.size ≠ c.size then pure false
      else equalLists how nested b.toList c.toList := by
  unfold equalBodies
  by_cases hsize : b.size = c.size
  · have hlen : b.buffer.size = c.buffer.size := by
      have hb' := Body.length_toList hb
      have hc' := Body.length_toList hc
      simp only [Body.toList, Body.elements, Array.length_toList, Buffer.size_values] at hb' hc'
      omega
    simp only [hsize, ne_eq, not_true_eq_false, if_false, Body.toList, Body.elements]
    split
    case h_1 xs ys hx hy =>
        rw [hx, hy] at hlen ⊢
        have hbox : ∀ x y : Int32, equalValues how nested (.int x.toInt64) (.int y.toInt64) =
            pure (decide (x = y)) := by
          intro x y
          simp only [equalValues, Buffer.toInt64_inj]
        rw [Buffer.values, Buffer.values, equalLists_boxed _ _ hbox, all_zip_decide_eq hlen]
    case h_2 xs ys hx hy =>
        rw [hx, hy] at hlen ⊢
        have hbox : ∀ x y : Int64, equalValues how nested (.int x) (.int y) =
            pure (decide (x = y)) := fun x y => rfl
        rw [Buffer.values, Buffer.values, equalLists_boxed _ _ hbox, all_zip_decide_eq hlen]
    case h_3 xs ys hx hy =>
        have hbox : ∀ x y : Binary64, equalValues how nested (.float x) (.float y) =
            pure (x.numEq y) := fun x y => rfl
        rw [hx, hy, Buffer.values, Buffer.values, equalLists_boxed _ _ hbox]
    case h_4 => rfl
  · simp [hsize]

end Equality

/-! ## Walks over arrays that are alike -/

theorem equalBodies_congr {how : Equality} {nested : ArrayId → ArrayId → Traversal Bool}
    {b b' c c' : Body} (hb : b.Alike b') (hc : c.Alike c') :
    equalBodies how nested b c = equalBodies how nested b' c' := by
  rw [equalBodies_eq hb.left hc.left, equalBodies_eq hb.right hc.right, hb.size, hc.size,
    hb.toList, hc.toList]

theorem orderBodies_congr {nested : ArrayId → ArrayId → Traversal (Option Ordering)}
    {b b' c c' : Body} (hb : b.Alike b') (hc : c.Alike c') :
    orderBodies nested b c = orderBodies nested b' c' := by
  rw [orderBodies, orderBodies, hb.size, hc.size, hb.toList, hc.toList]

theorem hashBody_congr {nested : ArrayId → Traversal (List UInt8)} {b b' : Body}
    (hb : b.Alike b') : hashBody nested b = hashBody nested b' := by
  rw [hashBody, hashBody, hb.size, hb.toList]

variable {a a' : Arena}

theorem equalArrays_congr (h : a.Alike a') (how : Equality) (depth : Nat) :
    equalArrays a how depth = equalArrays a' how depth := by
  induction depth with
  | zero => rfl
  | succ depth ih =>
      funext i j
      rw [equalArrays, equalArrays, ih]
      rcases h.readable i with ⟨hi, hi'⟩ | ⟨b, b', hi, hi', hb⟩
      · rw [hi, hi']
      · rcases h.readable j with ⟨hj, hj'⟩ | ⟨c, c', hj, hj', hc⟩
        · rw [hi, hi', hj, hj']
        · rw [hi, hi', hj, hj']
          exact congrArg _ (equalBodies_congr hb hc)

theorem orderNested_congr (h : a.Alike a') (depth : Nat) :
    orderNested a depth = orderNested a' depth := by
  induction depth with
  | zero => rfl
  | succ depth ih =>
      funext i j
      rw [orderNested, orderNested, ih]
      rcases h.readable i with ⟨hi, hi'⟩ | ⟨b, b', hi, hi', hb⟩
      · rw [hi, hi']
      · rcases h.readable j with ⟨hj, hj'⟩ | ⟨c, c', hj, hj', hc⟩
        · rw [hi, hi', hj, hj']
        · rw [hi, hi', hj, hj']
          exact congrArg _ (orderBodies_congr hb hc)

theorem hashArray_congr (h : a.Alike a') (depth : Nat) :
    hashArray a depth = hashArray a' depth := by
  induction depth with
  | zero => rfl
  | succ depth ih =>
      funext id
      rw [hashArray, hashArray, ih]
      rcases h.readable id with ⟨hid, hid'⟩ | ⟨b, b', hid, hid', hb⟩
      · rw [hid, hid']
      · rw [hid, hid']
        exact congrArg _ (hashBody_congr hb)

theorem inspectArray_congr (h : a.Alike a') (depth : Nat) :
    inspectArray a depth = inspectArray a' depth := by
  induction depth with
  | zero => rfl
  | succ depth ih =>
      funext id
      rw [inspectArray, inspectArray, ih]
      rcases h.readable id with ⟨hid, hid'⟩ | ⟨b, b', hid, hid', hb⟩
      · rw [hid, hid']
      · rw [hid, hid']
        exact congrArg (fun vs => guarded id elided (inspectItems _ vs)) hb.toList

end Traversal

theorem Json.writeValue_congr {a a' : Arena} (h : a.Alike a') (depth : Nat) :
    writeValue a depth = writeValue a' depth := by
  induction depth with
  | zero =>
      funext v
      cases v <;> rfl
  | succ depth ih =>
      funext v
      cases v with
      | array id =>
          rw [writeValue, writeValue, ih]
          rcases h.readable id with ⟨hid, hid'⟩ | ⟨b, b', hid, hid', hb⟩
          · rw [hid, hid']
          · rw [hid, hid']
            exact congrArg (writeItems _) hb.toList
      | _ => rfl

/-! ## Observations -/

namespace Arena

variable {a a' : Arena}

theorem Alike.depth (h : a.Alike a') : a.depth = a'.depth :=
  congrArg (· + 1) h.size

theorem Alike.equal (h : a.Alike a') (how : Equality) : a.equal how = a'.equal how := by
  funext v w
  rw [Arena.equal, Arena.equal, h.depth, Traversal.equalArrays_congr h]

theorem Alike.order (h : a.Alike a') : a.order = a'.order := by
  funext v w
  rw [Arena.order, Arena.order, h.depth, Traversal.orderNested_congr h]

theorem Alike.equalBodies (h : a.Alike a') (how : Equality) {b b' c c' : Body}
    (hb : b.Alike b') (hc : c.Alike c') :
    a.equalBodies how b c = a'.equalBodies how b' c' := by
  rw [Arena.equalBodies, Arena.equalBodies, h.depth, Traversal.equalArrays_congr h,
    Traversal.equalBodies_congr hb hc]

theorem Alike.orderBodies (h : a.Alike a') {b b' c c' : Body} (hb : b.Alike b')
    (hc : c.Alike c') : a.orderBodies b c = a'.orderBodies b' c' := by
  rw [Arena.orderBodies, Arena.orderBodies, h.depth, Traversal.orderNested_congr h,
    Traversal.orderBodies_congr hb hc]

end Arena

/-- Nothing that is observed of arrays depends on the stores that hold their elements.  So it is for
arrays `x` and `x'` outside the arena or in it, compared from either side with another array `z`,
and for values that lead into alike arenas. -/
theorem observations_ignore_stores {a a' : Arena} (ha : a.Alike a') {x x' z z' : Body}
    (hx : x.Alike x') (hz : z.Alike z') (v w : Value) :
    (∀ how, a.equalBodies how x z = a'.equalBodies how x' z' ∧
      a.equalBodies how z x = a'.equalBodies how z' x') ∧
    a.orderBodies x z = a'.orderBodies x' z' ∧ a.orderBodies z x = a'.orderBodies z' x' ∧
    a.includes x v = a'.includes x' v ∧
    a.hashBodyBytes x = a'.hashBodyBytes x' ∧
    a.inspectBody x = a'.inspectBody x' ∧
    a.bodyJson? x = a'.bodyJson? x' ∧
    (∀ how, a.equal how v w = a'.equal how v w) ∧ a.order v w = a'.order v w ∧
    a.hashBytes v = a'.hashBytes v ∧ a.inspect v = a'.inspect v ∧ a.json? v = a'.json? v := by
  refine ⟨fun how => ⟨ha.equalBodies how hx hz, ha.equalBodies how hz hx⟩, ha.orderBodies hx hz,
    ha.orderBodies hz hx, ?_, ?_, ?_, ?_, fun how => by rw [ha.equal], by rw [ha.order], ?_, ?_, ?_⟩
  · rw [Arena.includes, Arena.includes, hx.toList, ha.equal]
  · rw [Arena.hashBodyBytes, Arena.hashBodyBytes, ha.depth, Traversal.hashArray_congr ha,
      Traversal.hashBody_congr hx]
  · rw [Arena.inspectBody, Arena.inspectBody, ha.depth, Traversal.inspectArray_congr ha, hx.toList]
  · rw [Arena.bodyJson?, Arena.bodyJson?, Json.writeBody, Json.writeBody, ha.size,
      Json.writeValue_congr ha, hx.toList]
  · rw [Arena.hashBytes, Arena.hashBytes, ha.depth, Traversal.hashArray_congr ha]
  · rw [Arena.inspect, Arena.inspect, ha.depth, Traversal.inspectArray_congr ha]
  · rw [Arena.json?, Arena.json?, ha.size, Json.writeValue_congr ha]

/-- The same two integers in a store of 32-bit ones with a stale slot and in a window of 64-bit
ones, under arrays that hold the handle in a store of their own and in a native one. -/
theorem observations_ignore_stores_native :
    ∃ a a' x x', Arena.Alike a a' ∧ Body.Alike x x' ∧ x.kind ≠ x'.kind ∧
      a.equalBodies .strict x x = a'.equalBodies .strict x' x ∧
      a.hashBodyBytes x = a'.hashBodyBytes x' ∧ a.inspectBody x = a'.inspectBody x' ∧
      a.equal .numeric (.array 0) (.array 1) = a'.equal .numeric (.array 0) (.array 1) := by
  let numbers : Body := { store := .owned (.int #[1, 2, 7]), size := 2 }
  let window : Body := { store := .view ⟨⟨0, .long #[9, 1, 2]⟩, 1, 2⟩, size := 2 }
  let x : Body := { store := .owned (.object #[.array 0]), size := 1 }
  let x' : Body := { store := .native 5 #[.array 0, .nil], size := 1 }
  have hwindow : numbers.Alike window :=
    ⟨⟨by decide, trivial, False.elim⟩, ⟨by decide, Nat.le_refl 3, False.elim⟩,
      by decide +kernel⟩
  have hx : x.Alike x' :=
    ⟨⟨by decide, trivial, False.elim⟩, ⟨by decide, trivial, False.elim⟩, rfl⟩
  have ha : Arena.Alike { objects := #[some { body := numbers }, some { body := x }] }
      { objects := #[some { body := window }, some { body := x' }] } := by
    refine ⟨rfl, fun id => ?_⟩
    rcases id with _ | _ | id
    · exact .inr ⟨numbers, window, rfl, rfl, hwindow⟩
    · exact .inr ⟨x, x', rfl, rfl, hx⟩
    · exact .inl ⟨rfl, rfl⟩
  obtain ⟨hequal, -, -, -, hhash, hinspect, -, hvalues, -⟩ :=
    observations_ignore_stores ha hx (.refl hx.left) (.array 0) (.array 1)
  exact ⟨_, _, x, x', ha, hx, by decide, (hequal .strict).1, hhash, hinspect, hvalues .numeric⟩

end AdaptiveArray
