import AdaptiveArray.Traversal.Equality
import AdaptiveArray.Traversal.Hash
import AdaptiveArray.Traversal.Inspect
import AdaptiveArray.Traversal.Order

/-!
# Walks and the arrays in progress

A walk takes every array out of progress that it has put in.  So what it answers is a
function of the arrays in progress when it starts, and the parts of a walk can be looked
at one by one.  Each part does the same with two ways of going down that do the same from
where it stands; with one and the same way that says that it is balanced.
-/

namespace AdaptiveArray

namespace Traversal

variable {α β : Type}

def answer (walk : Traversal α) (s : List ArrayId) : α := (StateT.run walk s).1

def Balanced (walk : Traversal α) : Prop := ∀ s, (StateT.run walk s).2 = s

def Same (s : List ArrayId) (walk walk' : Traversal α) : Prop :=
  ∃ x, StateT.run walk s = (x, s) ∧ StateT.run walk' s = (x, s)

variable {s : List ArrayId} {walk walk' : Traversal α}

theorem run_eq_answer (walk : Traversal α) : walk.run = answer walk [] := rfl

theorem Balanced.same (h : Balanced walk) (s : List ArrayId) : Same s walk walk :=
  ⟨answer walk s, Prod.ext rfl (h s), Prod.ext rfl (h s)⟩

theorem balanced_of_same (h : ∀ s, Same s walk walk) : Balanced walk := by
  intro s
  obtain ⟨x, hx, -⟩ := h s
  rw [hx]

theorem Same.run_eq (h : Same s walk walk') : StateT.run walk' s = (answer walk s, s) := by
  obtain ⟨x, hx, hx'⟩ := h
  rw [answer, hx, hx']

theorem Same.pure (x : α) (s : List ArrayId) : Same s (pure x) (pure x) := ⟨x, rfl, rfl⟩

theorem Same.bind {next next' : α → Traversal β} (h : Same s walk walk')
    (hnext : ∀ x, Same s (next x) (next' x)) : Same s (walk >>= next) (walk' >>= next') := by
  obtain ⟨x, hx, hx'⟩ := h
  obtain ⟨y, hy, hy'⟩ := hnext x
  refine ⟨y, ?_, ?_⟩
  · rw [StateT.run_bind, hx]
    exact hy
  · rw [StateT.run_bind, hx']
    exact hy'

theorem balanced_pure (x : α) : Balanced (pure x : Traversal α) := fun _ => rfl

@[simp] theorem answer_pure (x : α) (s : List ArrayId) : answer (pure x) s = x := rfl

theorem answer_bind (h : Balanced walk) (next : α → Traversal β) (s : List ArrayId) :
    answer (walk >>= next) s = answer (next (answer walk s)) s := by
  change (StateT.run (next (answer walk s)) (StateT.run walk s).2).1 = _
  rw [h s]
  rfl

theorem guarded_run (id : ArrayId) (again : α) (visit : Traversal α) (s : List ArrayId) :
    StateT.run (guarded id again visit) s =
      if id ∈ s then (again, s)
      else (answer visit (id :: s), (StateT.run visit (id :: s)).2.erase id) := by
  have hrun : StateT.run (guarded id again visit) s = if s.contains id then (again, s)
      else (answer visit (id :: s), (StateT.run visit (id :: s)).2.erase id) := by
    change StateT.run (ite _ _ _) s = _
    split <;> rfl
  simpa using hrun

theorem Same.guarded {id : ArrayId} {again : α} {visit visit' : Traversal α}
    (h : id ∉ s → Same (id :: s) visit visit') :
    Same s (guarded id again visit) (guarded id again visit') := by
  unfold Same
  rw [guarded_run, guarded_run]
  by_cases hid : id ∈ s
  · exact ⟨again, if_pos hid, if_pos hid⟩
  · obtain ⟨x, hx, hx'⟩ := h hid
    rw [if_neg hid, if_neg hid, answer, answer, hx, hx', List.erase_cons_head]
    exact ⟨x, rfl, rfl⟩

theorem Balanced.guarded {id : ArrayId} {again : α} {visit : Traversal α} (h : Balanced visit) :
    Balanced (guarded id again visit) :=
  balanced_of_same fun _ => .guarded fun _ => h.same _

@[simp] theorem answer_guarded (id : ArrayId) (again : α) (visit : Traversal α)
    (s : List ArrayId) : answer (guarded id again visit) s =
      if id ∈ s then again else answer visit (id :: s) := by
  rw [answer, guarded_run]
  split <;> rfl

theorem same_allM {test test' : α → Traversal Bool} {xs : List α}
    (h : ∀ x ∈ xs, Same s (test x) (test' x)) : Same s (allM test xs) (allM test' xs) := by
  induction xs with
  | nil => exact .pure true s
  | cons x xs ih =>
      obtain ⟨hx, hxs⟩ := List.forall_mem_cons.mp h
      refine hx.bind fun holds => ?_
      cases holds with
      | true => exact ih hxs
      | false => exact .pure false s

theorem answer_allM {test : α → Traversal Bool} (h : ∀ x, Balanced (test x)) (xs : List α)
    (s : List ArrayId) : answer (allM test xs) s = xs.all fun x => answer (test x) s := by
  induction xs with
  | nil => rfl
  | cons x xs ih =>
      rw [allM, answer_bind (h x), List.all_cons]
      cases hx : answer (test x) s with
      | true => simpa using ih
      | false => rfl

theorem same_mapM {f f' : α → Traversal β} {xs : List α} (h : ∀ x ∈ xs, Same s (f x) (f' x)) :
    Same s (xs.mapM f) (xs.mapM f') := by
  induction xs with
  | nil => exact .pure [] s
  | cons x xs ih =>
      obtain ⟨hx, hxs⟩ := List.forall_mem_cons.mp h
      rw [List.mapM_cons, List.mapM_cons]
      exact hx.bind fun _ => (ih hxs).bind fun _ => .pure _ s

theorem balanced_mapM {f : α → Traversal β} (h : ∀ x, Balanced (f x)) (xs : List α) :
    Balanced (xs.mapM f) :=
  balanced_of_same fun s => same_mapM fun x _ => (h x).same s

theorem answer_mapM {f : α → Traversal β} (h : ∀ x, Balanced (f x)) (xs : List α)
    (s : List ArrayId) : answer (xs.mapM f) s = xs.map fun x => answer (f x) s := by
  induction xs with
  | nil => rfl
  | cons x xs ih =>
      rw [List.mapM_cons, answer_bind (h x), answer_bind (balanced_mapM h xs), ih]
      rfl

/-! ## Equality -/

section Equality

variable {how : Equality} {nested nested' : ArrayId → ArrayId → Traversal Bool}

theorem same_equalValues {x y : Value}
    (h : ∀ i j, x = .array i → y = .array j → Same s (nested i j) (nested' i j)) :
    Same s (equalValues how nested x y) (equalValues how nested' x y) := by
  unfold equalValues
  split
  case h_9 i j =>
      split
      · exact .pure true s
      · exact h i j rfl rfl
  all_goals exact .pure _ s

theorem same_equalLists {xs ys : List Value}
    (h : ∀ i j, .array i ∈ xs → .array j ∈ ys → Same s (nested i j) (nested' i j)) :
    Same s (equalLists how nested xs ys) (equalLists how nested' xs ys) := by
  refine same_allM fun pair hpair => same_equalValues fun i j hi hj => ?_
  obtain ⟨hx, hy⟩ := List.of_mem_zip hpair
  exact h i j (hi ▸ hx) (hj ▸ hy)

theorem same_equalBodies {b c : Body}
    (h : ∀ i j, .array i ∈ b.toList → .array j ∈ c.toList → Same s (nested i j) (nested' i j)) :
    Same s (equalBodies how nested b c) (equalBodies how nested' b c) := by
  unfold equalBodies
  split
  · exact .pure false s
  · split
    case h_4 => exact same_equalLists h
    all_goals exact .pure _ s

theorem balanced_equalValues (h : ∀ i j, Balanced (nested i j)) (x y : Value) :
    Balanced (equalValues how nested x y) :=
  balanced_of_same fun s => same_equalValues fun i j _ _ => (h i j).same s

theorem balanced_equalArrays (a : Arena) (how : Equality) (depth : Nat) (i j : ArrayId) :
    Balanced (equalArrays a how depth i j) := by
  induction depth generalizing i j with
  | zero => exact balanced_pure false
  | succ depth ih =>
      refine Balanced.guarded ?_
      split
      · exact balanced_of_same fun s => same_equalBodies fun i j _ _ => (ih i j).same s
      · exact balanced_pure false

end Equality

/-! ## Order -/

section Order

variable {nested nested' : ArrayId → ArrayId → Traversal (Option Ordering)}

theorem same_orderValues {x y : Value}
    (h : ∀ i j, x = .array i → y = .array j → Same s (nested i j) (nested' i j)) :
    Same s (orderValues nested x y) (orderValues nested' x y) := by
  cases x <;> cases y
  case array.array i j =>
      change Same s (ite (i = j) _ _) (ite (i = j) _ _)
      split
      · exact .pure _ s
      · exact h i j rfl rfl
  all_goals exact .pure _ s

theorem same_orderPairs {pairs : List (Value × Value)}
    (h : ∀ i j, (.array i, .array j) ∈ pairs → Same s (nested i j) (nested' i j)) :
    Same s (orderPairs nested pairs) (orderPairs nested' pairs) := by
  induction pairs with
  | nil => exact .pure _ s
  | cons pair pairs ih =>
      obtain ⟨x, y⟩ := pair
      refine (same_orderValues fun i j hi hj => ?_).bind fun o => ?_
      · exact h i j (by rw [hi, hj]; exact List.mem_cons_self)
      · split
        · exact ih fun i j hij => h i j (List.mem_cons_of_mem _ hij)
        · exact .pure o s

theorem same_orderBodies {b c : Body}
    (h : ∀ i j, .array i ∈ b.toList → .array j ∈ c.toList → Same s (nested i j) (nested' i j)) :
    Same s (orderBodies nested b c) (orderBodies nested' b c) := by
  refine (same_orderPairs fun i j hij => ?_).bind fun o => ?_
  · obtain ⟨hi, hj⟩ := List.of_mem_zip hij
    exact h i j hi hj
  · split <;> exact .pure _ s

theorem balanced_orderValues (h : ∀ i j, Balanced (nested i j)) (x y : Value) :
    Balanced (orderValues nested x y) :=
  balanced_of_same fun s => same_orderValues fun i j _ _ => (h i j).same s

theorem balanced_orderPairs (h : ∀ i j, Balanced (nested i j)) (pairs : List (Value × Value)) :
    Balanced (orderPairs nested pairs) :=
  balanced_of_same fun s => same_orderPairs fun i j _ => (h i j).same s

theorem balanced_orderNested (a : Arena) (depth : Nat) (i j : ArrayId) :
    Balanced (orderNested a depth i j) := by
  induction depth generalizing i j with
  | zero => exact balanced_pure none
  | succ depth ih =>
      refine Balanced.guarded ?_
      split
      · exact balanced_of_same fun s => same_orderBodies fun i j _ _ => (ih i j).same s
      · exact balanced_pure none

end Order

/-! ## Hashing -/

section Hashing

variable {nested nested' : ArrayId → Traversal (List UInt8)}

theorem same_hashContent {v : Value} (h : ∀ id, v = .array id → Same s (nested id) (nested' id)) :
    Same s (hashContent nested v) (hashContent nested' v) := by
  cases v with
  | array id => exact h id rfl
  | _ => exact .pure _ s

theorem same_hashValue {v : Value} (h : ∀ id, v = .array id → Same s (nested id) (nested' id)) :
    Same s (hashValue nested v) (hashValue nested' v) :=
  (same_hashContent h).bind fun _ => .pure _ s

theorem same_hashBody {b : Body}
    (h : ∀ id, .array id ∈ b.toList → Same s (nested id) (nested' id)) :
    Same s (hashBody nested b) (hashBody nested' b) := by
  refine (same_mapM fun v hv => same_hashValue fun id hid => ?_).bind fun _ => .pure _ s
  exact h id (hid ▸ hv)

theorem balanced_hashContent (h : ∀ id, Balanced (nested id)) (v : Value) :
    Balanced (hashContent nested v) :=
  balanced_of_same fun s => same_hashContent fun id _ => (h id).same s

theorem balanced_hashValue (h : ∀ id, Balanced (nested id)) (v : Value) :
    Balanced (hashValue nested v) :=
  balanced_of_same fun s => same_hashValue fun id _ => (h id).same s

theorem balanced_hashArray (a : Arena) (depth : Nat) (id : ArrayId) :
    Balanced (hashArray a depth id) := by
  induction depth generalizing id with
  | zero => exact balanced_pure []
  | succ depth ih =>
      refine Balanced.guarded ?_
      split
      · exact balanced_of_same fun s => same_hashBody fun id _ => (ih id).same s
      · exact balanced_pure []

end Hashing

/-! ## Text -/

section Inspecting

variable {nested nested' : ArrayId → Traversal String}

theorem same_inspectValue {v : Value}
    (h : ∀ id, v = .array id → Same s (nested id) (nested' id)) :
    Same s (inspectValue nested v) (inspectValue nested' v) := by
  cases v with
  | array id => exact h id rfl
  | _ => exact .pure _ s

theorem same_inspectItems {items : List Value}
    (h : ∀ id, .array id ∈ items → Same s (nested id) (nested' id)) :
    Same s (inspectItems nested items) (inspectItems nested' items) := by
  refine (same_mapM fun v hv => same_inspectValue fun id hid => ?_).bind fun _ => .pure _ s
  exact h id (hid ▸ hv)

end Inspecting

end Traversal

end AdaptiveArray
