import AdaptiveArray.Edit.Basic
import AdaptiveArray.Proofs.Storage

/-!
# Steps of an edit

One rule for each primitive step of an edit: where the step can be taken, it leaves the
workspace that the rule names.
-/

namespace AdaptiveArray

def Arena.offer (a : Arena) (owner : ArrayId) (v : Value) : Arena :=
  if a.isShared owner then a.shareValue v else a

namespace Workspace

def withArena (w : Workspace) (a : Arena) : Workspace :=
  { w with arena := a }

def withStore (w : Workspace) (s : Store) : Workspace :=
  { w with body := { w.body with store := s } }

def withSize (w : Workspace) (n : Nat) : Workspace :=
  { w with body := { w.body with size := n } }

def replaced (w : Workspace) (s : Store) (n : Nat) : Workspace :=
  { w with arena := w.arena.release w.body.store, body := { w.body with store := s, size := n } }

def offer (w : Workspace) (v : Value) : Workspace :=
  w.withArena (w.arena.offer w.owner v)

@[simp] theorem body_withArena (w : Workspace) (a : Arena) : (w.withArena a).body = w.body := rfl

@[simp] theorem body_offer (w : Workspace) (v : Value) : (w.offer v).body = w.body := by
  rw [offer, body_withArena]

@[simp] theorem owner_offer (w : Workspace) (v : Value) : (w.offer v).owner = w.owner := rfl

@[simp] theorem body_withStore (w : Workspace) (s : Store) :
    (w.withStore s).body = { w.body with store := s } := rfl

@[simp] theorem body_withSize (w : Workspace) (n : Nat) :
    (w.withSize n).body = { w.body with size := n } := rfl

@[simp] theorem withArena_self (w : Workspace) : w.withArena w.arena = w := rfl

@[simp] theorem body_foldl_offer (vs : List Value) (w : Workspace) :
    (vs.foldl offer w).body = w.body := by
  induction vs generalizing w with
  | nil => rfl
  | cons v vs ih => rw [List.foldl_cons, ih, body_offer]

end Workspace

namespace Edit

def conclude (error? : Option ArrayError) (found : Option Value) : Edit (Option Value) :=
  match error? with
  | some e => Action.fail e
  | none => return found

def spliceSlots (position n : Nat) (vs : List Value) : Edit Unit := do
  if position < n then moveSlots position (position + vs.length) (n - position)
  else clearSlots n position
  setSlots position vs
  setSize (max position n + vs.length)

def extendSlots (n position : Nat) (v : Value) : Edit Unit := do
  clearSlots n position
  setSlot position v
  setSize (position + 1)

variable {w : Workspace} {α : Type}

def failure? (e : Edit α) (w : Workspace) : Option (Fault × List Value) :=
  match e w with
  | .ok _ _ => none
  | .error f w' => some (f, w'.body.toList)

theorem failure?_eq_some {e : Edit α} {f : Fault} {xs : List Value} :
    failure? e w = some (f, xs) ↔ ∃ w', e w = .error f w' ∧ w'.body.toList = xs := by
  unfold failure?
  cases e w <;> simp

section Rules

variable {post : α → Workspace → Prop} {early : Fault → Workspace → Prop}

@[simp] theorem ends_lift (act : Action α) :
    Ends (liftM act : Edit α) w post early ↔
      Ends act w.arena (fun x a => post x (w.withArena a))
        (fun f a => early f (w.withArena a)) := by
  obtain ⟨owner, body, arena⟩ := w
  simp only [Ends, liftM, monadLift, MonadLift.monadLift, ofAction]
  cases act arena <;> rfl

@[simp] theorem ends_attempt (e : Edit α) {post : Except ArrayError α → Workspace → Prop} :
    Ends (attempt e) w post early ↔ Ends e w (fun x w' => post (.ok x) w') (fun f w' =>
      match f with
      | .raised err => post (.error err) w'
      | f => early f w') := by
  simp only [Ends, attempt]
  cases e w with
  | ok x w' => rfl
  | error f w' => cases f <;> rfl

@[simp] theorem ends_size {post : Nat → Workspace → Prop} :
    Ends size w post early ↔ post w.body.size w := Iff.rfl

@[simp] theorem ends_capacity {post : Nat → Workspace → Prop} :
    Ends capacity w post early ↔ post w.body.capacity w := Iff.rfl

@[simp] theorem ends_kind {post : Kind → Workspace → Prop} :
    Ends kind w post early ↔ post w.body.kind w := Iff.rfl

@[simp] theorem ends_store {post : Store → Workspace → Prop} :
    Ends store w post early ↔ post w.body.store w := Iff.rfl

@[simp] theorem ends_isMutable {post : Bool → Workspace → Prop} :
    Ends isMutable w post early ↔ post w.body.store.isMutable w := Iff.rfl

theorem ends_getSlot {post : Value → Workspace → Prop} {i : Nat} {v : Value}
    (h : w.body.store.get? i = some v) : Ends (getSlot i) w post early ↔ post v w := by
  unfold getSlot
  simp [h, Workspace.withArena]

variable {post : Unit → Workspace → Prop}

theorem ends_setSlot_ite (i : Nat) (v : Value) :
    Ends (setSlot i v) w post early ↔ if w.body.store.admits i v
      then post () (w.withStore (w.body.store.set i v)) else early .broken w := by
  unfold setSlot
  simp [Workspace.withArena, Workspace.withStore]

theorem ends_setSlot {i : Nat} {v : Value} (h : w.body.store.admits i v) :
    Ends (setSlot i v) w post early ↔ post () (w.withStore (w.body.store.set i v)) := by
  rw [ends_setSlot_ite, if_pos h]

theorem ends_moveSlots {src dst len : Nat} (h : w.body.store.canMove src dst len) :
    Ends (moveSlots src dst len) w post early ↔
      post () (w.withStore (w.body.store.move src dst len)) := by
  unfold moveSlots
  simp [h, Workspace.withArena, Workspace.withStore]

theorem ends_reverseSlots {start stop : Nat} (h : w.body.store.hasWritable start stop) :
    Ends (reverseSlots start stop) w post early ↔
      post () (w.withStore (w.body.store.reverse start stop)) := by
  unfold reverseSlots
  simp [h, Workspace.withArena, Workspace.withStore]

theorem ends_setSize {n : Nat} (h : n ≤ w.body.capacity) :
    Ends (setSize n) w post early ↔ post () (w.withSize n) := by
  unfold setSize
  simp [h, Workspace.withArena, Workspace.withSize]

theorem ends_replaceStore {s : Store} {n : Nat} (h : n ≤ s.capacity) :
    Ends (replaceStore s n) w post early ↔ post () (w.replaced s n) := by
  unfold replaceStore
  simp [h, Workspace.withArena, Workspace.replaced]

@[simp] theorem ends_takeStore {post : Store → Workspace → Prop} :
    Ends takeStore w post early ↔
      post w.body.store { w with body := { w.body with store := .empty, size := 0 } } := Iff.rfl

@[simp] theorem ends_checkFrozen :
    Ends checkFrozen w post early ↔ if w.body.frozen
      then early (.raised (.frozen (w.arena.inspectBody w.body))) w else post () w := by
  unfold checkFrozen
  simp only [ends_bind, ends_get]
  split <;> rfl

theorem checkFrozen_eq (h : w.body.frozen = true) :
    checkFrozen w = .error (.raised (.frozen (w.arena.inspectBody w.body))) w := by
  change (if w.body.frozen then throw _ else pure () : Edit Unit) w = _
  rw [if_pos h]
  rfl

theorem run_checkFrozen_bind (hopen : w.body.frozen = false) (rest : Edit α) :
    (checkFrozen >>= fun _ => rest) w = rest w := by
  have hpass : checkFrozen w = .ok () w := by
    change (if w.body.frozen then throw _ else pure () : Edit Unit) w = _
    rw [hopen]
    rfl
  exact run_bind_of_ok hpass

@[simp] theorem ends_propagate (v : Value) :
    Ends (propagate v) w post early ↔ post () (w.offer v) := by
  unfold propagate Workspace.offer Arena.offer
  simp only [ends_bind, ends_get]
  split <;> simp

@[simp] theorem ends_propagateAll (vs : List Value) :
    Ends (propagateAll vs) w post early ↔ post () (vs.foldl Workspace.offer w) := by
  unfold propagateAll
  induction vs generalizing w with
  | nil => rfl
  | cons v vs ih => simp only [List.forM, ends_bind, ends_propagate, ih, List.foldl_cons]

@[simp] theorem ends_forM_propagateAll (bodies : List Body) :
    Ends (bodies.forM fun b => propagateAll b.toList) w post early ↔
      post () ((bodies.flatMap Body.toList).foldl Workspace.offer w) := by
  induction bodies generalizing w with
  | nil => rfl
  | cons b rest ih =>
      simp only [List.forM, ends_bind, ends_propagateAll, ih, List.flatMap_cons, List.foldl_append]

end Rules

/-! ## Clearing and writing stretches of slots -/

theorem ends_clearSlots {start stop : Nat} {post : Unit → Workspace → Prop}
    {early : Fault → Workspace → Prop} (hmut : start < stop → w.body.store.isMutable)
    (h : stop ≤ w.body.capacity) (hpost : ∀ s, s.kind = w.body.kind →
      s.capacity = w.body.capacity → (∀ i, s.get? i =
        if start ≤ i ∧ i < stop then some w.body.store.zero else w.body.store.get? i) →
      (stop ≤ start → s = w.body.store) → post () (w.withStore s)) :
    Ends (clearSlots start stop) w post early := by
  unfold clearSlots
  split
  case isTrue hlt =>
      have hwrite := Store.hasWritable_of_le (hmut hlt) (Nat.le_of_lt hlt) h
      simp only [ends_bind, ends_get, ends_lift, Action.ends_ensure, hwrite, if_true, ends_modify,
        Workspace.withArena_self]
      refine hpost _ (Store.kind_clear (hmut hlt) _ _) (Store.capacity_clear (hmut hlt) _ _)
        (fun i => ?_) fun hle => by omega
      rw [Store.get?_clear (hmut hlt)]
      have hstop : stop ≤ w.body.store.capacity := h
      by_cases hi : start ≤ i ∧ i < stop
      · rw [if_pos ⟨hi.1, hi.2, by omega⟩, if_pos hi]
      · rw [if_neg (by omega), if_neg hi]
  case isFalse hlt =>
      exact hpost _ rfl rfl (fun i => by rw [if_neg (by omega)]) fun _ => rfl

end Edit

structure Store.Written (s t : Store) (start : Nat) (vs : List Value) : Prop where
  kind : s.kind = t.kind
  capacity : s.capacity = t.capacity
  slot : ∀ i, s.get? i =
    if start ≤ i ∧ i < start + vs.length then vs[i - start]? else t.get? i

theorem Store.written_nil (t : Store) (start : Nat) : t.Written t start [] :=
  ⟨rfl, rfl, fun i => by rw [if_neg (by simp only [List.length_nil]; omega)]⟩

theorem Store.Written.cons {s t : Store} {start : Nat} {v : Value} {vs : List Value}
    (hadmits : t.admits start v) (h : s.Written (t.set start v) (start + 1) vs) :
    s.Written t start (v :: vs) := by
  refine ⟨by simpa using h.kind, by simpa using h.capacity, fun i => ?_⟩
  rw [h.slot, Store.get?_set hadmits, List.length_cons]
  by_cases hi : i = start
  · subst hi
    rw [if_neg (by omega), if_pos rfl, if_pos (by omega)]
    simp
  · rw [if_neg hi]
    by_cases hlater : start + 1 ≤ i ∧ i < start + 1 + vs.length
    · rw [if_pos hlater, if_pos (by omega), show i - start = (i - (start + 1)) + 1 by omega]
      rfl
    · rw [if_neg hlater, if_neg (by omega)]

theorem Store.Written.append {s t u : Store} {start : Nat} {xs ys : List Value}
    (h : t.Written s start xs) (h' : u.Written t (start + xs.length) ys) :
    u.Written s start (xs ++ ys) := by
  refine ⟨h'.kind.trans h.kind, h'.capacity.trans h.capacity, fun i => ?_⟩
  rw [h'.slot, h.slot, List.length_append, List.getElem?_append]
  by_cases hi : start ≤ i ∧ i < start + xs.length
  · rw [if_neg (by omega), if_pos hi, if_pos (by omega), if_pos (by omega)]
  · by_cases hj : start + xs.length ≤ i ∧ i < start + xs.length + ys.length
    · rw [if_pos hj, if_pos (by omega), if_neg (by omega), Nat.sub_sub]
    · rw [if_neg hj, if_neg hi, if_neg (by omega)]

namespace Edit

theorem ends_setSlots {w : Workspace} {early : Fault → Workspace → Prop} {start : Nat}
    {vs : List Value} (hmut : w.body.store.isMutable) (hholds : ∀ v ∈ vs, w.body.kind.holds v)
    (h : start + vs.length ≤ w.body.capacity) :
    Ends (setSlots start vs) w (fun _ w' => ∃ s, w' = w.withStore s ∧
      s.Written w.body.store start vs) early := by
  induction vs generalizing w start with
  | nil => exact ⟨w.body.store, rfl, Store.written_nil _ _⟩
  | cons v vs ih =>
      have hlen : start + (vs.length + 1) ≤ w.body.store.capacity := h
      have hadmits : w.body.store.admits start v :=
        Store.admits_of_holds hmut (hholds v List.mem_cons_self) (by omega)
      unfold setSlots
      rw [ends_bind, ends_setSlot hadmits]
      have hkind : (w.body.store.set start v).kind = w.body.store.kind := Store.kind_set _ _ _
      refine (ih (w := w.withStore _) ?_ ?_ ?_).weaken ?_
      · simpa [Workspace.withStore, Store.isMutable] using hmut
      · intro x hx
        simpa [Workspace.withStore, Body.kind] using hholds x (List.mem_cons_of_mem v hx)
      · simp only [Workspace.withStore, Body.capacity, Store.capacity_set]
        omega
      · rintro _ w' ⟨s, rfl, hs⟩
        exact ⟨s, rfl, hs.cons hadmits⟩

end Edit

end AdaptiveArray
