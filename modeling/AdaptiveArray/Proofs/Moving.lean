import AdaptiveArray.Proofs.Workspace
import AdaptiveArray.Stores

/-!
# Moving elements within a store

Whoever owns the buffer and whatever it holds, a move ends with the target holding what the
source held before and with nothing else changed.  Numbers are moved as a block and values
slot by slot; what comes of it is the same.
-/

namespace AdaptiveArray

namespace Store

variable {s t : Store} {src dst len : Nat}

/-- Slots `[dst, dst + len)` of `t` hold what slots `[src, src + len)` of `s` do, and all else in
`t` is as it is in `s`. -/
structure Moved (s : Store) (src dst len : Nat) (t : Store) : Prop where
  kind : t.kind = s.kind
  capacity : t.capacity = s.capacity
  claim : t.claim? = s.claim?
  target : ∀ i, i < len → t.get? (dst + i) = s.get? (src + i)
  others : ∀ j, j < dst ∨ dst + len ≤ j → t.get? j = s.get? j

variable (hmut : s.isMutable) (hsrc : src + len ≤ s.capacity) (hdst : dst + len ≤ s.capacity)

include hmut hsrc hdst

theorem moved_move : s.Moved src dst len (s.move src dst len) where
  kind := kind_move hmut src dst len
  capacity := capacity_move hmut src dst len
  claim := claim?_move s src dst len
  target i hi := by rw [get?_move hmut hsrc hdst, if_pos (by omega), Nat.add_sub_cancel_left]
  others j hj := by rw [get?_move hmut hsrc hdst, if_neg (by omega)]

theorem moved_iff : s.Moved src dst len t ↔ t = s.move src dst len := by
  have hmove := moved_move hmut hsrc hdst
  constructor
  · intro h
    have ht := isMutable_of_kind h.kind hmut
    refine eq_of_get? ht (h.kind.trans hmove.kind.symm) (h.claim.trans hmove.claim.symm)
      fun j => ?_
    by_cases hj : dst ≤ j ∧ j < dst + len
    · obtain ⟨i, rfl⟩ := Nat.exists_eq_add_of_le hj.1
      rw [h.target i (by omega), hmove.target i (by omega)]
    · rw [h.others j (by omega), hmove.others j (by omega)]
  · rintro rfl
    exact hmove

theorem values_move : (s.move src dst len).values = Span.stepMove s.values src dst len := by
  have hfits := fits_of_isMutable hmut
  have hfits' : (s.move src dst len).Fits :=
    fits_of_isMutable (isMutable_of_kind (kind_move hmut _ _ _) hmut)
  have hsize := size_values hfits
  exact Array.ext_getElem? fun j => by
    rw [getElem?_values hfits', get?_move hmut hsrc hdst,
      Span.getElem?_stepMove (by rwa [hsize]) (by rwa [hsize]), getElem?_values hfits,
      getElem?_values hfits]

end Store

namespace Action

variable {a : Arena} {name : String} {s : Store}

theorem changeStore_of_ok {b : Arena} {t : Store} {change : Store → Action Store}
    (hs : a.store? name = some s) (h : change s a = .ok t b) :
    changeStore name change a = .ok () (b.setStore name t) := by
  have hnamed : storeNamed name a = .ok s a := by
    unfold storeNamed
    rw [run_get_bind, hs]
    rfl
  unfold changeStore
  rw [run_bind_of_ok hnamed, run_bind_of_ok h]
  rfl

theorem storeMove_of_canMove {src dst len : Nat} (hs : a.store? name = some s)
    (hcan : s.canMove src dst len) :
    storeMove name src dst len a = .ok () (a.setStore name (s.move src dst len)) :=
  changeStore_of_ok hs (by rw [hcan]; rfl)

end Action

theorem Edit.moveSlots_of_canMove {w : Workspace} {src dst len : Nat}
    (hcan : w.body.store.canMove src dst len) :
    moveSlots src dst len w = .ok () (w.withStore (w.body.store.move src dst len)) := by
  have hends : Ends (moveSlots src dst len) w
      (fun _ w' => w' = w.withStore (w.body.store.move src dst len)) fun _ _ => False :=
    (ends_moveSlots hcan).mpr rfl
  obtain ⟨_, _, hrun, rfl⟩ := hends.exists_ok fun _ _ h => h
  exact hrun

namespace Store

/-- Between two stretches of a store that can be written, overlapping or not, a move never fails:
not in a store by itself and not in that of an array.  It leaves the one store whose target holds
what the source held and which is the same in everything else.  Moving the boxed elements slot by
slot comes to that as well, and on any elements it does what moving the block does. -/
theorem moves_exact {s : Store} {src dst len : Nat} (hmut : s.isMutable)
    (hsrc : src + len ≤ s.capacity) (hdst : dst + len ≤ s.capacity) :
    (∀ t, s.Moved src dst len t ↔ t = s.move src dst len) ∧
    (∀ (name : String) (a : Arena), a.store? name = some s →
      Action.storeMove name src dst len a = .ok () (a.setStore name (s.move src dst len))) ∧
    (∀ w : Workspace, w.body.store = s →
      Edit.moveSlots src dst len w = .ok () (w.withStore (s.move src dst len))) ∧
    (s.move src dst len).values = Span.stepMove s.values src dst len ∧
    ∀ (α : Type) (xs : Array α), xs.size = s.capacity →
      Span.stepMove xs src dst len = Span.blockMove xs src dst len := by
  have hcan := canMove_of_le hmut hsrc hdst
  refine ⟨fun t => moved_iff hmut hsrc hdst, fun name a hs => Action.storeMove_of_canMove hs hcan,
    ?_, values_move hmut hsrc hdst, fun α xs hsize => ?_⟩
  · rintro w rfl
    exact Edit.moveSlots_of_canMove hcan
  · exact Span.stepMove_eq_blockMove (by rwa [hsize]) (by rwa [hsize])

/-- Native values one slot up, onto all but the first of themselves, and numbers two slots down. -/
theorem moves_exact_overlapping :
    let values : Store := .native 0 #[.string 0 "w", .nil, .int 7, .bool true]
    let numbers : Store := .owned (.long #[1, 2, 3, 4, 5])
    let a : Arena := { stores := [("values", values), ("numbers", numbers)] }
    (∃ t, Action.storeMove "values" 0 1 3 a = .ok () (a.setStore "values" t) ∧
      values.Moved 0 1 3 t ∧ t.values = #[.string 0 "w", .string 0 "w", .nil, .int 7]) ∧
    ∃ t, Action.storeMove "numbers" 2 0 3 a = .ok () (a.setStore "numbers" t) ∧
      numbers.Moved 2 0 3 t ∧ t.values = #[.int 3, .int 4, .int 5, .int 4, .int 5] := by
  intro values numbers a
  constructor
  · obtain ⟨hmoved, hstore, -, hvalues, -⟩ := moves_exact (by decide : values.isMutable)
      (by decide : 0 + 3 ≤ values.capacity) (by decide : 1 + 3 ≤ values.capacity)
    exact ⟨_, hstore "values" a rfl, (hmoved _).mpr rfl, hvalues.trans (by decide)⟩
  · obtain ⟨hmoved, hstore, -, hvalues, -⟩ := moves_exact (by decide : numbers.isMutable)
      (by decide : 2 + 3 ≤ numbers.capacity) (by decide : 0 + 3 ≤ numbers.capacity)
    exact ⟨_, hstore "numbers" a rfl, (hmoved _).mpr rfl, hvalues.trans (by decide +kernel)⟩

end Store

end AdaptiveArray
