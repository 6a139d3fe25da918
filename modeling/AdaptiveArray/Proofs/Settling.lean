import AdaptiveArray.Native
import AdaptiveArray.Proofs.Custody

/-!
# Giving up objects

An object is given up only when no store that is alive keeps it alive, so what remains
refers to nothing that is gone.
-/

namespace AdaptiveArray

theorem Buffer.mem_arrayIds {b : Buffer} {i : Nat} {id : ArrayId}
    (h : b.get? i = some (.array id)) : id ∈ b.arrayIds := by
  cases b with
  | object xs =>
      exact List.mem_filterMap.mpr ⟨.array id, (Array.mem_of_getElem? h).val, rfl⟩
  | _ => simp [get?] at h

theorem Store.mem_arrayIds {s : Store} {i : Nat} {id : ArrayId}
    (h : s.get? i = some (.array id)) : id ∈ s.arrayIds := by
  cases s with
  | empty => cases h
  | owned b => exact Buffer.mem_arrayIds (b := b) h
  | native address slots => exact Buffer.mem_arrayIds (b := .object slots) h
  | view v =>
      simp only [get?] at h
      split at h
      · exact Buffer.mem_arrayIds h
      · cases h

theorem Body.mem_arrayIds {strict : Prop} {b : Body} {id : ArrayId} (hfits : b.Fits strict)
    (h : .array id ∈ b.toList) : id ∈ b.store.arrayIds := by
  obtain ⟨i, hi⟩ := List.mem_iff_getElem?.mp h
  rw [getElem?_toList hfits] at hi
  split at hi
  · exact Store.mem_arrayIds hi
  · cases hi

namespace Arena

variable {sharing : Prop} {a : Arena} {id : ArrayId}

theorem getElem?_marks (n : Nat) (ids : List ArrayId) (id : ArrayId) :
    (marks n ids)[id]? = if id < n then some (decide (id ∈ ids)) else none := by
  have hfold (ids : List ArrayId) : ∀ start : Array Bool,
      (ids.foldl (fun marks id => marks.setIfInBounds id true) start)[id]? =
        start[id]?.map fun marked => marked || decide (id ∈ ids) := by
    induction ids with
    | nil => simp
    | cons j ids ih =>
        intro start
        rw [List.foldl_cons, ih, Array.getElem?_setIfInBounds]
        by_cases heq : j = id
        · subst heq
          cases hstart : start[j]? with
          | none => simp [Array.getElem?_eq_none_iff.mp hstart]
          | some marked =>
              have hlt : j < start.size := (Array.getElem?_eq_some_iff.mp hstart).1
              simp [hlt]
        · rw [if_neg heq]
          have hne : id ≠ j := fun h => heq h.symm
          simp [hne]
  unfold marks
  rw [hfold, Array.getElem?_replicate]
  split <;> simp

theorem not_mem_heldIds {roots : List ArrayId} (h : id ∈ a.unheld roots) :
    id ∉ a.heldIds roots := by
  simp only [unheld, List.mem_filter, List.mem_range, getElem?_marks] at h
  obtain ⟨hlt, hmark⟩ := h
  rw [if_pos hlt] at hmark
  simpa using (Bool.and_eq_true_iff.mp hmark).2

theorem mem_heldIds {roots : List ArrayId} {j : ArrayId} {o : ArrayObject}
    (ho : a.object? j = some o) (hid : id ∈ o.body.store.arrayIds) : id ∈ a.heldIds roots := by
  refine List.mem_append_right _ (List.mem_flatMap.mpr ⟨o.body.store, ?_, hid⟩)
  refine List.mem_append_left _ (List.mem_filterMap.mpr ⟨some o, ?_, rfl⟩)
  rw [object?, Option.join_eq_some_iff] at ho
  exact List.mem_iff_getElem?.mpr ⟨j, by rwa [Array.getElem?_toList]⟩

theorem object?_drop (a : Arena) (id j : ArrayId) :
    (a.drop id).object? j = if j = id then none else a.object? j := by
  unfold drop
  cases hb : a.body? id with
  | none =>
      have hnone : a.object? id = none := Option.map_eq_none_iff.mp hb
      dsimp only
      split
      · subst j
        exact hnone
      · rfl
  | some b =>
      dsimp only
      rw [object?, Array.getElem?_setIfInBounds]
      by_cases heq : id = j
      · subst heq
        rw [if_pos rfl, if_pos rfl]
        split <;> rfl
      · rw [if_neg heq, if_neg fun h => heq h.symm, object?]

theorem stores_drop (a : Arena) (id : ArrayId) : (a.drop id).stores = a.stores := by
  unfold drop
  split
  · exact (Booked.release a _).stores
  · rfl

theorem nextBacking_drop (a : Arena) (id : ArrayId) :
    a.nextBacking ≤ (a.drop id).nextBacking := by
  unfold drop
  split
  · exact (Booked.release a _).nextBacking
  · exact Nat.le_refl _

structure Settled (ids : List ArrayId) (a b : Arena) : Prop where
  object : ∀ j, b.object? j = if j ∈ ids then none else a.object? j
  stores : b.stores = a.stores
  nextBacking : a.nextBacking ≤ b.nextBacking

theorem settled_drop (ids : List ArrayId) : ∀ a : Arena, a.Settled ids (ids.foldl drop a) := by
  induction ids with
  | nil => exact fun a => ⟨fun j => by rw [if_neg List.not_mem_nil]; rfl, rfl, Nat.le_refl _⟩
  | cons id ids ih =>
      intro a
      have h := ih (a.drop id)
      rw [List.foldl_cons]
      refine ⟨fun j => ?_, h.stores.trans (stores_drop a id),
        Nat.le_trans (nextBacking_drop a id) h.nextBacking⟩
      rw [h.object, object?_drop]
      by_cases heq : j = id
      · subst heq
        simp
      · simp [heq]

theorem Sound.settled {b : Arena} {ids : List ArrayId} (h : a.Sound sharing [])
    (hsettled : a.Settled ids b)
    (hids : ∀ j o, a.object? j = some o → ∀ id, .array id ∈ o.body.toList → id ∉ ids) :
    b.Sound sharing [] := by
  have horigin : ∀ {j o}, b.object? j = some o → a.object? j = some o := by
    intro j o ho
    rw [hsettled.object] at ho
    split at ho
    · cases ho
    · exact ho
  have hstays : ∀ {j o id}, b.object? j = some o → .array id ∈ o.body.toList →
      b.object? id = a.object? id := by
    intro j o id ho hid
    rw [hsettled.object, if_neg (hids j o (horigin ho) id hid)]
  have hbacked : ∀ k, b.Backs k → a.Backs k := by
    intro k hk
    rcases backs_iff.mp hk with ⟨j, o, ho, hk⟩ | ⟨entry, hentry, hk⟩
    · exact backs_of_object? (horigin ho) hk
    · exact backs_iff.mpr (.inr ⟨entry, hsettled.stores ▸ hentry, hk⟩)
  refine ⟨fun j o ho => h.fits j o (horigin ho), fun j o ho v hv id hid => ?_,
    fun k hk => Nat.lt_of_lt_of_le (h.fresh k (hbacked k hk)) hsettled.nextBacking,
    fun k k' hk hk' => h.coherent k k' (hbacked k hk) (hbacked k' hk'),
    fun hsharing j o ho hshared id hid => ?_, nofun⟩
  · have hv' : v = .array id := by
      cases v with
      | array i => exact congrArg Value.array (Option.some.inj hid)
      | _ => cases hid
    subst hv'
    rw [hstays ho hv]
    exact h.known j o (horigin ho) (.array id) hv id rfl
  · refine (h.closed hsharing j o (horigin ho) hshared id hid).imp_left fun hid' => ?_
    rwa [isShared, hstays ho hid]

theorem Sound.sweep (roots : List ArrayId) (rounds : Nat) : ∀ {a : Arena}, a.Sound sharing [] →
    (a.sweep roots rounds).Sound sharing [] := by
  induction rounds with
  | zero => exact fun h => h
  | succ rounds ih =>
      intro a h
      unfold Arena.sweep
      split
      · exact h
      · refine ih (h.settled (settled_drop _ a) fun j o ho id hid hmem => ?_)
        exact not_mem_heldIds hmem (mem_heldIds ho (Body.mem_arrayIds (h.fits j o ho) hid))

theorem Sound.settle (h : a.Sound sharing []) (roots : List ArrayId) :
    (a.settle roots).Sound sharing [] :=
  h.sweep roots _

end Arena

/-! ## Writing by address -/

namespace Store

variable {address : Address} {i : Nat} {v : Value} {s : Store}

theorem capacity_writeAt : (s.writeAt address i v).capacity = s.capacity := by
  cases s with
  | native a slots =>
      simp only [writeAt]
      split
      · exact Array.size_setIfInBounds
      · rfl
  | _ => rfl

theorem kind_writeAt : (s.writeAt address i v).kind = s.kind := by
  cases s with
  | native a slots =>
      simp only [writeAt]
      split <;> rfl
  | _ => rfl

theorem backing?_writeAt : (s.writeAt address i v).backing? = s.backing? := by
  cases s with
  | native a slots =>
      simp only [writeAt]
      split <;> rfl
  | _ => rfl

theorem writeAt_of_ne (h : s.address? ≠ some address) : s.writeAt address i v = s := by
  cases s with
  | native a slots =>
      simp only [writeAt]
      rw [if_neg fun heq => h (congrArg some heq)]
  | _ => rfl

theorem get?_writeAt_of_ne {j : Nat} (h : i ≠ j) :
    (s.writeAt address i v).get? j = s.get? j := by
  cases s with
  | native a slots =>
      simp only [writeAt]
      split
      · simp only [get?]
        rw [Array.getElem?_setIfInBounds_ne h]
      · rfl
  | _ => rfl

theorem get?_writeAt {j : Nat} {x : Value} (h : (s.writeAt address i v).get? j = some x) :
    x = v ∨ s.get? j = some x := by
  by_cases heq : i = j
  · subst heq
    cases s with
    | native a slots =>
        simp only [writeAt] at h
        split at h
        · simp only [get?, Array.getElem?_setIfInBounds_self] at h
          split at h
          · exact .inl (Option.some.inj h).symm
          · cases h
        · exact .inr h
    | _ => exact .inr h
  · rw [get?_writeAt_of_ne heq] at h
    exact .inr h

theorem fits_writeAt (h : s.Fits) : (s.writeAt address i v).Fits := by
  cases s with
  | native a slots =>
      simp only [writeAt]
      split <;> trivial
  | _ => exact h

end Store

theorem Body.Fits.writeAt {b : Body} {address : Address} {i : Nat} {v : Value} (h : b.Fits True)
    (hi : b.store.address? = some address → i < b.size) :
    ({ b with store := b.store.writeAt address i v } : Body).Fits True := by
  by_cases haddress : b.store.address? = some address
  · refine ⟨?_, Store.fits_writeAt h.store, fun _ hmut j hj hlt => ?_⟩
    · rw [capacity_mk, Store.capacity_writeAt]
      exact h.size_le
    · have hj' : b.size ≤ j := hj
      rw [capacity_mk, Store.capacity_writeAt] at hlt
      rw [Store.isMutable, Store.kind_writeAt] at hmut
      rw [show ({ b with store := b.store.writeAt address i v } : Body).store.zero =
          b.store.zero from
        Store.zero_of_kind Store.kind_writeAt, Store.get?_writeAt_of_ne (by
          have := hi haddress
          omega)]
      exact h.tidy trivial hmut j hj' hlt
  · rw [Store.writeAt_of_ne haddress]
    exact h

theorem Body.mem_writeAt {b : Body} {address : Address} {i : Nat} {v x : Value} (h : b.Fits True)
    (h' : ({ b with store := b.store.writeAt address i v } : Body).Fits True)
    (hx : x ∈ ({ b with store := b.store.writeAt address i v } : Body).toList) :
    x = v ∨ x ∈ b.toList := by
  obtain ⟨j, hj⟩ := List.mem_iff_getElem?.mp hx
  rw [getElem?_toList h'] at hj
  split at hj
  · refine (Store.get?_writeAt hj).imp_right fun hold => List.mem_iff_getElem?.mpr ⟨j, ?_⟩
    rw [getElem?_toList h, if_pos ‹_›, hold]
  · cases hj

namespace Arena

variable {held : List ArrayId} {a : Arena}

theorem object?_writeAt (a : Arena) (address : Address) (i : Nat) (v : Value) (id : ArrayId) :
    (a.writeAt address i v).object? id = (a.object? id).map fun o =>
      { o with body := { o.body with store := o.body.store.writeAt address i v } } := by
  rw [object?, object?, writeAt, Array.getElem?_map]
  cases a.objects[id]? <;> rfl

/-- Writing an element by its address keeps the arena sound.  The write goes past the walk, so
nothing is said about sharing. -/
theorem writeAt_evolves {address : Address} {i : Nat} {v : Value} (hv : a.Knows v)
    (hi : ∀ id o, a.object? id = some o → o.body.store.address? = some address →
      id ∉ held ∧ i < o.body.size) : a.Evolves False held (a.writeAt address i v) := by
  intro h
  have horigin : ∀ {id o'}, (a.writeAt address i v).object? id = some o' →
      ∃ o, a.object? id = some o ∧
        { o with body := { o.body with store := o.body.store.writeAt address i v } } = o' := by
    intro id o' ho'
    rw [object?_writeAt] at ho'
    exact Option.map_eq_some_iff.mp ho'
  have halive : ∀ id, (a.object? id).isSome → ((a.writeAt address i v).object? id).isSome := by
    intro id hid
    rwa [object?_writeAt, Option.isSome_map]
  have hfits : ∀ id o, a.object? id = some o →
      ({ o.body with store := o.body.store.writeAt address i v } : Body).Fits True :=
    fun id o ho => (h.fits id o ho).writeAt fun haddress => (hi id o ho haddress).2
  have hbacked : ∀ k, (a.writeAt address i v).Backs k → a.Backs k := by
    intro k hk
    rcases backs_iff.mp hk with ⟨id, o', ho', hk⟩ | ⟨entry, hentry, hk⟩
    · obtain ⟨o, ho, rfl⟩ := horigin ho'
      exact backs_of_object? ho (Store.backing?_writeAt ▸ hk)
    · obtain ⟨⟨name, s⟩, hs, rfl⟩ := List.mem_map.mp hentry
      exact backs_iff.mpr (.inr ⟨(name, s), hs, Store.backing?_writeAt ▸ hk⟩)
  -- The value that is written is the only one that comes in, and it is known.
  refine ⟨⟨fun id o' ho' => ?_, fun id o' ho' x hx j hj => ?_, fun k hk => h.fresh k (hbacked k hk),
    fun k k' hk hk' => h.coherent k k' (hbacked k hk) (hbacked k' hk'), False.elim,
    fun id hid => ?_⟩, ⟨halive, fun id hid => ?_, Nat.le_refl _, fun k hk => .inl (hbacked k hk),
      fun id hid o ho => ?_⟩⟩
  · obtain ⟨o, ho, rfl⟩ := horigin ho'
    exact hfits id o ho
  · obtain ⟨o, ho, rfl⟩ := horigin ho'
    refine halive j ?_
    rcases Body.mem_writeAt (h.fits id o ho) (hfits id o ho) hx with rfl | hx
    · exact hv j hj
    · exact h.known id o ho x hx j hj
  · obtain ⟨o, ho, hlock⟩ := h.locked id hid
    refine ⟨{ o with body := { o.body with store := o.body.store.writeAt address i v } }, ?_, hlock⟩
    rw [object?_writeAt, ho]
    rfl
  · obtain ⟨o, ho, hshared⟩ := exists_of_isShared hid
    rw [isShared, object?_writeAt, ho]
    exact hshared
  · refine ⟨o, ?_, .refl o⟩
    rw [object?_writeAt, ho, Option.map_some,
      Store.writeAt_of_ne fun haddress => (hi id o ho haddress).1 hid]

end Arena

end AdaptiveArray
