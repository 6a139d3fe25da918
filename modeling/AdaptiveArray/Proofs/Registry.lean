import AdaptiveArray.Proofs.Balance
import Mathlib.Data.List.Pairwise

/-!
# The registry of native storage

Whatever clients do, the registry tells which native stores are alive and how many slots
they have, so an address reaches a store exactly while the store lives.  A write by
address goes to one slot of one store.
-/

namespace AdaptiveArray

variable {a b c : Arena} {out : Claims} {address : Address} {i : Nat} {v : Value}

/-! ## Entries -/

theorem lookup_filter_ne {κ β : Type} [DecidableEq κ] (entries : List (κ × β)) (k k' : κ) :
    (entries.filter fun e => e.1 ≠ k).lookup k' = if k' = k then none else entries.lookup k' := by
  induction entries with
  | nil => simp
  | cons e entries ih =>
      by_cases he : e.1 = k
      · rw [List.filter_cons_of_neg (by simpa using he), ih, List.lookup_cons]
        split
        · rfl
        · rw [beq_eq_false_iff_ne.mpr (by rwa [he])]
      · rw [List.filter_cons_of_pos (by simpa using he), List.lookup_cons, List.lookup_cons, ih]
        by_cases hk : k' = e.1
        · have hne : k' ≠ k := hk ▸ he
          rw [beq_iff_eq.mpr hk, if_neg hne, if_neg hne]
        · rw [beq_eq_false_iff_ne.mpr hk]

namespace Arena

theorem nextAddress_release (a : Arena) (s : Store) :
    (a.release s).nextAddress = a.nextAddress := by
  cases s <;> rfl

theorem nextAddress_attachMarker (a : Arena) (s : Store) :
    (a.attachMarker s).nextAddress = a.nextAddress := by
  cases s with
  | native address slots =>
      rw [attachMarker]
      cases a.registration? address <;> rfl
  | _ => rfl

theorem registration?_release (a : Arena) (s : Store) (address : Address) :
    (a.release s).registration? address =
      if s.address? = some address then none else a.registration? address := by
  cases s with
  | native own slots =>
      rw [release, registration?, registration?, lookup_filter_ne]
      simp [Store.address?, eq_comm]
  | _ => rfl

theorem registration?_register (a : Arena) (own : Address) (entry : Registration)
    (address : Address) : (a.register own entry).registration? address =
      if address = own then some entry else a.registration? address := by
  rw [register, registration?, registration?, List.lookup_cons, lookup_filter_ne]
  by_cases h : address = own
  · rw [beq_iff_eq.mpr h, if_pos h, if_pos h]
  · rw [beq_eq_false_iff_ne.mpr h, if_neg h, if_neg h]

theorem registration?_enrolled {n : Nat} (h : (a.enrolled n).Counted b) (address : Address) :
    b.registration? address =
      if address = a.nextAddress then some ⟨n, false⟩ else a.registration? address := by
  rw [registration?, h.registry]
  exact registration?_register a a.nextAddress _ address

theorem registration?_attachMarker {slots : Array Value} (h : (a.enrolled slots.size).Counted b)
    (address : Address) : (b.attachMarker (.native a.nextAddress slots)).registration? address =
      if address = a.nextAddress then some ⟨slots.size, true⟩ else a.registration? address := by
  rw [attachMarker, registration?_enrolled h, if_pos rfl]
  dsimp only
  rw [registration?_register, registration?_enrolled h]
  split <;> rfl

end Arena

/-! ## Accounts that are right -/

theorem Store.address?_eq (s : Store) : s.address? = s.claim?.map Prod.fst := by
  cases s <;> rfl

theorem lookup_of_mem {κ β : Type} [DecidableEq κ] {entries : List (κ × β)} {k : κ} {x : β}
    (h : (entries.map Prod.fst).Nodup) (hmem : (k, x) ∈ entries) : entries.lookup k = some x := by
  obtain ⟨front, back, rfl⟩ := List.append_of_mem hmem
  rw [List.map_append, List.map_cons, List.nodup_middle, List.nodup_cons, List.mem_append] at h
  refine List.lookup_eq_some_iff.mpr ⟨front, back, rfl, fun entry hentry => ?_⟩
  refine bne_iff_ne.mpr fun heq => ?_
  exact h.1 (.inl (List.mem_map.mpr ⟨entry, hentry, heq.symm⟩))

namespace Arena.Accurate

theorem registration?_iff (h : a.Accurate out) (n : Nat) :
    (a.registration? address).map Registration.capacity = some n ↔
      (address, n) ∈ out + a.claims := by
  rw [h.booked, registered, Multiset.mem_coe, List.mem_map, Option.map_eq_some_iff]
  constructor
  · rintro ⟨entry, hentry, rfl⟩
    exact ⟨(address, entry), mem_of_lookup hentry, rfl⟩
  · rintro ⟨⟨_, entry⟩, hentry, heq⟩
    obtain ⟨rfl, hcapacity⟩ := Prod.mk.inj heq
    exact ⟨entry, lookup_of_mem h.keys hentry, hcapacity⟩

theorem eq_of_address? (h : a.Accurate out) {s t : Store} (hs : s ∈ a.liveStores)
    (ht : t ∈ a.liveStores) (hsa : s.address? = some address) (hta : t.address? = some address) :
    s = t := by
  have hkeys : (a.liveStores.filterMap Store.address?).Nodup := by
    have hle : a.claims ≤ a.registered := h.booked ▸ Multiset.le_add_left _ _
    have hregistered : (a.registered.map Prod.fst).Nodup := by
      simpa [registered, Function.comp_def] using h.keys
    have hnodup : (a.claims.map Prod.fst).Nodup :=
      Multiset.nodup_of_le (Multiset.map_le_map hle) hregistered
    rw [claims, claimed, Multiset.map_coe, List.map_filterMap, Multiset.coe_nodup] at hnodup
    simpa only [Store.address?_eq] using hnodup
  have hapart := List.pairwise_filterMap.mp hkeys
  have hsymm : Std.Symm fun s t : Store =>
      ∀ x, s.address? = some x → ∀ y, t.address? = some y → x ≠ y :=
    ⟨fun _ _ hst x hx y hy => (hst y hy x hx).symm⟩
  by_contra hne
  exact hapart.forall hs ht hne address hsa address hta rfl

theorem slotsAt?_eq_some_iff (h : a.Accurate out) {slots : Array Value} :
    a.slotsAt? address = some slots ↔ .native address slots ∈ a.liveStores := by
  have hslots {s : Store} {found : Array Value} (hs : s.slotsAt? address = some found) :
      s = .native address found := by
    cases s with
    | native own slots =>
        obtain ⟨rfl, heq⟩ := Option.ite_none_right_eq_some.mp hs
        rw [Option.some.inj heq]
    | _ => cases hs
  constructor
  · intro hfound
    obtain ⟨s, hs, hfound⟩ := List.exists_of_findSome?_eq_some hfound
    exact hslots hfound ▸ hs
  · intro hlive
    have hsome : (a.slotsAt? address).isSome :=
      List.findSome?_isSome_iff.mpr ⟨_, hlive, by simp [Store.slotsAt?]⟩
    obtain ⟨found, hfound⟩ := Option.isSome_iff_exists.mp hsome
    obtain ⟨s, hs, hat⟩ := List.exists_of_findSome?_eq_some hfound
    have heq := h.eq_of_address? hlive (hslots hat ▸ hs) rfl rfl
    injection heq with _ heq
    rw [hfound, heq]

end Arena.Accurate

/-! ## Reading and writing by address -/

structure Store.Poked (address : Address) (i : Nat) (v : Value) (s t : Store) : Prop where
  kind : t.kind = s.kind
  claim : t.claim? = s.claim?
  slot : ∀ j, t.get? j = if s.address? = some address ∧ j = i then some v else s.get? j

structure Body.Poked (address : Address) (i : Nat) (v : Value) (x y : Body) : Prop where
  store : x.store.Poked address i v y.store
  size : y.size = x.size
  frozen : y.frozen = x.frozen
  element : ∀ j, y.get? j =
    if x.store.address? = some address ∧ j = i ∧ i < x.size then some v else x.get? j

structure ArrayObject.Poked (address : Address) (i : Nat) (v : Value) (o p : ArrayObject) :
    Prop where
  rest : p = { o with body := p.body }
  body : o.body.Poked address i v p.body

structure Arena.Poked (address : Address) (i : Nat) (v : Value) (a b : Arena) : Prop where
  rest : b = { a with objects := b.objects, stores := b.stores }
  objects : ∀ id, Option.Rel (ArrayObject.Poked address i v) (a.object? id) (b.object? id)
  stores : ∀ name, Option.Rel (Store.Poked address i v) (a.store? name) (b.store? name)

theorem Store.poked_writeAt {s : Store} (hi : s.address? = some address → i < s.capacity) :
    s.Poked address i v (s.writeAt address i v) where
  kind := by
    cases s with
    | native own slots => by_cases heq : own = address <;> simp [writeAt, heq, kind]
    | _ => rfl
  claim := s.claim?_writeAt address i v
  slot j := by
    cases s with
    | native own slots =>
        by_cases heq : own = address
        · subst heq
          have hlt : i < slots.size := hi rfl
          simp only [writeAt, if_pos, get?, Array.getElem?_setIfInBounds, address?, true_and]
          by_cases hj : i = j
          · rw [if_pos hj, if_pos hj.symm, if_pos hlt]
          · rw [if_neg hj, if_neg (Ne.symm hj)]
        · simp [writeAt, heq, address?]
    | _ => simp [writeAt, address?]

theorem Body.poked_writeAt {x : Body}
    (hi : x.store.address? = some address → i < x.store.capacity) :
    x.Poked address i v { x with store := x.store.writeAt address i v } where
  store := Store.poked_writeAt hi
  size := rfl
  frozen := rfl
  element j := by
    have hslot := (Store.poked_writeAt (v := v) hi).slot j
    unfold get?
    dsimp only
    rw [hslot]
    grind

theorem Arena.store?_writeAt (a : Arena) (address : Address) (i : Nat) (v : Value) (name : String) :
    (a.writeAt address i v).store? name = (a.store? name).map (Store.writeAt address i v) := by
  unfold writeAt store?
  dsimp only
  induction a.stores with
  | nil => rfl
  | cons entry stores ih =>
      rw [List.map_cons, List.lookup_cons, List.lookup_cons, ih]
      split <;> rfl

theorem Arena.poked_writeAt (hi : ∀ s ∈ a.liveStores, s.address? = some address → i < s.capacity) :
    a.Poked address i v (a.writeAt address i v) where
  rest := rfl
  objects id := by
    rw [object?_writeAt]
    cases ho : a.object? id with
    | none => exact .none
    | some o =>
        have hlive : o.body.store ∈ a.liveStores := mem_liveStores.mpr (.inl ⟨id, o, ho, rfl⟩)
        exact .some ⟨rfl, Body.poked_writeAt (hi _ hlive)⟩
  stores name := by
    rw [store?_writeAt]
    cases hs : a.store? name with
    | none => exact .none
    | some s =>
        have hlive : s ∈ a.liveStores := mem_liveStores.mpr (.inr ⟨name, mem_of_lookup hs⟩)
        exact .some (Store.poked_writeAt (hi s hlive))

namespace Action

end Action

end AdaptiveArray
