import AdaptiveArray.Proofs.Tracking
import Mathlib.Algebra.Order.Group.Multiset

/-!
# The accounts of native storage

The registry is right if it is made up of what the stores claim, each once: those that
are alive, and those that are out of the arena just now.  A step that takes a store out
or puts one in leaves the accounts right if the claim goes with the store.
-/

namespace AdaptiveArray

abbrev Claims := Multiset (Address × Nat)

def Store.claims (s : Store) : Claims :=
  s.claim?.toList

theorem Store.claims_of_none {s : Store} (h : s.claim? = none) : s.claims = 0 := by
  rw [claims, h]
  rfl

theorem Store.claims_congr {s t : Store} (h : s.claim? = t.claim?) : s.claims = t.claims := by
  rw [claims, claims, h]

theorem Store.claim?_writeAt (s : Store) (address : Address) (i : Nat) (v : Value) :
    (s.writeAt address i v).claim? = s.claim? := by
  cases s with
  | native own slots =>
      by_cases heq : own = address <;> simp [writeAt, heq, claim?]
  | _ => rfl

def claimed (stores : List Store) : Claims :=
  stores.filterMap Store.claim?

theorem claimed_append (xs ys : List Store) : claimed (xs ++ ys) = claimed xs + claimed ys := by
  rw [claimed, List.filterMap_append, ← Multiset.coe_add]
  rfl

theorem claimed_cons (s : Store) (stores : List Store) :
    claimed (s :: stores) = s.claims + claimed stores := by
  rw [claimed, List.filterMap_cons, Store.claims]
  cases s.claim? <;> rfl

theorem claimed_perm {xs ys : List Store} (h : xs.Perm ys) : claimed xs = claimed ys :=
  Multiset.coe_eq_coe.mpr (h.filterMap _)

theorem mem_claimed {stores : List Store} {c : Address × Nat} :
    c ∈ claimed stores ↔ ∃ s ∈ stores, s.claim? = some c := by
  rw [claimed, Multiset.mem_coe, List.mem_filterMap]

namespace Arena

variable {a b : Arena} {id : ArrayId}

def claims (a : Arena) : Claims :=
  claimed a.liveStores

def registered (a : Arena) : Claims :=
  a.registry.map fun e => (e.1, e.2.capacity)

def shelf (objects : List (Option ArrayObject)) : List Store :=
  objects.filterMap (Option.map fun o => o.body.store)

theorem claims_eq (a : Arena) :
    a.claims = claimed (shelf a.objects.toList) + claimed (a.stores.map Prod.snd) :=
  claimed_append _ _

theorem claimed_shelf_middle (front back : List (Option ArrayObject)) (o : Option ArrayObject) :
    claimed (shelf (front ++ o :: back)) = (o.elim 0 fun o => o.body.store.claims) +
      (claimed (shelf front) + claimed (shelf back)) := by
  have hhead : claimed (shelf (o :: back)) =
      (o.elim 0 fun o => o.body.store.claims) + claimed (shelf back) := by
    cases o with
    | none => exact (zero_add _).symm
    | some o => exact claimed_cons _ _
  rw [shelf, List.filterMap_append, claimed_append]
  exact (congrArg _ hhead).trans (add_left_comm _ _ _)

theorem exists_claims {x : Body} (hx : a.body? id = some x) : ∃ rest : Claims,
    a.claims = x.store.claims + rest ∧ (a.vacate id).claims = rest ∧
      ∀ y, (a.setBody id y).claims = y.store.claims + rest := by
  obtain ⟨o, ho, rfl⟩ := Option.map_eq_some_iff.mp hx
  rw [object?, Option.join_eq_some_iff, ← Array.getElem?_toList] at ho
  obtain ⟨hlt, hid⟩ := List.getElem?_eq_some_iff.mp ho
  let front := a.objects.toList.take id
  let back := a.objects.toList.drop (id + 1)
  have hwhole : a.objects.toList = front ++ some o :: back := by
    rw [← hid, List.getElem_cons_drop, List.take_append_drop]
  refine ⟨claimed (shelf front) + claimed (shelf back) + claimed (a.stores.map Prod.snd),
    ?_, ?_, fun y => ?_⟩
  · rw [claims_eq, hwhole, claimed_shelf_middle, add_assoc _ (_ + _)]
    rfl
  · rw [claims_eq]
    change claimed (shelf (a.objects.setIfInBounds id none).toList) + _ = _
    rw [Array.toList_setIfInBounds, List.set_eq_take_append_cons_drop, if_pos hlt,
      claimed_shelf_middle]
    exact congrArg (· + _) (zero_add _)
  · rw [claims_eq]
    change claimed (shelf (a.objects.modify id _).toList) + _ = _
    rw [Array.toList_modify, List.modify_eq_take_cons_drop hlt, hid, claimed_shelf_middle,
      add_assoc _ (_ + _)]
    rfl

theorem claims_withObject (a : Arena) (x : Body) :
    (a.withObject x).claims = x.store.claims + a.claims := by
  have hlive : (a.withObject x).liveStores.Perm (x.store :: a.liveStores) := by
    have hobjects : (a.withObject x).objects.toList = a.objects.toList ++ [some { body := x }] :=
      Array.toList_push
    rw [liveStores, hobjects, List.filterMap_append, List.append_assoc]
    exact List.perm_middle
  exact (claimed_perm hlive).trans (claimed_cons _ _)

def claimOf? (a : Arena) (id : ArrayId) : Option (Address × Nat) :=
  (a.body? id).bind fun b => b.store.claim?

theorem claims_of_bodies
    (hstores : claimed (b.stores.map Prod.snd) = claimed (a.stores.map Prod.snd))
    (hsize : b.objects.size = a.objects.size) (hbody : ∀ id, b.claimOf? id = a.claimOf? id) :
    b.claims = a.claims := by
  let claimIn (o : Option ArrayObject) : Option (Address × Nat) :=
    o.bind fun o => o.body.store.claim?
  have hentry (c : Arena) (id : ArrayId) (hlt : id < c.objects.size) :
      c.objects.toList[id]?.map claimIn = some (c.claimOf? id) := by
    rw [Array.getElem?_toList, claimOf?, body?, object?, Array.getElem?_eq_getElem hlt]
    cases h : c.objects[id] <;> simp [claimIn]
  have hsame : b.objects.toList.map claimIn = a.objects.toList.map claimIn := by
    apply List.ext_getElem?
    intro id
    rw [List.getElem?_map, List.getElem?_map]
    by_cases hlt : id < a.objects.size
    · rw [hentry a id hlt, hentry b id (hsize ▸ hlt), hbody]
    · have hle : a.objects.size ≤ id := Nat.le_of_not_lt hlt
      rw [List.getElem?_eq_none (by simpa using hsize.trans_le hle),
        List.getElem?_eq_none (by simpa using hle)]
  have hshelf (c : Arena) :
      claimed (shelf c.objects.toList) =
        ((c.objects.toList.map claimIn).filterMap fun claim => claim : List _) := by
    rw [claimed, shelf, List.filterMap_filterMap, List.filterMap_map]
    congr 2
    funext o
    cases o <;> rfl
  rw [claims_eq, claims_eq, hstores, hshelf, hshelf, hsame]

/-! ## Giving up -/

theorem release_unbind (a : Arena) (name : String) (s : Store) :
    (a.release s).unbind name = (a.unbind name).release s := by
  cases s <;> rfl

theorem unbind_of_none {name : String} (hs : a.store? name = none) : a.unbind name = a := by
  have hkeep : (a.stores.filter fun entry => entry.1 ≠ name) = a.stores := by
    rw [List.filter_eq_self]
    intro entry hentry
    have hne := List.lookup_eq_none_iff.mp hs entry hentry
    exact decide_eq_true fun heq => bne_iff_ne.mp hne heq.symm
  unfold Arena.unbind
  rw [hkeep]

theorem dropStore_of_some {name : String} {s : Store} (hs : a.store? name = some s) :
    a.dropStore name = (a.unbind name).release s := by
  unfold dropStore
  rw [hs]
  cases s <;> rfl

theorem drop_of_some {x : Body} (hx : a.body? id = some x) :
    a.drop id = (a.vacate id).release x.store := by
  unfold drop
  rw [hx]
  dsimp only
  cases x.store <;> rfl

end Arena

/-! ## Entries under a key -/

section

variable {κ : Type} [DecidableEq κ]

theorem perm_cons_filter_key {β : Type} {entries : List (κ × β)} {k : κ} {v : β}
    (h : (entries.map Prod.fst).Nodup) (hmem : (k, v) ∈ entries) :
    entries.Perm ((k, v) :: entries.filter fun e => e.1 ≠ k) := by
  obtain ⟨front, back, rfl⟩ := List.append_of_mem hmem
  rw [List.map_append, List.map_cons, List.nodup_middle, List.nodup_cons, List.mem_append] at h
  obtain ⟨hk, -⟩ := h
  have hkeep {part : List (κ × β)} (hpart : k ∉ part.map Prod.fst) :
      (part.filter fun e => e.1 ≠ k) = part := by
    rw [List.filter_eq_self]
    intro e he
    have hne : e.1 ≠ k := fun heq => hpart (heq ▸ List.mem_map_of_mem he)
    exact decide_eq_true hne
  rw [List.filter_append, hkeep fun hf => hk (.inl hf), List.filter_cons_of_neg (by simp),
    hkeep fun hb => hk (.inr hb)]
  exact List.perm_middle

theorem mem_of_lookup {β : Type} {entries : List (κ × β)} {k : κ} {v : β}
    (h : entries.lookup k = some v) : (k, v) ∈ entries := by
  obtain ⟨front, back, rfl, -⟩ := List.lookup_eq_some_iff.mp h
  exact List.mem_append_right _ List.mem_cons_self

omit [DecidableEq κ] in
theorem nodup_keys_filter {β : Type} {entries : List (κ × β)} (h : (entries.map Prod.fst).Nodup)
    (p : κ × β → Bool) : ((entries.filter p).map Prod.fst).Nodup :=
  h.sublist (List.filter_sublist.map Prod.fst)

end

/-! ## Accounts -/

/-- The registry is made up of what is claimed, by the stores that are alive and by those that are
out of the arena, each once. -/
structure Arena.Accurate (out : Claims) (a : Arena) : Prop where
  booked : out + a.claims = a.registered
  keys : (a.registry.map Prod.fst).Nodup
  fresh : ∀ entry ∈ a.registry, entry.1 < a.nextAddress
  names : (a.stores.map Prod.fst).Nodup

theorem Arena.accurate_of_blank {a : Arena} (objects : a.objects = #[]) (stores : a.stores = [])
    (registry : a.registry = []) : a.Accurate 0 where
  booked := by
    rw [claims_eq, registered, objects, stores, registry]
    rfl
  keys := registry ▸ List.nodup_nil
  fresh := registry ▸ nofun
  names := stores ▸ List.nodup_nil

namespace Arena.Accurate

variable {a b : Arena} {out : Claims} {id : ArrayId}

theorem transfer {out' : Claims} (h : a.Accurate out) (claims : out' + b.claims = out + a.claims)
    (registry : b.registry = a.registry) (nextAddress : b.nextAddress = a.nextAddress)
    (names : (b.stores.map Prod.fst).Nodup) : b.Accurate out' where
  booked := by rw [claims, h.booked, registered, registered, registry]
  keys := registry ▸ h.keys
  fresh := by
    rw [registry, nextAddress]
    exact h.fresh
  names := names

theorem counted (h : a.Accurate out) (hcounted : a.Counted b) : b.Accurate out := by
  refine h.transfer ?_ hcounted.registry hcounted.nextAddress (hcounted.stores ▸ h.names)
  rw [claims_eq, claims_eq a, hcounted.objects, hcounted.stores]

theorem relocked (h : a.Accurate out) (hrelocked : a.Relocked b) : b.Accurate out := by
  have hstores : b.stores = a.stores := by rw [hrelocked.rest]
  have hclaims : b.claims = a.claims := claims_of_bodies (by rw [hstores]) hrelocked.size
    fun id => by rw [claimOf?, claimOf?, hrelocked.body?]
  exact h.transfer (congrArg (out + ·) hclaims) (by rw [hrelocked.rest]) (by rw [hrelocked.rest])
    (hstores ▸ h.names)

/-! ### Array objects -/

theorem setBody {x y : Body} (h : a.Accurate (y.store.claims + out)) (hx : a.body? id = some x) :
    (a.setBody id y).Accurate (x.store.claims + out) := by
  obtain ⟨rest, hwhole, -, hset⟩ := exists_claims hx
  refine h.transfer ?_ rfl rfl h.names
  rw [hset, hwhole]
  ac_rfl

theorem vacate {x : Body} (h : a.Accurate out) (hx : a.body? id = some x) :
    (a.vacate id).Accurate (x.store.claims + out) := by
  obtain ⟨rest, hwhole, hgone, -⟩ := exists_claims hx
  refine h.transfer ?_ rfl rfl h.names
  rw [hgone, hwhole]
  ac_rfl

theorem withObject {x : Body} (h : a.Accurate (x.store.claims + out)) :
    (a.withObject x).Accurate out := by
  refine h.transfer ?_ rfl rfl h.names
  rw [claims_withObject]
  ac_rfl

theorem writeAt (h : a.Accurate out) (address : Address) (i : Nat) (v : Value) :
    (a.writeAt address i v).Accurate out := by
  have hwrite (s : Store) := s.claim?_writeAt address i v
  have hnamed : claimed ((a.writeAt address i v).stores.map Prod.snd) =
      claimed (a.stores.map Prod.snd) := by
    rw [Arena.writeAt, claimed, claimed, List.map_map, List.filterMap_map, List.filterMap_map]
    congr 2
    funext entry
    exact hwrite entry.2
  have hclaims : (a.writeAt address i v).claims = a.claims := by
    refine claims_of_bodies hnamed (by simp [Arena.writeAt]) fun id => ?_
    rw [claimOf?, body?_writeAt, claimOf?]
    cases a.body? id with
    | none => rfl
    | some x => exact hwrite x.store
  refine h.transfer (congrArg (out + ·) hclaims) rfl rfl ?_
  simpa [Arena.writeAt, Function.comp_def] using h.names

/-! ### Registration -/

theorem enrolled (h : a.Accurate out) (n : Nat) :
    (a.enrolled n).Accurate ({(a.nextAddress, n)} + out) := by
  have hnew : ∀ entry ∈ a.registry, entry.1 ≠ a.nextAddress := fun entry hentry =>
    Nat.ne_of_lt (h.fresh entry hentry)
  have hregistry : (a.enrolled n).registry = (a.nextAddress, ⟨n, false⟩) :: a.registry := by
    have hkeep : (a.registry.filter fun entry => entry.1 ≠ a.nextAddress) = a.registry := by
      rw [List.filter_eq_self]
      exact fun entry hentry => decide_eq_true (hnew entry hentry)
    exact congrArg _ hkeep
  refine ⟨?_, ?_, ?_, h.names⟩
  · rw [registered, hregistry, List.map_cons, ← Multiset.cons_coe, ← Multiset.singleton_add,
      add_assoc]
    exact congrArg _ h.booked
  · rw [hregistry, List.map_cons, List.nodup_cons, List.mem_map]
    exact ⟨fun ⟨entry, hentry, heq⟩ => hnew entry hentry heq, h.keys⟩
  · rw [hregistry, List.forall_mem_cons]
    exact ⟨Nat.lt_succ_self _, fun entry hentry => Nat.lt_succ_of_lt (h.fresh entry hentry)⟩

theorem release {s : Store} (h : a.Accurate (s.claims + out)) : (a.release s).Accurate out := by
  cases s with
  | native address slots =>
      have hmem : (address, slots.size) ∈ a.registered := by
        rw [← h.booked, Multiset.mem_add, Multiset.mem_add]
        exact .inl (.inl (Multiset.mem_singleton_self _))
      obtain ⟨⟨_, entry⟩, hentry, heq⟩ := List.mem_map.mp (Multiset.mem_coe.mp hmem)
      obtain ⟨rfl, hcapacity⟩ := Prod.mk.inj heq
      refine ⟨?_, nodup_keys_filter h.keys _, fun e he => h.fresh e (List.mem_of_mem_filter he),
        h.names⟩
      have hsplit := Multiset.coe_eq_coe.mpr
        ((perm_cons_filter_key h.keys hentry).map fun e => (e.1, e.2.capacity))
      have hbooked := h.booked.trans hsplit
      rw [List.map_cons, ← Multiset.cons_coe, ← Multiset.singleton_add, hcapacity,
        add_assoc] at hbooked
      exact add_left_cancel hbooked
  | _ => exact (zero_add out) ▸ h

theorem attachMarker (h : a.Accurate out) (s : Store) : (a.attachMarker s).Accurate out := by
  cases s with
  | native address slots =>
      unfold Arena.attachMarker
      dsimp only
      split
      case h_2 => exact h
      case h_1 entry hentry =>
        have hmem : (address, entry) ∈ a.registry := mem_of_lookup hentry
        have hperm := perm_cons_filter_key h.keys hmem
        have hkeys := hperm.map Prod.fst
        refine ⟨?_, hkeys.nodup_iff.mp h.keys, ?_, h.names⟩
        · exact h.booked.trans (Multiset.coe_eq_coe.mpr (hperm.map fun e => (e.1, e.2.capacity)))
        · intro e he
          rcases List.mem_cons.mp he with rfl | he
          · exact h.fresh (address, entry) hmem
          · exact h.fresh e (List.mem_of_mem_filter he)
  | _ => exact h

/-! ### Bare stores -/

theorem unbind {name : String} {s : Store} (h : a.Accurate out) (hs : a.store? name = some s) :
    (a.unbind name).Accurate (s.claims + out) := by
  refine h.transfer ?_ rfl rfl (nodup_keys_filter h.names _)
  have hnamed : claimed (a.stores.map Prod.snd) =
      s.claims + claimed ((a.unbind name).stores.map Prod.snd) :=
    (claimed_perm ((perm_cons_filter_key h.names (mem_of_lookup hs)).map Prod.snd)).trans
      (claimed_cons _ _)
  rw [claims_eq, claims_eq a, hnamed]
  change s.claims + out + (claimed (shelf a.objects.toList) + _) = _
  ac_rfl

theorem setStore {name : String} {s : Store} (h : (a.unbind name).Accurate (s.claims + out)) :
    (a.setStore name s).Accurate out := by
  refine h.transfer ?_ rfl rfl ?_
  · rw [claims_eq, claims_eq (a.unbind name)]
    change out + (claimed (shelf a.objects.toList) +
      claimed (s :: (a.unbind name).stores.map Prod.snd)) =
        s.claims + out + (claimed (shelf a.objects.toList) + _)
    rw [claimed_cons]
    ac_rfl
  · refine List.nodup_cons.mpr ⟨fun hmem => ?_, h.names⟩
    obtain ⟨entry, hentry, heq⟩ := List.mem_map.mp hmem
    exact of_decide_eq_true (List.mem_filter.mp hentry).2 heq

theorem bindStore {name : String} {s : Store} (h : a.Accurate (s.claims + out)) :
    (a.bindStore name s).Accurate out := by
  unfold Arena.bindStore
  cases hs : a.store? name with
  | none => exact setStore ((unbind_of_none hs).symm ▸ h)
  | some t =>
      apply setStore
      rw [Option.elim_some, release_unbind]
      exact (h.unbind hs).release

theorem dropStore (h : a.Accurate out) (name : String) : (a.dropStore name).Accurate out := by
  cases hs : a.store? name with
  | none => rwa [Arena.dropStore, hs]
  | some s => exact dropStore_of_some hs ▸ (h.unbind hs).release

theorem drop (h : a.Accurate out) (id : ArrayId) : (a.drop id).Accurate out := by
  cases hx : a.body? id with
  | none => rwa [Arena.drop, hx]
  | some x => exact drop_of_some hx ▸ (h.vacate hx).release

end Arena.Accurate

end AdaptiveArray
