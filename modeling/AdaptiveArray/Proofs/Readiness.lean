import AdaptiveArray.Edit.Storage
import AdaptiveArray.Proofs.Workspace

/-!
# Getting ready to write

`ensureStorage` answers with a body of the kind asked for, with the room asked for and
with the same elements, whether the store stayed, was widened, was grown, or was taken
out of sharing with or without a copy.  What lies behind the elements is then zero,
unless the store stayed as it was.
-/

namespace AdaptiveArray

def Store.extent : Store → Nat
  | view v => v.backing.buffer.size
  | s => s.capacity

theorem Store.capacity_le_extent {s : Store} (h : s.Fits) : s.capacity ≤ s.extent := by
  cases s with
  | view v =>
      simp only [Fits] at h
      simp only [capacity, extent]
      omega
  | _ => exact Nat.le_refl _

theorem Store.extent_of_isMutable {s : Store} (h : s.isMutable) : s.extent = s.capacity := by
  cases s with
  | view v => cases h
  | _ => rfl

namespace Body

/-- `b'` has the elements of `b` in a store of the kind `target` with at least `room` slots, whose
buffer has no more than `limit`. -/
structure Ready (strict : Prop) (b : Body) (target : Kind) (room limit : Nat) (b' : Body) :
    Prop where
  fits : b'.Fits strict
  kind : b'.kind = target
  room : room ≤ b'.capacity
  extent : b'.store.extent ≤ limit
  size : b'.size = b.size
  frozen : b'.frozen = b.frozen
  slot : ∀ i, i < b.size → b'.store.get? i = b.store.get? i

variable {strict : Prop} {b b' : Body} {target : Kind} {room limit : Nat}

theorem Ready.mono (h : b.Ready strict target room limit b') {room' limit' : Nat}
    (hroom : room' ≤ room) (hlimit : limit ≤ limit') : b.Ready strict target room' limit' b' :=
  { h with room := Nat.le_trans hroom h.room, extent := Nat.le_trans h.extent hlimit }

theorem Ready.toList {strict' : Prop} (h : b.Ready strict target room limit b')
    (hfits : b.Fits strict') : b'.toList = b.toList :=
  toList_congr hfits h.fits h.size h.slot

theorem Ready.isMutable (h : b.Ready strict target room limit b') (hmut : target.isMutable) :
    b'.store.isMutable := by
  rwa [← h.kind] at hmut

theorem Ready.refl (h : b.Fits strict) (hroom : room ≤ b.capacity)
    (hlimit : b.store.extent ≤ limit) : b.Ready strict b.kind room limit b :=
  ⟨h, rfl, hroom, hlimit, rfl, rfl, fun _ _ => rfl⟩

theorem Ready.replace (strict : Prop) {s : Store} (hmut : s.isMutable) (hsize : b.size ≤ s.capacity)
    (hslot : ∀ i, i < b.size → s.get? i = b.store.get? i)
    (hzero : ∀ i, b.size ≤ i → i < s.capacity → s.get? i = some s.zero) :
    b.Ready strict s.kind s.capacity s.capacity { b with store := s } where
  fits := ⟨hsize, Store.fits_of_isMutable hmut, fun _ _ => hzero⟩
  kind := rfl
  room := Nat.le_refl _
  extent := Nat.le_of_eq (Store.extent_of_isMutable hmut)
  size := rfl
  frozen := rfl
  slot := hslot

end Body

namespace Edit

variable {strict : Prop} {w : Workspace} {early : Fault → Workspace → Prop}

theorem ends_reallocate (strict' : Prop) {target : Kind} {room : Nat} (hfits : w.body.Fits strict)
    (hwide : w.body.kind.widens target) (hmut : target.isMutable) (hroom : w.body.size ≤ room)
    (hearly : ¬Element.object.allocatable room → ∀ w', early .outOfMemory w') :
    Ends (reallocate target room) w
      (fun _ w' => w.body.Ready strict' target room room w'.body) early := by
  have htarget : target ≠ .empty := Kind.ne_empty_of_isMutable hmut
  unfold reallocate
  simp only [ends_bind, ends_size, ends_lift, ends_store]
  refine (Action.ends_allocate target room fun h => hearly h _).weaken ?_
  rintro fresh a ⟨-, hblank⟩
  have hfreshKind : fresh.kind = target := by
    rw [hblank.kind htarget, Kind.forMutation_of_isMutable hmut]
  have hfreshMut := hblank.isMutable htarget
  refine (Action.ends_copyTo hfits.store
    (Nat.le_trans (Nat.le_of_eq (Nat.zero_add _)) hfits.size_le)
    hfreshMut (by rw [hblank.capacity]; simpa using hroom) fun _ => hfreshKind ▸ hwide).weaken ?_
  rintro grown a' ⟨-, hover⟩
  have hcapacity : grown.capacity = room := hover.capacity.trans hblank.capacity
  have hgrownMut := hover.isMutable hfreshMut
  simp only [ends_modify]
  rw [ends_replaceStore (by rw [hcapacity]; exact hroom)]
  have hready := Body.Ready.replace strict' (b := w.body) hgrownMut
    (by rw [hcapacity]; exact hroom) ?_ ?_
  · rw [hcapacity, hover.kind, hfreshKind] at hready
    exact hready
  · intro i hi
    rw [hover.slot, if_pos (by omega), Nat.zero_add, Nat.sub_zero]
  · intro i hle hi
    rw [hover.slot, if_neg (by omega), hblank.slot i (by omega), Store.zero_of_kind hover.kind]

def unshareAs (v : View) (sole : Bool) : Edit Unit := do
  let n ← size
  let owned ← Action.own v sole
  let owned ← Action.clearRange owned n owned.capacity
  replaceStore owned n

theorem ends_unshareAs {strict' : Prop} {v : View} (sole : Bool) (hfits : w.body.Fits strict)
    (hstore : w.body.store = .view v) :
    Ends (unshareAs v sole) w (fun _ w' => w.body.Ready strict' w.body.kind.forMutation
      w.body.capacity w.body.store.extent w'.body ∧ w'.body.capacity = v.ownRoom sole) early := by
  have hfitsView : (Store.view v).Fits := hstore ▸ hfits.store
  have hsize : w.body.size ≤ v.length := by
    have h := hfits.size_le
    rwa [Body.capacity, hstore] at h
  unfold unshareAs
  simp only [ends_bind, ends_size, ends_lift]
  refine (Action.ends_own sole hfitsView).weaken ?_
  rintro _ a ⟨-, b, rfl, helement, hroom, hslot⟩
  have hlen : v.length ≤ b.size := hroom ▸ v.length_le_ownRoom sole hfitsView
  have hextent : b.size ≤ v.backing.buffer.size := hroom ▸ v.ownRoom_le sole hfitsView
  refine (Action.ends_clearRange (s := .owned b) rfl (Nat.le_refl _)).weaken ?_
  rintro s a' ⟨rfl, hkind, hcapacity, hclear⟩
  have hmut : s.isMutable := by
    rw [Store.isMutable, hkind]
    rfl
  have hcapacity' : s.capacity = b.size := hcapacity
  rw [ends_replaceStore (by omega)]
  have hready := Body.Ready.replace strict' (b := w.body) hmut (by omega) ?_ ?_
  · have htarget : s.kind = w.body.kind.forMutation := by
      rw [hkind, Body.kind, hstore, Store.kind, helement]
      rfl
    rw [htarget] at hready
    refine ⟨hready.mono ?_ ?_, hcapacity'.trans hroom⟩
    · rw [Body.capacity, hstore, hcapacity']
      exact hlen
    · rw [hstore, hcapacity']
      exact hextent
  · intro i hi
    rw [hclear, if_neg (by omega), hstore, ← hslot i (by omega)]
    rfl
  · intro i hle hi
    rw [hclear, if_pos ⟨hle, by omega⟩, Store.zero_of_kind hkind]

theorem ends_unshare {strict' : Prop} {v : View} {aside : List Store} (hfits : w.body.Fits strict)
    (hstore : w.body.store = .view v) :
    Ends (unshare v aside) w (fun _ w' => w.body.Ready strict' w.body.kind.forMutation
      w.body.capacity w.body.store.extent w'.body) early :=
  (ends_unshareAs (w.arena.viewers v.backing.id = 0 && !aside.any fun s => s.views v.backing.id)
    hfits hstore).weaken fun _ _ h => h.1

def reach (w : Workspace) (needed : Nat) : Nat :=
  max (max w.arena.settings.uninitializedSize w.body.store.extent) (2 * needed)

private theorem ends_room {needed limit : Nat} {post : Nat → Workspace → Prop}
    (hcapacity : w.body.capacity ≤ limit)
    (hgrow : w.body.capacity < needed → reach w needed ≤ limit)
    (hpost : ∀ room a, needed ≤ room → room ≤ limit → post room (w.withArena a)) :
    Ends (ensureStorage.room needed w.body.capacity) w post early := by
  unfold ensureStorage.room
  split
  case isTrue hlt =>
      rw [ends_lift]
      refine (Action.ends_grownCapacity hlt).weaken ?_
      rintro room a ⟨-, rfl⟩
      refine hpost _ a Options.le_grownCapacity ?_
      have hgrown := Options.grownCapacity_le (o := w.arena.settings) hlt
      have hreach := hgrow hlt
      unfold reach at hreach
      omega
  case isFalse hlt => exact hpost _ w.arena (by omega) hcapacity

/-- Unless the store is of the kind asked for and has the room asked for, the elements go to another
one, which is tidy.  It is larger only where there was not enough room. -/
theorem ends_ensureStorage_moving {strict' : Prop} {target : Kind} {needed limit : Nat}
    {aside : List Store} (hfits : w.body.Fits strict) (hwide : w.body.kind.widens target)
    (hmut : target.isMutable) (hsize : w.body.size ≤ needed) (hextent : w.body.store.extent ≤ limit)
    (hgrow : w.body.capacity < needed → reach w needed ≤ limit)
    (hearly : ¬Element.object.allocatable limit → ∀ w', early .outOfMemory w')
    (hmove : ¬(w.body.kind = target ∧ needed ≤ w.body.capacity)) :
    Ends (ensureStorage target needed aside) w
      (fun _ w' => w.body.Ready strict' target needed limit w'.body) early := by
  have hcapacity : w.body.capacity ≤ limit :=
    Nat.le_trans (Store.capacity_le_extent hfits.store) hextent
  have hreallocate : Ends (ensureStorage.room needed w.body.capacity >>= reallocate target) w
      (fun _ w' => w.body.Ready strict' target needed limit w'.body) early := by
    rw [ends_bind]
    refine ends_room hcapacity hgrow fun room a hle hlimit => ?_
    refine (ends_reallocate (w := w.withArena a) strict' hfits hwide hmut (Nat.le_trans hsize hle)
      fun h => hearly fun h' => h (Element.allocatable_of_le h' hlimit)).weaken ?_
    exact fun _ w' h => h.mono hle hlimit
  unfold ensureStorage
  simp only [ends_bind, ends_kind, ends_capacity]
  split
  case isTrue hstay =>
      simp only [Bool.and_eq_true, decide_eq_true_eq] at hstay
      exact absurd ⟨hstay.1.1.symm, hstay.2⟩ hmove
  case isFalse =>
      rw [ends_bind, ends_store]
      split
      case h_1 v hstore =>
          split
          case isTrue hunshare =>
              simp only [Bool.and_eq_true, decide_eq_true_eq] at hunshare
              obtain ⟨rfl, hroom⟩ := hunshare
              apply (ends_unshare hfits hstore).weaken
              exact fun _ w' h => h.mono hroom hextent
          case isFalse => exact hreallocate
      case h_2 => exact hreallocate

theorem ensureStorage_of_ready {needed : Nat} {aside : List Store} (hmut : w.body.kind.isMutable)
    (hroom : needed ≤ w.body.capacity) : ensureStorage w.body.kind needed aside w = .ok () w := by
  unfold ensureStorage
  change (if decide (w.body.kind = w.body.kind) && w.body.kind.isMutable &&
    decide (needed ≤ w.body.capacity) then pure () else _ : Edit Unit) w = _
  rw [if_pos (by simp [hmut, hroom])]
  rfl

theorem ends_ensureStorage_within {target : Kind} {needed limit : Nat} {aside : List Store}
    (hfits : w.body.Fits strict) (hwide : w.body.kind.widens target) (hmut : target.isMutable)
    (hsize : w.body.size ≤ needed) (hextent : w.body.store.extent ≤ limit)
    (hgrow : w.body.capacity < needed → reach w needed ≤ limit)
    (hearly : ¬Element.object.allocatable limit → ∀ w', early .outOfMemory w') :
    Ends (ensureStorage target needed aside) w
      (fun _ w' => w.body.Ready strict target needed limit w'.body) early := by
  by_cases hstay : w.body.kind = target ∧ needed ≤ w.body.capacity
  · obtain ⟨rfl, hroom⟩ := hstay
    refine (ends_of_ok (ensureStorage_of_ready hmut hroom)).mpr ?_
    exact Body.Ready.refl hfits hroom hextent
  · exact ends_ensureStorage_moving hfits hwide hmut hsize hextent hgrow hearly hstay

theorem ends_ensureStorage {target : Kind} {needed : Nat} {aside : List Store}
    (hfits : w.body.Fits strict) (hwide : w.body.kind.widens target) (hmut : target.isMutable)
    (hsize : w.body.size ≤ needed)
    (hearly : ¬Element.object.allocatable (reach w needed) → ∀ w', early .outOfMemory w') :
    Ends (ensureStorage target needed aside) w
      (fun _ w' => w.body.Ready strict target needed (reach w needed) w'.body) early :=
  ends_ensureStorage_within hfits hwide hmut hsize (by unfold reach; omega)
    (fun _ => Nat.le_refl _) hearly

theorem ends_ensureMutable (hfits : w.body.Fits strict) (hkind : w.body.kind ≠ .empty) :
    Ends ensureMutable w (fun _ w' => w.body.Ready strict w.body.kind.forMutation w.body.size
      (reach w w.body.size) w'.body) early := by
  have hextent := Store.capacity_le_extent hfits.store
  unfold ensureMutable ensureStorage
  simp only [ends_bind, ends_kind, ends_size, ends_capacity]
  split
  case isTrue hstay =>
      simp only [Bool.and_eq_true, decide_eq_true_eq] at hstay
      obtain ⟨⟨hkept, -⟩, hroom⟩ := hstay
      rw [hkept]
      exact Body.Ready.refl hfits hroom (by unfold reach; omega)
  case isFalse hmove =>
      rw [ends_bind, ends_store]
      split
      case h_1 v hstore =>
          rw [if_pos (by simpa using hfits.size_le)]
          apply (ends_unshare hfits hstore).weaken
          exact fun _ w' h => h.mono hfits.size_le (by unfold reach; omega)
      case h_2 hview =>
          -- of the other stores all but the empty one may be written
          have hmut : w.body.kind.isMutable := by
            cases hstore : w.body.store with
            | empty => exact absurd (congrArg Store.kind hstore) hkind
            | view v => exact absurd hstore (hview v)
            | owned b => rw [Body.kind, hstore]; rfl
            | native i slots => rw [Body.kind, hstore]; rfl
          exact absurd (by simp [hmut, hfits.size_le]) hmove

end Edit

/-! ## What a write leaves -/

namespace Body

/-- `b'` is what became of `b` when its elements were to be `xs`: they are, in a store that may be
written or in the one that was there before. -/
structure Becomes (strict : Prop) (b : Body) (xs : List Value) (limit : Nat) (b' : Body) :
    Prop where
  fits : b'.Fits strict
  toList : b'.toList = xs
  frozen : b'.frozen = b.frozen
  extent : b'.store.extent ≤ limit
  store : b'.store.isMutable ∨ b'.store = b.store

variable {strict : Prop} {b b' : Body} {xs : List Value} {target : Kind} {room limit : Nat}

theorem Becomes.refl (h : b.Fits strict) (hlimit : b.store.extent ≤ limit) :
    b.Becomes strict b.toList limit b :=
  ⟨h, rfl, rfl, hlimit, .inr rfl⟩

theorem Becomes.mono (h : b.Becomes strict xs limit b') {limit' : Nat} (hle : limit ≤ limit') :
    b.Becomes strict xs limit' b' :=
  { h with extent := Nat.le_trans h.extent hle }

theorem Becomes.trans {b'' : Body} {ys : List Value} (h : b.Becomes strict xs limit b')
    (h' : b'.Becomes strict ys limit b'') : b.Becomes strict ys limit b'' where
  fits := h'.fits
  toList := h'.toList
  frozen := h'.frozen.trans h.frozen
  extent := h'.extent
  store := by
    rcases h'.store with hmut | heq
    · exact .inl hmut
    · rw [heq]
      exact h.store

structure Left (strict : Prop) (b : Body) (values : List Value) (b' : Body) : Prop where
  fits : b'.Fits strict
  frozen : b'.frozen = b.frozen
  mem : ∀ v ∈ b'.toList, v ∈ b.toList ∨ v ∈ values ∨ v.arrayId? = none
  store : b'.store.isMutable ∨ b'.store = b.store

theorem Left.refl {values : List Value} (h : b.Fits strict) : b.Left strict values b :=
  ⟨h, rfl, fun _ hv => .inl hv, .inr rfl⟩

theorem Left.mono {values values' : List Value} (h : b.Left strict values b')
    (hsub : ∀ v ∈ values, v ∈ values') : b.Left strict values' b' :=
  { h with mem := fun v hv => (h.mem v hv).imp_right fun hv => hv.imp_left (hsub v) }

theorem Left.trans {b'' : Body} {values values' : List Value} (h : b.Left strict values b')
    (h' : b'.Left strict values' b'') : b.Left strict (values ++ values') b'' where
  fits := h'.fits
  frozen := h'.frozen.trans h.frozen
  mem v hv := by
    rcases h'.mem v hv with hmem | hmem | hnone
    · exact (h.mem v hmem).imp_right fun hv => hv.imp_left (List.mem_append_left _)
    · exact .inr (.inl (List.mem_append_right _ hmem))
    · exact .inr (.inr hnone)
  store := by
    rcases h'.store with hmut | heq
    · exact .inl hmut
    · rw [heq]
      exact h.store

theorem Becomes.left (h : b.Becomes strict xs limit b') {values : List Value}
    (hmem : ∀ v ∈ xs, v ∈ b.toList ∨ v ∈ values ∨ v.arrayId? = none) : b.Left strict values b' :=
  ⟨h.fits, h.frozen, h.toList ▸ hmem, h.store⟩

/-- Writing into a store that was made ready: what is left is told slot by slot, and nothing is
written behind the elements. -/
theorem Ready.becomes {s : Store} {n : Nat} (h : b.Ready strict target room limit b')
    (hmut : target.isMutable) (hkind : s.kind = b'.kind) (hcapacity : s.capacity = b'.capacity)
    (hlen : xs.length = n) (hroom : n ≤ room) (hsize : b.size ≤ n)
    (hslot : ∀ i, i < n → s.get? i = xs[i]?)
    (hrest : ∀ i, n ≤ i → s.get? i = b'.store.get? i) :
    b.Becomes strict xs limit { b' with store := s, size := n } := by
  have hmutable : s.isMutable := Store.isMutable_of_kind hkind (h.isMutable hmut)
  have hfits : ({ b' with store := s, size := n } : Body).Fits strict := by
    refine .intro_written (h.isMutable hmut) hkind hcapacity (Nat.le_trans hroom h.room)
      fun hstrict i hi hlt => ?_
    have hle : b'.size ≤ i := by
      rw [h.size]
      exact Nat.le_trans hsize hi
    rw [hrest i hi, h.fits.tidy hstrict (h.isMutable hmut) i hle hlt]
  refine ⟨hfits, Body.toList_eq hfits hlen hslot, h.frozen, ?_, .inl hmutable⟩
  have hextent := h.extent
  rw [Store.extent_of_isMutable (h.isMutable hmut)] at hextent
  rw [Store.extent_of_isMutable hmutable, hcapacity]
  exact hextent

theorem Ready.becomes_in_place {s : Store} (h : b.Ready strict target room limit b')
    (hmut : target.isMutable) (hkind : s.kind = b'.kind) (hcapacity : s.capacity = b'.capacity)
    (hlen : xs.length = b.size) (hroom : b.size ≤ room)
    (hslot : ∀ i, i < b.size → s.get? i = xs[i]?)
    (hrest : ∀ i, b.size ≤ i → s.get? i = b'.store.get? i) :
    b.Becomes strict xs limit { b' with store := s } := by
  have hbecomes := h.becomes hmut hkind hcapacity hlen hroom (Nat.le_refl _) hslot hrest
  rwa [← h.size] at hbecomes

end Body

end AdaptiveArray
