import Mathlib.Data.List.Rotate
import AdaptiveArray.Derive.Rotation
import AdaptiveArray.Proofs.Sorting

/-!
# Rotation

Copied into a fresh store, written by index or reversed three times, the elements end up
rotated in the same way.
-/

namespace AdaptiveArray

def rotated (xs : List Value) (n : Nat) : List Value :=
  xs.drop n ++ xs.take n

theorem rotationOf_lt (count : Int64) {size : Nat} (h : size ≠ 0) :
    rotationOf count size < size := by
  unfold rotationOf
  have hpos : (0 : Int) < size := by omega
  have h1 := Int.emod_nonneg count.toInt (Int.ne_of_gt hpos)
  have h2 := Int.emod_lt_of_pos count.toInt hpos
  omega

theorem length_rotated {xs : List Value} {n : Nat} : (rotated xs n).length = xs.length := by
  simp only [rotated, List.length_append, List.length_drop, List.length_take]
  omega

theorem getElem?_rotated {xs : List Value} {n i : Nat} (hn : n ≤ xs.length)
    (hi : i < xs.length) : (rotated xs n)[i]? =
      if i < xs.length - n then xs[i + n]? else xs[i + n - xs.length]? := by
  rw [rotated, List.getElem?_append, List.length_drop]
  by_cases h : i < xs.length - n
  · rw [if_pos h, if_pos h, List.getElem?_drop, Nat.add_comm]
  · rw [if_neg h, if_neg h, List.getElem?_take, if_pos (by omega)]
    congr 1
    omega

theorem mem_rotated {xs : List Value} {n : Nat} {v : Value} (h : v ∈ rotated xs n) : v ∈ xs := by
  rcases List.mem_append.mp h with h | h
  · exact List.mem_of_mem_drop h
  · exact List.mem_of_mem_take h

def turned (xs : List Value) (count : Int) : List Value :=
  rotated xs (count % xs.length).toNat

theorem turned_eq_rotate (xs : List Value) (count : Int) :
    turned xs count = xs.rotate (count % xs.length).toNat := by
  unfold turned rotated
  cases xs with
  | nil => simp
  | cons x rest =>
      have hpos : (0 : Int) < (x :: rest).length := Int.natCast_pos.mpr (Nat.succ_pos _)
      have hlt := Int.emod_lt_of_pos count hpos
      exact (List.rotate_eq_drop_append_take (by omega)).symm

theorem length_turned (xs : List Value) (count : Int) : (turned xs count).length = xs.length :=
  length_rotated

theorem turned_turned (xs : List Value) (m n : Int) :
    turned (turned xs m) n = turned xs (m + n) := by
  simp only [turned_eq_rotate, List.length_rotate, List.rotate_rotate]
  by_cases hxs : xs = []
  case pos => simp [hxs]
  case neg =>
      have hne : (xs.length : Int) ≠ 0 := by simpa using hxs
      have hsum : ((m % xs.length).toNat + (n % xs.length).toNat) % xs.length =
          ((m + n) % xs.length).toNat := by
        apply Int.ofNat_inj.mp
        rw [Int.natCast_emod, Int.natCast_add, Int.toNat_of_nonneg (Int.emod_nonneg m hne),
          Int.toNat_of_nonneg (Int.emod_nonneg n hne),
          Int.toNat_of_nonneg (Int.emod_nonneg (m + n) hne), ← Int.add_emod]
      rw [← List.rotate_mod, hsum]

theorem rotated_rotationOf {strict : Prop} {b : Body} (hfits : b.Fits strict) (count : Int64) :
    rotated b.toList (rotationOf count b.size) = turned b.toList count.toInt := by
  rw [turned, Body.length_toList hfits, rotationOf]

structure Store.Rotated (src dst : Store) (n size : Nat) (s : Store) : Prop where
  kind : s.kind = dst.kind
  capacity : s.capacity = dst.capacity
  slot : ∀ i, i < size → s.get? i = src.get? (if i < size - n then i + n else i + n - size)
  rest : ∀ i, size ≤ i → s.get? i = dst.get? i

theorem Store.Rotated.slot_eq {strict : Prop} {b : Body} {dst s : Store} {n : Nat}
    (h : Store.Rotated b.store dst n b.size s) (hfits : b.Fits strict) (hn : n ≤ b.size) {i : Nat}
    (hi : i < b.size) : s.get? i = (rotated b.toList n)[i]? := by
  have hlen := Body.length_toList hfits
  rw [h.slot i hi, getElem?_rotated (by omega) (by omega), hlen]
  by_cases hlow : i < b.size - n
  · rw [if_pos hlow, if_pos hlow, Body.getElem?_toList_of_lt hfits (by omega)]
  · rw [if_neg hlow, if_neg hlow, Body.getElem?_toList_of_lt hfits (by omega)]

theorem Action.ends_rotateCopy {src dst : Store} {n size : Nat} {a : Arena}
    {early : Fault → Arena → Prop} (hfits : src.Fits) (hn : n ≤ size)
    (hsrc : size ≤ src.capacity) (hmut : dst.isMutable) (hdst : size ≤ dst.capacity)
    (hwide : size ≠ 0 → src.kind.widens dst.kind) :
    Ends (rotateCopy src n size dst) a
      (fun s a' => a.Booked a' ∧ Store.Rotated src dst n size s) early := by
  unfold rotateCopy
  refine Ends.bind (ends_copyTo hfits (by omega) hmut (by omega) fun h => hwide (by omega)) ?_
  rintro d a₁ ⟨h₁, hd⟩
  refine (ends_copyTo hfits (by omega) (hd.isMutable hmut) (by rw [hd.capacity]; omega)
    fun h => by rw [hd.kind]; exact hwide (by omega)).weaken ?_
  rintro s a₂ ⟨h₂, hs⟩
  refine ⟨h₁.trans h₂, hs.kind.trans hd.kind, hs.capacity.trans hd.capacity, fun i hi => ?_,
    fun i hi => ?_⟩
  · rw [hs.slot, hd.slot]
    by_cases hlow : i < size - n
    · rw [if_neg (by omega), if_pos (by omega), if_pos hlow]
      congr 1
      omega
    · rw [if_pos (by omega), if_neg hlow]
      congr 1
      omega
  · rw [hs.slot, hd.slot, if_neg (by omega), if_neg (by omega)]

theorem Body.ends_rotate {strict : Prop} {b : Body} {a : Arena} {early : Fault → Arena → Prop}
    (hfits : b.Fits strict) (count : Int64)
    (hmemory : ¬Element.object.allocatable b.size → early .outOfMemory a) :
    Ends (b.rotate count) a (fun copy a' => a.Booked a' ∧
      copy.New (rotated b.toList (rotationOf count b.size))) early := by
  unfold rotate
  split
  case isTrue hsize =>
      have hnil := toList_of_size_eq_zero hfits hsize
      rw [hnil, rotated, List.drop_nil, List.take_nil]
      exact ⟨Arena.Booked.refl a, new_empty⟩
  case isFalse hsize =>
      obtain ⟨hmut, hwide⟩ := Kind.forCopy_spec (kind_ne_empty hfits hsize)
      have hne : b.kind.forCopy ≠ .empty := Kind.ne_empty_of_isMutable hmut
      have hlt := rotationOf_lt count hsize
      refine Ends.bind (Action.ends_allocate _ b.size hmemory) ?_
      rintro fresh a₁ ⟨h₁, hblank⟩
      have hkind : fresh.kind = b.kind.forCopy := by
        rw [hblank.kind hne, Kind.forMutation_forCopy]
      refine Ends.bind (Action.ends_rotateCopy hfits.store (Nat.le_of_lt hlt) hfits.size_le
        (hblank.isMutable hne) (Nat.le_of_eq hblank.capacity.symm) fun _ => hkind ▸ hwide) ?_
      rintro s a₂ ⟨h₂, hs⟩
      have hcapacity : s.capacity = b.size := hs.capacity.trans hblank.capacity
      have hsmut : s.isMutable := Store.isMutable_of_kind hs.kind (hblank.isMutable hne)
      rw [Body.ofStore?_eq (Nat.le_of_eq hcapacity.symm)]
      refine ⟨h₁.trans h₂, ?_⟩
      have hlen : (rotated b.toList (rotationOf count b.size)).length = b.size := by
        rw [length_rotated, length_toList hfits]
      rw [show ({ store := s, size := b.size } : Body) =
        { store := s, size := (rotated b.toList (rotationOf count b.size)).length } by rw [hlen]]
      refine new_of_full (Store.fits_of_isMutable hsmut) (Store.backing?_of_isMutable hsmut)
        (hcapacity.trans hlen.symm) fun i hi => ?_
      exact hs.slot_eq hfits (Nat.le_of_lt hlt) (hlen ▸ hi)

namespace Edit

variable {strict : Prop} {w : Workspace} {early : Fault → Workspace → Prop}

theorem becomes_rotated {n : Nat} {s dst : Store} (hfits : w.body.Fits strict)
    (hn : n ≤ w.body.size) (hmut : dst.isMutable)
    (hs : Store.Rotated w.body.store dst n w.body.size s)
    (hroom : w.body.size ≤ dst.capacity) (hextent : dst.capacity ≤ w.body.store.extent)
    (hrest : strict → ∀ i, w.body.size ≤ i → i < dst.capacity → dst.get? i = some dst.zero) :
    w.body.Becomes strict (rotated w.body.toList n) w.body.store.extent
      { w.body with store := s } := by
  have hsmut : s.isMutable := Store.isMutable_of_kind hs.kind hmut
  have hfits' : ({ w.body with store := s } : Body).Fits strict :=
    .intro_written hmut hs.kind hs.capacity hroom fun hstrict i hi hlt =>
      (hs.rest i hi).trans (hrest hstrict i hi hlt)
  refine ⟨hfits', Body.toList_eq hfits' ?_ fun i hi => hs.slot_eq hfits hn hi, rfl, ?_,
    .inl hsmut⟩
  · rw [length_rotated, Body.length_toList hfits]
  · rw [Store.extent_of_isMutable hsmut, hs.capacity]
    exact hextent

theorem becomes_in_place {n : Nat} {s : Store} (hfits : w.body.Fits strict)
    (hmut : w.body.store.isMutable) (hn : n ≤ w.body.size)
    (hs : Store.Rotated w.body.store w.body.store n w.body.size s) :
    w.body.Becomes strict (rotated w.body.toList n) w.body.store.extent (w.withStore s).body :=
  becomes_rotated hfits hn hmut hs hfits.size_le (Store.capacity_le_extent hfits.store)
    fun hstrict i hi hi' => hfits.tidy hstrict hmut i hi hi'

theorem ends_rotateByReversal {n : Nat} (hmut : w.body.store.isMutable)
    (hsize : w.body.size ≤ w.body.capacity) (hn : n ≤ w.body.size) :
    Ends (rotateByReversal n w.body.size) w (fun _ w' => ∃ s, w' = w.withStore s ∧
      Store.Rotated w.body.store w.body.store n w.body.size s) early := by
  have hcap : w.body.size ≤ w.body.store.capacity := hsize
  let s₁ := w.body.store.reverse 0 n
  have hmut₁ : s₁.isMutable := Store.isMutable_of_kind (Store.kind_reverse hmut _ _) hmut
  have hcap₁ : s₁.capacity = w.body.store.capacity := Store.capacity_reverse hmut _ _
  let s₂ := s₁.reverse n w.body.size
  have hmut₂ : s₂.isMutable := Store.isMutable_of_kind (Store.kind_reverse hmut₁ _ _) hmut₁
  have hcap₂ : s₂.capacity = w.body.store.capacity :=
    (Store.capacity_reverse hmut₁ _ _).trans hcap₁
  unfold rotateByReversal
  rw [ends_bind, ends_reverseSlots (Store.hasWritable_of_le hmut (Nat.zero_le n) (by omega)),
    ends_bind]
  refine (ends_reverseSlots (w := w.withStore s₁)
    (Store.hasWritable_of_le hmut₁ hn (Nat.le_trans hcap (Nat.le_of_eq hcap₁.symm)))).mpr ?_
  refine (ends_reverseSlots (w := w.withStore s₂)
    (Store.hasWritable_of_le hmut₂ (Nat.zero_le _)
      (Nat.le_trans hcap (Nat.le_of_eq hcap₂.symm)))).mpr ?_
  have hget₁ (i : Nat) : s₁.get? i =
      if 0 ≤ i ∧ i < n then w.body.store.get? (0 + n - 1 - i) else w.body.store.get? i :=
    Store.get?_reverse hmut (by omega) i
  have hget₂ (i : Nat) : s₂.get? i =
      if n ≤ i ∧ i < w.body.size then s₁.get? (n + w.body.size - 1 - i) else s₁.get? i :=
    Store.get?_reverse hmut₁ (by rw [hcap₁]; exact hcap) i
  have hget₃ (i : Nat) : (s₂.reverse 0 w.body.size).get? i =
      if 0 ≤ i ∧ i < w.body.size then s₂.get? (0 + w.body.size - 1 - i) else s₂.get? i :=
    Store.get?_reverse hmut₂ (by rw [hcap₂]; exact hcap) i
  refine ⟨s₂.reverse 0 w.body.size, rfl, ?_, ?_, fun i hi => ?_, fun i hi => ?_⟩
  · exact (Store.kind_reverse hmut₂ _ _).trans ((Store.kind_reverse hmut₁ _ _).trans
      (Store.kind_reverse hmut _ _))
  · exact (Store.capacity_reverse hmut₂ _ _).trans hcap₂
  · rw [hget₃, if_pos ⟨Nat.zero_le i, hi⟩, hget₂]
    by_cases hlow : i < w.body.size - n
    · rw [if_pos (by omega), hget₁, if_neg (by omega), if_pos hlow]
      congr 1
      omega
    · rw [if_neg (by omega), hget₁, if_pos (by omega), if_neg hlow]
      congr 1
      omega
  · rw [hget₃, if_neg (by omega), hget₂, if_neg (by omega), hget₁, if_neg (by omega)]

theorem ends_rotateByIndex {n : Nat} (hfits : w.body.Fits strict)
    (hmut : w.body.store.isMutable) (hn : n < w.body.size) :
    Ends (rotateByIndex n w.body.size) w (fun _ w' => ∃ s, w' = w.withStore s ∧
      Store.Rotated w.body.store w.body.store n w.body.size s) early := by
  have hlen := Body.length_toList hfits
  have helement : ∀ i, i < w.body.size →
      w.body.store.get? i = some (w.body.elements.getD i .nil) := by
    intro i hi
    obtain ⟨v, hv, hlist⟩ := Body.exists_get? hfits hi
    rw [Array.getD_eq_getD_getElem?, ← Array.getElem?_toList]
    change w.body.store.get? i = some (w.body.toList[i]?.getD .nil)
    rw [hlist, hv]
    rfl
  have hmod : ∀ i, i < w.body.size → (i + n) % w.body.size =
      if i < w.body.size - n then i + n else i + n - w.body.size := by
    intro i hi
    by_cases hlow : i < w.body.size - n
    · rw [if_pos hlow, Nat.mod_eq_of_lt (by omega)]
    · rw [if_neg hlow, Nat.mod_eq_sub_mod (by omega), Nat.mod_eq_of_lt (by omega)]
  unfold rotateByIndex
  rw [ends_bind, ends_get]
  refine (ends_setSlots hmut ?_ ?_).weaken ?_
  · intro v hv
    obtain ⟨i, hi, rfl⟩ := List.mem_map.mp hv
    have hpos : (i + n) % w.body.size < w.body.size := Nat.mod_lt _ (by omega)
    exact Store.holds_of_get? (helement _ hpos)
  · rw [List.length_map, List.length_range, Nat.zero_add]
    exact hfits.size_le
  · rintro _ w' ⟨s, rfl, hs⟩
    refine ⟨s, rfl, hs.kind, hs.capacity, fun i hi => ?_, fun i hi => ?_⟩
    · rw [hs.slot, List.length_map, List.length_range, if_pos (by omega), List.getElem?_map,
        Nat.sub_zero, List.getElem?_range hi, ← hmod i hi, helement _ (Nat.mod_lt _ (by omega))]
      rfl
    · rw [hs.slot, List.length_map, List.length_range, if_neg (by omega)]

theorem ends_rotate (hfits : w.body.Fits strict) (count : Int64)
    (hfrozen : w.body.frozen → early (.raised (.frozen (w.arena.inspectBody w.body))) w)
    (hmemory : ¬Element.object.allocatable w.body.size → early .outOfMemory w) :
    Ends (rotate count) w
      (fun _ w' => w.body.Becomes strict (rotated w.body.toList (rotationOf count w.body.size))
        w.body.store.extent w'.body) early := by
  have hextent := Store.capacity_le_extent hfits.store
  have hsize : w.body.size ≤ w.body.store.capacity := hfits.size_le
  unfold rotate
  rw [ends_bind, ends_checkFrozen]
  split
  case isTrue hsealed => exact hfrozen hsealed
  case isFalse =>
      rw [ends_bind, ends_size]
      split
      case isTrue hnone =>
          have hbecomes := Body.Becomes.refl hfits (Nat.le_refl w.body.store.extent)
          have hnil := Body.toList_of_size_eq_zero hfits hnone
          rw [hnil] at hbecomes ⊢
          rwa [rotated, List.drop_nil, List.take_nil]
      case isFalse hsome =>
          have hlt := rotationOf_lt count hsome
          dsimp only
          split
          case isTrue hzero =>
              rw [hzero, rotated, List.drop_zero, List.take_zero, List.append_nil]
              exact Body.Becomes.refl hfits (Nat.le_refl _)
          case isFalse =>
              rw [ends_bind, ends_isMutable]
              split
              case isTrue hview =>
                  -- A view is not written in place: its elements go to a new store, already turned.
                  have hkind := Body.kind_ne_empty hfits hsome
                  have hmut := Kind.isMutable_forMutation hkind
                  have hne : w.body.kind.forMutation ≠ .empty := Kind.ne_empty_of_isMutable hmut
                  rw [ends_bind, ends_kind, ends_bind, ends_lift]
                  refine (Action.ends_allocate _ w.body.size hmemory).weaken ?_
                  rintro fresh a₁ ⟨-, hblank⟩
                  have hfreshKind : fresh.kind = w.body.kind.forMutation := by
                    rw [hblank.kind hne, Kind.forMutation_forMutation]
                  rw [ends_bind, ends_store, ends_bind, ends_lift]
                  refine (Action.ends_rotateCopy hfits.store (Nat.le_of_lt hlt) hfits.size_le
                    (hblank.isMutable hne) (Nat.le_of_eq hblank.capacity.symm)
                    fun _ => hfreshKind ▸ Kind.widens_forMutation _).weaken ?_
                  rintro s a₂ ⟨-, hs⟩
                  rw [ends_replaceStore
                    (Nat.le_of_eq (hs.capacity.trans hblank.capacity).symm)]
                  have hcapacity := hblank.capacity
                  exact becomes_rotated hfits (Nat.le_of_lt hlt) (hblank.isMutable hne) hs
                    (by omega) (by omega) fun _ i hi hi' => by omega
              case isFalse hmut =>
                  have hmut : w.body.store.isMutable := by simpa using hmut
                  rw [ends_bind, ends_lift, Action.ends_options]
                  split
                  · refine (ends_rotateByIndex (w := w.withArena w.arena.withSettings) hfits hmut
                      hlt).weaken ?_
                    rintro _ _ ⟨s, rfl, hs⟩
                    exact becomes_in_place hfits hmut (Nat.le_of_lt hlt) hs
                  · refine (ends_rotateByReversal (w := w.withArena w.arena.withSettings) hmut hsize
                      (Nat.le_of_lt hlt)).weaken ?_
                    rintro _ _ ⟨s, rfl, hs⟩
                    exact becomes_in_place hfits hmut (Nat.le_of_lt hlt) hs

/-- Rotating an unfrozen array in place turns its elements by the count. -/
theorem ends_rotate_open (hfits : w.body.Fits strict) (hopen : w.body.frozen = false)
    (count : Int64) :
    Ends (rotate count) w
      (fun _ w' => w'.body.toList = turned w.body.toList count.toInt ∧ w'.body.Fits strict ∧
        w'.body.frozen = false)
      fun f _ => f = .outOfMemory ∧ ¬Element.object.allocatable w.body.size := by
  refine (ends_rotate hfits count (fun h => ?_) fun hroom => ⟨rfl, hroom⟩).weaken fun _ w' h => ?_
  · simp [hopen] at h
  · exact ⟨h.toList.trans (rotated_rotationOf hfits count), h.fits, h.frozen.trans hopen⟩

/-- A rotated copy and an array rotated in place both have the elements turned by the count, of
either sign and beyond the size, and the copy leaves the arrays of the arena as they are.  By index
and by reversal a store that may be written is rotated in the same way.  Rotating in place twice is
rotating once by the sum of the counts.  Only memory for a copy can be wanting; a frozen array is
refused. -/
theorem rotations_exact (hfits : w.body.Fits strict) :
    (∀ (count : Int64) a, Ends (w.body.rotate count) a
      (fun copy a' => copy.New (turned w.body.toList count.toInt) ∧ a.Booked a')
      fun f _ => f = .outOfMemory ∧ ¬Element.object.allocatable w.body.size) ∧
    (w.body.frozen = false → ∀ m n : Int64,
      Ends (rotate m) w
        (fun _ w' => w'.body.toList = turned w.body.toList m.toInt ∧ w'.body.Fits strict)
        (fun f _ => f = .outOfMemory ∧ ¬Element.object.allocatable w.body.size) ∧
      Ends (do rotate m; rotate n) w
        (fun _ w' => w'.body.toList = turned w.body.toList (m.toInt + n.toInt))
        fun f _ => f = .outOfMemory ∧ ¬Element.object.allocatable w.body.size) ∧
    (w.body.store.isMutable → ∀ n < w.body.size,
      Ends (rotateByIndex n w.body.size) w
        (fun _ w' => w'.body.toList = rotated w.body.toList n) (fun _ _ => False) ∧
      Ends (rotateByReversal n w.body.size) w
        (fun _ w' => w'.body.toList = rotated w.body.toList n) fun _ _ => False) ∧
    (w.body.frozen → ∀ count,
      rotate count w = .error (.raised (.frozen (w.arena.inspectBody w.body))) w) := by
  refine ⟨fun count a => ?_, fun hopen m n => ?_, fun hmut n hn => ?_, fun hfrozen count => ?_⟩
  · refine (Body.ends_rotate hfits count fun hroom => ⟨rfl, hroom⟩).weaken fun copy a' h => ?_
    exact ⟨rotated_rotationOf hfits count ▸ h.2, h.1⟩
  · have hfirst := ends_rotate_open hfits hopen m
    refine ⟨hfirst.weaken fun _ _ h => ⟨h.1, h.2.1⟩, Ends.bind hfirst ?_⟩
    rintro _ v ⟨hv, hvfits, hvopen⟩
    have hsize : v.body.size = w.body.size := by
      rw [← Body.length_toList hvfits, hv, length_turned, Body.length_toList hfits]
    rw [← hsize]
    refine (ends_rotate_open hvfits hvopen n).weaken fun _ w' h => ?_
    rw [h.1, hv, turned_turned]
  · have hturned {s : Store} (hs : Store.Rotated w.body.store w.body.store n w.body.size s) :
        (w.withStore s).body.toList = rotated w.body.toList n :=
      (becomes_in_place hfits hmut (Nat.le_of_lt hn) hs).toList
    constructor
    · refine (ends_rotateByIndex hfits hmut hn).weaken ?_
      rintro _ _ ⟨s, rfl, hs⟩
      exact hturned hs
    · refine (ends_rotateByReversal hmut hfits.size_le (Nat.le_of_lt hn)).weaken ?_
      rintro _ _ ⟨s, rfl, hs⟩
      exact hturned hs
  · exact run_bind_of_error (checkFrozen_eq hfrozen)

/-- A view rotated to the right, and then far round to the left. -/
theorem rotations_exact_view :
    let window : View := ⟨⟨0, .int #[9, 1, 2, 3, 4, 9]⟩, 1, 4⟩
    let w : Workspace := ⟨0, { store := .view window, size := 4 }, {}⟩
    (∃ w', rotate (-1) w = .ok () w' ∧ w'.body.toList = [.int 4, .int 1, .int 2, .int 3]) ∧
    ∃ w', (do rotate (-1); rotate Int64.maxValue) w = .ok () w' ∧
      w'.body.toList = [.int 3, .int 4, .int 1, .int 2] := by
  intro window w
  have hfits : w.body.Fits False := .intro_view (by decide) (by change 1 + 4 ≤ 6; decide) rfl
  have hroom : Element.object.allocatable w.body.size := by decide
  have hopen : w.body.frozen = false := rfl
  have hlist : w.body.toList = [.int 1, .int 2, .int 3, .int 4] := by decide +kernel
  clear_value w
  have hrotated := (rotations_exact hfits).2.1 hopen
  rw [hlist] at hrotated
  constructor
  · obtain ⟨_, w', hrun, hw', -⟩ := (hrotated (-1) 0).1.exists_ok fun _ _ hf => hf.2 hroom
    exact ⟨w', hrun, hw'.trans (by decide +kernel)⟩
  · obtain ⟨_, w', hrun, hw'⟩ :=
      (hrotated (-1) Int64.maxValue).2.exists_ok fun _ _ hf => hf.2 hroom
    exact ⟨w', hrun, hw'.trans (by decide +kernel)⟩

/-- A frozen array is not rotated in place. -/
theorem frozen_not_rotated :
    let sealed : Body := { store := .owned (.int #[1, 2]), size := 2, frozen := true }
    ∃ e w', rotate 1 ⟨0, sealed, {}⟩ = .error (.raised e) w' ∧ e.family = .frozen ∧
      w'.body.toList ≠ turned sealed.toList 1 :=
  ⟨_, _, run_bind_of_error (checkFrozen_eq rfl), rfl, by decide +kernel⟩

end Edit

end AdaptiveArray
