import AdaptiveArray.Proofs.Body
import AdaptiveArray.Proofs.Ending

/-!
# Allocating and copying

What each storage action answers, slot by slot.  None of them touches an array: of the
arena they change only counters, the registry and whether the options were looked at,
which is what `Arena.Booked` leaves open.  Only an allocation can end early, for want of
memory.
-/

namespace AdaptiveArray

theorem Arena.readable?_of_objects {a b : Arena} (h : b.objects = a.objects) :
    b.readable? = a.readable? := by
  funext id
  rw [readable?, readable?, object?, object?, h]

theorem Arena.body?_of_objects {a b : Arena} (h : b.objects = a.objects) (id : ArrayId) :
    b.body? id = a.body? id := by
  rw [body?, body?, object?, object?, h]

/-- From the first arena to the second only the books have changed. -/
structure Arena.Booked (a b : Arena) : Prop where
  objects : b.objects = a.objects
  stores : b.stores = a.stores
  redefined : b.redefined = a.redefined
  settings : b.settings = a.settings
  calls : b.calls = a.calls
  nextString : b.nextString = a.nextString
  nextBacking : a.nextBacking ≤ b.nextBacking

namespace Arena.Booked

variable {a b c : Arena}

theorem refl (a : Arena) : a.Booked a :=
  ⟨rfl, rfl, rfl, rfl, rfl, rfl, Nat.le_refl _⟩

theorem trans (h : a.Booked b) (h' : b.Booked c) : a.Booked c :=
  ⟨h'.objects.trans h.objects, h'.stores.trans h.stores, h'.redefined.trans h.redefined,
    h'.settings.trans h.settings, h'.calls.trans h.calls, h'.nextString.trans h.nextString,
    Nat.le_trans h.nextBacking h'.nextBacking⟩

theorem withSettings (a : Arena) : a.Booked a.withSettings :=
  ⟨rfl, rfl, rfl, rfl, rfl, rfl, Nat.le_refl _⟩

theorem with_polls (h : a.Booked b) (polls : Nat) : a.Booked { b with polls } :=
  ⟨h.objects, h.stores, h.redefined, h.settings, h.calls, h.nextString, h.nextBacking⟩

theorem with_registry (h : a.Booked b) (registry : List (Address × Registration)) :
    a.Booked { b with registry } :=
  ⟨h.objects, h.stores, h.redefined, h.settings, h.calls, h.nextString, h.nextBacking⟩

theorem release (a : Arena) (s : Store) : a.Booked (a.release s) := by
  cases s with
  | native address slots => exact (refl a).with_registry _
  | _ => exact refl a

theorem attachMarker (a : Arena) (s : Store) : a.Booked (a.attachMarker s) := by
  cases s with
  | native address slots =>
      simp only [Arena.attachMarker]
      split
      · exact (refl a).with_registry _
      · exact refl a
  | _ => exact refl a

end Arena.Booked

/-- From the first arena to the second only counters have moved, and no native storage has come or
gone. -/
structure Arena.Counted (a b : Arena) : Prop extends Arena.Booked a b where
  registry : b.registry = a.registry
  nextAddress : b.nextAddress = a.nextAddress

namespace Arena.Counted

variable {a b c : Arena}

theorem refl (a : Arena) : a.Counted a :=
  ⟨.refl a, rfl, rfl⟩

theorem trans (h : a.Counted b) (h' : b.Counted c) : a.Counted c :=
  ⟨h.toBooked.trans h'.toBooked, h'.registry.trans h.registry, h'.nextAddress.trans h.nextAddress⟩

theorem withSettings (a : Arena) : a.Counted a.withSettings :=
  ⟨.withSettings a, rfl, rfl⟩

theorem with_polls (a : Arena) (polls : Nat) : a.Counted { a with polls } :=
  ⟨(Booked.refl a).with_polls polls, rfl, rfl⟩

end Arena.Counted

@[simp] theorem Arena.settings_withSettings (a : Arena) : a.withSettings.settings = a.settings :=
  rfl

theorem Element.allocatable_iff (e : Element) (n : Nat) :
    e.allocatable n ↔ n * e.bytes < 0x8000000000000000 := by
  simp [allocatable]

theorem Element.allocatable_of_le {e : Element} {m n : Nat} (h : Element.object.allocatable n)
    (hle : m ≤ n) : e.allocatable m := by
  rw [allocatable_iff] at h ⊢
  cases e <;> simp only [bytes] at h ⊢ <;> omega

theorem Element.allocatable_of_le_maxSize {e : Element} {n : Nat} (h : n ≤ maxSize) :
    e.allocatable n :=
  allocatable_of_le (by decide : Element.object.allocatable maxSize) h

theorem Element.allocatable_of_size_le {n limit : Nat} (hn : n ≤ maxSize)
    (hlimit : Element.object.allocatable limit) :
    Element.object.allocatable (max limit (2 * n)) := by
  rw [allocatable_iff] at hlimit ⊢
  simp only [bytes, maxSize] at hlimit hn ⊢
  omega

structure Store.Blank (s : Store) (k : Kind) (n : Nat) : Prop where
  kind : k ≠ .empty → s.kind = k.forMutation
  capacity : s.capacity = n
  backing : s.backing? = none
  slot : ∀ i, i < n → s.get? i = some s.zero

theorem Store.Blank.fits {s : Store} {k : Kind} {n : Nat} (h : s.Blank k n) : s.Fits := by
  cases s with
  | view v => cases h.backing
  | _ => trivial

theorem Store.Blank.isMutable {s : Store} {k : Kind} {n : Nat} (h : s.Blank k n)
    (hk : k ≠ .empty) : s.isMutable := by
  rw [Store.isMutable, h.kind hk]
  exact Kind.isMutable_forMutation hk

private theorem Store.blank_zeros (e : Element) (n : Nat) {k : Kind}
    (hk : k ≠ .empty → Kind.owned e = k.forMutation) : Blank (.owned (.zeros e n)) k n where
  kind h := by rw [← hk h, Store.kind, Buffer.element_zeros]
  capacity := Buffer.size_zeros e n
  backing := rfl
  slot i hi := by
    simp only [get?, zero, buffer, Buffer.get?_zeros, Buffer.element_zeros]
    rw [if_pos hi]

def Arena.enrolled (a : Arena) (n : Nat) : Arena :=
  { a.register a.nextAddress ⟨n, false⟩ with nextAddress := a.nextAddress + 1 }

theorem Arena.booked_enrolled (a : Arena) (n : Nat) : a.Booked (a.enrolled n) :=
  ⟨rfl, rfl, rfl, rfl, rfl, rfl, Nat.le_refl _⟩

namespace Action

variable {a : Arena} {early : Fault → Arena → Prop}

theorem ends_pollAt (i : Nat) : Ends (pollAt i) a (fun _ a' => a.Booked a') early := by
  unfold pollAt
  simp only [ends_bind, ends_options]
  split
  · exact (Arena.Booked.withSettings a).with_polls _
  · exact Arena.Booked.withSettings a

theorem ends_pollOver (n : Nat) : Ends (pollOver n) a (fun _ a' => a.Booked a') early := by
  unfold pollOver
  simp only [ends_bind, ends_options, ends_modify]
  exact (Arena.Booked.withSettings a).with_polls _

theorem ends_pollForCopy (e : Element) (n : Nat) :
    Ends (pollForCopy e n) a (fun _ a' => a.Booked a') early := by
  unfold pollForCopy
  simp only [ends_bind, ends_options]
  split
  · exact (Arena.Booked.withSettings a).with_polls _
  · exact Arena.Booked.withSettings a

/-! ## New stores -/

theorem ends_newBuffer (e : Element) (n : Nat)
    (hearly : ¬Element.object.allocatable n → early .outOfMemory a) :
    Ends (newBuffer e n) a (fun b a' => a' = a ∧ b = .zeros e n) early := by
  unfold newBuffer
  split
  · exact ⟨rfl, rfl⟩
  · exact hearly fun h => ‹¬_› (Element.allocatable_of_le h (Nat.le_refl n))

theorem ends_newNative_ite {post : Store → Arena → Prop} (n : Nat) :
    Ends (newNative n) a post early ↔ if Element.object.allocatable (max n 1)
      then post (.native a.nextAddress (Array.replicate n .nil)) (a.enrolled n)
      else early .outOfMemory a := by
  unfold newNative
  cases Element.object.allocatable (max n 1) <;> rfl

theorem ends_newNative (n : Nat) (hearly : ¬Element.object.allocatable n → early .outOfMemory a) :
    Ends (newNative n) a (fun s a' => a.Booked a' ∧ s.Blank .native n) early := by
  rw [ends_newNative_ite]
  split
  case isFalse hbig =>
      refine hearly fun h => hbig ?_
      rw [Element.allocatable_iff] at h ⊢
      simp only [Element.bytes] at h ⊢
      omega
  case isTrue =>
      refine ⟨a.booked_enrolled n, ?_⟩
      constructor
      · exact fun _ => rfl
      · simp [Store.capacity]
      · rfl
      · intro i hi
        simp [Store.get?, Store.zero, Store.buffer, Buffer.element, Element.zero, hi]

theorem ends_allocate (k : Kind) (n : Nat)
    (hearly : ¬Element.object.allocatable n → early .outOfMemory a) :
    Ends (allocate k n) a (fun s a' => a.Booked a' ∧ s.Blank k n) early := by
  unfold allocate
  split
  case h_1 hk =>
      split
      · subst n
        exact ⟨Arena.Booked.refl a, fun h => absurd hk (by cases k <;> simp_all [Kind.forMutation]),
          rfl, rfl, fun i hi => absurd hi (Nat.not_lt_zero i)⟩
      · refine Ends.bind (ends_newBuffer .object n hearly) ?_
        rintro b a' ⟨rfl, rfl⟩
        refine ⟨Arena.Booked.refl _, Store.blank_zeros .object n fun h => ?_⟩
        exact absurd hk (by cases k <;> simp_all [Kind.forMutation])
  case h_2 e hk =>
      refine Ends.bind (ends_newBuffer e n hearly) ?_
      rintro b a' ⟨rfl, rfl⟩
      exact ⟨Arena.Booked.refl _, Store.blank_zeros e n fun _ => hk.symm⟩
  case h_3 e hk => cases k <;> simp [Kind.forMutation] at hk
  case h_4 hk =>
      refine (ends_newNative n hearly).weaken ?_
      rintro s a' ⟨hbooked, hblank⟩
      exact ⟨hbooked, fun _ => by rw [hk, hblank.kind (by simp)]; rfl, hblank.capacity,
        hblank.backing, hblank.slot⟩

theorem ends_allocate_word (k : Kind) (n : Nat) :
    Ends (allocate k n) a (fun _ _ => n < UInt64.size - 1) fun _ _ => True := by
  have hword {e : Element} {m : Nat} (h : e.allocatable m) (hle : n ≤ m) : n < UInt64.size - 1 := by
    rw [Element.allocatable_iff] at h
    cases e <;> simp only [Element.bytes, UInt64.size] at h ⊢ <;> omega
  have hbuffer (e : Element) : Ends (newBuffer e n >>= fun b => pure (.owned b) : Action Store) a
      (fun _ _ => n < UInt64.size - 1) fun _ _ => True := by
    unfold newBuffer
    split
    · exact hword ‹_› (Nat.le_refl n)
    · trivial
  unfold allocate
  split
  · split
    · subst n
      exact (by decide : 0 < UInt64.size - 1)
    · exact hbuffer .object
  · exact hbuffer _
  · exact hbuffer _
  · unfold newNative
    split
    · trivial
    · rename_i hroom
      exact hword (by simpa using hroom) (Nat.le_max_left n 1)

/-! ## Copies -/

end Action

/-- `d` is `dst` with `len` slots of `src`, those from `srcStart` on, laid over it at `dstStart`. -/
structure Store.Overlaid (d src : Store) (srcStart : Nat) (dst : Store) (dstStart len : Nat) :
    Prop where
  kind : d.kind = dst.kind
  capacity : d.capacity = dst.capacity
  slot : ∀ i, d.get? i = if dstStart ≤ i ∧ i < dstStart + len
    then src.get? (srcStart + (i - dstStart)) else dst.get? i

theorem Store.Overlaid.isMutable {d src dst : Store} {srcStart dstStart len : Nat}
    (h : d.Overlaid src srcStart dst dstStart len) (hmut : dst.isMutable) : d.isMutable :=
  Store.isMutable_of_kind h.kind hmut

theorem Store.overlaid_zero (src : Store) (srcStart : Nat) (dst : Store) (dstStart : Nat) :
    dst.Overlaid src srcStart dst dstStart 0 :=
  ⟨rfl, rfl, fun i => by rw [if_neg (by omega)]⟩

theorem Store.capacity_overwrite (s : Store) (start : Nat) (part : Buffer) :
    (s.modify fun b => b.overwrite start part).capacity = s.capacity := by
  cases s with
  | empty => rfl
  | view v => rfl
  | owned b => exact Buffer.size_overwrite b start part
  | native address slots =>
      cases part <;> simp [modify, Buffer.overwrite, capacity]

theorem Store.kind_overwrite (s : Store) (start : Nat) (part : Buffer) :
    (s.modify fun b => b.overwrite start part).kind = s.kind := by
  cases s with
  | empty => rfl
  | view v => rfl
  | owned b => exact congrArg Kind.owned (Buffer.element_overwrite b start part)
  | native address slots => cases part <;> rfl

theorem Store.overlaid_overwrite {src dst : Store} {srcStart dstStart len : Nat} {part : Buffer}
    (hmut : dst.isMutable) (hdst : dstStart + len ≤ dst.capacity)
    (helement : part.element = dst.buffer.element) (hsize : part.size = len)
    (hslot : ∀ i, i < len → part.get? i = src.get? (srcStart + i)) :
    (dst.modify fun b => b.overwrite dstStart part).Overlaid src srcStart dst dstStart len := by
  obtain ⟨hkind, hcapacity, hget⟩ :=
    @Store.modify_spec dst hmut (fun b => b.overwrite dstStart part) (by simp)
  refine ⟨hkind, ?_, fun i => ?_⟩
  · rw [hcapacity, Buffer.size_overwrite, Store.size_buffer_of_isMutable hmut]
  · rw [hget, Buffer.get?_overwrite helement, hsize, Store.size_buffer_of_isMutable hmut,
      Store.get?_buffer_of_isMutable hmut]
    by_cases hi : dstStart ≤ i ∧ i < dstStart + len
    · rw [if_pos ⟨hi.1, hi.2, by omega⟩, if_pos hi, hslot _ (by omega)]
    · rw [if_neg (by omega), if_neg hi]

namespace Action

variable {a : Arena} {early : Fault → Arena → Prop}

theorem ends_copyTo {src dst : Store} {srcStart dstStart len : Nat} (hfits : src.Fits)
    (hsrc : srcStart + len ≤ src.capacity) (hmut : dst.isMutable)
    (hdst : dstStart + len ≤ dst.capacity) (hwide : len ≠ 0 → src.kind.widens dst.kind) :
    Ends (copyTo src srcStart dst dstStart len) a
      (fun d a' => a.Booked a' ∧ d.Overlaid src srcStart dst dstStart len) early := by
  unfold copyTo
  have hread := Store.hasRange_of_le (Nat.le_add_right srcStart len) hsrc hfits
  have hwrite := Store.hasWritable_of_le hmut (Nat.le_add_right dstStart len) hdst
  simp only [ends_bind, ends_ensure, hread, hwrite, if_true]
  split
  case isTrue hlen =>
      subst hlen
      exact ⟨Arena.Booked.refl a, Store.overlaid_zero src srcStart dst dstStart⟩
  case isFalse hlen =>
      have hsrcNe : src ≠ .empty := by
        rintro rfl
        simp only [Store.capacity] at hsrc
        omega
      have hdstNe : dst ≠ .empty := by
        rintro rfl
        cases hmut
      have helement : (src.slice srcStart (srcStart + len)).element.widens dst.buffer.element := by
        have h := hwide hlen
        simp only [Kind.widens, Store.element?_kind hsrcNe, Store.element?_kind hdstNe] at h
        rwa [Store.element_slice]
      obtain ⟨part, hpart, hkind, hsize, hslot⟩ := Buffer.convert?_of_widens helement
      rw [hpart]
      simp only [ends_bind, ends_demand_some]
      refine (ends_pollForCopy _ len).weaken fun _ a' hbooked => ⟨hbooked, ?_⟩
      refine Store.overlaid_overwrite hmut hdst hkind ?_ fun i hi => ?_
      · rw [hsize, Store.size_slice hfits hsrc]
        omega
      · rw [hslot, Store.get?_slice hfits hsrc, if_pos (by omega)]

theorem ends_copyTo_or_broken {src dst : Store} {srcStart dstStart len : Nat} (hfits : src.Fits)
    (hsrc : srcStart + len ≤ src.capacity) (hmut : dst.isMutable)
    (hwide : len ≠ 0 → src.kind.widens dst.kind)
    (hearly : dst.capacity < dstStart + len → early .broken a) :
    Ends (copyTo src srcStart dst dstStart len) a (fun d a' => a.Booked a' ∧
      dstStart + len ≤ dst.capacity ∧ d.Overlaid src srcStart dst dstStart len) early := by
  by_cases hdst : dstStart + len ≤ dst.capacity
  · exact (ends_copyTo hfits hsrc hmut hdst hwide).weaken fun _ _ h => ⟨h.1, hdst, h.2⟩
  · have hread := Store.hasRange_of_le (Nat.le_add_right srcStart len) hsrc hfits
    have hwrite : ¬dst.hasWritable dstStart (dstStart + len) :=
      fun h => hdst (Store.le_of_hasWritable h)
    unfold copyTo
    simp only [ends_bind, ends_ensure, hread, hwrite, if_true, if_false, Bool.false_eq_true]
    exact hearly (Nat.lt_of_not_le hdst)

theorem ends_copyTo_sized (src : Store) (srcStart : Nat) (dst : Store) (dstStart len : Nat) :
    Ends (copyTo src srcStart dst dstStart len) a
      (fun d _ => d.kind = dst.kind ∧ d.capacity = dst.capacity) fun f _ => f ≠ .outOfMemory := by
  unfold copyTo
  rw [ends_bind, ends_ensure]
  split
  case isFalse => exact nofun
  rw [ends_bind, ends_ensure]
  split
  case isFalse => exact nofun
  split
  case isTrue => exact ⟨rfl, rfl⟩
  case isFalse =>
      dsimp only
      cases (src.slice srcStart (srcStart + len)).convert? dst.buffer.element with
      | none => exact nofun
      | some part =>
          rw [ends_bind, ends_demand_some, ends_bind]
          refine (ends_pollForCopy _ len).weaken fun _ _ _ => ?_
          exact ⟨Store.kind_overwrite dst _ part, Store.capacity_overwrite dst _ part⟩

theorem ends_copyBuffer (b : Buffer) :
    Ends (copyBuffer b) a (fun s a' => a.Booked a' ∧ s = .owned b) early := by
  unfold copyBuffer
  split
  · exact Ends.bind (ends_pollOver b.size) fun _ _ h => ⟨h, rfl⟩
  · exact ⟨Arena.Booked.refl a, rfl⟩

end Action

structure Store.Part (part s : Store) (start stop : Nat) : Prop where
  fits : part.Fits
  capacity : part.capacity = stop - start
  backing : part.backing? = s.backing?
  element : s ≠ .empty → part.kind.element? = s.kind.element?
  slot : ∀ i, i < stop - start → part.get? i = s.get? (start + i)

theorem Store.part_owned_slice {s : Store} (hfits : s.Fits) {start stop : Nat}
    (h : stop ≤ s.capacity) (hbacking : s.backing? = none) :
    (Store.owned (s.slice start stop)).Part s start stop where
  fits := trivial
  capacity := Store.size_slice hfits h
  backing := hbacking.symm
  element hne := by
    rw [Store.element?_kind hne, ← Store.element_slice s start stop]
    rfl
  slot i hi := by
    change (s.slice start stop).get? i = s.get? (start + i)
    rw [Store.get?_slice hfits h, if_pos (by omega)]

theorem Store.part_view {v : View} (hfits : (Store.view v).Fits) {start stop : Nat}
    (hle : start ≤ stop) (h : stop ≤ v.length) :
    (Store.view ⟨v.backing, v.offset + start, stop - start⟩).Part (.view v) start stop where
  fits := by
    simp only [Fits] at hfits ⊢
    omega
  capacity := rfl
  backing := rfl
  element _ := rfl
  slot i hi := by
    simp only [get?]
    rw [if_pos hi, if_pos (by omega), Nat.add_assoc]

/-- How many slots a store of its own has for the elements of a view.  A backing that is taken over
may have more of them than the view. -/
def View.ownRoom (v : View) (sole : Bool) : Nat :=
  if sole && v.offset = 0 then v.backing.buffer.size else v.length

theorem View.length_le_ownRoom (v : View) (sole : Bool) (hfits : (Store.view v).Fits) :
    v.length ≤ v.ownRoom sole := by
  unfold ownRoom
  split
  · exact Nat.le_trans (Nat.le_add_left _ _) hfits
  · exact Nat.le_refl _

theorem View.ownRoom_le (v : View) (sole : Bool) (hfits : (Store.view v).Fits) :
    v.ownRoom sole ≤ v.backing.buffer.size := by
  unfold ownRoom
  split
  · exact Nat.le_refl _
  · exact Nat.le_trans (Nat.le_add_left _ _) hfits

namespace Action

variable {a : Arena} {early : Fault → Arena → Prop}

theorem ends_extract {s : Store} {start stop : Nat} (hfits : s.Fits) (hle : start ≤ stop)
    (h : stop ≤ s.capacity) :
    Ends (extract s start stop) a (fun part a' => a.Booked a' ∧ part.Part s start stop) early := by
  unfold extract
  simp only [ends_bind, ends_ensure, Store.hasRange_of_le hle h hfits, if_true]
  cases s with
  | empty =>
      have hstop : stop = 0 := Nat.le_zero.mp h
      subst hstop
      exact ⟨Arena.Booked.refl a, trivial, by simp [Store.extract, Store.capacity], rfl,
        fun hne => absurd rfl hne, fun i hi => absurd hi (by omega)⟩
  | owned b =>
      refine (ends_copyBuffer _).weaken ?_
      rintro part a' ⟨hbooked, rfl⟩
      exact ⟨hbooked, Store.part_owned_slice hfits h rfl⟩
  | native address slots =>
      refine (ends_copyBuffer _).weaken ?_
      rintro part a' ⟨hbooked, rfl⟩
      exact ⟨hbooked, Store.part_owned_slice hfits h rfl⟩
  | view v => exact ⟨Arena.Booked.refl a, Store.part_view hfits hle h⟩

theorem ends_own {v : View} (sole : Bool) (hfits : (Store.view v).Fits) :
    Ends (own v sole) a (fun s a' => a.Booked a' ∧ ∃ b, s = .owned b ∧
      b.element = v.backing.buffer.element ∧ b.size = v.ownRoom sole ∧
      ∀ i, i < v.length → b.get? i = (Store.view v).get? i) early := by
  have hfits' : v.offset + v.length ≤ v.backing.buffer.size := hfits
  unfold own View.ownRoom
  split
  case isTrue hreclaim =>
      simp only [Bool.and_eq_true, decide_eq_true_eq] at hreclaim
      refine ⟨Arena.Booked.refl a, _, rfl, Buffer.element_clear _ _ _, Buffer.size_clear _ _ _,
        fun i hi => ?_⟩
      rw [Buffer.get?_clear, if_neg (by omega)]
      simp [Store.get?, hi, hreclaim.2]
  case isFalse =>
      refine (ends_copyBuffer _).weaken ?_
      rintro s a' ⟨hbooked, rfl⟩
      refine ⟨hbooked, _, rfl, Buffer.element_slice _ _ _, ?_, fun i hi => ?_⟩
      · rw [View.buffer, Buffer.size_slice]
        omega
      · rw [View.buffer, Buffer.get?_slice hfits', if_pos (by omega)]
        simp [Store.get?, hi]

/-! ## Clearing and growing -/

theorem ends_clearRange {s : Store} {start stop : Nat} (hmut : s.isMutable)
    (h : stop ≤ s.capacity) :
    Ends (clearRange s start stop) a (fun s' a' => a' = a ∧ s'.kind = s.kind ∧
      s'.capacity = s.capacity ∧ ∀ i, s'.get? i =
        if start ≤ i ∧ i < stop then some s.zero else s.get? i) early := by
  unfold clearRange
  split
  case isTrue hlt =>
      have hwrite := Store.hasWritable_of_le hmut (Nat.le_of_lt hlt) h
      simp only [ends_bind, ends_ensure, hwrite, if_true, ends_pure]
      refine ⟨trivial, Store.kind_clear hmut _ _, Store.capacity_clear hmut _ _, fun i => ?_⟩
      rw [Store.get?_clear hmut]
      by_cases hi : start ≤ i ∧ i < stop
      · rw [if_pos ⟨hi.1, hi.2, by omega⟩, if_pos hi]
      · rw [if_neg (by omega), if_neg hi]
  case isFalse hlt => exact ⟨rfl, rfl, rfl, fun i => by rw [if_neg (by omega)]⟩

theorem ends_grownCapacity {current needed : Nat} (h : current < needed) :
    Ends (grownCapacity current needed) a (fun room a' => a.Booked a' ∧
      room = a.settings.grownCapacity current needed) early := by
  unfold grownCapacity
  have hne : needed ≠ 0 := by omega
  simp only [hne, if_false, ends_bind, ends_ensure, h, decide_true, if_true, ends_options,
    ends_pure]
  exact ⟨Arena.Booked.withSettings a, trivial⟩

theorem ends_capacityForOneMore (current : Nat) :
    Ends (capacityForOneMore current) a (fun room a' => a.Booked a' ∧
      room = a.settings.capacityForOneMore current) early := by
  unfold capacityForOneMore
  simp only [ends_bind, ends_options, ends_pure]
  exact ⟨Arena.Booked.withSettings a, trivial⟩

end Action

namespace Options

theorem le_grownCapacity {o : Options} {current needed : Nat} :
    needed ≤ o.grownCapacity current needed := by
  unfold grownCapacity
  split
  · omega
  · split <;> omega

theorem grownCapacity_le {o : Options} {current needed : Nat} (h : current < needed) :
    o.grownCapacity current needed ≤ max o.uninitializedSize (2 * needed) := by
  unfold grownCapacity
  split
  · omega
  · split <;> omega

theorem lt_capacityForOneMore {o : Options} {current : Nat}
    (h : o.uninitializedSize ≠ 0 ∨ current ≠ 0) (hmax : current < UInt64.size - 1) :
    current < o.capacityForOneMore current := by
  unfold capacityForOneMore
  split <;> omega

theorem le_capacityForOneMore {o : Options} {current : Nat} (hmax : current < UInt64.size - 1) :
    current ≤ o.capacityForOneMore current := by
  unfold capacityForOneMore
  split <;> omega

theorem capacityForOneMore_le {o : Options} {current : Nat} :
    o.capacityForOneMore current ≤ max o.uninitializedSize (2 * (current + 1)) := by
  unfold capacityForOneMore
  split <;> omega

end Options

end AdaptiveArray
