import AdaptiveArray.Store
import AdaptiveArray.Proofs.Buffer

/-!
# Stores through their slots

`Store.get?` reads a slot whoever owns the buffer.  A store fits if its window lies
inside its backing; then it reads like the buffer it stands for.  Each operation in
place changes the slots it says, and neither the kind nor the capacity.
-/

namespace AdaptiveArray

namespace Store

def Fits : Store → Prop
  | view v => v.offset + v.length ≤ v.backing.buffer.size
  | _ => True

def zero (s : Store) : Value := s.buffer.element.zero

theorem get?_eq_buffer {s : Store} (h : s.Fits) (i : Nat) : s.get? i = s.buffer.get? i := by
  cases s with
  | empty => rfl
  | owned b => rfl
  | native address slots => rfl
  | view v =>
      simp only [get?, buffer, View.buffer, Buffer.get?_slice (h : _ ≤ _), Nat.add_lt_add_iff_left]

theorem size_buffer {s : Store} (h : s.Fits) : s.buffer.size = s.capacity := by
  cases s with
  | empty => rfl
  | owned b => rfl
  | native address slots => rfl
  | view v =>
      have hfits : v.offset + v.length ≤ v.backing.buffer.size := h
      simp only [buffer, View.buffer, Buffer.size_slice, capacity]
      omega

theorem getElem?_values {s : Store} (h : s.Fits) (i : Nat) : s.values[i]? = s.get? i :=
  (Buffer.getElem?_values s.buffer i).trans (get?_eq_buffer h i).symm

theorem size_values {s : Store} (h : s.Fits) : s.values.size = s.capacity :=
  (Buffer.size_values s.buffer).trans (size_buffer h)

theorem get?_eq_none {s : Store} {i : Nat} (h : s.capacity ≤ i) : s.get? i = none := by
  cases s with
  | empty => rfl
  | owned b => exact Buffer.get?_eq_none h
  | native address slots => exact Array.getElem?_eq_none h
  | view v => exact if_neg (Nat.not_lt.mpr h)

theorem get?_isSome {s : Store} (hfits : s.Fits) {i : Nat} (h : i < s.capacity) :
    (s.get? i).isSome := by
  rw [get?_eq_buffer hfits]
  exact Buffer.get?_isSome (by rwa [size_buffer hfits])

theorem isMutable_iff {s : Store} :
    s.isMutable ↔ (∃ b, s = owned b) ∨ ∃ address slots, s = native address slots := by
  cases s <;> simp [isMutable, kind, Kind.isMutable]

theorem isMutable_of_kind {s t : Store} (h : t.kind = s.kind) (hmut : s.isMutable) :
    t.isMutable := by
  rwa [isMutable, h]

theorem fits_of_isMutable {s : Store} (h : s.isMutable) : s.Fits := by
  cases s with
  | view v => cases h
  | _ => trivial

theorem backing?_of_isMutable {s : Store} (h : s.isMutable) : s.backing? = none := by
  cases s with
  | view v => cases h
  | _ => rfl

theorem backing?_of_clone {s : Store} {k : Backing} (h : s.clone.backing? = some k) :
    s.backing? = some k := by
  cases s with
  | native address slots => cases h
  | _ => exact h

theorem element?_kind {s : Store} (h : s ≠ empty) : s.kind.element? = some s.buffer.element := by
  cases s with
  | empty => exact absurd rfl h
  | owned b => rfl
  | native address slots => rfl
  | view v => simp [kind, Kind.element?, buffer, View.buffer]

theorem holds_of_get? {s : Store} {i : Nat} {v : Value} (h : s.get? i = some v) :
    s.kind.holds v := by
  have hbuffer {b : Buffer} {j : Nat} (h : b.get? j = some v) : (Kind.owned b.element).holds v :=
    (Buffer.takes_eq_holds b v).symm.trans (Buffer.takes_of_get? h)
  cases s with
  | empty => cases h
  | owned b => exact hbuffer h
  | native address slots => rfl
  | view w =>
      simp only [get?] at h
      split at h
      · rw [← Kind.holds_forMutation]
        exact hbuffer h
      · cases h

theorem zero_of_kind {s t : Store} (h : s.kind = t.kind) : s.zero = t.zero := by
  have helement : s.buffer.element = t.buffer.element := by
    by_cases hs : s = empty
    · subst hs
      cases t <;> simp_all [kind]
    · by_cases ht : t = empty
      · subst ht
        cases s <;> simp_all [kind]
      · have hkind := congrArg Kind.element? h
        simpa [element?_kind hs, element?_kind ht] using hkind
  rw [zero, zero, helement]

theorem zero_of_holds_nil {s : Store} (hmut : s.isMutable) (h : s.kind.holds .nil) :
    s.zero = .nil := by
  rcases isMutable_iff.mp hmut with ⟨b, rfl⟩ | ⟨address, slots, rfl⟩
  · cases b <;> simp_all [kind, Kind.holds, Kind.forMutation, Buffer.element, zero, buffer,
      Element.zero]
  · rfl

/-! ## Reading a part -/

theorem hasRange_of_le {s : Store} {start stop : Nat} (hle : start ≤ stop)
    (h : stop ≤ s.capacity) (hfits : s.Fits) : s.hasRange start stop := by
  cases s with
  | empty =>
      have : stop = 0 := Nat.le_zero.mp h
      simp [hasRange, this]
  | owned b => simp_all [hasRange, Buffer.hasRange, buffer, capacity]
  | native address slots =>
      simp_all [hasRange, Buffer.hasRange, buffer, capacity, Buffer.size]
  | view v => simp_all [hasRange, capacity]

@[simp] theorem element_slice (s : Store) (start stop : Nat) :
    (s.slice start stop).element = s.buffer.element := by
  cases s <;> simp [slice, buffer, View.buffer]

theorem size_slice {s : Store} (hfits : s.Fits) {start stop : Nat} (h : stop ≤ s.capacity) :
    (s.slice start stop).size = stop - start := by
  cases s with
  | view v =>
      have hfits' : v.offset + v.length ≤ v.backing.buffer.size := hfits
      have hstop : stop ≤ v.length := h
      simp only [slice, Buffer.size_slice]
      omega
  | _ =>
      rw [← size_buffer hfits] at h
      simp only [slice, Buffer.size_slice]
      omega

theorem get?_slice {s : Store} (hfits : s.Fits) {start stop : Nat} (h : stop ≤ s.capacity)
    (i : Nat) : (s.slice start stop).get? i =
      if start + i < stop then s.get? (start + i) else none := by
  cases s with
  | view v =>
      have hfits' : v.offset + v.length ≤ v.backing.buffer.size := hfits
      have hstop : stop ≤ v.length := h
      simp only [slice, get?]
      rw [Buffer.get?_slice (by omega)]
      by_cases hi : start + i < stop
      · rw [if_pos (by omega), if_pos hi, if_pos (by omega), Nat.add_assoc]
      · rw [if_neg (by omega), if_neg hi]
  | _ =>
      rw [get?_eq_buffer hfits]
      rw [← size_buffer hfits] at h
      exact Buffer.get?_slice h i

/-! ## Writing in place -/

theorem admits_of_holds {s : Store} {i : Nat} {v : Value} (hmut : s.isMutable)
    (hv : s.kind.holds v) (hi : i < s.capacity) : s.admits i v := by
  rcases isMutable_iff.mp hmut with ⟨b, rfl⟩ | ⟨address, slots, rfl⟩
  · have ht : b.takes v := by rwa [Buffer.takes_eq_holds]
    have hb : i < b.size := hi
    simp [admits, ht, hb]
  · have hs : i < slots.size := hi
    simp [admits, hs]

theorem lt_of_admits {s : Store} {i : Nat} {v : Value} (h : s.admits i v) : i < s.capacity := by
  cases s with
  | empty => cases h
  | view v => cases h
  | owned b =>
      simp only [admits, Bool.and_eq_true, decide_eq_true_eq] at h
      exact h.2
  | native address slots =>
      simp only [admits, decide_eq_true_eq] at h
      exact h

@[simp] theorem capacity_set (s : Store) (i : Nat) (v : Value) :
    (s.set i v).capacity = s.capacity := by
  cases s <;> simp [set, capacity]

@[simp] theorem kind_set (s : Store) (i : Nat) (v : Value) : (s.set i v).kind = s.kind := by
  cases s <;> simp [set, kind]

theorem get?_set {s : Store} {i : Nat} {v : Value} (h : s.admits i v) (j : Nat) :
    (s.set i v).get? j = if j = i then some v else s.get? j := by
  cases s with
  | empty => cases h
  | view v => cases h
  | owned b =>
      simp only [admits, Bool.and_eq_true, decide_eq_true_eq] at h
      simp [set, get?, Buffer.get?_set h.1, h.2]
  | native address slots =>
      simp only [admits, decide_eq_true_eq] at h
      simp only [set, get?, Array.getElem?_setIfInBounds]
      by_cases hj : i = j
      · subst hj
        simp [h]
      · simp [hj, Ne.symm hj]

theorem hasWritable_of_le {s : Store} {start stop : Nat} (hmut : s.isMutable)
    (hle : start ≤ stop) (h : stop ≤ s.capacity) : s.hasWritable start stop := by
  have hr := hasRange_of_le hle h (fits_of_isMutable hmut)
  cases s with
  | view v => cases hmut
  | _ => exact hr

theorem le_of_hasWritable {s : Store} {start stop : Nat} (h : s.hasWritable start stop) :
    stop ≤ s.capacity := by
  cases s with
  | empty => simp_all [hasWritable, hasRange, capacity]
  | view v => cases h
  | owned b =>
      simp only [hasWritable, hasRange, buffer, Buffer.hasRange, Bool.and_eq_true,
        decide_eq_true_eq] at h
      exact of_decide_eq_true h.2
  | native address slots =>
      simp only [hasWritable, hasRange, buffer, Buffer.hasRange, Bool.and_eq_true,
        decide_eq_true_eq] at h
      exact of_decide_eq_true h.2

theorem modify_spec {s : Store} (hmut : s.isMutable) {change : Buffer → Buffer}
    (hkeeps : (change s.buffer).element = s.buffer.element) :
    (s.modify change).kind = s.kind ∧ (s.modify change).capacity = (change s.buffer).size ∧
      ∀ i, (s.modify change).get? i = (change s.buffer).get? i := by
  rcases isMutable_iff.mp hmut with ⟨b, rfl⟩ | ⟨address, slots, rfl⟩
  · exact ⟨congrArg Kind.owned hkeeps, rfl, fun i => rfl⟩
  · simp only [buffer] at hkeeps
    cases hc : change (.object slots) with
    | object slots' => simp [modify, buffer, hc, kind, capacity, get?, Buffer.get?, Buffer.size]
    | _ => simp [hc, Buffer.element] at hkeeps

/-! ## What has to be registered -/

def claim? : Store → Option (Address × Nat)
  | native address slots => some (address, slots.size)
  | _ => none

theorem claim?_eq_none {s : Store} : s.claim? = none ↔ s.kind ≠ .native := by
  cases s <;> simp [claim?, kind]

theorem exists_of_claim? {s : Store} {address : Address} {slots : Array Value}
    (h : s.claim? = (native address slots).claim?) :
    ∃ slots', s = native address slots' ∧ slots'.size = slots.size := by
  cases s with
  | native address' slots' =>
      obtain ⟨rfl, hsize⟩ := Prod.mk.inj (Option.some.inj h)
      exact ⟨slots', rfl, hsize⟩
  | _ => cases h

theorem eq_of_get? {s t : Store} (hs : s.isMutable) (hkind : s.kind = t.kind)
    (hclaim : s.claim? = t.claim?) (h : ∀ i, s.get? i = t.get? i) : s = t := by
  have ht := isMutable_of_kind hkind.symm hs
  rcases isMutable_iff.mp hs with ⟨b, rfl⟩ | ⟨address, slots, rfl⟩
  · rcases isMutable_iff.mp ht with ⟨c, rfl⟩ | ⟨_, _, rfl⟩
    · exact congrArg owned (Buffer.eq_of_get? (Kind.owned.inj hkind) h)
    · cases hkind
  · obtain ⟨slots', rfl, -⟩ := exists_of_claim? hclaim.symm
    exact congrArg (native address) (Array.ext_getElem? h)

@[simp] theorem claim?_set (s : Store) (i : Nat) (v : Value) : (s.set i v).claim? = s.claim? := by
  cases s <;> simp [set, claim?]

theorem claim?_foldl_set {β : Type} (place : β → Nat × Value) (xs : List β) (s : Store) :
    (xs.foldl (fun s x => s.set (place x).1 (place x).2) s).claim? = s.claim? := by
  induction xs generalizing s with
  | nil => rfl
  | cons x xs ih => rw [List.foldl_cons, ih, claim?_set]

theorem claim?_modify (s : Store) {change : Buffer → Buffer}
    (helement : ∀ b, (change b).element = b.element) (hsize : ∀ b, (change b).size = b.size) :
    (s.modify change).claim? = s.claim? := by
  cases s with
  | native address slots =>
      have he := helement (.object slots)
      have hs := hsize (.object slots)
      cases hc : change (.object slots) with
      | object slots' =>
          rw [hc] at hs
          simpa [modify, hc, claim?, Buffer.size] using hs
      | _ => simp [hc, Buffer.element] at he
  | _ => rfl

@[simp] theorem claim?_clear (s : Store) (start stop : Nat) :
    (s.clear start stop).claim? = s.claim? :=
  s.claim?_modify (by simp) (by simp)

@[simp] theorem claim?_reverse (s : Store) (start stop : Nat) :
    (s.reverse start stop).claim? = s.claim? :=
  s.claim?_modify (by simp) (by simp)

@[simp] theorem claim?_move (s : Store) (src dst len : Nat) :
    (s.move src dst len).claim? = s.claim? :=
  s.claim?_modify (by simp) (by simp)

theorem claim?_extract (s : Store) (start stop : Nat) : (s.extract start stop).claim? = none := by
  cases s <;> rfl

theorem claim?_clone (s : Store) : s.clone.claim? = none := by
  cases s <;> rfl

variable {s : Store} (hmut : s.isMutable)

include hmut

theorem size_buffer_of_isMutable : s.buffer.size = s.capacity :=
  size_buffer (fits_of_isMutable hmut)

theorem get?_buffer_of_isMutable (i : Nat) : s.buffer.get? i = s.get? i :=
  (get?_eq_buffer (fits_of_isMutable hmut) i).symm

@[simp] theorem capacity_clear (start stop : Nat) : (s.clear start stop).capacity = s.capacity := by
  rw [clear, (modify_spec hmut (by simp)).2.1, Buffer.size_clear, size_buffer_of_isMutable hmut]

@[simp] theorem kind_clear (start stop : Nat) : (s.clear start stop).kind = s.kind :=
  (modify_spec hmut (by simp)).1

theorem get?_clear (start stop i : Nat) : (s.clear start stop).get? i =
    if start ≤ i ∧ i < stop ∧ i < s.capacity then some s.zero else s.get? i := by
  rw [clear, (modify_spec hmut (by simp)).2.2, Buffer.get?_clear, size_buffer_of_isMutable hmut,
    get?_buffer_of_isMutable hmut, zero]

theorem canMove_of_le {src dst len : Nat} (hsrc : src + len ≤ s.capacity)
    (hdst : dst + len ≤ s.capacity) : s.canMove src dst len := by
  rw [← size_buffer_of_isMutable hmut] at hsrc hdst
  have hb := Buffer.canMove_of_le hsrc hdst
  cases s with
  | view v => cases hmut
  | _ => exact hb

@[simp] theorem capacity_move (src dst len : Nat) : (s.move src dst len).capacity = s.capacity := by
  rw [move, (modify_spec hmut (by simp)).2.1, Buffer.size_move, size_buffer_of_isMutable hmut]

@[simp] theorem kind_move (src dst len : Nat) : (s.move src dst len).kind = s.kind :=
  (modify_spec hmut (by simp)).1

theorem get?_move {src dst len : Nat} (hsrc : src + len ≤ s.capacity)
    (hdst : dst + len ≤ s.capacity) (i : Nat) : (s.move src dst len).get? i =
      if dst ≤ i ∧ i < dst + len then s.get? (src + (i - dst)) else s.get? i := by
  rw [← size_buffer_of_isMutable hmut] at hsrc hdst
  rw [move, (modify_spec hmut (by simp)).2.2, Buffer.get?_move hsrc hdst,
    get?_buffer_of_isMutable hmut, get?_buffer_of_isMutable hmut]

@[simp] theorem capacity_reverse (start stop : Nat) :
    (s.reverse start stop).capacity = s.capacity := by
  rw [reverse, (modify_spec hmut (by simp)).2.1, Buffer.size_reverse,
    size_buffer_of_isMutable hmut]

@[simp] theorem kind_reverse (start stop : Nat) : (s.reverse start stop).kind = s.kind :=
  (modify_spec hmut (by simp)).1

theorem get?_reverse {start stop : Nat} (h : stop ≤ s.capacity) (i : Nat) :
    (s.reverse start stop).get? i =
      if start ≤ i ∧ i < stop then s.get? (start + stop - 1 - i) else s.get? i := by
  rw [← size_buffer_of_isMutable hmut] at h
  rw [reverse, (modify_spec hmut (by simp)).2.2, Buffer.get?_reverse h,
    get?_buffer_of_isMutable hmut, get?_buffer_of_isMutable hmut]

end Store

end AdaptiveArray
