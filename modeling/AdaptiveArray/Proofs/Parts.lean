import AdaptiveArray.Edit.Parts
import AdaptiveArray.Proofs.Readiness

/-!
# Taking parts of an array

A part shares the buffer of the array or copies it; either way both read the elements
they should.  Taking elements off either end leaves the list without them.
-/

namespace AdaptiveArray

namespace Body

structure Shows (strict : Prop) (xs : List Value) (b : Body) : Prop where
  fits : b.Fits strict
  toList : b.toList = xs

theorem shows_empty {strict : Prop} : empty.Shows strict [] :=
  ⟨fits_empty, rfl⟩

theorem Fits.shows {strict : Prop} {b : Body} (h : b.Fits strict) : b.Shows strict b.toList :=
  ⟨h, rfl⟩

theorem ofStore?_eq {s : Store} {n : Nat} (h : n ≤ s.capacity) :
    ofStore? s n = some { store := s, size := n } := by
  rw [ofStore?, if_pos h]

theorem shows_part {strict : Prop} {b : Body} {part : Store} {start stop : Nat} (strict' : Prop)
    (hfits : b.Fits strict) (hstop : stop ≤ b.size) (h : part.Part b.store start stop) :
    ({ store := part, size := stop - start } : Body).Shows strict'
      ((b.toList.drop start).take (stop - start)) := by
  have hpart : ({ store := part, size := stop - start } : Body).Fits strict' :=
    Fits.intro_full h.capacity.symm h.fits
  refine ⟨hpart, toList_eq hpart ?_ fun i hi => ?_⟩
  · rw [List.length_take, List.length_drop, length_toList hfits]
    exact Nat.min_eq_left (by omega)
  · have hi' : i < stop - start := hi
    rw [List.getElem?_take, if_pos hi', List.getElem?_drop,
      getElem?_toList_of_lt hfits (by omega)]
    exact h.slot i hi'

end Body

namespace Edit

def Traced (w w' : Workspace) (s : Store) : Prop :=
  ∀ k, s.backing? = some k → w.body.store.backing? = some k ∨
    ∃ b, w.body.store = .owned b ∧ k = ⟨w.arena.nextBacking, b⟩ ∧
      w.arena.nextBacking < w'.arena.nextBacking

theorem Traced.of_eq {w w' : Workspace} {s : Store} (h : s.backing? = w.body.store.backing?) :
    Traced w w' s :=
  fun _ hk => .inl (h ▸ hk)

/-- The slots of the array stay, but its own buffer may have moved behind a view, for the part to
share. -/
structure Shared (strict : Prop) (start stop : Nat) (w : Workspace) (part : Store)
    (w' : Workspace) : Prop where
  owner : w'.owner = w.owner
  fits : w'.body.Fits strict
  size : w'.body.size = w.body.size
  frozen : w'.body.frozen = w.body.frozen
  slot : ∀ i, w'.body.store.get? i = w.body.store.get? i
  part : part.Part w'.body.store start stop
  traced : Traced w w' w'.body.store
  booked : w.arena.Booked w'.arena
  unowned : ∀ b, w'.body.store ≠ .owned b
  stays : (∀ b, w.body.store ≠ .owned b) → w'.body = w.body

variable {strict : Prop} {w : Workspace} {early : Fault → Workspace → Prop}

theorem Shared.toList {start stop : Nat} {part : Store} {w' : Workspace}
    (h : Shared strict start stop w part w') (hfits : w.body.Fits strict) :
    w'.body.toList = w.body.toList :=
  Body.toList_congr hfits h.fits h.size fun i _ => h.slot i

theorem Shared.shows {start stop : Nat} {part : Store} {w' : Workspace}
    (h : Shared strict start stop w part w') (strict' : Prop) (hfits : w.body.Fits strict)
    (hstop : stop ≤ w.body.size) :
    ({ store := part, size := stop - start } : Body).Shows strict'
      ((w.body.toList.drop start).take (stop - start)) := by
  rw [← h.toList hfits]
  exact Body.shows_part _ h.fits (by rw [h.size]; exact hstop) h.part

theorem Shared.rest {w' : Workspace} {start : Nat} {part : Store}
    (h : Shared False start w.body.size w part w') (hfits : w.body.Fits False) :
    (w'.replaced part (w.body.size - start)).body.Shows False (w.body.toList.drop start) := by
  have hshows := h.shows False hfits (Nat.le_refl _)
  refine ⟨hshows.fits.with_frozen _, ?_⟩
  change ({ store := part, size := w.body.size - start } : Body).toList = _
  rw [hshows.toList, List.take_of_length_le]
  simp [Body.length_toList hfits]

theorem ends_shareRange (hfits : w.body.Fits strict) {start stop : Nat} (hle : start ≤ stop)
    (hstop : stop ≤ w.body.size) :
    Ends (shareRange start stop) w (fun part w' => Shared strict start stop w part w') early := by
  have hcap : stop ≤ w.body.store.capacity := Nat.le_trans hstop hfits.size_le
  unfold shareRange
  rw [ends_bind, ends_store]
  split
  case h_1 b hstore =>
      have hsize : stop ≤ b.size := by rwa [hstore] at hcap
      let k : Backing := ⟨w.arena.nextBacking, b⟩
      have hview : (Store.view ⟨k, 0, b.size⟩).Fits :=
        Nat.le_of_eq (Nat.zero_add _)
      have hmake : View.make? k start (stop - start) = some ⟨k, start, stop - start⟩ := by
        rw [View.make?, if_pos (by change start + (stop - start) ≤ b.size; omega)]
      rw [ends_bind, ends_lift, Action.ends_newBacking, hmake]
      simp only [ends_bind, ends_lift, Action.ends_demand_some, ends_modify, ends_pure]
      refine ⟨rfl, ?_, rfl, rfl, fun i => ?_, ?_, fun k' hk' => .inr ?_, ?_, (by simp),
        fun h => absurd hstore (h b)⟩
      · refine Body.Fits.intro_view ?_ hview rfl
        have hle := hfits.size_le
        rwa [Body.capacity, hstore] at hle
      · rw [hstore]
        simp only [Store.get?, Nat.zero_add]
        by_cases hi : i < b.size
        · rw [if_pos hi]
        · rw [if_neg hi, Buffer.get?_eq_none (by omega)]
      · have hpart := Store.part_view hview hle hsize
        simpa using hpart
      · exact ⟨b, hstore, (Option.some.inj hk').symm, Nat.lt_succ_self _⟩
      · exact ⟨rfl, rfl, rfl, rfl, rfl, rfl, Nat.le_succ _⟩
  case h_2 hunowned =>
      rw [ends_lift]
      refine (Action.ends_extract hfits.store hle hcap).weaken ?_
      rintro part a ⟨hbooked, hpart⟩
      exact ⟨rfl, hfits, rfl, rfl, fun _ => rfl, hpart, .of_eq rfl, hbooked,
        fun b hb => hunowned b hb,
        fun _ => rfl⟩

theorem ends_extractShared (hfits : w.body.Fits strict) {start stop : Nat} (hle : start ≤ stop)
    (hstop : stop ≤ w.body.size) :
    Ends (extractShared start stop) w
      (fun part w' => Shared strict start stop w part w') early := by
  unfold extractShared
  simp only [ends_bind, ends_size, ends_lift, Action.ends_ensure, hle, hstop, decide_true,
    Bool.and_self, if_true]
  exact ends_shareRange hfits hle hstop

theorem ends_countArgument {n : Int64} {post : Nat → Workspace → Prop}
    (hpost : 0 ≤ n.toInt → post n.toInt.toNat w)
    (hearly : n.toInt < 0 → early (.raised .negativeSize) w) :
    Ends (countArgument n) w post early := by
  unfold countArgument
  split
  case isTrue h => exact hearly h
  case isFalse h => exact hpost (by omega)

theorem ends_slice (hfits : w.body.Fits strict) (start length : Int64) :
    Ends (slice start length) w (fun reply w' => reply = none ∧ w' = w ∧
        (∀ first, w.body.position? start = some first → w.body.size < first ∨ length.toInt < 0) ∨
      ∃ first stop part, w.body.position? start = some first ∧ 0 ≤ length.toInt ∧ first ≤ stop ∧
        stop = min (first + length.toInt.toNat) w.body.size ∧ Shared strict first stop w part w' ∧
        reply = some { store := part, size := stop - first }) early := by
  unfold slice
  rw [ends_bind, ends_size, ends_bind, ends_get]
  split
  case h_1 hnone => exact .inl ⟨rfl, rfl, fun _ hsome => by simp [hnone] at hsome⟩
  case h_2 first hfirst =>
      split
      case isTrue hout =>
          simp only [Bool.or_eq_true, decide_eq_true_eq] at hout
          refine .inl ⟨rfl, rfl, fun first' hfirst' => ?_⟩
          rw [hfirst] at hfirst'
          exact Option.some.inj hfirst' ▸ hout
      case isFalse hin =>
          simp only [Bool.or_eq_true, decide_eq_true_eq, not_or] at hin
          refine Ends.bind (ends_extractShared hfits (by omega) (by omega))
            fun part w' hshared => ?_
          rw [ends_bind, ends_lift, Body.ofStore?_eq (Nat.le_of_eq hshared.part.capacity.symm)]
          exact .inr ⟨first, _, part, hfirst, by omega, by omega, rfl, hshared, rfl⟩

theorem ends_dup (hfits : w.body.Fits strict) :
    Ends dup w (fun b w' => w.body.size = 0 ∧ b = .empty ∧ w' = w ∨
      ∃ part, Shared strict 0 w.body.size w part w' ∧ b = { store := part, size := w.body.size })
      early := by
  unfold dup
  rw [ends_bind, ends_size]
  split
  case isTrue hnone => exact .inl ⟨hnone, rfl, rfl⟩
  case isFalse =>
      refine Ends.bind (ends_extractShared hfits (Nat.zero_le _) (Nat.le_refl _))
        fun part w' hshared => ?_
      have hroom : w.body.size ≤ part.capacity := Nat.le_of_eq hshared.part.capacity.symm
      rw [ends_lift, Body.ofStore?_eq hroom]
      exact .inr ⟨part, hshared, rfl⟩

/-! ## Taking elements off the ends -/

structure Truncated (m : Nat) (b : Body) (s : Store) : Prop where
  kind : s.kind = b.kind
  capacity : s.capacity = b.capacity
  backing : s.backing? = b.store.backing?
  fits : s.Fits
  slot : ∀ i, i < m → s.get? i = b.store.get? i
  rest : b.store.isMutable → ∀ i, m ≤ i → i < b.size ∧ s.get? i = some b.store.zero ∨
    b.size ≤ i ∧ s.get? i = b.store.get? i

theorem Truncated.shows {m : Nat} {b : Body} {s : Store} (h : Truncated m b s)
    (hfits : b.Fits strict) (hm : m ≤ b.size) :
    ({ b with store := s, size := m } : Body).Shows strict (b.toList.take m) := by
  have hfits' : ({ b with store := s, size := m } : Body).Fits strict := by
    refine ⟨?_, h.fits, fun hstrict hmut i hi hlt => ?_⟩
    · rw [Body.capacity_mk, h.capacity]
      exact Nat.le_trans hm hfits.size_le
    · have hbmut : b.store.isMutable := Store.isMutable_of_kind h.kind.symm hmut
      rw [show ({ b with store := s, size := m } : Body).store.zero = b.store.zero from
        Store.zero_of_kind h.kind]
      have hlt' : i < b.capacity := h.capacity ▸ hlt
      rcases h.rest hbmut i hi with ⟨-, hzero⟩ | ⟨hle, hsame⟩
      · exact hzero
      · exact hsame.trans (hfits.tidy hstrict hbmut i hle hlt')
  refine ⟨hfits', Body.toList_eq hfits' ?_ fun i hi => ?_⟩
  · rw [List.length_take, Body.length_toList hfits]
    exact Nat.min_eq_left hm
  · have hi' : i < m := hi
    rw [List.getElem?_take, if_pos hi', Body.getElem?_toList_of_lt hfits (by omega)]
    exact h.slot i hi'

theorem ends_truncate {α : Type} {rest : Edit α} {post : α → Workspace → Prop} {m : Nat}
    (hfits : w.body.Fits strict)
    (hrest : ∀ s, Truncated m w.body s → Ends rest (w.withStore s) post early) :
    Ends (do
      if ← isMutable then clearSlots m w.body.size
      rest) w post early := by
  rw [ends_bind, ends_isMutable]
  split
  case isTrue hmut =>
      rw [ends_bind]
      refine ends_clearSlots (fun _ => hmut) hfits.size_le fun s hkind hcapacity hslot _ => ?_
      have hsmut : s.isMutable := Store.isMutable_of_kind hkind hmut
      refine hrest s ⟨hkind, hcapacity, ?_, Store.fits_of_isMutable hsmut, fun i hi => ?_,
        fun _ i hi => ?_⟩
      · rw [Store.backing?_of_isMutable hsmut, Store.backing?_of_isMutable hmut]
      · rw [hslot, if_neg (by omega)]
      · rw [hslot]
        by_cases hlt : i < w.body.size
        · exact .inl ⟨hlt, by rw [if_pos ⟨hi, hlt⟩]⟩
        · exact .inr ⟨by omega, by rw [if_neg (by omega)]⟩
  case isFalse hview =>
      exact hrest w.body.store ⟨rfl, rfl, rfl, hfits.store, fun _ _ => rfl,
        fun h => absurd h hview⟩

def Refused (w : Workspace) (f : Fault) (w' : Workspace) : Prop :=
  (∃ e, f = .raised e) ∧ w'.body = w.body

def Halted (w : Workspace) (f : Fault) (w' : Workspace) : Prop :=
  f.Fatal ∨ Refused w f w'

def Denied (w : Workspace) (wrong : Prop) (f : Fault) (w' : Workspace) : Prop :=
  Refused w f w' ∧ (w.body.frozen ∨ wrong)

theorem ends_pop (hfits : w.body.Fits strict) :
    Ends pop w (fun v w' => w.body.size = 0 ∧ v = .nil ∧ w' = w ∨
      w.body.size ≠ 0 ∧ w.body.toList[w.body.size - 1]? = some v ∧
        ∃ s, Truncated (w.body.size - 1) w.body s ∧
          w' = (w.withStore s).withSize (w.body.size - 1)) (Denied w False) := by
  unfold pop
  rw [ends_bind, ends_checkFrozen]
  split
  case isTrue hfrozen => exact ⟨⟨⟨_, rfl⟩, rfl⟩, .inl hfrozen⟩
  case isFalse =>
      rw [ends_bind, ends_size]
      split
      case isTrue hnone => exact .inl ⟨hnone, rfl, rfl⟩
      case isFalse hsome =>
          obtain ⟨v, hv, hlast⟩ := Body.exists_get? hfits (i := w.body.size - 1) (by omega)
          rw [ends_bind, ends_getSlot hv]
          refine ends_truncate hfits fun s hs => ?_
          rw [ends_bind, ends_setSize (by
            rw [Workspace.body_withStore, Body.capacity_mk, hs.capacity]
            exact Nat.le_trans (Nat.sub_le _ _) hfits.size_le)]
          exact .inr ⟨hsome, hlast, s, hs, rfl⟩

theorem ends_popN (hfits : w.body.Fits strict) (count : Int64) :
    Ends (popN count) w (fun b w' =>
      min count.toInt.toNat w.body.size = 0 ∧ b = .empty ∧ w' = w ∨
      ∃ taken part s, taken = min count.toInt.toNat w.body.size ∧
        part.Part w.body.store (w.body.size - taken) w.body.size ∧
        b = { store := part, size := taken } ∧ Truncated (w.body.size - taken) w.body s ∧
        ∃ a, w.arena.Booked a ∧
          w' = ((w.withArena a).withStore s).withSize (w.body.size - taken))
      (Denied w (count.toInt < 0)) := by
  unfold popN
  rw [ends_bind, ends_checkFrozen]
  split
  case isTrue hfrozen => exact ⟨⟨⟨_, rfl⟩, rfl⟩, .inl hfrozen⟩
  case isFalse =>
      rw [ends_bind, ends_size, ends_bind]
      refine ends_countArgument (fun _ => ?_) fun hneg => ⟨⟨⟨_, rfl⟩, rfl⟩, .inr hneg⟩
      dsimp only
      split
      case isTrue hnone => exact .inl ⟨hnone, rfl, rfl⟩
      case isFalse hsome =>
          rw [ends_bind, ends_store, ends_bind, ends_lift]
          refine (Action.ends_extract hfits.store (Nat.sub_le _ _) hfits.size_le).weaken ?_
          rintro part a ⟨hbooked, hpart⟩
          refine ends_truncate (w := w.withArena a) hfits fun s hs => ?_
          rw [ends_bind, ends_setSize (by
            rw [Workspace.body_withStore, Body.capacity_mk, hs.capacity]
            exact Nat.le_trans (Nat.sub_le _ _) hfits.size_le), ends_lift,
            Body.ofStore?_eq (by rw [hpart.capacity]; omega)]
          exact .inr ⟨_, part, s, rfl, hpart, rfl, hs, a, hbooked, rfl⟩

theorem ends_shift (hfits : w.body.Fits strict) :
    Ends shift w (fun v w' => w.body.size = 0 ∧ v = .nil ∧ w' = w ∨
      w.body.size ≠ 0 ∧ w.body.toList[0]? = some v ∧
        ∃ part w'', Shared strict 1 w.body.size w part w'' ∧
          w' = w''.replaced part (w.body.size - 1)) (Denied w False) := by
  unfold shift
  rw [ends_bind, ends_checkFrozen]
  split
  case isTrue hfrozen => exact ⟨⟨⟨_, rfl⟩, rfl⟩, .inl hfrozen⟩
  case isFalse =>
      rw [ends_bind, ends_size]
      split
      case isTrue hnone => exact .inl ⟨hnone, rfl, rfl⟩
      case isFalse hsome =>
          obtain ⟨v, hv, hfirst⟩ := Body.exists_get? hfits (i := 0) (by omega)
          rw [ends_bind, ends_getSlot hv]
          refine Ends.bind (ends_extractShared hfits (by omega) (Nat.le_refl _))
            fun part w'' hshared => ?_
          rw [ends_bind, ends_replaceStore (Nat.le_of_eq hshared.part.capacity.symm)]
          exact .inr ⟨hsome, hfirst, part, w'', hshared, rfl⟩

theorem ends_shiftN (hfits : w.body.Fits strict) (count : Int64) :
    Ends (shiftN count) w (fun b w' =>
      min count.toInt.toNat w.body.size = 0 ∧ b = .empty ∧ w' = w ∨
      ∃ taken part rest w₁ w₂, taken = min count.toInt.toNat w.body.size ∧
        Shared strict 0 taken w part w₁ ∧
        Shared strict taken w.body.size w₁ rest w₂ ∧ b = { store := part, size := taken } ∧
        w' = w₂.replaced rest (w.body.size - taken)) (Denied w (count.toInt < 0)) := by
  unfold shiftN
  rw [ends_bind, ends_checkFrozen]
  split
  case isTrue hfrozen => exact ⟨⟨⟨_, rfl⟩, rfl⟩, .inl hfrozen⟩
  case isFalse =>
      rw [ends_bind, ends_size, ends_bind]
      refine ends_countArgument (fun _ => ?_) fun hneg => ⟨⟨⟨_, rfl⟩, rfl⟩, .inr hneg⟩
      dsimp only
      split
      case isTrue hnone => exact .inl ⟨hnone, rfl, rfl⟩
      case isFalse hsome =>
          refine Ends.bind (ends_extractShared hfits (Nat.zero_le _) (Nat.min_le_right _ _))
            fun part w₁ hshared => ?_
          refine Ends.bind (ends_extractShared hshared.fits (Nat.min_le_right _ _)
            (Nat.le_of_eq hshared.size.symm)) fun rest w₂ hrest => ?_
          rw [ends_bind, ends_replaceStore (Nat.le_of_eq hrest.part.capacity.symm), ends_lift,
            Body.ofStore?_eq (by rw [hshared.part.capacity]; omega)]
          exact .inr ⟨_, part, rest, w₁, w₂, rfl, hshared, hrest, rfl, rfl⟩

end Edit

end AdaptiveArray
