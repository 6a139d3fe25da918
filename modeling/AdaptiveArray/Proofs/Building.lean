import AdaptiveArray.Builder
import AdaptiveArray.Proofs.Parts

/-!
# Building arrays

A builder holds the values pushed so far, in order, in a store of its own that is zero
behind them.  So does the array it finishes as.
-/

namespace AdaptiveArray

namespace Body

theorem Shows.set {xs : List Value} {s : Store} {v : Value} {n : Nat} {frozen : Bool}
    (h : ({ store := s, size := n, frozen } : Body).Shows True xs) (hadmits : s.admits n v) :
    ({ store := s.set n v, size := n + 1, frozen } : Body).Shows True (xs ++ [v]) := by
  have hlt := Store.lt_of_admits hadmits
  have hlen : xs.length = n := by rw [← h.toList, length_toList h.fits]
  have hfits : ({ store := s.set n v, size := n + 1, frozen } : Body).Fits True := by
    refine ⟨?_, ?_, fun _ hmut i hi hcap => ?_⟩
    · rw [capacity_mk, Store.capacity_set]
      exact hlt
    · cases s with
      | view _ => cases hadmits
      | _ => trivial
    · have hkind : (s.set n v).kind = s.kind := Store.kind_set s n v
      have hmut' : s.isMutable := Store.isMutable_of_kind hkind.symm hmut
      have hi' : n + 1 ≤ i := hi
      have hcap' : i < s.capacity := by
        rw [capacity_mk, Store.capacity_set] at hcap
        exact hcap
      rw [show ({ store := s.set n v, size := n + 1, frozen } : Body).store.zero = s.zero from
        Store.zero_of_kind hkind, Store.get?_set hadmits, if_neg (by omega)]
      exact h.fits.tidy trivial hmut' i (by simp only; omega) hcap'
  refine ⟨hfits, toList_eq hfits (by rw [List.length_append, hlen]; rfl) fun i hi => ?_⟩
  have hi' : i < n + 1 := hi
  rw [Store.get?_set hadmits, List.getElem?_append, hlen]
  by_cases hlast : i = n
  · rw [if_pos hlast, if_neg (by omega), hlast, Nat.sub_self]
    rfl
  · have hslot := getElem?_toList_of_lt h.fits (i := i) (by simp only; omega)
    rw [h.toList] at hslot
    rw [if_neg hlast, if_pos (by omega), hslot]

end Body

namespace Builder

structure Holds (b : Builder) (xs : List Value) : Prop where
  shows : ({ store := b.store, size := b.size } : Body).Shows True xs
  backing : b.store.backing? = none

theorem holds_new (expected : Nat) : ({ expected } : Builder).Holds [] :=
  ⟨Body.shows_empty, rfl⟩

variable {b : Builder} {xs : List Value} {a : Arena} {early : Fault → Arena → Prop}

theorem Holds.size_eq (h : b.Holds xs) : b.size = xs.length := by
  rw [← h.shows.toList, Body.length_toList h.shows.fits]

theorem Holds.isMutable (h : b.Holds xs) (hkind : b.kind ≠ .empty) : b.store.isMutable := by
  have hbacking := h.backing
  cases hstore : b.store with
  | empty => simp [kind, hstore, Store.kind] at hkind
  | view v => simp [hstore, Store.backing?] at hbacking
  | _ => rfl

structure CanGrow (b : Builder) (a : Arena) : Prop where
  word : b.store.capacity < UInt64.size - 1
  start : a.settings.uninitializedSize ≠ 0 ∨ b.expected ≠ 0 ∨ b.store.capacity ≠ 0

theorem ends_nextCapacity (h : b.Holds xs) :
    Ends b.nextCapacity a (fun room a' => a.Booked a' ∧ (b.CanGrow a → b.size < room)) early := by
  have hsize : b.size ≤ b.store.capacity := h.shows.fits.size_le
  unfold nextCapacity
  dsimp only
  split
  case isTrue hroom => exact ⟨Arena.Booked.refl a, fun _ => hroom⟩
  case isFalse =>
      split
      case isTrue hexpected => exact ⟨Arena.Booked.refl a, fun _ => hexpected⟩
      case isFalse hfull =>
          refine (Action.ends_capacityForOneMore _).weaken ?_
          rintro room a' ⟨hbooked, rfl⟩
          refine ⟨hbooked, fun hgrow => Nat.lt_of_le_of_lt hsize ?_⟩
          refine Options.lt_capacityForOneMore ?_ hgrow.word
          have hstart := hgrow.start
          omega

theorem ends_makeRoom (h : b.Holds xs) (v : Value) (hmemory : ∀ a', early .outOfMemory a')
    (hbroken : ¬b.CanGrow a → ∀ a', early .broken a') :
    Ends (b.makeRoom v) a (fun b' a' => a.Booked a' ∧ b'.Holds xs ∧ (b.CanGrow a →
      b'.store.admits b'.size v ∧ b'.store.capacity < UInt64.size - 1)) early := by
  unfold makeRoom
  split
  case isTrue hready =>
      simp only [ne_eq, decide_not, Bool.and_eq_true, Bool.not_eq_eq_eq_not, Bool.not_true,
        decide_eq_false_iff_not] at hready
      have hne : b.kind ≠ .empty := by
        intro hempty
        have hholds := hready.1
        rw [hempty] at hholds
        cases hholds
      refine ⟨Arena.Booked.refl a, h, fun hgrow => ⟨?_, hgrow.word⟩⟩
      exact Store.admits_of_holds (h.isMutable hne) hready.1
        (Nat.lt_of_le_of_ne h.shows.fits.size_le hready.2)
  case isFalse =>
      -- The next capacity has room for the copy if the array can grow; if not, the copy may break.
      have hfits := h.shows.fits
      refine Ends.bind (ends_nextCapacity h) ?_
      rintro room a₁ ⟨h₁, hroom⟩
      refine Ends.bind (((Action.ends_allocate _ room fun _ => hmemory _).and
        (Action.ends_allocate_word _ room)).mono_early fun _ _ h => h.1) ?_
      rintro fresh a₂ ⟨⟨h₂, hblank⟩, hword⟩
      have hne := Kind.forValue_ne_empty b.kind v
      have hfreshMut := hblank.isMutable hne
      have hfreshKind : fresh.kind = b.kind.forValue v := by
        rw [hblank.kind hne, Kind.forMutation_of_isMutable (Kind.isMutable_forValue _ _)]
      refine Ends.bind (Action.ends_copyTo_or_broken hfits.store
        (by rw [Nat.zero_add]; exact hfits.size_le) hfreshMut
        (fun _ => hfreshKind ▸ Kind.widens_forValue b.kind v)
          fun hsmall => hbroken (fun hgrow => ?_) _) ?_
      · have := hroom hgrow
        rw [hblank.capacity] at hsmall
        omega
      rintro grown a₃ ⟨h₃, hcopied, hover⟩
      rw [Nat.zero_add] at hcopied
      have hmut := hover.isMutable hfreshMut
      have hcapacity : grown.capacity = room := hover.capacity.trans hblank.capacity
      have hfits' : ({ store := grown, size := b.size } : Body).Fits True := by
        refine .intro_written hfreshMut hover.kind hover.capacity hcopied fun _ i hi hlt => ?_
        rw [hover.slot, if_neg (by omega), hblank.slot i (hblank.capacity ▸ hlt)]
      refine ⟨(h₁.trans h₂).trans h₃, ⟨⟨hfits', ?_⟩, Store.backing?_of_isMutable hmut⟩,
        fun hgrow => ⟨?_, ?_⟩⟩
      · rw [← h.shows.toList]
        refine Body.toList_congr hfits hfits' rfl fun i hi => ?_
        have hi' : i < b.size := hi
        rw [hover.slot, if_pos (by omega), Nat.zero_add, Nat.sub_zero]
      · refine Store.admits_of_holds hmut ?_ (by rw [hcapacity]; exact hroom hgrow)
        rw [hover.kind, hfreshKind]
        exact Kind.holds_forValue _ _
      · rw [hcapacity]
        exact hword

theorem ends_push_of_canGrow (h : b.Holds xs) (v : Value) (hmemory : ∀ a', early .outOfMemory a')
    (hbroken : ¬b.CanGrow a → ∀ a', early .broken a') :
    Ends (b.push v) a (fun b' a' => a.Booked a' ∧ b'.Holds (xs ++ [v]) ∧
      (b.CanGrow a → b'.CanGrow a')) early := by
  unfold push
  refine Ends.bind (ends_makeRoom h v hmemory hbroken) ?_
  rintro ⟨store, size, expected⟩ a' ⟨hbooked, hholds, hgrow⟩
  rw [ends_bind, Action.ends_ensure]
  split
  case isTrue hadmits =>
      refine ⟨hbooked, ⟨hholds.shows.set hadmits, ?_⟩, fun h => ⟨?_, .inr (.inr ?_)⟩⟩
      · cases store with
        | view _ => cases hadmits
        | _ => rfl
      · rw [Store.capacity_set]
        exact (hgrow h).2
      · rw [Store.capacity_set]
        exact Nat.ne_of_gt (Nat.zero_lt_of_lt (Store.lt_of_admits hadmits))
  case isFalse hrefused => exact hbroken (fun h => hrefused (hgrow h).1) _

theorem ends_push (h : b.Holds xs) (v : Value) (hearly : ∀ f a', f.Fatal → early f a') :
    Ends (b.push v) a (fun b' a' => a.Booked a' ∧ b'.Holds (xs ++ [v])) early :=
  (ends_push_of_canGrow h v (fun _ => hearly _ _ Fault.fatal_outOfMemory) fun _ _ =>
    hearly _ _ Fault.fatal_broken).weaken fun _ _ h => ⟨h.1, h.2.1⟩

theorem ends_makeRoom_within {limit : Nat} (h : b.Holds xs) (v : Value)
    (hcapacity : b.store.capacity ≤ limit)
    (hnext : Ends b.nextCapacity a (fun room _ => room ≤ limit) fun _ _ => False) :
    Ends (b.makeRoom v) a (fun b' _ => b'.size = b.size ∧ b'.expected = b.expected ∧
      b'.store.capacity ≤ limit ∧ b'.kind = b.kind.forValue v)
      fun f _ => f = .outOfMemory → ¬Element.object.allocatable limit := by
  unfold makeRoom
  split
  case isTrue hready =>
      refine ⟨rfl, rfl, hcapacity, ?_⟩
      have hholds : b.kind.holds v := (Bool.and_eq_true_iff.mp hready).1
      have hne : b.kind ≠ .empty := by
        intro hempty
        rw [hempty] at hholds
        cases hholds
      rw [Kind.forValue, if_pos hholds]
      exact (Kind.forMutation_of_isMutable (h.isMutable hne)).symm
  case isFalse =>
      refine Ends.bind (hnext.mono_early fun _ _ => False.elim) ?_
      intro room a₁ hroom
      refine Ends.bind (Action.ends_allocate _ room fun hbig _ hlimit =>
        hbig (Element.allocatable_of_le hlimit hroom)) ?_
      rintro fresh a₂ ⟨-, hblank⟩
      refine Ends.bind ((Action.ends_copyTo_sized b.store 0 fresh 0 b.size).mono_early
        fun _ _ hf hmemory => absurd hmemory hf) ?_
      rintro grown _ ⟨hkind, hsize⟩
      refine ⟨rfl, rfl, by rwa [hsize, hblank.capacity], ?_⟩
      have hfresh := hblank.kind (Kind.forValue_ne_empty b.kind v)
      rw [Kind.forMutation_of_isMutable (Kind.isMutable_forValue _ _)] at hfresh
      exact hkind.trans hfresh

theorem ends_push_within {limit : Nat} (h : b.Holds xs) (v : Value)
    (hcapacity : b.store.capacity ≤ limit)
    (hnext : Ends b.nextCapacity a (fun room _ => room ≤ limit) fun _ _ => False) :
    Ends (b.push v) a (fun b' _ => b'.size = b.size + 1 ∧ b'.expected = b.expected ∧
      b'.store.capacity ≤ limit ∧ b'.kind = b.kind.forValue v)
      fun f _ => f = .outOfMemory → ¬Element.object.allocatable limit := by
  unfold push
  refine Ends.bind (ends_makeRoom_within h v hcapacity hnext) ?_
  rintro ⟨store, size, expected⟩ a' ⟨hsize, hexpected, hcapacity', hkind⟩
  rw [ends_bind, Action.ends_ensure]
  split
  · refine ⟨congrArg (· + 1) hsize, hexpected, ?_, ?_⟩
    · rwa [Store.capacity_set]
    · exact (Store.kind_set _ _ _).trans hkind
  · exact nofun

structure Gathers (b : Builder) (xs : List Value) : Prop where
  holds : b.Holds xs
  kind : b.kind = Kind.narrowest (xs.map Kind.ofValue)

theorem gathers_new (expected : Nat) : ({ expected } : Builder).Gathers [] :=
  ⟨holds_new expected, rfl⟩

theorem Gathers.snoc {b' : Builder} {v : Value} (h : b.Gathers xs) (hholds : b'.Holds (xs ++ [v]))
    (hkind : b'.kind = b.kind.forValue v) : b'.Gathers (xs ++ [v]) :=
  ⟨hholds, by rw [hkind, h.kind, Kind.narrowest_forValue]⟩

structure Provided (b : Builder) (n : Nat) : Prop where
  expected : b.size + n ≤ b.expected
  capacity : b.store.capacity ≤ b.expected
  word : b.store.capacity < UInt64.size - 1

theorem provided_new (n : Nat) : ({ expected := n } : Builder).Provided n :=
  ⟨Nat.le_of_eq (Nat.zero_add n), Nat.zero_le n, (by decide : 0 < UInt64.size - 1)⟩

theorem Provided.canGrow {n : Nat} (h : b.Provided (n + 1)) : b.CanGrow a := by
  have hexpected := h.expected
  exact ⟨h.word, .inr (.inl (by omega))⟩

theorem Provided.ends_nextCapacity {n : Nat} (h : b.Provided (n + 1)) :
    Ends b.nextCapacity a (fun room _ => room ≤ b.expected) early := by
  have hexpected := h.expected
  unfold nextCapacity
  dsimp only
  split
  · exact h.capacity
  · rw [if_pos (by omega)]
    exact Nat.le_refl b.expected

theorem Provided.ends_push {n : Nat} (h : b.Provided (n + 1)) (hgathers : b.Gathers xs) (v : Value)
    (hmemory : ¬Element.object.allocatable b.expected → ∀ a', early .outOfMemory a') :
    Ends (b.push v) a (fun b' a' => a.Booked a' ∧ b'.Gathers (xs ++ [v]) ∧ b'.Provided n ∧
      b'.expected = b.expected) early := by
  have hgrown : Ends (b.push v) a (fun b' a' => a.Booked a' ∧ b'.Holds (xs ++ [v]) ∧
      (b.CanGrow a → b'.CanGrow a')) fun f _ => f = .outOfMemory :=
    ends_push_of_canGrow hgathers.holds v (fun _ => rfl) fun hstuck _ => absurd h.canGrow hstuck
  refine (hgrown.and (ends_push_within hgathers.holds v h.capacity h.ends_nextCapacity)).mono ?_ ?_
  · rintro b' a' ⟨⟨hbooked, hholds, hgrows⟩, hsize, hexpected, hcapacity, hkind⟩
    have hroom := h.expected
    exact ⟨hbooked, hgathers.snoc hholds hkind,
      ⟨by omega, hexpected ▸ hcapacity, (hgrows h.canGrow).word⟩, hexpected⟩
  · rintro f a' ⟨rfl, hbig⟩
    exact hmemory (hbig rfl) a'

theorem Provided.ends_pushAll {vs : List Value} : ∀ {a : Arena} {b : Builder} {xs : List Value},
    b.Provided vs.length → b.Gathers xs →
      (¬Element.object.allocatable b.expected → ∀ a', early .outOfMemory a') →
        Ends (b.pushAll vs) a (fun b' a' => a.Booked a' ∧ b'.Gathers (xs ++ vs)) early := by
  induction vs with
  | nil =>
      intro a b xs _ h _
      rw [List.append_nil]
      exact ⟨Arena.Booked.refl a, h⟩
  | cons v vs ih =>
      intro a b xs hprovided h hmemory
      unfold pushAll
      refine Ends.bind (hprovided.ends_push h v hmemory) ?_
      rintro b' a' ⟨hbooked, hgathers, hprovided', hexpected⟩
      refine (ih hprovided' hgathers (hexpected ▸ hmemory)).weaken ?_
      rintro b'' a'' ⟨hbooked', hgathers'⟩
      rw [List.append_assoc] at hgathers'
      exact ⟨hbooked.trans hbooked', hgathers'⟩

structure Limited (b : Builder) (a : Arena) (limit : Nat) : Prop where
  grows : b.CanGrow a
  start : a.settings.uninitializedSize ≤ limit
  expected : b.expected ≤ limit
  capacity : b.store.capacity ≤ limit

theorem limited_new {expected limit : Nat} (hstart : a.settings.uninitializedSize ≠ 0)
    (hlimit : a.settings.uninitializedSize ≤ limit) (hexpected : expected ≤ limit) :
    ({ expected } : Builder).Limited a limit :=
  ⟨⟨(by decide : 0 < UInt64.size - 1), .inl hstart⟩, hlimit, hexpected, Nat.zero_le _⟩

theorem Limited.ends_push {limit : Nat} (h : b.Limited a limit) (hgathers : b.Gathers xs)
    (v : Value)
    (hlength : 2 * (xs.length + 1) ≤ limit)
    (hmemory : ¬Element.object.allocatable limit → ∀ a', early .outOfMemory a') :
    Ends (b.push v) a
      (fun b' a' => a.Booked a' ∧ b'.Gathers (xs ++ [v]) ∧ b'.Limited a' limit) early := by
  have hholds := hgathers.holds
  have hsize := hholds.size_eq
  have hnext : Ends b.nextCapacity a (fun room _ => room ≤ limit) fun _ _ => False := by
    unfold nextCapacity
    dsimp only
    split
    · exact h.capacity
    · split
      · exact h.expected
      · refine (Action.ends_capacityForOneMore _).weaken ?_
        rintro room a' ⟨-, rfl⟩
        refine Nat.le_trans Options.capacityForOneMore_le (Nat.max_le.mpr ⟨h.start, ?_⟩)
        omega
  have hgrown : Ends (b.push v) a (fun b' a' => a.Booked a' ∧ b'.Holds (xs ++ [v]) ∧
      (b.CanGrow a → b'.CanGrow a')) fun f _ => f = .outOfMemory :=
    ends_push_of_canGrow hholds v (fun _ => rfl) fun hstuck _ => absurd h.grows hstuck
  refine (hgrown.and (ends_push_within hholds v h.capacity hnext)).mono ?_ ?_
  · rintro b' a' ⟨⟨hbooked, hholds', hgrows⟩, -, hexpected, hcapacity, hkind⟩
    refine ⟨hbooked, hgathers.snoc hholds' hkind, ⟨hgrows h.grows, ?_, ?_, hcapacity⟩⟩
    · rw [hbooked.settings]
      exact h.start
    · rw [hexpected]
      exact h.expected
  · rintro f a' ⟨rfl, hbig⟩
    exact hmemory (hbig rfl) a'

theorem Limited.ends_pushAll {limit : Nat} {vs : List Value}
    (hmemory : ¬Element.object.allocatable limit → ∀ a', early .outOfMemory a') :
    ∀ {a : Arena} {b : Builder} {xs : List Value}, b.Limited a limit → b.Gathers xs →
      2 * (xs ++ vs).length ≤ limit →
        Ends (b.pushAll vs) a (fun b' a' => a.Booked a' ∧ b'.Gathers (xs ++ vs)) early := by
  induction vs with
  | nil =>
      intro a b xs _ h _
      rw [List.append_nil]
      exact ⟨Arena.Booked.refl a, h⟩
  | cons v vs ih =>
      intro a b xs hlimited h hlength
      unfold pushAll
      refine Ends.bind (hlimited.ends_push h v ?_ hmemory) ?_
      · simp only [List.length_append, List.length_cons] at hlength
        omega
      · rintro b' a' ⟨hbooked, hgathers, hlimited'⟩
        refine (ih hlimited' hgathers (by simpa using hlength)).weaken ?_
        rintro b'' a'' ⟨hbooked', hgathers'⟩
        rw [List.append_assoc] at hgathers'
        exact ⟨hbooked.trans hbooked', hgathers'⟩

end Builder

/-- A new array: tidy, not frozen, and in a store that nobody else looks at. -/
structure Body.New (xs : List Value) (b : Body) : Prop where
  shows : b.Shows True xs
  backing : b.store.backing? = none
  unfrozen : b.frozen = false

theorem Body.new_empty : empty.New [] :=
  ⟨shows_empty, rfl, rfl⟩

theorem Builder.ends_finish {b : Builder} {xs : List Value} {a : Arena}
    {early : Fault → Arena → Prop} (h : b.Holds xs) :
    Ends b.finish a (fun body a' => a' = a ∧ body.New xs) early := by
  unfold finish
  split
  case isTrue hsize =>
      have hnil : xs = [] := List.length_eq_zero_iff.mp (by
        rw [← h.shows.toList, Body.length_toList h.shows.fits, hsize])
      exact ⟨rfl, hnil ▸ Body.new_empty⟩
  case isFalse =>
      rw [Body.ofStore?_eq h.shows.fits.size_le]
      exact ⟨rfl, h.shows, h.backing, rfl⟩

structure Body.Gathered (xs : List Value) (b : Body) : Prop where
  new : b.New xs
  kind : b.kind = Kind.narrowest (xs.map Kind.ofValue)

theorem Builder.Gathers.ends_finish {b : Builder} {xs : List Value} {a : Arena}
    {early : Fault → Arena → Prop} (h : b.Gathers xs) :
    Ends b.finish a (fun body a' => a' = a ∧ body.Gathered xs) early := by
  have hkind : Ends b.finish a (fun body _ => body.kind = Kind.narrowest (xs.map Kind.ofValue))
      early := by
    have hsize : b.size = 0 ↔ xs = [] := by rw [h.holds.size_eq, List.length_eq_zero_iff]
    unfold finish
    split
    case isTrue hnone =>
        rw [hsize.mp hnone]
        rfl
    case isFalse hsome =>
        rw [Body.ofStore?_eq h.holds.shows.fits.size_le, Action.ends_demand_some]
        exact h.kind
  refine ((Builder.ends_finish h.holds).and hkind).mono ?_ fun _ _ he => he.1
  rintro body a' ⟨⟨rfl, hnew⟩, hnarrowest⟩
  exact ⟨rfl, hnew, hnarrowest⟩

theorem Action.ends_ofValues {a : Arena} {early : Fault → Arena → Prop} (vs : List Value)
    (hmemory : ¬Element.object.allocatable vs.length → ∀ a', early .outOfMemory a') :
    Ends (ofValues vs) a (fun body a' => a.Booked a' ∧ body.Gathered vs) early := by
  unfold ofValues
  refine Ends.bind ((Builder.provided_new vs.length).ends_pushAll (Builder.gathers_new vs.length)
    hmemory) ?_
  rintro b a' ⟨hbooked, hgathers⟩
  refine hgathers.ends_finish.weaken ?_
  rintro body _ ⟨rfl, hbody⟩
  exact ⟨hbooked, hbody⟩

end AdaptiveArray
