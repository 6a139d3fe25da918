import AdaptiveArray.Proofs.Limit
import AdaptiveArray.Proofs.Registry

/-!
# Native arrays stay native

Storage at a native address takes every value, so an edit that writes elements or moves them
about does so where they lie.  Only where there is not enough room do they move to another
address, and the books follow: the address they leave is free again, and the one they come
to has its marker.  Parts that are handed out lie elsewhere.
-/

namespace AdaptiveArray

def Workspace.Maintains (P : Body → Prop) (w w' : Workspace) : Prop := P w.body → P w'.body

instance {P : Body → Prop} : Evolution (Workspace.Maintains P) where
  refl _ h := h
  trans h h' hw := h' (h hw)

namespace Kind

theorem forValue_native (v : Value) : native.forValue v = native := by
  cases v <;> rfl

theorem foldl_forValue_native (vs : List Value) : vs.foldl forValue native = native := by
  induction vs with
  | nil => rfl
  | cons v vs ih => rw [List.foldl_cons, forValue_native, ih]

theorem foldl_forStore_native (others : List Body) :
    others.foldl (fun k b => k.forStore b.kind) native = native := by
  induction others with
  | nil => rfl
  | cons b others ih => exact ih

end Kind

section

variable {s : Store} {address : Address} {room : Nat} (h : s.claim? = some (address, room))

include h

theorem Store.eq_native_of_claim? : ∃ slots, s = .native address slots ∧ slots.size = room := by
  cases s with
  | native own slots =>
      obtain ⟨rfl, hsize⟩ := Prod.mk.inj (Option.some.inj h)
      exact ⟨slots, rfl, hsize⟩
  | _ => cases h

theorem Store.capacity_of_claim? : s.capacity = room := by
  obtain ⟨slots, rfl, hsize⟩ := eq_native_of_claim? h
  exact hsize

end

namespace Body

structure Lodged (address : Address) (room : Nat) (b : Body) : Prop where
  claim : b.store.claim? = some (address, room)
  size_le : b.size ≤ room

/-- The elements lie at some address, and at this one while it has room for them. -/
structure Housed (address : Address) (room : Nat) (b : Body) : Prop where
  lodged : ∃ address room, b.Lodged address room
  home : b.size ≤ room → b.Lodged address room

variable {b : Body} {address : Address} {room : Nat}

theorem lodged_native (slots : Array Value) (h : b.store = .native address slots)
    (hsize : b.size ≤ slots.size) : b.Lodged address slots.size :=
  ⟨by rw [h]; rfl, hsize⟩

theorem lodged_of_kind (hkind : b.kind = .native) (hfits : b.Fits False) :
    ∃ address room, b.Lodged address room := by
  have hsize := hfits.size_le
  cases hstore : b.store with
  | native address slots =>
      rw [Body.capacity, hstore] at hsize
      exact ⟨address, slots.size, lodged_native slots hstore hsize⟩
  | _ => simp [Body.kind, hstore, Store.kind] at hkind

namespace Lodged

theorem kind (h : b.Lodged address room) : b.kind = .native := by
  obtain ⟨slots, hstore, -⟩ := Store.eq_native_of_claim? h.claim
  rw [Body.kind, hstore, Store.kind]

theorem capacity (h : b.Lodged address room) : b.capacity = room :=
  Store.capacity_of_claim? h.claim

theorem fits (h : b.Lodged address room) : b.Fits False := by
  obtain ⟨slots, hstore, -⟩ := Store.eq_native_of_claim? h.claim
  exact ⟨by rw [h.capacity]; exact h.size_le, by rw [hstore]; trivial, False.elim⟩

theorem housed (h : b.Lodged address room) : b.Housed address room :=
  ⟨⟨address, room, h⟩, fun _ => h⟩

end Lodged

end Body

namespace Edit

variable {α : Type} {w : Workspace} {address : Address} {room : Nat}

/-! ## Changes where the elements lie -/

section

variable {P : Body → Prop}

theorem maintains_of_ends {e : Edit α}
    (h : ∀ w, P w.body → Ends e w (fun _ w' => P w'.body) fun f w' => f.Fatal ∨ P w'.body) :
    Within (Workspace.Maintains P) e := fun w => by
  by_cases hw : P w.body
  · exact (h w hw).mono (fun _ _ hw' _ => hw') fun _ _ => Or.imp_right fun hw' _ => hw'
  · exact (Ends.trivial e w).mono (fun _ _ _ h => absurd h hw) fun _ _ _ =>
      .inr fun h => absurd h hw

theorem ends_of_maintains {e : Edit α} (h : Within (Workspace.Maintains P) e) (hw : P w.body) :
    Ends e w (fun _ w' => P w'.body) fun f w' => f.Fatal ∨ P w'.body :=
  (h w).mono (fun _ _ hw' => hw' hw) fun _ _ => Or.imp_right fun hw' => hw' hw

theorem maintains_lift (act : Action α) : Within (Workspace.Maintains P) (liftM act : Edit α) :=
  fun w => by
    rw [ends_lift]
    exact (Ends.trivial act w.arena).mono (fun _ _ _ h => h) fun _ _ _ => .inr fun h => h

theorem maintains_propagate (v : Value) : Within (Workspace.Maintains P) (propagate v) :=
  .bind .get fun _ => .ite (maintains_lift _) (.pure _)

end

theorem ensureStorage_of_lodged (h : w.body.Lodged address room) {needed : Nat}
    (hroom : needed ≤ room) (aside : List Store) :
    ensureStorage .native needed aside w = .ok () w := by
  have hready : w.body.kind.isMutable → needed ≤ w.body.capacity →
      ensureStorage w.body.kind needed aside w = .ok () w := ensureStorage_of_ready
  rw [h.kind, h.capacity] at hready
  exact hready rfl hroom

theorem ends_ensureStorage_of_lodged (h : w.body.Lodged address room) {needed : Nat}
    (hroom : needed ≤ room) {aside : List Store} {post : Unit → Workspace → Prop}
    {early : Fault → Workspace → Prop} :
    Ends (ensureStorage .native needed aside) w post early ↔ post () w :=
  ends_of_ok (ensureStorage_of_lodged h hroom aside)

instance : Workspace.Settled (Workspace.Maintains (Body.Lodged address room)) where
  counted _ _ _ h := h
  revised w b hclaim hsize h := by
    have hclaim := hclaim.trans h.claim
    refine ⟨hclaim, hsize.elim (fun hle => Nat.le_trans hle h.size_le) fun hle => ?_⟩
    exact Nat.le_trans hle (Nat.le_of_eq (Store.capacity_of_claim? hclaim))
  ensureMutable := maintains_of_ends fun w h => by
    rw [ensureMutable, ends_bind, ends_kind, ends_bind, ends_size, h.kind]
    exact (ends_ensureStorage_of_lodged h h.size_le).mpr h

section

variable {n : Nat} {k : Unit → Edit α}

theorem lodged_size {k : Nat → Edit α}
    (h : ∀ n ≤ room, Within (Workspace.Maintains (Body.Lodged address room)) (k n)) :
    Within (Workspace.Maintains (Body.Lodged address room)) (size >>= k) :=
  maintains_of_ends fun w hw => by
    rw [ends_bind, ends_size]
    exact ends_of_maintains (h _ hw.size_le) hw

theorem lodged_ready (hroom : n ≤ room) (v : Value)
    (h : Within (Workspace.Maintains (Body.Lodged address room)) (k ())) :
    Within (Workspace.Maintains (Body.Lodged address room))
      (kind >>= fun current => ensureStorage (current.forValue v) n >>= k) :=
  maintains_of_ends fun w hw => by
    rw [ends_bind, ends_kind, hw.kind, Kind.forValue_native, ends_bind,
      ends_ensureStorage_of_lodged hw hroom]
    exact ends_of_maintains h hw

end

theorem lodged_fill (v : Value) :
    Within (Workspace.Maintains (Body.Lodged address room)) (fill v) :=
  .bind within_checkFrozen fun _ => lodged_size fun _ hn => .ite (.pure _)
    (.bind (maintains_propagate v) fun _ => lodged_ready hn v
      (.bind (maintains_lift _) fun _ => within_setSlots _ _))

theorem lodged_mapFrom (f : Block Value) {n : Nat} (hn : n ≤ room) (left i : Nat) :
    Within (Workspace.Maintains (Body.Lodged address room)) (mapFrom f n left i) := by
  induction left generalizing i with
  | zero => exact .pure ()
  | succ left ih =>
      exact .bind (within_getSlot i) fun _ => .bind (maintains_lift _) fun mapped =>
        .bind (maintains_propagate mapped) fun _ => lodged_ready hn mapped
          (.bind (within_setSlot i mapped) fun _ => ih (i + 1))

theorem lodged_map (f : Block Value) :
    Within (Workspace.Maintains (Body.Lodged address room)) (map f) :=
  .bind within_checkFrozen fun _ => lodged_size fun _ hn => lodged_mapFrom f hn _ _

theorem lodged_rotate (count : Int64) :
    Within (Workspace.Maintains (Body.Lodged address room)) (rotate count) := by
  refine .bind within_checkFrozen fun _ => .bind within_size fun n => .ite (.pure _)
    (.ite (.pure _) (maintains_of_ends fun w hw => ?_))
  have hmutable : w.body.store.isMutable := by
    rw [Store.isMutable, show w.body.store.kind = .native from hw.kind]
    rfl
  rw [ends_bind, ends_isMutable, if_neg (by simp [hmutable])]
  exact ends_of_maintains (within_rotateInPlace _ n) hw

theorem lodged_toNative : Within (Workspace.Maintains (Body.Lodged address room)) toNative :=
  maintains_of_ends fun w hw => by
    obtain ⟨slots, hstore, -⟩ := Store.eq_native_of_claim? hw.claim
    rw [toNative, ends_bind, ends_store, hstore]
    exact hw

/-! ## Changes that may need more room -/

section

variable {total : Nat} {rest : Edit Unit}

theorem ends_housed_of_lt (hlt : room < total) (hlodged : ∃ own n, w.body.Lodged own n)
    (hrest : ∀ own n, Within (Workspace.Maintains (Body.Lodged own n)) rest)
    (hsize : Ends rest w (fun _ w' => w'.body.size = total) fun f _ => f.Fatal) :
    Ends rest w (fun _ w' => w'.body.Housed address room)
      fun f w' => f.Fatal ∨ w'.body.Housed address room := by
  obtain ⟨own, n, hown⟩ := hlodged
  refine (hsize.and (ends_of_maintains (hrest own n) hown)).mono (fun _ w' h => ?_)
    fun _ _ h => .inl h.1
  exact ⟨⟨own, n, h.2⟩, fun hle => absurd (h.1 ▸ hle) (Nat.not_le_of_lt hlt)⟩

theorem ends_grow (hw : w.body.Housed address room) (hle : w.body.size ≤ total)
    {aside : List Store} (hrest : ∀ own n, Within (Workspace.Maintains (Body.Lodged own n)) rest)
    (hsize : ∀ w₁ : Workspace, w₁.body.size = w.body.size →
      Ends rest w₁ (fun _ w' => w'.body.size = total) fun f _ => f.Fatal) :
    Ends (do
      ensureStorage .native total aside
      rest) w (fun _ w' => w'.body.Housed address room)
      fun f w' => f.Fatal ∨ w'.body.Housed address room := by
  -- with room enough the elements have been home all along, and otherwise they need not be there
  by_cases hroom : total ≤ room
  · have hhome := hw.home (Nat.le_trans hle hroom)
    rw [ends_bind, ends_ensureStorage_of_lodged hhome hroom]
    exact ((hsize w rfl).and (ends_of_maintains (hrest _ _) hhome)).mono
      (fun _ _ h => h.2.housed) fun _ _ h => .inl h.1
  · obtain ⟨own, n, hown⟩ := hw.lodged
    have hwide : w.body.kind.widens .native := hown.kind ▸ Kind.widens_refl _
    refine Ends.bind (ends_ensureStorage hown.fits hwide rfl hle fun _ _ =>
      .inl Fault.fatal_outOfMemory) fun _ w₁ hready => ?_
    exact ends_housed_of_lt (Nat.lt_of_not_le hroom)
      (Body.lodged_of_kind hready.kind hready.fits) hrest (hsize w₁ hready.size)

end

theorem housed_push (v : Value) :
    Within (Workspace.Maintains (Body.Housed address room)) (push v) := by
  refine .bind within_checkFrozen fun _ => .bind (maintains_propagate v) fun _ =>
    maintains_of_ends fun w hw => ?_
  obtain ⟨own, n, hown⟩ := hw.lodged
  let rest : Edit Unit := do
    setSlot w.body.size v
    setSize (w.body.size + 1)
  have hrest (own : Address) (n : Nat) : Within (Workspace.Maintains (Body.Lodged own n)) rest :=
    .bind (within_setSlot _ v) fun _ => within_setSize _
  have hunfailing : Unfailing rest := .bind (unfailing_setSlot _ v) fun _ => unfailing_setSize _
  have hsize := Sizes.ends (.bind fun _ => .setSize (w.body.size + 1)) hunfailing
  rw [ends_bind, ends_size, ends_bind, ends_kind, ends_bind, ends_capacity, hown.kind,
    Kind.forValue_native]
  dsimp only
  split
  case isTrue hfull =>
      rw [ends_bind, ends_lift]
      refine (Action.ends_capacityForOneMore _).weaken fun slots a hslots => ?_
      split
      case isTrue => exact .inr hw
      case isFalse hmax =>
          -- at home the store would have a slot to spare
          have hover : room < w.body.size + 1 := by
            refine Nat.lt_of_not_le fun hle => ?_
            have hcapacity := (hw.home (Nat.le_of_succ_le hle)).capacity
            omega
          have hgrown : w.body.size ≤ slots := by
            have hword : maxSize < UInt64.size - 1 := by decide
            exact hslots.2 ▸ Options.le_capacityForOneMore (by omega)
          have hwide : w.body.kind.widens .native := hown.kind ▸ Kind.widens_refl _
          exact Ends.bind (ends_reallocate False hown.fits hwide rfl hgrown fun _ _ =>
            .inl Fault.fatal_outOfMemory) fun _ w₁ hready => ends_housed_of_lt hover
              (Body.lodged_of_kind hready.kind hready.fits) hrest (hsize w₁)
  case isFalse => exact ends_grow hw (Nat.le_succ _) hrest fun w₁ _ => hsize w₁

theorem housed_pushAll (vs : List Value) :
    Within (Workspace.Maintains (Body.Housed address room)) (pushAll vs) :=
  .bind within_checkFrozen fun _ => .forM housed_push vs

theorem housed_concat (others : List Body) :
    Within (Workspace.Maintains (Body.Housed address room)) (concat others) := by
  refine .bind within_checkFrozen fun _ => maintains_of_ends fun w hw => ?_
  obtain ⟨own, n, hown⟩ := hw.lodged
  have hrest (n total : Nat) : Unfailing (do
      let grown ← Action.copyAll n others (← takeStore)
      replaceStore grown total) :=
    .bind (fun _ => trivial) fun _ => .bind (unfailing_lift (Action.unfailing_copyAll _ _ _))
      fun _ => unfailing_replaceStore _ _
  rw [ends_bind, ends_size]
  dsimp only
  split
  case isTrue => exact hw
  case isFalse =>
      split
      case isTrue => exact .inr hw
      case isFalse =>
          rw [ends_bind, ends_kind, hown.kind, Kind.foldl_forStore_native, ends_bind,
            ends_forM_propagateAll]
          refine ends_grow ?_ ?_ (fun own n => within_append _ _ others) fun w₁ _ =>
            Sizes.ends (.bind fun _ => .bind fun _ => .replaceStore _ _) (hrest _ _) w₁
          · rwa [Workspace.body_foldl_offer]
          · rw [Workspace.body_foldl_offer]
            exact Nat.le_add_right _ _

theorem housed_insertAt (position : Nat) (vs : List Value) :
    Within (Workspace.Maintains (Body.Housed address room)) (insertAt position vs) := by
  refine maintains_of_ends fun w hw => ?_
  obtain ⟨own, n, hown⟩ := hw.lodged
  unfold insertAt
  rw [ends_bind, ends_size]
  dsimp only
  split
  case isTrue => exact .inr hw
  case isFalse =>
      rw [ends_bind, ends_kind, hown.kind, Kind.forValue_native, ite_self,
        Kind.foldl_forValue_native, ends_bind, ends_propagateAll]
      refine ends_grow ?_ ?_ (fun own n => within_spliceSlots _ _ vs) fun w₁ _ =>
        Sizes.ends (.spliceSlots _ _ vs) (unfailing_spliceSlots _ _ vs) w₁
      · rwa [Workspace.body_foldl_offer]
      · rw [Workspace.body_foldl_offer]
        exact Nat.le_trans (Nat.le_max_right _ _) (Nat.le_add_right _ _)

theorem housed_insert (index : Int64) (vs : List Value) :
    Within (Workspace.Maintains (Body.Housed address room)) (insert index vs) :=
  .bind within_checkFrozen fun _ => .ite (.pure _) (.bind within_size fun _ => .ite
    (.ite (.bind (maintains_lift _) fun _ => housed_insertAt _ vs) (housed_insertAt _ vs))
    (housed_insertAt _ vs))

theorem housed_unshift (vs : List Value) :
    Within (Workspace.Maintains (Body.Housed address room)) (unshift vs) :=
  .bind within_checkFrozen fun _ => .ite (.pure _) (housed_insertAt 0 vs)

theorem housed_set (index : Int64) (v : Value) :
    Within (Workspace.Maintains (Body.Housed address room)) (set index v) := by
  refine .bind within_checkFrozen fun _ => maintains_of_ends fun w hw => ?_
  obtain ⟨own, n, hown⟩ := hw.lodged
  rw [ends_bind, ends_size, ends_bind, ends_get]
  split
  case h_1 => exact .inr hw
  case h_2 position _ =>
      have hoffered : (w.offer v).body.Housed address room := by rwa [Workspace.body_offer]
      rw [ends_bind, ends_propagate, ends_bind, ends_kind, Workspace.body_offer, hown.kind,
        Kind.forValue_native]
      dsimp only
      split
      case isTrue =>
          refine ends_grow hoffered (Nat.le_refl _) (fun own n => within_setSlot position v)
            fun w₁ hsame => ?_
          exact ((unfailing_setSlot position v).within (rehoused_setSlot position v) w₁).weaken
            fun _ _ h => h.size.trans hsame
      case isFalse hge =>
          split
          case isTrue => exact .inr hoffered
          case isFalse =>
              rw [Kind.forValue_native, ite_self]
              refine ends_grow hoffered ?_ (fun own n => within_extendSlots _ _ v) fun w₁ _ =>
                Sizes.ends (.extendSlots _ _ v) (unfailing_extendSlots _ _ v) w₁
              rw [Workspace.body_offer]
              omega

end Edit

/-! ## The books -/

structure Workspace.Recorded (address : Address) (room : Nat) (w : Workspace) : Prop where
  used : address < w.arena.nextAddress
  own : ∀ own n, w.body.store.claim? = some (own, n) → own < w.arena.nextAddress
  moved : w.body.store.claim? = some (address, room) ∨
    w.arena.registration? address = none ∧
      ∀ own n, w.body.store.claim? = some (own, n) →
        own ≠ address ∧ w.arena.registration? own = some ⟨n, true⟩

def Workspace.Records (address : Address) (room : Nat) (w w' : Workspace) : Prop :=
  w.Recorded address room → w'.Recorded address room

namespace Workspace.Recorded

variable {address : Address} {room : Nat} {w : Workspace}

theorem withArena (h : w.Recorded address room) {a : Arena}
    (hregistry : a.registry = w.arena.registry)
    (hnext : a.nextAddress = w.arena.nextAddress) : (w.withArena a).Recorded address room where
  used := hnext ▸ h.used
  own own n hown := hnext ▸ h.own own n hown
  moved := by
    have hsame : a.registration? = w.arena.registration? := by
      funext
      rw [Arena.registration?, Arena.registration?, hregistry]
    exact hsame ▸ h.moved

theorem away (h : w.Recorded address room) {own : Address} {n : Nat} (hown : w.body.Lodged own n)
    (hlt : room < w.body.size) : own ≠ address ∧ w.arena.registration? address = none ∧
      w.arena.registration? own = some ⟨n, true⟩ := by
  rcases h.moved with hclaim | ⟨hnone, hmarked⟩
  · rw [hown.claim] at hclaim
    have hsame : n = room := (Prod.mk.inj (Option.some.inj hclaim)).2
    exact absurd (hsame ▸ hown.size_le) (Nat.not_le_of_lt hlt)
  · obtain ⟨hne, hentry⟩ := hmarked own n hown.claim
    exact ⟨hne, hnone, hentry⟩

theorem replaced (h : w.Recorded address room) {s : Store} (n : Nat)
    (hs : ∀ own n, s.claim? = some (own, n) → own < w.arena.nextAddress ∧ own ≠ address ∧
      w.body.store.address? ≠ some own ∧ w.arena.registration? own = some ⟨n, true⟩) :
    (w.replaced s n).Recorded address room where
  used := (w.arena.nextAddress_release w.body.store).symm ▸ h.used
  own own n hown := (w.arena.nextAddress_release w.body.store).symm ▸ (hs own n hown).1
  moved := by
    have hrelease (own : Address) : (w.replaced s n).arena.registration? own =
        if w.body.store.address? = some own then none else w.arena.registration? own :=
      w.arena.registration?_release w.body.store own
    refine .inr ⟨?_, fun own n hown => ?_⟩
    · rw [hrelease]
      split
      case isTrue => rfl
      case isFalse hgone =>
          rcases h.moved with hclaim | ⟨hnone, -⟩
          · rw [Store.address?_eq, hclaim] at hgone
            exact absurd rfl hgone
          · exact hnone
    · obtain ⟨-, hne, hapart, hentry⟩ := hs own n hown
      exact ⟨hne, by rw [hrelease, if_neg hapart, hentry]⟩

theorem rehoused (h : w.Recorded address room) {a : Arena} (slots : Array Value) (n : Nat)
    (ha : (w.arena.enrolled slots.size).Counted a) :
    ((w.withArena (a.attachMarker (.native w.arena.nextAddress slots))).replaced
      (.native w.arena.nextAddress slots) n).Recorded address room := by
  let moved := a.attachMarker (.native w.arena.nextAddress slots)
  have hnext : moved.nextAddress = w.arena.nextAddress + 1 :=
    (a.nextAddress_attachMarker _).trans ha.nextAddress
  have hentry := Arena.registration?_attachMarker ha
  have hkept {own : Address} (hown : own < w.arena.nextAddress) :
      moved.registration? own = w.arena.registration? own := by
    rw [hentry, if_neg (Nat.ne_of_lt hown)]
  have hmoved : (w.withArena moved).Recorded address room := by
    refine ⟨hnext ▸ Nat.lt_succ_of_lt h.used,
      fun own n hown => hnext ▸ Nat.lt_succ_of_lt (h.own own n hown), h.moved.imp_right ?_⟩
    rintro ⟨hnone, hmarked⟩
    refine ⟨(hkept h.used).trans hnone, fun own n hown => ?_⟩
    exact ⟨(hmarked own n hown).1, (hkept (h.own own n hown)).trans (hmarked own n hown).2⟩
  refine hmoved.replaced n ?_
  rintro _ _ ⟨⟩
  refine ⟨hnext ▸ Nat.lt_succ_self _, Nat.ne_of_gt h.used, fun hat => ?_,
    (hentry _).trans (if_pos rfl)⟩
  rw [Workspace.body_withArena, Store.address?_eq, Option.map_eq_some_iff] at hat
  obtain ⟨⟨own, n⟩, hclaim, rfl⟩ := hat
  exact Nat.lt_irrefl _ (h.own _ n hclaim)

end Workspace.Recorded

instance {address : Address} {room : Nat} : Workspace.Frame (Workspace.Records address room) where
  refl _ h := h
  trans h h' hw := h' (h hw)
  counted _ _ ha h := h.withArena ha.registry ha.nextAddress
  revised w b hclaim _ h := ⟨h.used, hclaim ▸ h.own, hclaim ▸ h.moved⟩
  replaced w s n hs h := h.replaced n fun own n hown => by rw [hs] at hown; cases hown
  rehoused _ _ slots n ha h := h.rehoused slots n ha
  shareValue w v h := by
    have hrest := (Arena.Remarked.shareValue w.arena v).rest
    exact h.withArena (by rw [hrest]) (by rw [hrest])

/-! ## Changes of an array -/

namespace Mutation

def resettles : Mutation → Bool
  | shift => true
  | shiftN _ => true
  | clear => true
  | replace _ => true
  | steal _ => true
  | restart _ _ => true
  | restartWith _ _ => true
  | sort => true
  | _ => false

variable {m : Mutation} {address : Address} {room : Nat}

theorem lodged_edit (hstays : ¬m.resettles) (hadds : ¬m.adds) :
    Within (Workspace.Maintains (Body.Lodged address room)) m.edit := by
  cases m with
  | fill v => exact .bind (Edit.lodged_fill v) fun _ => .pure _
  | map f => exact .bind (Edit.lodged_map f) fun _ => .pure _
  | delete v => exact .bind (Edit.within_deleteOr fun _ => .pure _) fun _ => .pure _
  | deleteOr v missing =>
      exact .bind (Edit.within_deleteOr fun _ => Edit.maintains_lift _) fun _ => .pure _
  | deleteAt index => exact .bind (Edit.within_deleteAt index) fun _ => .pure _
  | compact => exact .bind Edit.within_compact fun _ => .pure _
  | reject f =>
      exact .bind (Edit.within_reject fun _ => Edit.maintains_lift _) fun _ => .pure _
  | keepIf f =>
      exact .bind (Edit.within_keepIf fun _ => Edit.maintains_lift _) fun _ => .pure _
  | pop => exact .bind Edit.within_pop fun _ => .pure _
  | popN count => exact .bind (Edit.within_popN count) fun _ => .pure _
  | slice start length =>
      exact .bind (Edit.within_slice start length) fun part => by cases part <;> exact .pure _
  | dup => exact .bind Edit.within_dup fun _ => .pure _
  | extract start stop =>
      exact .bind (Edit.yields_extractShared start stop).within fun _ => .pure _
  | rotate count => exact .bind (Edit.lodged_rotate count) fun _ => .pure _
  | freeze => exact .bind Edit.within_freeze fun _ => .pure _
  | toNative => exact .bind Edit.lodged_toNative fun _ => .pure _
  | _ => first | exact absurd rfl hstays | exact absurd rfl hadds

theorem housed_edit (hstays : ¬m.resettles) (hadds : m.adds) :
    Within (Workspace.Maintains (Body.Housed address room)) m.edit := by
  cases m with
  | push v => exact .bind (Edit.housed_push v) fun _ => .pure _
  | pushAll vs => exact .bind (Edit.housed_pushAll vs) fun _ => .pure _
  | insert index vs => exact .bind (Edit.housed_insert index vs) fun _ => .pure _
  | unshift vs => exact .bind (Edit.housed_unshift vs) fun _ => .pure _
  | set index v => exact .bind (Edit.housed_set index v) fun _ => .pure _
  | concat others => exact .bind (Edit.housed_concat others) fun _ => .pure _
  | _ => first | exact absurd rfl hstays | exact absurd hadds Bool.false_ne_true

theorem recorded_edit (hstays : ¬m.resettles) (hadds : m.adds) :
    Within (Workspace.Records address room) m.edit := by
  have hsteps : m.Steps (Workspace.Records address room) := by
    cases m with
    | restartWith size f => exact absurd rfl hstays
    | _ => trivial
  exact (yields_edit hsteps).within

theorem unclaimed_edit (m : Mutation) :
    Yields (Workspace.Follows fun _ _ => True) Reply.Unclaimed m.edit := by
  have hany {α : Type} (act : Action α) : Within (fun _ _ => True) act := fun a =>
    (Ends.trivial act a).mono (fun _ _ _ => trivial) fun _ _ _ => .inr trivial
  have hstays : m.Stays fun _ _ => True := by
    cases m <;> first | trivial | exact fun _ => hany _ | exact fun _ _ _ _ => trivial
  exact yields_edit hstays.steps

/-- An array in native storage stays in native storage, whatever values it takes, unless the change
puts another store in its place.  It keeps its address while that has room; otherwise the old
address is free again and the marker of the new one is attached.  What is handed out is not
native. -/
theorem native_stays {w w' : Workspace} {reply : Reply} {slots : Array Value}
    (hstays : ¬m.resettles) (hstore : w.body.store = .native address slots)
    (hsize : w.body.size ≤ slots.size) (hused : address < w.arena.nextAddress)
    (hrun : m.edit w = .ok reply w') :
    (∃ address' slots', w'.body.store = .native address' slots' ∧
      (w'.body.size ≤ slots.size → address' = address ∧ slots'.size = slots.size) ∧
      (slots.size < w'.body.size → address' ≠ address ∧
        w'.arena.registration? address = none ∧
        w'.arena.registration? address' = some ⟨slots'.size, true⟩)) ∧
    ∀ s, reply.store? = some s → s.kind ≠ .native := by
  have hlodged : w.body.Lodged address slots.size := Body.lodged_native slots hstore hsize
  refine ⟨?_, fun s hs => Store.claim?_eq_none.mp (((m.unclaimed_edit w).of_ok hrun).1 s hs)⟩
  by_cases hadds : m.adds
  case neg =>
      have hkept := (lodged_edit hstays hadds).of_ok hrun hlodged
      obtain ⟨slots', hstore', hroom⟩ := Store.eq_native_of_claim? hkept.claim
      exact ⟨address, slots', hstore', fun _ => ⟨rfl, hroom⟩,
        fun hlt => absurd hkept.size_le (Nat.not_le_of_lt hlt)⟩
  case pos =>
      have hhoused := (housed_edit hstays hadds).of_ok hrun hlodged.housed
      have hstart : w.Recorded address slots.size := by
        refine ⟨hused, fun own n hown => ?_, .inl hlodged.claim⟩
        rw [hlodged.claim] at hown
        cases hown
        exact hused
      have hrecorded := (recorded_edit hstays hadds).of_ok hrun hstart
      obtain ⟨own, n, hown⟩ := hhoused.lodged
      obtain ⟨slots', hstore', rfl⟩ := Store.eq_native_of_claim? hown.claim
      refine ⟨own, slots', hstore', fun hle => ?_, hrecorded.away hown⟩
      have hhome := (hhoused.home hle).claim
      rw [hown.claim] at hhome
      exact Prod.mk.inj (Option.some.inj hhome)

/-- A full array: taking an element leaves the others where they are, and one more moves them. -/
theorem native_stays_full :
    let w : Workspace := ⟨0, { store := .native 7 #[.int 1, .int 2], size := 2 },
      { registry := [(7, ⟨2, true⟩)], nextAddress := 8 }⟩
    (∃ part w', (popN 1).edit w = .ok (.body part) w' ∧ part.kind ≠ .native ∧
      ∃ slots, w'.body.store = .native 7 slots ∧ slots.size = 2) ∧
    ∃ w', (push (.string 0 "x")).edit w = .ok .nothing w' ∧
      ∃ address slots, w'.body.store = .native address slots ∧ address ≠ 7 ∧
        w'.arena.registration? 7 = none ∧
        w'.arena.registration? address = some ⟨slots.size, true⟩ := by
  intro w
  have hpop : ∃ part w', (popN 1).edit w = .ok (.body part) w' ∧ w'.body.size = 1 :=
    ⟨_, _, by with_unfolding_all rfl, rfl⟩
  have hpush : ∃ w', (push (.string 0 "x")).edit w = .ok .nothing w' ∧ w'.body.size = 3 :=
    ⟨_, by with_unfolding_all rfl, rfl⟩
  constructor
  · obtain ⟨part, w', hrun, hone⟩ := hpop
    obtain ⟨⟨address, slots, hstore, hkept, -⟩, hpart⟩ :=
      native_stays (by decide) rfl (by decide) (by decide) hrun
    obtain ⟨rfl, hsize⟩ := hkept (by rw [hone]; decide)
    exact ⟨part, w', hrun, hpart _ rfl, slots, hstore, hsize⟩
  · obtain ⟨w', hrun, hthree⟩ := hpush
    obtain ⟨⟨address, slots, hstore, -, hmoved⟩, -⟩ :=
      native_stays (by decide) rfl (by decide) (by decide) hrun
    exact ⟨w', hrun, address, slots, hstore, hmoved (by rw [hthree]; decide)⟩

end Mutation

end AdaptiveArray
