import AdaptiveArray.Proofs.Failing
import AdaptiveArray.Proofs.Writing

/-!
# The size limit

No array has more than `maxSize` elements.  Each edit that adds elements works out how
many there would be, and refuses before it changes anything if they are too many; only
pushing looks at the limit no sooner than when the store is full.
-/

namespace AdaptiveArray

def Mutation.adds : Mutation → Bool
  | push _ => true
  | pushAll _ => true
  | concat _ => true
  | insert _ _ => true
  | unshift _ => true
  | set _ _ => true
  | restart _ _ => true
  | restartWith _ _ => true
  | _ => false

def sizeDemand? (n : Int64) : Option (Nat × ArrayError) :=
  if n.toInt < 0 then none else some (n.toInt.toNat, .sizeTooBig)

/-- How many elements an array would have after a change that adds some, and the error that refuses
too many. -/
def Mutation.demand? (b : Body) : Mutation → Option (Nat × ArrayError)
  | push _ => some (b.size + 1, .sizeTooBig)
  | pushAll vs => some (b.size + vs.length, .sizeTooBig)
  | concat others => some (b.size + others.foldl (fun n b => n + b.size) 0, .combinedSizeTooBig)
  | insert index vs =>
      if vs.isEmpty then none
      else (positionOf? (b.size + 1) index).map fun position =>
        (max position b.size + vs.length, .indexTooBig position)
  | unshift vs => if vs.isEmpty then none else some (b.size + vs.length, .indexTooBig 0)
  | set index _ => (b.position? index).map fun position =>
      (max (position + 1) b.size, .indexTooBig index.toInt)
  | restart (some (.int n)) _ => sizeDemand? n
  | restart (some (.float x)) _ => if x.isFinite then sizeDemand? x.toInt64 else none
  | restartWith n _ => sizeDemand? n
  | _ => none

def Mutation.pushed : Mutation → List Value
  | push v => [v]
  | pushAll vs => vs
  | _ => []

namespace Edit

variable {α β : Type} {w : Workspace} {n : Nat} {err : ArrayError}

/-- While the values are pushed one after another, the store is full whenever the array is as large
as arrays may be. -/
def FullAtLimit (w : Workspace) (vs : List Value) : Prop :=
  ∀ k < vs.length, ∀ w', (vs.take k).forM push w = .ok () w' →
    w'.body.size = maxSize → w'.body.capacity = maxSize

/-! ## How many elements an edit leaves -/

def Sizes (n : Nat) (e : Edit α) : Prop :=
  ∀ w, Ends e w (fun _ w' => w'.body.size = n) fun _ _ => True

namespace Sizes

theorem setSize (n : Nat) : Sizes n (setSize n) := fun w => by
  rw [Edit.setSize, ends_bind, ends_get, ends_bind, ends_lift, Action.ends_ensure]
  split
  · exact rfl
  · trivial

theorem replaceStore (s : Store) (n : Nat) : Sizes n (replaceStore s n) := fun w => by
  rw [Edit.replaceStore, ends_bind, ends_lift, Action.ends_ensure]
  split
  · exact rfl
  · trivial

protected theorem bind {c : Edit α} {k : α → Edit β} (h : ∀ x, Sizes n (k x)) :
    Sizes n (c >>= k) := fun w =>
  Ends.bind (Ends.trivial c w) fun x w' _ => h x w'

protected theorem ite {p : Prop} [Decidable p] {c d : Edit α} (hc : Sizes n c) (hd : Sizes n d) :
    Sizes n (if p then c else d) := by
  split
  · exact hc
  · exact hd

theorem spliceSlots (position n : Nat) (vs : List Value) :
    Sizes (max position n + vs.length) (spliceSlots position n vs) :=
  .ite (.bind fun _ => .bind fun _ => .setSize _) (.bind fun _ => .bind fun _ => .setSize _)

theorem extendSlots (n position : Nat) (v : Value) :
    Sizes (position + 1) (extendSlots n position v) :=
  .bind fun _ => .bind fun _ => .setSize _

theorem ends {e : Edit α} (h : Sizes n e) (hunfailing : Unfailing e) (w : Workspace) :
    Ends e w (fun _ w' => w'.body.size = n) fun f _ => f.Fatal :=
  ((h w).and (hunfailing w)).mono (fun _ _ h => h.1) fun _ _ h => h.2

end Sizes

/-! ### Steps that change the store at most -/

structure Rehoused (w w' : Workspace) : Prop where
  size : w'.body.size = w.body.size
  frozen : w'.body.frozen = w.body.frozen

instance : Evolution Rehoused where
  refl _ := ⟨rfl, rfl⟩
  trans h h' := ⟨h'.size.trans h.size, h'.frozen.trans h.frozen⟩

theorem rehoused_lift (act : Action α) : Within Rehoused (liftM act : Edit α) := fun w => by
  rw [ends_lift]
  exact (Ends.trivial act w.arena).mono (fun _ _ _ => ⟨rfl, rfl⟩) fun _ _ _ => .inr ⟨rfl, rfl⟩

theorem rehoused_setSlot (i : Nat) (v : Value) : Within Rehoused (setSlot i v) :=
  .bind .get fun _ => .bind (rehoused_lift _) fun _ => .modify fun _ => ⟨rfl, rfl⟩

theorem rehoused_replaceStore (s : Store) {w₁ : Workspace} (h : Rehoused w w₁) :
    Ends (replaceStore s w.body.size) w₁ (fun _ w' => Rehoused w w')
      fun f w' => f.Fatal ∨ Rehoused w w' := by
  rw [replaceStore, ends_bind, ends_lift, Action.ends_ensure]
  split
  · exact ⟨rfl, h.frozen⟩
  · exact .inl Fault.fatal_broken

theorem rehoused_reallocate (target : Kind) (capacity : Nat) :
    Within Rehoused (reallocate target capacity) := fun w => by
  rw [reallocate, ends_bind, ends_size, ends_bind, ends_lift]
  refine (Action.unfailing_allocate target capacity _).mono (fun fresh a _ => ?_)
    fun _ _ hf => .inl hf
  rw [ends_bind, ends_store, ends_bind, ends_lift]
  refine (Action.unfailing_copyTo _ _ _ _ _ _).mono (fun grown a' _ => ?_) fun _ _ hf => .inl hf
  rw [ends_bind, ends_modify]
  exact rehoused_replaceStore grown ⟨rfl, rfl⟩

theorem rehoused_unshare (v : View) (aside : List Store) :
    Within Rehoused (unshare v aside) := fun w => by
  rw [unshare, ends_bind, ends_size, isSole, bind_assoc, ends_bind, ends_get, pure_bind, ends_bind,
    ends_lift]
  refine (Action.unfailing_own v _ _).mono (fun owned a _ => ?_) fun _ _ hf => .inl hf
  rw [ends_bind, ends_lift]
  refine (Action.unfailing_clearRange owned _ _ _).mono (fun owned a' _ => ?_) fun _ _ hf => .inl hf
  exact rehoused_replaceStore owned ⟨rfl, rfl⟩

theorem rehoused_ensureStorage (target : Kind) (needed : Nat) (aside : List Store) :
    Within Rehoused (ensureStorage target needed aside) := by
  have hgrow (capacity : Nat) : Within Rehoused
      (ensureStorage.room needed capacity >>= reallocate target) :=
    .bind (.ite (rehoused_lift _) (.pure _)) fun _ => rehoused_reallocate _ _
  refine .bind (.bind .get fun _ => .pure _) fun _ => .bind (.bind .get fun _ => .pure _) fun _ =>
    .ite (.pure _) (.bind (.bind .get fun _ => .pure _) fun s => ?_)
  cases s with
  | view v => exact .ite (rehoused_unshare v aside) (hgrow _)
  | _ => exact hgrow _

/-! ## Edits that check the limit first -/

/-- The edit leaves `n` elements if an array may have so many.  It refuses more with the error,
before it changes the array; any other error leaves no more elements than an array may have. -/
def Limits (n : Nat) (err : ArrayError) (e : Edit Unit) (w : Workspace) : Prop :=
  Ends e w (fun _ w' => n ≤ maxSize ∧ w'.body.size = n) fun f w' =>
    n ≤ maxSize ∧ (f.Fatal ∨ w'.body.size ≤ n) ∨
      w'.body = w.body ∧ (w.body.frozen ∨ maxSize < n ∧ f = .raised err)

namespace Limits

theorem checkFrozen {k : Unit → Edit Unit} (h : Limits n err (k ()) w) :
    Limits n err (Edit.checkFrozen >>= k) w := by
  unfold Limits
  rw [ends_bind, ends_checkFrozen]
  split
  case isTrue hfrozen => exact .inr ⟨rfl, .inl hfrozen⟩
  case isFalse => exact h

theorem propagate {v : Value} {k : Unit → Edit Unit} (h : Limits n err (k ()) (w.offer v)) :
    Limits n err (Edit.propagate v >>= k) w := by
  unfold Limits at h ⊢
  rw [Workspace.body_offer] at h
  rw [ends_bind, ends_propagate]
  exact h

theorem size {k : Nat → Edit Unit} (h : Limits n err (k w.body.size) w) :
    Limits n err (Edit.size >>= k) w := h

theorem kind {k : Kind → Edit Unit} (h : Limits n err (k w.body.kind) w) :
    Limits n err (Edit.kind >>= k) w := h

theorem fail {k : Unit → Edit Unit} (h : maxSize < n) :
    Limits n err (liftM (Action.fail err : Action Unit) >>= k) w :=
  .inr ⟨rfl, .inr ⟨h, rfl⟩⟩

theorem check {e : Edit Unit} (h : n ≤ maxSize → Limits n err e w) :
    Limits n err (if maxSize < n then
      liftM (Action.fail err : Action Unit) >>= fun _ => e else e) w := by
  split
  case isTrue hbig => exact fail hbig
  case isFalse hbig => exact h (Nat.le_of_not_lt hbig)

theorem change {e : Edit Unit} (hle : n ≤ maxSize) (hunfailing : Unfailing e) (h : Sizes n e) :
    Limits n err e w :=
  (h.ends hunfailing w).mono (fun _ _ h => ⟨hle, h⟩) fun _ _ h => .inl ⟨hle, .inl h⟩

theorem nothing (hsize : w.body.size ≤ maxSize) : Limits w.body.size err (pure ()) w :=
  ⟨hsize, rfl⟩

end Limits

private theorem ends_pushSlot {c : Edit Unit} (hunfailing : Unfailing c)
    (hrehoused : Within Rehoused c) (n : Nat) (v : Value) :
    Ends (do c; setSlot n v; setSize (n + 1)) w
      (fun _ w' => w'.body.size = n + 1 ∧ w'.body.frozen = w.body.frozen) fun f _ => f.Fatal := by
  refine Ends.bind (hunfailing.within hrehoused w) fun _ w₁ h₁ => ?_
  refine Ends.bind ((unfailing_setSlot n v).within (rehoused_setSlot n v) w₁) fun _ w₂ h₂ => ?_
  rw [setSize, ends_bind, ends_get, ends_bind, ends_lift, Action.ends_ensure]
  split
  · exact ⟨rfl, h₂.frozen.trans h₁.frozen⟩
  · exact Fault.fatal_broken

theorem ends_push_counted (v : Value) (w : Workspace) :
    Ends (push v) w
      (fun _ w' => w'.body.size = w.body.size + 1 ∧ w'.body.frozen = w.body.frozen ∧
        (w.body.size = w.body.capacity → w.body.size < maxSize))
      fun f w' => f.Fatal ∧ (w.body.size = w.body.capacity → w.body.size < maxSize) ∨
        w'.body = w.body ∧ (w.body.frozen ∨ w.body.size = w.body.capacity ∧
          maxSize ≤ w.body.size ∧ f = .raised .sizeTooBig) := by
  unfold push
  rw [ends_bind, ends_checkFrozen]
  split
  case isTrue hfrozen => exact .inr ⟨rfl, .inl hfrozen⟩
  case isFalse =>
      rw [ends_bind, ends_propagate, ends_bind, ends_size, ends_bind, ends_kind, ends_bind,
        ends_capacity, Workspace.body_offer]
      by_cases hfull : w.body.size = w.body.capacity
      · rw [if_pos hfull, ends_bind, ends_lift]
        refine (Action.ends_capacityForOneMore _).weaken fun room a _ => ?_
        split
        case isTrue hbig => exact .inr ⟨rfl, .inr ⟨hfull, Nat.le_of_lt_succ hbig, rfl⟩⟩
        case isFalse hbig =>
            have hlt : w.body.size < maxSize := Nat.le_of_not_lt hbig
            exact (ends_pushSlot (unfailing_reallocate _ _) (rehoused_reallocate _ _) _ v).mono
              (fun _ _ h => ⟨h.1, h.2, fun _ => hlt⟩) fun _ _ h => .inl ⟨h, fun _ => hlt⟩
      · rw [if_neg hfull]
        exact (ends_pushSlot (unfailing_ensureStorage _ _ _) (rehoused_ensureStorage _ _ _)
          _ v).mono
          (fun _ _ h => ⟨h.1, h.2, fun h => absurd h hfull⟩)
          fun _ _ h => .inl ⟨h, fun h => absurd h hfull⟩

theorem ends_push_of_spare {strict : Prop} {v : Value} (hfits : w.body.Fits strict)
    (hopen : w.body.frozen = false) (hspare : w.body.size ≠ w.body.capacity)
    (hmemory : Element.object.allocatable (reach w (w.body.size + 1))) :
    Ends (push v) w (fun _ w' => w'.body.size = w.body.size + 1) fun _ _ => False := by
  refine ((ends_push hfits v).and (ends_push_counted v w)).mono (fun _ _ h => h.2.1)
    fun f w' h => ?_
  cases f with
  | raised e =>
      rcases h.1.1 with hfrozen | ⟨hfull, -⟩
      · rw [hopen] at hfrozen
        cases hfrozen
      · exact hspare hfull
  | broken =>
      have hsize := hfits.size_le
      rw [h.1.2] at hsize
      exact hspare ((Nat.le_zero.mp hsize).trans h.1.2.symm)
  | outOfMemory => exact h.1 hmemory

theorem limits_push (v : Value) (hsize : w.body.size ≤ maxSize)
    (hfull : w.body.size = maxSize → w.body.capacity = maxSize) :
    Limits (w.body.size + 1) .sizeTooBig (push v) w := by
  have hlt (h : w.body.size = w.body.capacity → w.body.size < maxSize) :
      w.body.size < maxSize := by
    refine Nat.lt_of_le_of_ne hsize fun hmax => ?_
    exact absurd hmax (Nat.ne_of_lt (h (hmax.trans (hfull hmax).symm)))
  refine (ends_push_counted v w).mono (fun _ _ h => ⟨hlt h.2.2, h.1⟩) fun f w' h => ?_
  refine h.imp (fun h => ⟨hlt h.2, .inl h.1⟩) fun h => ⟨h.1, h.2.imp_right fun h => ?_⟩
  exact ⟨Nat.lt_succ_of_le h.2.1, h.2.2⟩

theorem limits_concat (others : List Body) (hsize : w.body.size ≤ maxSize) :
    Limits (w.body.size + others.foldl (fun n b => n + b.size) 0) .combinedSizeTooBig
      (concat others) w := by
  refine .checkFrozen (.size ?_)
  dsimp only
  split
  case isTrue hnone =>
      rw [hnone]
      exact .nothing hsize
  case isFalse =>
      refine .check fun hle => .kind ?_
      refine .change hle (.bind (unfailing_offers others) fun _ =>
        .bind (unfailing_ensureStorage _ _ _) fun _ => .bind (fun _ => trivial) fun _ =>
          .bind (unfailing_lift (Action.unfailing_copyAll _ _ _)) fun _ =>
            unfailing_replaceStore _ _) ?_
      exact .bind fun _ => .bind fun _ => .bind fun _ => .bind fun _ => .replaceStore _ _

theorem limits_insertAt (position : Nat) (vs : List Value) :
    Limits (max position w.body.size + vs.length) (.indexTooBig position)
      (insertAt position vs) w := by
  refine .size (.check fun hle => .kind ?_)
  exact .change hle (.bind (unfailing_propagateAll vs) fun _ =>
    .bind (unfailing_ensureStorage _ _ _) fun _ => unfailing_spliceSlots _ _ _)
    (.bind fun _ => .bind fun _ => .spliceSlots _ _ _)

theorem limits_set {index : Int64} {position : Nat} (v : Value)
    (hposition : w.body.position? index = some position) (hsize : w.body.size ≤ maxSize) :
    Limits (max (position + 1) w.body.size) (.indexTooBig index.toInt) (set index v) w := by
  refine .checkFrozen (.size ?_)
  unfold Limits
  rw [ends_bind, ends_get]
  dsimp only
  rw [hposition]
  refine Limits.propagate (.kind ?_)
  split
  case isTrue hlt =>
      have hwithin : Within Rehoused (do
          ensureStorage (w.body.kind.forValue v) w.body.size
          setSlot position v) :=
        .bind (rehoused_ensureStorage _ _ _) fun _ => rehoused_setSlot _ _
      have hunfailing : Unfailing (do
          ensureStorage (w.body.kind.forValue v) w.body.size
          setSlot position v) :=
        .bind (unfailing_ensureStorage _ _ _) fun _ => unfailing_setSlot _ _
      have hmax : max (position + 1) w.body.size = w.body.size := Nat.max_eq_right hlt
      rw [hmax]
      exact (hunfailing.within hwithin _).mono (fun _ _ h => ⟨hsize, h.size⟩)
        fun _ _ h => .inl ⟨hsize, .inl h⟩
  case isFalse hle =>
      have hmax : max (position + 1) w.body.size = position + 1 := by omega
      rw [hmax]
      exact .check fun hbound => .change hbound
        (.bind (unfailing_ensureStorage _ _ _) fun _ => unfailing_extendSlots _ _ _)
        (.bind fun _ => .extendSlots _ _ _)

theorem limits_restartFilled (n : Nat) (v : Value) (hle : n ≤ maxSize) :
    Limits n err (restartFilled n v) w := by
  refine .change hle (unfailing_restartFilled n v) ?_
  unfold restartFilled
  split
  case isTrue hzero =>
      rw [hzero]
      exact .replaceStore _ _
  case isFalse =>
      exact .bind fun _ => .bind fun _ =>
        .ite (.replaceStore _ _) (.bind fun _ => .replaceStore _ _)

theorem ends_sizeArgument_limited (k : Int64) :
    Ends (sizeArgument k) w
      (fun n w' => w' = w ∧ n ≤ maxSize ∧ sizeDemand? k = some (n, .sizeTooBig))
      fun f w' => w' = w ∧ ∀ n err, sizeDemand? k = some (n, err) →
        maxSize < n ∧ f = .raised err := by
  unfold sizeArgument sizeDemand?
  dsimp only
  by_cases hnegative : k.toInt < 0
  · rw [if_pos hnegative, if_pos hnegative]
    exact ⟨rfl, nofun⟩
  · rw [if_neg hnegative, if_neg hnegative]
    split
    case isTrue hbig =>
        refine ⟨rfl, ?_⟩
        rintro n err ⟨⟩
        exact ⟨hbig, rfl⟩
    case isFalse hsmall => exact ⟨rfl, Nat.le_of_not_lt hsmall, rfl⟩

theorem ends_pushFrom_counted (f : Block Value) (left : Nat) : ∀ (i : Nat) (w : Workspace),
    Ends (pushFrom f left i) w (fun _ w' => w'.body.size = w.body.size + left)
      fun g w' => g.Fatal ∨ w'.body.size ≤ w.body.size + left := by
  induction left with
  | zero => exact fun _ _ => rfl
  | succ left ih =>
      intro i w
      have hanswer : Ends (liftM (f.run (.int (Int64.ofNat i))) : Edit Value) w
          (fun _ w' => Rehoused w w')
          fun g w' => g.Fatal ∨ w'.body.size ≤ w.body.size + (left + 1) :=
        (rehoused_lift _ w).mono_early fun _ _ h => h.imp_right fun h =>
          Nat.le_trans (Nat.le_of_eq h.size) (Nat.le_add_right _ _)
      refine Ends.bind hanswer fun v w₁ h₁ => ?_
      have hpush : Ends (push v) w₁ (fun _ w' => w'.body.size = w.body.size + 1)
          fun g w' => g.Fatal ∨ w'.body.size ≤ w.body.size + (left + 1) := by
        refine (ends_push_counted v w₁).mono (fun _ _ h => h.1.trans (congrArg (· + 1) h₁.size)) ?_
        refine fun g w' h => h.imp And.left fun h => ?_
        rw [h.1, h₁.size]
        exact Nat.le_add_right _ _
      refine Ends.bind hpush fun _ w₂ h₂ => (ih (i + 1) w₂).mono (fun _ w' h => ?_) fun g w' h =>
        h.imp_right fun h => ?_
      · rw [h, h₂]
        omega
      · rw [h₂] at h
        omega

theorem ends_forM_push_limited (vs : List Value) : ∀ {w : Workspace}, w.body.size ≤ maxSize →
    FullAtLimit w vs →
    Ends (vs.forM push) w
      (fun _ w' => w.body.size + vs.length ≤ maxSize ∧ w'.body.size = w.body.size + vs.length)
      fun f w' => f.Fatal ∨ w'.body.size ≤ maxSize ∧
        (w.body.frozen ∨ maxSize < w.body.size + vs.length ∧ f = .raised .sizeTooBig) := by
  induction vs with
  | nil => exact fun hsize _ => ⟨hsize, rfl⟩
  | cons v vs ih =>
      intro w hsize hfull
      rw [List.length_cons]
      have hpush : Ends (push v) w
          (fun _ w₁ => push v w = .ok () w₁ ∧ w₁.body.size = w.body.size + 1 ∧
            w₁.body.size ≤ maxSize ∧ w₁.body.frozen = w.body.frozen)
          fun f w' => f.Fatal ∨ w'.body.size ≤ maxSize ∧ (w.body.frozen ∨
            maxSize < w.body.size + (vs.length + 1) ∧ f = .raised .sizeTooBig) := by
        refine (ends_push_counted v w).traced.mono ?_ fun f w' h => ?_
        · rintro _ w₁ ⟨hrun, hcount, hfrozen, hlimit⟩
          refine ⟨hrun, hcount, hcount ▸ ?_, hfrozen⟩
          refine Nat.lt_of_le_of_ne hsize fun hmax => absurd hmax (Nat.ne_of_lt (hlimit ?_))
          exact hmax.trans (hfull 0 (Nat.succ_pos _) w rfl hmax).symm
        · refine h.imp And.left fun ⟨hbody, hwhy⟩ => ⟨hbody ▸ hsize, hwhy.imp_right fun h => ?_⟩
          exact ⟨by omega, h.2.2⟩
      refine Ends.bind hpush fun _ w₁ ⟨hrun, hcount, hsize₁, hfrozen⟩ => ?_
      have hrest : FullAtLimit w₁ vs := by
        intro k hk w' hrun'
        refine hfull (k + 1) (Nat.succ_lt_succ hk) w' ?_
        exact (run_bind_of_ok hrun).trans hrun'
      have hlength : w₁.body.size + vs.length = w.body.size + (vs.length + 1) := by omega
      have hrun' := ih hsize₁ hrest
      rwa [hlength, hfrozen] at hrun'

theorem ends_pushAll_limited (vs : List Value) (hsize : w.body.size ≤ maxSize)
    (hfull : FullAtLimit w vs) :
    Ends (pushAll vs) w
      (fun _ w' => w.body.size + vs.length ≤ maxSize ∧ w'.body.size = w.body.size + vs.length)
      fun f w' => f.Fatal ∨ w'.body.size ≤ maxSize ∧
        (w.body.frozen ∨ maxSize < w.body.size + vs.length ∧ f = .raised .sizeTooBig) := by
  unfold pushAll
  rw [ends_bind, ends_checkFrozen]
  split
  case isTrue hfrozen => exact .inr ⟨hsize, .inl hfrozen⟩
  case isFalse => exact ends_forM_push_limited vs hsize hfull

theorem limits_restart {size? fill? : Option Value}
    (hdemand : (Mutation.restart size? fill?).demand? w.body = some (n, err)) :
    Limits n err (restart size? fill?) w := by
  have hfilled (k : Int64) (v : Value) (hk : sizeDemand? k = some (n, err)) :
      Limits n err (do restartFilled (← sizeArgument k) v) w := by
    refine Ends.bind ((ends_sizeArgument_limited k).mono_early fun f w' h => ?_) ?_
    · exact .inr ⟨congrArg Workspace.body h.1, .inr (h.2 n err hk)⟩
    · rintro m w' ⟨rfl, hle, hm⟩
      cases hm.symm.trans hk
      exact limits_restartFilled n v hle
  refine .checkFrozen ?_
  cases size? with
  | none => cases hdemand
  | some size =>
      cases size with
      | int k => exact hfilled k _ hdemand
      | float x =>
          have hfinite : x.isFinite = true := by
            cases hx : x.isFinite with
            | true => rfl
            | false => simp [Mutation.demand?, hx] at hdemand
          have hk : sizeDemand? x.toInt64 = some (n, err) := by
            simpa [Mutation.demand?, hfinite] using hdemand
          simp only [hfinite, Bool.not_true, Bool.false_eq_true, if_false]
          exact hfilled x.toInt64 _ hk
      | _ => cases hdemand

theorem limits_restartWith {k : Int64} (f : Block Value)
    (hdemand : sizeDemand? k = some (n, err)) : Limits n err (restartWith k f) w := by
  refine .checkFrozen (Ends.bind ((ends_sizeArgument_limited k).mono_early
    fun f w' h => ?_) ?_)
  · exact .inr ⟨congrArg Workspace.body h.1, .inr (h.2 n err hdemand)⟩
  · rintro m w' ⟨rfl, hle, hm⟩
    cases hm.symm.trans hdemand
    have hempty := (Sizes.replaceStore .empty 0).ends (unfailing_replaceStore _ _) w'
    refine Ends.bind (hempty.mono_early fun _ _ h => .inl ⟨hle, .inl h⟩) fun _ w₁ h₁ => ?_
    have hpushed := ends_pushFrom_counted f n 0 w₁
    rw [h₁, Nat.zero_add] at hpushed
    exact hpushed.mono (fun _ _ h => ⟨hle, h⟩) fun _ _ h => .inl ⟨hle, h⟩

theorem limits_insert {index : Int64} {vs : List Value}
    (hdemand : (Mutation.insert index vs).demand? w.body = some (n, err)) :
    Limits n err (insert index vs) w := by
  dsimp only [Mutation.demand?] at hdemand
  refine .checkFrozen ?_
  split at hdemand
  case isTrue => cases hdemand
  case isFalse hne =>
      rw [if_neg hne]
      refine .size ?_
      rw [insert_at_index]
      obtain ⟨position, hposition, hresult⟩ := Option.map_eq_some_iff.mp hdemand
      cases hresult
      rw [hposition]
      exact limits_insertAt position vs

theorem limits_unshift {vs : List Value}
    (hdemand : (Mutation.unshift vs).demand? w.body = some (n, err)) :
    Limits n err (unshift vs) w := by
  dsimp only [Mutation.demand?] at hdemand
  refine .checkFrozen ?_
  split at hdemand
  case isTrue => cases hdemand
  case isFalse hne =>
      cases hdemand
      rw [if_neg hne]
      have h := limits_insertAt (w := w) 0 vs
      rwa [Nat.zero_max] at h

/-! ## Edits that ask for no size -/

def Stands (e : Edit Unit) (w : Workspace) : Prop :=
  Ends e w (fun _ w' => w'.body = w.body) fun _ w' => w'.body = w.body

theorem Stands.within_limit {e : Edit Unit} (h : Stands e w) (hsize : w.body.size ≤ maxSize) :
    Ends e w (fun _ w' => w'.body.size ≤ maxSize) fun f w' => f.Fatal ∨ w'.body.size ≤ maxSize :=
  h.mono (fun _ _ h => h ▸ hsize) fun _ _ h => .inr (h ▸ hsize)

theorem Stands.checkFrozen {k : Unit → Edit Unit} (h : Stands (k ()) w) :
    Stands (Edit.checkFrozen >>= k) w := by
  unfold Stands
  rw [ends_bind, ends_checkFrozen]
  split
  · rfl
  · exact h

theorem stands_insert {index : Int64} {vs : List Value}
    (hdemand : (Mutation.insert index vs).demand? w.body = none) :
    Stands (insert index vs) w := by
  dsimp only [Mutation.demand?] at hdemand
  refine .checkFrozen ?_
  split at hdemand
  case isTrue hempty =>
      rw [if_pos hempty]
      exact rfl
  case isFalse hne =>
      rw [if_neg hne]
      unfold Stands
      rw [ends_bind, ends_size]
      dsimp only
      rw [insert_at_index, Option.map_eq_none_iff.mp hdemand]
      exact rfl

theorem stands_unshift {vs : List Value}
    (hdemand : (Mutation.unshift vs).demand? w.body = none) : Stands (unshift vs) w := by
  dsimp only [Mutation.demand?] at hdemand
  refine .checkFrozen ?_
  split at hdemand
  case isTrue hempty =>
      rw [if_pos hempty]
      exact rfl
  case isFalse => cases hdemand

theorem stands_set {index : Int64} (v : Value) (hposition : w.body.position? index = none) :
    Stands (set index v) w := by
  refine .checkFrozen ?_
  unfold Stands
  rw [ends_bind, ends_size, ends_bind, ends_get]
  dsimp only
  rw [hposition]
  exact rfl

theorem stands_sizeArgument {k : Int64} (hdemand : sizeDemand? k = none) (c : Nat → Edit Unit) :
    Stands (sizeArgument k >>= c) w := by
  refine Ends.bind ((ends_sizeArgument_limited k).mono_early
    fun _ _ h => congrArg Workspace.body h.1) ?_
  rintro n _ ⟨-, -, hn⟩
  cases hn.symm.trans hdemand

theorem ends_restart_of_none {size? fill? : Option Value}
    (hdemand : (Mutation.restart size? fill?).demand? w.body = none)
    (hsize : w.body.size ≤ maxSize)
    (hothers : ∀ id b, w.arena.readable? id = some b → b.size ≤ maxSize) :
    Ends (restart size? fill?) w (fun _ w' => w'.body.size ≤ maxSize)
      fun f w' => f.Fatal ∨ w'.body.size ≤ maxSize := by
  have hreplaced {e : Edit Unit} {n : Nat} (hn : n ≤ maxSize) (hsizes : Sizes n e)
      (hunfailing : Unfailing e) : Ends e w (fun _ w' => w'.body.size ≤ maxSize)
        fun f w' => f.Fatal ∨ w'.body.size ≤ maxSize :=
    (hsizes.ends hunfailing w).mono (fun _ _ h => h ▸ hn) fun _ _ h => .inl h
  unfold restart
  rw [ends_bind, ends_checkFrozen]
  split
  case isTrue => exact .inr hsize
  case isFalse hopen =>
      cases size? with
      | none => exact hreplaced (Nat.zero_le _) (.replaceStore _ _) (unfailing_replaceStore _ _)
      | some size =>
          cases size with
          | int k => exact (stands_sizeArgument hdemand _).within_limit hsize
          | float x =>
              dsimp only
              split
              case isTrue => exact .inr hsize
              case isFalse hfinite =>
                  have hx : x.isFinite = true := by simpa using hfinite
                  refine (stands_sizeArgument ?_ _).within_limit hsize
                  simpa [Mutation.demand?, hx] using hdemand
          | array source =>
              cases fill? with
              | some v => exact .inr hsize
              | none =>
                  rw [ends_bind, ends_get]
                  split
                  case isTrue => exact hsize
                  case isFalse =>
                      cases hsource : w.arena.readable? source with
                      | none => exact .inr hsize
                      | some b =>
                          have hb : b.size ≤ maxSize := hothers source b hsource
                          unfold replace
                          rw [ends_bind, ends_checkFrozen, if_neg hopen]
                          refine hreplaced (n := b.clone.size) hb
                            (.bind fun _ => .replaceStore _ _) ?_
                          exact .bind (unfailing_propagateAll _) fun _ => unfailing_replaceStore _ _
          | _ => exact .inr hsize

end Edit

namespace Mutation

open Edit

variable {m : Mutation} {w : Workspace}

theorem keeps_limit_of_limits {e : Edit Unit} (hedit : m.edit = do e; return Reply.nothing)
    (hsize : w.body.size ≤ maxSize)
    (hsome : ∀ n err, m.demand? w.body = some (n, err) → Limits n err e w)
    (hnone : m.demand? w.body = none → Ends e w (fun _ w' => w'.body.size ≤ maxSize)
      fun f w' => f.Fatal ∨ w'.body.size ≤ maxSize) :
    Ends m.edit w (fun _ w' => w'.body.size ≤ maxSize)
      (fun f w' => f.Fatal ∨ w'.body.size ≤ maxSize) ∧
    ∀ n err, m.demand? w.body = some (n, err) → maxSize < n → w.body.frozen = false →
      Ends m.edit w (fun _ _ => False) fun f w' => f = .raised err ∧ w'.body = w.body ∨
        (∃ vs, m = .pushAll vs) ∧ (f.Fatal ∨ f = .raised err) := by
  rw [hedit]
  constructor
  · have hends : Ends e w (fun _ w' => w'.body.size ≤ maxSize)
        fun f w' => f.Fatal ∨ w'.body.size ≤ maxSize := by
      cases hdemand : m.demand? w.body with
      | none => exact hnone hdemand
      | some demand =>
          refine (hsome _ _ hdemand).mono (fun _ _ h => h.2 ▸ h.1) fun f w' h => ?_
          rcases h with ⟨hle, h⟩ | ⟨hbody, -⟩
          · exact h.imp_right fun h => Nat.le_trans h hle
          · exact .inr (hbody ▸ hsize)
    exact Ends.bind hends fun _ _ h => h
  · intro n err hdemand hbig hopen
    refine Ends.bind ((hsome n err hdemand).mono (fun _ _ h => ?_) fun f w' h => ?_) fun _ _ h => h
    · exact absurd h.1 (Nat.not_le_of_lt hbig)
    · rcases h with ⟨hle, -⟩ | ⟨hbody, hfrozen | ⟨-, hf⟩⟩
      · exact absurd hle (Nat.not_le_of_lt hbig)
      · rw [hopen] at hfrozen
        cases hfrozen
      · exact .inl ⟨hf, hbody⟩

/-- Each way to add elements to an array of at most `maxSize` leaves it with no more.  If there
would be more it answers with its error and leaves the array as it was; only pushing several values
pushes first as many as there may be.  Pushing does all this as long as the store is full whenever
the limit is reached. -/
theorem adding_keeps_limit (hadds : m.adds = true) (hsize : w.body.size ≤ maxSize)
    (hothers : ∀ id b, w.arena.readable? id = some b → b.size ≤ maxSize)
    (hfull : FullAtLimit w m.pushed) :
    Ends m.edit w (fun _ w' => w'.body.size ≤ maxSize)
      (fun f w' => f.Fatal ∨ w'.body.size ≤ maxSize) ∧
    ∀ n err, m.demand? w.body = some (n, err) → maxSize < n → w.body.frozen = false →
      Ends m.edit w (fun _ _ => False) fun f w' => f = .raised err ∧ w'.body = w.body ∨
        (∃ vs, m = .pushAll vs) ∧ (f.Fatal ∨ f = .raised err) := by
  cases m with
  | push v =>
      refine keeps_limit_of_limits rfl hsize ?_ nofun
      rintro _ _ ⟨⟩
      exact limits_push v hsize (hfull 0 Nat.one_pos w rfl)
  | pushAll vs =>
      have hpushed := ends_pushAll_limited vs hsize hfull
      constructor
      · refine Ends.bind (hpushed.mono (fun _ _ h => ?_) fun _ _ h => ?_) fun _ _ h => h
        · exact Nat.le_trans (Nat.le_of_eq h.2) h.1
        · exact h.imp_right And.left
      · rintro _ _ ⟨⟩ hbig hopen
        refine Ends.bind (hpushed.mono (fun _ _ h => ?_) fun f w' h => ?_) fun _ _ h => h
        · exact absurd h.1 (Nat.not_le_of_lt hbig)
        · rw [hopen] at h
          exact .inr ⟨⟨vs, rfl⟩, h.imp_right fun h => (h.2.resolve_left Bool.false_ne_true).2⟩
  | concat others =>
      refine keeps_limit_of_limits rfl hsize ?_ nofun
      rintro _ _ ⟨⟩
      exact limits_concat others hsize
  | insert index vs =>
      exact keeps_limit_of_limits rfl hsize (fun _ _ => limits_insert) fun h =>
        (stands_insert h).within_limit hsize
  | unshift vs =>
      exact keeps_limit_of_limits rfl hsize (fun _ _ => limits_unshift) fun h =>
        (stands_unshift h).within_limit hsize
  | set index v =>
      refine keeps_limit_of_limits rfl hsize (fun n err h => ?_) fun h =>
        (stands_set v (Option.map_eq_none_iff.mp h)).within_limit hsize
      obtain ⟨position, hposition, hresult⟩ := Option.map_eq_some_iff.mp h
      cases hresult
      exact limits_set v hposition hsize
  | restart size? fill? =>
      exact keeps_limit_of_limits rfl hsize (fun _ _ => limits_restart) fun h =>
        ends_restart_of_none h hsize hothers
  | restartWith size f =>
      exact keeps_limit_of_limits rfl hsize (fun _ _ => limits_restartWith f) fun h =>
        (Stands.checkFrozen (stands_sizeArgument h _)).within_limit hsize
  | _ => cases hadds

/-- Inserting far behind the end, and beyond the limit. -/
theorem adding_keeps_limit_insert :
    Ends (insert 2147483647 [.nil]).edit ⟨0, .empty, {}⟩ (fun _ _ => False)
      fun f w' => f = .raised (.indexTooBig 2147483647) ∧ w'.body = .empty ∨
        (∃ vs, insert 2147483647 [.nil] = pushAll vs) ∧
          (f.Fatal ∨ f = .raised (.indexTooBig 2147483647)) :=
  (adding_keeps_limit (m := insert 2147483647 [.nil]) (w := ⟨0, .empty, {}⟩) rfl (by decide)
    (by
      intro id b h
      simp [Arena.readable?, Arena.object?] at h) nofun).2 2147483648 (.indexTooBig 2147483647)
    (by decide) (by decide) rfl

private theorem exists_spare (n : Nat) : ∃ b : Body, b.Fits True ∧ b.frozen = false ∧ b.size = n ∧
    b.capacity = n + 1 ∧ b.store.extent = n + 1 := by
  have hsize : (Buffer.zeros .int (n + 1)).size = n + 1 := Buffer.size_zeros _ _
  refine ⟨{ store := .owned (.zeros .int (n + 1)), size := n }, ?_, rfl, rfl, hsize, hsize⟩
  refine ⟨Nat.le_trans (Nat.le_succ n) (Nat.le_of_eq hsize.symm), trivial, fun _ _ i _ hlt => ?_⟩
  have hi : i < n + 1 := Nat.lt_of_lt_of_eq hlt hsize
  change (Buffer.zeros .int (n + 1)).get? i = some (Buffer.zeros .int (n + 1)).element.zero
  rw [Buffer.get?_zeros, if_pos hi, Buffer.element_zeros]

/-- A store with a slot past the limit takes a value more than an array may have. -/
theorem push_past_limit : ∃ w : Workspace, w.body.Fits True ∧ w.body.frozen = false ∧
    w.body.size ≤ maxSize ∧ Ends (push (.int 0)).edit w
      (fun _ w' => w'.body.size = maxSize + 1) (fun _ _ => False) := by
  obtain ⟨b, hfits, hopen, hsize, hcapacity, hextent⟩ := exists_spare maxSize
  have hmemory : Element.object.allocatable (reach ⟨0, b, {}⟩ (maxSize + 1)) := by
    have hreach : reach ⟨0, b, {}⟩ (maxSize + 1) = 2 * (maxSize + 1) := by
      unfold reach
      rw [hextent]
      exact (by decide : max (max 16 (maxSize + 1)) (2 * (maxSize + 1)) = 2 * (maxSize + 1))
    rw [hreach]
    decide
  refine ⟨⟨0, b, {}⟩, hfits, hopen, Nat.le_of_eq hsize, Ends.bind ?_ fun _ _ h => h⟩
  have hspare : b.size ≠ b.capacity := by
    rw [hcapacity, hsize]
    exact Nat.ne_of_lt (Nat.lt_succ_self _)
  rw [← hsize] at hmemory ⊢
  exact ends_push_of_spare hfits hopen hspare hmemory

end Mutation

end AdaptiveArray
