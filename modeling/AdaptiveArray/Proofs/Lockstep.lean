import AdaptiveArray.Proofs.Limit
import AdaptiveArray.Proofs.Mapping
import AdaptiveArray.Proofs.Pairing

/-!
# Step by step in twin arenas

Edits that change an array while they go on, element by element: pushing one value after
another, mapping, removing.  After the first step the two runs have stores of their own,
which may differ, so each step is compared for arrays that have the same elements.
-/

namespace AdaptiveArray

variable {α β : Type}

theorem Body.Alike.get? {b c : Body} (h : b.Alike c) {i : Nat} (hi : i < b.size) :
    b.store.get? i = c.store.get? i := by
  rw [← Body.getElem?_toList_of_lt h.left hi, h.toList,
    Body.getElem?_toList_of_lt h.right (h.size ▸ hi)]

namespace Edit

variable {r : Body → Body → Prop} {w v : Workspace} {excused : Fault → Workspace → Prop}
  {post : α → α → Workspace → Workspace → Prop} {early : Workspace → Workspace → Prop}

def Sized (n : Nat) (b c : Body) : Prop :=
  b.Twin c ∧ b.size = n

theorem Sized.size {n : Nat} {b c : Body} (h : Sized n b c) : c.size = n :=
  h.1.size.symm.trans h.2

theorem pair_twin {n : Nat} (hwv : w.Pair (Sized n) v) : w.Twin v :=
  ⟨hwv.owner, hwv.body.1, hwv.arena⟩

theorem sized_of_tells {n : Nat} {b c : Body} {xs : List Value} {frozen : Bool}
    (hn : xs.length = n) (hb : b.Tells xs frozen) (hc : c.Tells xs frozen) : Sized n b c :=
  ⟨hb.twin hc, by rw [← Body.length_toList hb.shows.fits, hb.shows.toList, hn]⟩

/-! ## Appending -/

theorem ends_push_tells (hfits : w.body.Fits False) (hfrozen : w.body.frozen = false)
    (hroom : w.body.size < maxSize) (x : Value) :
    Ends (push x) w (fun _ w' => w'.body.Tells (w.body.toList ++ [x]) w.body.frozen)
      fun f _ => f.Fatal := by
  refine (writes_push hfits x).mono ?_ fun f w' hwrites => ?_
  · rintro _ w' ⟨_, ⟨⟩, hbecomes⟩
    exact hbecomes.tells
  · cases f with
    | raised e =>
        have hbig := hwrites.1.resolve_left (by simp [hfrozen]) _ rfl
        rw [List.length_append, Body.length_toList hfits] at hbig
        exact absurd hroom (Nat.not_lt_of_le (Nat.le_of_lt_succ hbig))
    | broken => exact Fault.fatal_broken
    | outOfMemory => exact Fault.fatal_outOfMemory

theorem beside_push {n : Nat} (x : Value) (hroom : n < maxSize) (hwv : w.Pair (Sized n) v) :
    Beside (fun f _ => f.Fatal) (push x) (push x) w v
      (fun _ _ w' v' => w'.Pair (Sized (n + 1)) v') Workspace.Twin := by
  obtain ⟨hbody, hsize⟩ := hwv.body
  cases hfrozen : w.body.frozen with
  | true =>
      unfold push
      apply beside_checkFrozen hbody.frozen (pair_twin hwv)
      simp [hfrozen]
  | false =>
      have hfrozen' : v.body.frozen = false := by rw [← hbody.frozen, hfrozen]
      have hc := ends_push_tells hbody.right hfrozen' (hwv.body.size ▸ hroom) x
      rw [← hbody.toList, ← hbody.frozen] at hc
      apply beside_bodies hwv (ends_push_tells hbody.left hfrozen (hsize ▸ hroom) x) hc
        (within_push x) (within_push x)
      refine fun _ _ => sized_of_tells ?_
      rw [List.length_append, Body.length_toList hbody.left, hsize]
      rfl

theorem beside_forM_push (xs : List Value) : ∀ {n : Nat} {w v : Workspace},
    n + xs.length ≤ maxSize → w.Pair (Sized n) v →
      Beside (fun f _ => f.Fatal) (xs.forM push) (xs.forM push) w v
        (fun _ _ w' v' => w'.Twin v') Workspace.Twin := by
  induction xs with
  | nil => exact fun _ hwv => pair_twin hwv
  | cons x xs ih =>
      intro n w v hroom hwv
      rw [List.length_cons] at hroom
      apply Beside.bind (beside_push x (by omega) hwv)
      exact fun _ _ _ _ h => ih (by omega) h

theorem beside_pushAll (xs : List Value) (hroom : w.body.size + xs.length ≤ maxSize)
    (hwv : w.Twin v) : Beside (fun f _ => f.Fatal) (pushAll xs) (pushAll xs) w v
      (fun _ _ w' v' => w'.Twin v') Workspace.Twin := by
  apply beside_checkFrozen hwv.body.frozen hwv
  exact fun _ _ => beside_forM_push xs hroom ⟨hwv.owner, ⟨hwv.body, rfl⟩, hwv.arena⟩

theorem beside_pushFrom {f : Block Value} (hf : ∀ x, Blind (f.run x)) (left : Nat) :
    ∀ (i : Nat) {n : Nat} {w v : Workspace}, n + left ≤ maxSize → w.Pair (Sized n) v →
      Beside (fun f _ => f.Fatal) (pushFrom f left i) (pushFrom f left i) w v
        (fun _ _ w' v' => w'.Twin v') Workspace.Twin := by
  induction left with
  | zero => exact fun _ _ _ _ _ hwv => pair_twin hwv
  | succ left ih =>
      intro i n w v hroom hwv
      apply Beside.bind ((beside_lift (hf _) hwv).mono (fun _ _ hf => hf) (fun _ _ _ _ h => h)
        fun _ _ => pair_twin)
      rintro x _ w v ⟨rfl, hwv⟩
      apply Beside.bind (beside_push x (by omega) hwv)
      exact fun _ _ _ _ h => ih (i + 1) (by omega) h

theorem paired_restartWith (n : Int64) {f : Block Value} (hf : ∀ x, Blind (f.run x)) :
    Paired (restartWith n f) := by
  apply Paired.check ⟨unedited_checkFrozen, steady_checkFrozen⟩
  intro _ w v hwv hfits
  have hsize (u : Workspace) := (ends_sizeArgument_limited (w := u) n).mono_early
    fun f _ hf => Or.inr (a := f.Fatal) hf.1
  apply Beside.bind (((steady_sizeArgument n w v hwv).ends (hsize w) (hsize v)).mono
    (fun _ _ hf => hf) (fun _ _ _ _ h => h) ?_)
  · rintro n _ w v ⟨⟨rfl, hwv⟩, ⟨rfl, hle, -⟩, rfl, -⟩
    have hempty (u : Workspace) := (Sizes.replaceStore .empty 0 u).mono_early
      fun f _ h => Or.inr (a := f.Fatal) h
    have hreplaced : Beside (fun f _ => f.Fatal) (replaceStore .empty 0) (replaceStore .empty 0) w v
        (fun _ _ w' v' => w'.Twin v') Workspace.Twin :=
      beside_replaceStore (.refl Body.fits_empty) (hwv.twin hfits)
    apply Beside.bind ((hreplaced.ends (hempty w) (hempty v)).mono (fun _ _ hf => hf)
      (fun _ _ _ _ h => h) fun _ _ h => h.1)
    rintro _ _ w v ⟨hwv, hsize, -⟩
    exact beside_pushFrom hf n 0 (Nat.le_trans (Nat.le_of_eq (Nat.zero_add n)) hle)
      ⟨hwv.owner, ⟨hwv.body, hsize⟩, hwv.arena⟩
  · rintro w v ⟨hwv, rfl, rfl⟩
    exact hwv.twin hfits

/-! ## Mapping -/

theorem beside_getSlot {k l : Value → Edit α} {i : Nat} {x : Value}
    (hw : w.body.store.get? i = some x) (hv : v.body.store.get? i = some x)
    (h : Beside excused (k x) (l x) w v post early) :
    Beside excused (getSlot i >>= k) (getSlot i >>= l) w v post early := by
  have hget {u : Workspace} (hu : u.body.store.get? i = some x) :
      Ends (getSlot i) u (fun y u' => y = x ∧ u' = u) excused := by
    rw [ends_getSlot hu]
    exact ⟨rfl, rfl⟩
  apply Beside.bind (Beside.of_ends (hget hw) (hget hv) fun _ _ _ _ => And.intro)
  rintro _ _ _ _ ⟨⟨rfl, rfl⟩, rfl, rfl⟩
  exact h

theorem beside_size {k l : Nat → Edit α}
    (h : Beside excused (k w.body.size) (l v.body.size) w v post early) :
    Beside excused (size >>= k) (size >>= l) w v post early := h

theorem beside_mapFrom {f : Block Value} (hf : ∀ x, Blind (f.run x)) (n left : Nat) :
    ∀ {i : Nat} {w v : Workspace}, i + left = n → w.Pair (Sized n) v →
      Beside (fun f _ => f.Fatal) (mapFrom f n left i) (mapFrom f n left i) w v
        (fun _ _ w' v' => w'.Pair (Sized n) v') (Workspace.Pair (Sized n)) := by
  induction left with
  | zero => exact fun _ hwv => hwv
  | succ left ih =>
      intro i w v hleft hwv
      obtain ⟨htwin, hsize⟩ := hwv.body
      have hi : i < w.body.size := by omega
      obtain ⟨x, hx, -⟩ := Body.exists_get? htwin.left hi
      apply beside_getSlot hx ((htwin.get? hi).symm.trans hx)
      apply Beside.bind (beside_lift (hf x) hwv)
      rintro y _ w v ⟨rfl, hwv⟩
      apply Beside.bind (beside_propagate y hwv)
      intro _ _ w v hwv
      have hwrite {u : Workspace} (hu : u.body.Fits False) (hn : u.body.size = n) :
          Ends (do
            ensureStorage ((← kind).forValue y) n
            setSlot i y
            pure ()) u (fun _ u' => u'.body.Tells (u.body.toList.set i y) u.body.frozen)
          fun f _ => f.Fatal := by
        subst hn
        apply ends_writeElement hu (by omega) y
        · exact fun _ _ h => h.tells
        · exact fun _ _ => Fault.fatal_outOfMemory
      have hstill : Within (Workspace.Follows Arena.Still) (do
          ensureStorage ((← kind).forValue y) n
          setSlot i y
          pure () : Edit Unit) :=
        .bind within_kind fun _ => .bind (within_ensureStorage _ _ _) fun _ =>
          .bind (within_setSlot i y) fun _ => .pure _
      have hv := hwrite hwv.body.1.right hwv.body.size
      rw [← hwv.body.1.toList, ← hwv.body.1.frozen] at hv
      have hlength : (w.body.toList.set i y).length = n := by
        rw [List.length_set, Body.length_toList hwv.body.1.left, hwv.body.2]
      have hrest := (beside_bodies hwv (hwrite hwv.body.1.left hwv.body.2) hv hstill hstill
        fun _ _ => sized_of_tells hlength).bind fun _ _ _ _ h => ih (i := i + 1) (by omega) h
      simpa [bind_assoc] using hrest

theorem paired_map {f : Block Value} (hf : ∀ x, Blind (f.run x)) : Paired (map f) := by
  intro w v hwv hfits
  have htwin := hwv.twin hfits
  apply beside_checkFrozen htwin.body.frozen htwin
  intro _ _
  apply beside_size
  rw [← hwv.body]
  have hsized : w.Pair (Sized w.body.size) v := ⟨hwv.owner, ⟨htwin.body, rfl⟩, hwv.arena⟩
  apply (beside_mapFrom hf w.body.size w.body.size (Nat.zero_add _) hsized).mono
  · exact fun _ _ h => h
  · exact fun _ _ _ _ => pair_twin
  · exact fun _ _ => pair_twin

/-! ## Removing -/

def Aloof (test : Value → Edit Bool) : Prop :=
  ∀ (r : Body → Body → Prop) (x : Value) (w v : Workspace), w.Pair r v →
    Beside (fun f _ => f.Fatal) (test x) (test x) w v (fun d d' w' v' => d = d' ∧ w'.Pair r v')
      (Workspace.Pair r)

theorem aloof_block {f : Block Bool} (hf : ∀ x, Blind (f.run x)) :
    Aloof fun x => liftM (f.run x) :=
  fun _ x _ _ hwv => beside_lift (hf x) hwv

theorem Aloof.not {test : Value → Edit Bool} (h : Aloof test) :
    Aloof fun x => return !(← test x) := by
  intro r x w v hwv
  apply Beside.bind (h r x w v hwv)
  rintro d _ w v ⟨rfl, hwv⟩
  exact ⟨rfl, hwv⟩

def Abreast (b c : Body) (p : Pass) (kept : List Value) (b' c' : Body) : Prop :=
  Passing False b p kept b' ∧ Passing False c p kept c'

theorem beside_attempt {e e' : Edit α} {early' : Workspace → Workspace → Prop}
    (h : Beside (fun f _ => f.Fatal) e e' w v post early) :
    Beside (fun f _ => f.Fatal) (attempt e) (attempt e') w v
      (fun o o' w' v' => match o, o' with
        | .ok x, .ok y => post x y w' v'
        | .error _, .error _ => early w' v'
        | _, _ => False) early' := by
  have hraised := Fault.not_fatal_raised
  have hbroken := Fault.fatal_broken
  have hmemory := Fault.fatal_outOfMemory
  unfold Beside at h
  unfold Beside attempt
  cases hw : e w with
  | ok x w' =>
      cases hv : e' v with
      | ok y v' => simpa [hw, hv] using h
      | error g v' => cases g <;> simp_all
  | error f w' =>
      cases hv : e' v with
      | ok y v' => cases f <;> simp_all
      | error g v' => cases f <;> cases g <;> simp_all

theorem beside_removePass {test : Value → Edit Bool} (htest : Aloof test) {b c : Body}
    (hbc : b.Twin c) (left : Nat) : ∀ {w v : Workspace} {p : Pass} {kept : List Value},
      p.read + left = b.size → p.error = none → w.Pair (Abreast b c p kept) v →
      Beside (fun f _ => f.Fatal) (removePass test left p) (removePass test left p) w v
        (fun q q' w' v' => ∃ kept', w'.Pair (Abreast b c q kept') v' ∧
          ∃ error?, q' = { q with error := error? } ∧ error?.isSome = q.error.isSome)
        Workspace.Twin := by
  -- Both passes read equal elements step by step, so they remove and move at the same steps.
  induction left with
  | zero => exact fun _ _ hwv => ⟨_, hwv, _, rfl, rfl⟩
  | succ left ih =>
      intro w v p kept hleft herror hwv
      have hread : p.read < b.size := by omega
      have hread' : p.read < c.size := by rwa [← hbc.size]
      have hnext : p.read + 1 + left = b.size := by omega
      obtain ⟨x, hx, -⟩ := Body.exists_get? hbc.left hread
      have hy := (hbc.get? hread).symm.trans hx
      unfold removePass
      apply Beside.bind ((beside_lift (Action.blind_pollAt p.read) hwv).of_unfailing
        (unfailing_lift (Action.unfailing_pollAt p.read) w))
      rintro _ _ w v ⟨-, hwv⟩
      obtain ⟨hp, hp'⟩ := hwv.body
      have hw := (hp.rest p.read (Nat.le_refl _) hread).trans hx
      have hv := (hp'.rest p.read (Nat.le_refl _) hread').trans hy
      apply beside_getSlot hw hv
      apply Beside.bind (beside_attempt (htest _ x w v hwv))
      rintro (e | d) (e' | d') w₁ v₁ h
      case error.error => exact ⟨kept, ⟨h.owner, ⟨{ h.body.1 with }, { h.body.2 with }⟩, h.arena⟩,
        _, rfl, rfl⟩
      case error.ok => exact h.elim
      case ok.error => exact h.elim
      case ok.ok =>
          obtain ⟨rfl, hwv₁⟩ := h
          obtain ⟨hp₁, hp₁'⟩ := hwv₁.body
          cases d with
          | true =>
              have hdrop {q : Pass} (hq : q.read = p.read) {w v : Workspace}
                  (hfound : q.found ≠ none) (h : w.Pair (Abreast b c q kept) v) :
                  w.Pair (Abreast b c { q with read := q.read + 1, found := some x } kept) v :=
                ⟨h.owner, ⟨h.body.1.drop (hq ▸ hread) (h.body.1.isMutable hfound),
                  h.body.2.drop (hq ▸ hread') (h.body.2.isMutable hfound)⟩, h.arena⟩
              dsimp only
              split
              case isTrue hfirst =>
                  have hnone : p.found = none := by simpa using hfirst
                  have htwin : w₁.Twin v₁ := ⟨hwv₁.owner, by
                    rw [(hp₁.untouched hnone).1, (hp₁'.untouched hnone).1]
                    exact hbc, hwv₁.arena⟩
                  apply beside_checkFrozen htwin.body.frozen htwin
                  intro _ _
                  apply Beside.bind (beside_bodies hwv₁
                    (hp₁.ends_ensureMutable hread) (hp₁'.ends_ensureMutable hread')
                    within_ensureMutable within_ensureMutable fun _ _ => And.intro)
                  exact fun _ _ _ _ h => ih hnext herror
                    (hdrop (q := { p with found := some .nil }) rfl (by simp) h)
              case isFalse hfound =>
                  exact ih hnext herror (hdrop rfl (by simpa using hfound) hwv₁)
          | false =>
              have hslot := (hp₁.rest p.read (Nat.le_refl _) hread).trans hx
              have hslot' := (hp₁'.rest p.read (Nat.le_refl _) hread').trans hy
              dsimp only
              split
              case isTrue hgap =>
                  apply Beside.bind (beside_bodies hwv₁
                    ((hp₁.ends_moveSlots hread hslot hgap).weaken fun _ _ h => h.choose_spec.2)
                    ((hp₁'.ends_moveSlots hread' hslot' hgap).weaken fun _ _ h => h.choose_spec.2)
                    (within_moveSlots _ _ _) (within_moveSlots _ _ _) fun _ _ => And.intro)
                  exact fun _ _ _ _ h => ih hnext herror h
              case isFalse hgap =>
                  have heq := Decidable.not_not.mp hgap
                  exact ih hnext herror ⟨hwv₁.owner, ⟨hp₁.stay hread hslot heq,
                    hp₁'.stay hread' hslot' heq⟩, hwv₁.arena⟩

theorem beside_removeWhere {test : Value → Edit Bool} (htest : Aloof test) (hwv : w.Twin v) :
    Beside (fun f _ => f.Fatal) (removeWhere test) (removeWhere test) w v
      (fun x y w' v' => x = y ∧ w'.Twin v') Workspace.Twin := by
  have hbody := hwv.body
  have hclosed {u u' : Workspace} (hu : u.body.Fits False) {p : Pass} {kept : List Value}
      (hp : Passing False u.body p kept u'.body) (hgap : p.write ≠ p.read) :
      Ends (do
        moveSlots p.read p.write (u.body.size - p.read)
        clearSlots (p.write + (u.body.size - p.read)) u.body.size
        setSize (p.write + (u.body.size - p.read))
        pure ()) u' (fun _ u'' => u''.body.Tells (kept ++ u.body.toList.drop p.read) u.body.frozen)
        fun f _ => f.Fatal := by
    apply ends_closeGap hu hp fun hnone => hgap (hp.untouched hnone).2
    exact fun b' hremoved => Body.Becomes.tells hremoved
  have hanswer (found : Option Value) : ∀ error? error?' : Option ArrayError,
      error?'.isSome = error?.isSome → ∀ {w v : Workspace}, w.Twin v →
      Beside (fun f _ => f.Fatal) (conclude error? found) (conclude error?' found) w v
        (fun x y w' v' => x = y ∧ w'.Twin v') Workspace.Twin := by
    rintro (_ | e) (_ | e') herror w v hwv
    · exact ⟨rfl, hwv⟩
    · cases herror
    · cases herror
    · exact .throw hwv
  have hclosing (n read write : Nat) : Within (Workspace.Follows Arena.Still) (do
      moveSlots read write (n - read)
      clearSlots (write + (n - read)) n
      setSize (write + (n - read))
      pure () : Edit Unit) :=
    .bind (within_moveSlots _ _ _) fun _ => .bind (within_clearSlots _ _) fun _ =>
      .bind (within_setSize _) fun _ => .pure _
  unfold removeWhere
  apply beside_size
  rw [← hbody.size]
  have hstart : w.Pair (fun b c => b = w.body ∧ c = v.body) v :=
    ⟨hwv.owner, ⟨rfl, rfl⟩, hwv.arena⟩
  apply Beside.bind ((beside_lift Action.blind_options hstart).of_unfailing
    (unfailing_lift Action.unfailing_options w))
  rintro _ _ w₁ v₁ ⟨-, howner, ⟨hw₁, hv₁⟩, harena⟩
  have hbegun : w₁.Pair (Abreast w.body v.body {} []) v₁ :=
    ⟨howner, by rw [hw₁, hv₁]; exact ⟨.start hbody.left, .start hbody.right⟩, harena⟩
  apply Beside.bind (beside_removePass htest hbody w.body.size (Nat.zero_add _) rfl hbegun)
  rintro p _ w₂ v₂ ⟨kept, hwv₂, error?, rfl, herror⟩
  obtain ⟨hp, hp'⟩ := hwv₂.body
  dsimp only
  split
  case isTrue hgap =>
      have hv := hclosed hbody.right hp' hgap
      rw [← hbody.size, ← hbody.toList, ← hbody.frozen] at hv
      have hrest := (beside_bodies hwv₂ (hclosed hbody.left hp hgap) hv (hclosing _ _ _)
        (hclosing _ _ _) fun _ _ => Body.Tells.twin).bind fun _ _ _ _ h =>
          hanswer p.found p.error error? herror h
      simp only [bind_assoc, pure_bind] at hrest
      exact hrest
  case isFalse hgap =>
      have heq := Decidable.not_not.mp hgap
      have hleft := Body.Becomes.tells (hp.removed_in_place hbody.left heq)
      have hright := Body.Becomes.tells (hp'.removed_in_place hbody.right heq)
      rw [← hbody.toList, ← hbody.frozen] at hright
      exact hanswer p.found p.error error? herror ⟨hwv₂.owner, hleft.twin hright, hwv₂.arena⟩

/-! ### Requests -/

theorem paired_removeWhere {test : Value → Edit Bool} (htest : Aloof test)
    {k : Option Value → Edit α}
    (hk : ∀ found {w v : Workspace}, w.Twin v →
      Beside (fun f _ => f.Fatal) (k found) (k found) w v (fun _ _ w' v' => w'.Twin v')
        Workspace.Twin) : Paired (removeWhere test >>= k) := by
  intro w v hwv hfits
  apply Beside.bind (beside_removeWhere htest (hwv.twin hfits))
  rintro found _ w v ⟨rfl, hwv⟩
  exact hk found hwv

theorem paired_deleteOr (x : Value) {missing : Value → Edit Value}
    (hmissing : ∀ {w v : Workspace}, w.Twin v → Beside (fun f _ => f.Fatal) (missing x) (missing x)
      w v (fun _ _ w' v' => w'.Twin v') Workspace.Twin) : Paired (deleteOr x missing) := by
  have htest : Aloof fun y => return (← get).arena.equal .numeric y x := by
    intro r y w v hwv
    refine ⟨?_, hwv⟩
    rw [hwv.arena.alike.equal]
  apply paired_removeWhere htest
  rintro (_ | found) w v hwv
  · exact hmissing hwv
  · exact hwv

theorem paired_delete (x : Value) : Paired (delete x) :=
  paired_deleteOr x id

theorem paired_compact : Paired compact := by
  have htest : Aloof fun x => return x.isNil := fun _ _ _ _ hwv => ⟨rfl, hwv⟩
  apply Paired.check ⟨unedited_checkFrozen, steady_checkFrozen⟩
  intro _
  apply Paired.check check_kind
  intro current
  exact .ite (.pure _) (paired_removeWhere htest fun _ => id)

theorem paired_reject {f : Block Bool} (hf : ∀ x, Blind (f.run x)) : Paired (reject f) :=
  .check ⟨unedited_checkFrozen, steady_checkFrozen⟩ fun _ =>
    paired_removeWhere (aloof_block hf) fun _ => id

theorem paired_keepIf {f : Block Bool} (hf : ∀ x, Blind (f.run x)) : Paired (keepIf f) :=
  .check ⟨unedited_checkFrozen, steady_checkFrozen⟩ fun _ =>
    paired_removeWhere (aloof_block hf).not fun _ => id

end Edit

end AdaptiveArray
