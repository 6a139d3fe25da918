import AdaptiveArray.Proofs.EditFrame
import AdaptiveArray.Proofs.Twins

/-!
# Looking before changing

Most edits look for what can be wrong before they change anything, and raise no error
once they have begun to change an array.  What they look at is the same for one array in
twin arenas.  So such an edit raises an error in both runs or in none, and an error
leaves the array as it was.

What an edit offers to its array before a check that fails stays shared.  So it matters
to which relation of arenas the checks keep: those of pushing and setting keep to sharing,
those of the other edits to the counts.
-/

namespace AdaptiveArray

variable {α β : Type}

/-! ## What changes nothing of an array -/

structure Workspace.Unedited (R : Arena → Arena → Prop) (w w' : Workspace) : Prop where
  owner : w'.owner = w.owner
  body : w'.body = w.body
  arena : R w.arena w'.arena

instance {R : Arena → Arena → Prop} [Evolution R] : Evolution (Workspace.Unedited R) where
  refl w := ⟨rfl, rfl, Evolution.refl w.arena⟩
  trans h h' := ⟨h'.owner.trans h.owner, h'.body.trans h.body, Evolution.trans h.arena h'.arena⟩

namespace Edit

variable {R : Arena → Arena → Prop}

theorem unedited_lift {act : Action α} (h : Within R act) :
    Within (Workspace.Unedited R) (liftM act : Edit α) := fun w => by
  rw [ends_lift]
  exact (h w.arena).mono (fun _ _ ha => ⟨rfl, rfl, ha⟩)
    fun _ _ ha => ha.imp_right fun ha => ⟨rfl, rfl, ha⟩

section Count

variable [Arena.Count R]

theorem unedited_read (look : Workspace → α) :
    Within (Workspace.Unedited R) (get >>= fun w => pure (look w)) :=
  .bind .get fun _ => .pure _

theorem unedited_fail (e : ArrayError) :
    Within (Workspace.Unedited R) (liftM (Action.fail e : Action α) : Edit α) :=
  unedited_lift (.throw _)

theorem unedited_checkFrozen : Within (Workspace.Unedited R) checkFrozen :=
  .bind .get fun _ => .ite (.throw _) (.pure _)

theorem unedited_getSlot (i : Nat) : Within (Workspace.Unedited R) (getSlot i) :=
  .bind .get fun _ => unedited_lift (Action.within_demand _)

theorem unedited_sizeArgument (n : Int64) : Within (Workspace.Unedited R) (sizeArgument n) := by
  refine .ite (.bind (unedited_fail _) fun _ => ?_) ?_
  all_goals exact .ite (.bind (unedited_fail _) fun _ => .pure _) (.pure _)

theorem unedited_countArgument (n : Int64) : Within (Workspace.Unedited R) (countArgument n) :=
  .ite (unedited_fail _) (.pure _)

end Count

theorem unedited_propagate [Arena.Frame R] (v : Value) :
    Within (Workspace.Unedited R) (propagate v) := fun w => by
  rw [ends_propagate]
  exact ⟨rfl, Workspace.body_offer w v, (follows_offer (S := Workspace.Follows R) w v).2⟩

end Edit

structure Workspace.Pair (r : Body → Body → Prop) (w v : Workspace) : Prop where
  owner : w.owner = v.owner
  body : r w.body v.body
  arena : w.arena.Twin v.arena

/-! ## Runs of an edit side by side -/

namespace Edit

variable {r r' : Body → Body → Prop} {w v : Workspace} {excused : Fault → Workspace → Prop}
  {post : α → α → Workspace → Workspace → Prop} {early : Workspace → Workspace → Prop}

theorem beside_action {act act' : Action α} {q : α → α → Prop}
    (h : Beside (fun f _ => f.Fatal) act act' w.arena v.arena
      (fun x y a c => q x y ∧ a.Twin c) Arena.Twin) (hwv : w.Pair r v) :
    Beside (fun f _ => f.Fatal) (liftM act : Edit α) (liftM act') w v
      (fun x y w' v' => q x y ∧ w'.Pair r v') (Workspace.Pair r) := by
  obtain ⟨owner, body, a⟩ := w
  obtain ⟨owner', body', c⟩ := v
  obtain ⟨howner, hbody, -⟩ := hwv
  unfold Beside at h
  simp only [Beside, liftM, monadLift, MonadLift.monadLift, ofAction]
  cases ha : act a <;> cases hc : act' c <;> simp only [ha, hc] at h ⊢
  · exact ⟨h.1, howner, hbody, h.2⟩
  · exact h
  · exact h
  · exact h.imp_right fun h => h.imp_right fun h => ⟨howner, hbody, h⟩

theorem beside_lift {act : Action α} (h : Blind act) (hwv : w.Pair r v) :
    Beside (fun f _ => f.Fatal) (liftM act : Edit α) (liftM act) w v
      (fun x y w' v' => x = y ∧ w'.Pair r v') (Workspace.Pair r) :=
  beside_action (h w.arena v.arena hwv.arena) hwv

theorem beside_offer (hwv : w.Pair r v) (x : Value) : (w.offer x).Pair r (v.offer x) where
  owner := hwv.owner
  body := hwv.body
  arena := hwv.arena.still (follows_offer (S := Workspace.Follows Arena.Still) w x).2
    (follows_offer (S := Workspace.Follows Arena.Still) v x).2

theorem beside_propagate (x : Value) (hwv : w.Pair r v) :
    Beside excused (propagate x) (propagate x) w v (fun _ _ w' v' => w'.Pair r v') early := by
  apply Beside.of_ends (p := fun _ w' => w' = w.offer x) (q := fun _ v' => v' = v.offer x)
  · exact (ends_propagate x).mpr rfl
  · exact (ends_propagate x).mpr rfl
  · rintro _ _ _ _ rfl rfl
    exact beside_offer hwv x

theorem beside_checkFrozen {k l : Unit → Edit α} (hfrozen : w.body.frozen = v.body.frozen)
    (hearly : early w v)
    (h : w.body.frozen = false → v.body.frozen = false →
      Beside excused (k ()) (l ()) w v post early) :
    Beside excused (checkFrozen >>= k) (checkFrozen >>= l) w v post early := by
  cases hw : w.body.frozen with
  | true =>
      unfold Beside
      rw [run_bind_of_error (checkFrozen_eq hw), run_bind_of_error (checkFrozen_eq (hfrozen ▸ hw))]
      exact .inr (.inr hearly)
  | false =>
      have hpass : ∀ {u : Workspace}, u.body.frozen = false →
          ∀ k : Unit → Edit α, (checkFrozen >>= k) u = k () u := by
        intro u hu k
        refine run_bind_of_ok ?_
        rw [checkFrozen, run_get_bind, hu]
        rfl
      unfold Beside
      rw [hpass hw, hpass (hfrozen ▸ hw)]
      exact h hw (hfrozen ▸ hw)

/-! ## One array in twin arenas -/

def Steady (e : Edit α) : Prop :=
  ∀ w v : Workspace, w.Pair Eq v → Beside (fun f _ => f.Fatal) e e w v
    (fun x y w' v' => x = y ∧ w'.Pair Eq v') (Workspace.Pair Eq)

def Concurs (e : Edit α) : Prop :=
  ∀ w v : Workspace, w.Pair Eq v → Beside (fun f _ => f.Fatal) e e w v
    (fun _ _ _ _ => True) (Workspace.Pair Eq)

theorem steady_look (view : Body → α) : Steady (get >>= fun w => pure (view w.body)) := by
  intro w v hwv
  exact ⟨congrArg view hwv.body, hwv⟩

theorem steady_lift {act : Action α} (h : Blind act) : Steady (liftM act : Edit α) :=
  fun _ _ hwv => beside_lift h hwv

theorem steady_fail (e : ArrayError) : Steady (liftM (Action.fail e : Action α) : Edit α) :=
  steady_lift (.throw _)

theorem steady_checkFrozen : Steady checkFrozen := by
  intro w v hwv
  rw [← bind_pure checkFrozen]
  exact beside_checkFrozen (congrArg Body.frozen hwv.body) hwv fun _ _ => ⟨rfl, hwv⟩

theorem steady_propagate (x : Value) : Steady (propagate x) := fun _ _ hwv =>
  (beside_propagate x hwv).weaken fun _ _ _ _ h => ⟨rfl, h⟩

theorem Concurs.bind {c : Edit α} {k : α → Edit β} (h : Steady c) (hk : ∀ x, Concurs (k x)) :
    Concurs (c >>= k) := by
  intro w v hwv
  apply Beside.bind (h w v hwv)
  rintro x _ w' v' ⟨rfl, hwv'⟩
  exact hk x w' v' hwv'

theorem Steady.bind {c : Edit α} {k : α → Edit β} (h : Steady c) (hk : ∀ x, Steady (k x)) :
    Steady (c >>= k) := by
  intro w v hwv
  apply Beside.bind (h w v hwv)
  rintro x _ w' v' ⟨rfl, hwv'⟩
  exact hk x w' v' hwv'

theorem Steady.pure (x : α) : Steady (pure x) := fun _ _ hwv => ⟨rfl, hwv⟩

theorem Concurs.of_unfailing {e : Edit α} (h : Unfailing e) : Concurs e := fun w v _ =>
  .of_ends (h w) (h v) fun _ _ _ _ _ _ => trivial

theorem steady_countArgument (n : Int64) : Steady (countArgument n) := by
  unfold countArgument
  split
  · exact steady_fail _
  · exact .pure _

theorem steady_sizeArgument (n : Int64) : Steady (sizeArgument n) := by
  have hbig : Steady (do
      if maxSize < n.toInt.toNat then Action.fail .sizeTooBig
      return n.toInt.toNat : Edit Nat) := by
    dsimp only
    split
    · exact .bind (steady_fail _) fun _ => .pure _
    · exact .pure _
  unfold sizeArgument
  dsimp only
  split
  · exact .bind (steady_fail _) fun _ => hbig
  · exact hbig

/-! ## Cautious edits -/

structure Check (R : Arena → Arena → Prop) (c : Edit α) : Prop where
  unedited : Within (Workspace.Unedited R) c
  steady : Steady c

/-- The edit begins with checks, and then raises no error. -/
inductive Cautious (R : Arena → Arena → Prop) : {α : Type} → Edit α → Prop
  | check {α β : Type} {c : Edit α} {k : α → Edit β} (look : Check R c)
      (rest : ∀ x, Cautious R (k x)) : Cautious R (c >>= k)
  | change {α : Type} {e : Edit α} (unfailing : Unfailing e) : Cautious R e

section Checks

variable {R : Arena → Arena → Prop}

theorem Cautious.concurs {e : Edit α} (h : Cautious R e) : Concurs e := by
  induction h with
  | check look _ ih => exact .bind look.steady ih
  | change unfailing => exact .of_unfailing unfailing

protected theorem Cautious.pure (x : α) : Cautious R (pure x) := .change (.pure x)

protected theorem Cautious.ite {p : Prop} [Decidable p] {c d : Edit α} (hc : Cautious R c)
    (hd : Cautious R d) : Cautious R (if p then c else d) := by
  split
  · exact hc
  · exact hd

theorem Cautious.of_check {c : Edit α} (h : Check R c) : Cautious R c := by
  have h' := Cautious.check h fun x => Cautious.pure x
  rwa [bind_pure] at h'

variable [Arena.Count R]

theorem check_look (view : Body → α) : Check R (get >>= fun w => pure (view w.body)) :=
  ⟨unedited_read fun w => view w.body, steady_look view⟩

theorem check_size : Check R size := check_look Body.size

theorem check_capacity : Check R capacity := check_look Body.capacity

theorem check_kind : Check R kind := check_look Body.kind

namespace Cautious

theorem atomic {e : Edit α} (h : Cautious R e) : Atomic (Workspace.Unedited R) e := by
  induction h with
  | check look _ ih => exact .bind look.unedited ih
  | change unfailing => exact .of_unfailing unfailing

theorem read {k : Workspace → Edit α} (hbody : ∀ w v : Workspace, w.body = v.body → k w = k v)
    (hk : ∀ w, Cautious R (k w)) : Cautious R (get >>= k) := by
  have h := Cautious.check (check_look id) fun b => hk ⟨0, b, {}⟩
  rw [bind_assoc] at h
  simp only [pure_bind, id] at h
  rwa [show k = fun w => k ⟨0, w.body, {}⟩ from funext fun w => hbody w ⟨0, w.body, {}⟩ rfl]

theorem fail (e : ArrayError) {k : α → Edit β} (hk : ∀ x, Cautious R (k x)) :
    Cautious R (liftM (Action.fail e : Action α) >>= k) :=
  .check ⟨unedited_fail e, steady_fail e⟩ hk

theorem checkFrozen {k : Unit → Edit α} (hk : Cautious R (k ())) :
    Cautious R (Edit.checkFrozen >>= k) :=
  .check ⟨unedited_checkFrozen, steady_checkFrozen⟩ fun _ => hk

end Cautious

end Checks

theorem Cautious.propagate {R : Arena → Arena → Prop} [Arena.Frame R] (v : Value)
    {k : Unit → Edit α} (hk : Cautious R (k ())) : Cautious R (Edit.propagate v >>= k) :=
  .check ⟨unedited_propagate v, steady_propagate v⟩ fun _ => hk

/-! ### Offering before the last check -/

variable {R : Arena → Arena → Prop}

theorem cautious_push [Arena.Frame R] (v : Value) : Cautious R (push v) := by
  have hwrite (n : Nat) : Unfailing (do
      setSlot n v
      setSize (n + 1) : Edit Unit) :=
    .bind (unfailing_setSlot _ v) fun _ => unfailing_setSize _
  apply Cautious.checkFrozen
  apply Cautious.propagate
  apply Cautious.check check_size
  intro n
  apply Cautious.check check_kind
  intro current
  apply Cautious.check check_capacity
  intro capacity
  apply Cautious.ite
  · apply Cautious.check ⟨unedited_lift (Action.within_capacityForOneMore n),
      steady_lift (.bind Action.blind_options fun _ => .pure _)⟩
    intro room
    have hgrow : Cautious R (do
        reallocate (current.forValue v) room
        setSlot n v
        setSize (n + 1)) :=
      .change (.bind (unfailing_reallocate _ _) fun _ => hwrite n)
    exact .ite (.fail _ fun _ => hgrow) hgrow
  · exact .change (.bind (unfailing_ensureStorage _ _ _) fun _ => hwrite n)

theorem cautious_set [Arena.Frame R] (index : Int64) (v : Value) :
    Cautious R (set index v) := by
  have hgrow (padded : Kind) (n position : Nat) : Cautious R (do
      ensureStorage padded (position + 1)
      extendSlots n position v) :=
    .change (.bind (unfailing_ensureStorage _ _ _) fun _ => unfailing_extendSlots _ _ _)
  apply Cautious.checkFrozen
  apply Cautious.check check_size
  intro n
  refine Cautious.read (fun w v h => by rw [h]) fun w => ?_
  cases w.body.position? index with
  | none => exact .of_check ⟨unedited_fail _, steady_fail _⟩
  | some position =>
      apply Cautious.propagate
      apply Cautious.check check_kind
      intro current
      apply Cautious.ite
      · exact .change (.bind (unfailing_ensureStorage _ _ _) fun _ => unfailing_setSlot _ v)
      · exact .ite (.fail _ fun _ => hgrow _ n position) (hgrow _ n position)

/-! ### Offering after every check -/

variable [Arena.Count R]

theorem cautious_concat (others : List Body) : Cautious R (concat others) := by
  have hconcat (current : Kind) (n : Nat) : Unfailing (do
      let target := (others.filter fun b => !b.isEmpty).foldl (fun k b => k.forStore b.kind) current
      others.forM fun b => propagateAll b.toList
      ensureStorage target (n + others.foldl (fun n b => n + b.size) 0) (others.map Body.store)
      let grown ← Action.copyAll n others (← takeStore)
      replaceStore grown (n + others.foldl (fun n b => n + b.size) 0) : Edit Unit) :=
    .bind (unfailing_offers others) fun _ => .bind (unfailing_ensureStorage _ _ _) fun _ =>
      .bind (fun _ => trivial) fun _ => .bind (unfailing_lift (Action.unfailing_copyAll _ _ _))
        fun _ => unfailing_replaceStore _ _
  have hchange (n : Nat) := Cautious.check check_kind fun current =>
    Cautious.change (R := R) (hconcat current n)
  apply Cautious.checkFrozen
  apply Cautious.check check_size
  intro n
  exact .ite (.pure _) (.ite (.fail _ fun _ => hchange n) (hchange n))

theorem cautious_insertAt (position : Nat) (vs : List Value) :
    Cautious R (insertAt position vs) := by
  have hinsert (current : Kind) (n : Nat) : Unfailing (do
      let padded := if n < position then current.forValue .nil else current
      let target := vs.foldl Kind.forValue padded
      propagateAll vs
      ensureStorage target (max position n + vs.length)
      spliceSlots position n vs : Edit Unit) :=
    .bind (unfailing_propagateAll vs) fun _ => .bind (unfailing_ensureStorage _ _ _) fun _ =>
      unfailing_spliceSlots _ _ _
  have hchange (n : Nat) := Cautious.check check_kind fun current =>
    Cautious.change (R := R) (hinsert current n)
  apply Cautious.check check_size
  intro n
  exact .ite (.fail _ fun _ => hchange n) (hchange n)

theorem cautious_insert (index : Int64) (vs : List Value) : Cautious R (insert index vs) := by
  apply Cautious.checkFrozen
  apply Cautious.ite (.pure _)
  apply Cautious.check check_size
  intro n
  apply Cautious.ite
  · exact .ite (.fail _ fun _ => cautious_insertAt _ vs) (cautious_insertAt _ vs)
  · exact cautious_insertAt _ vs

theorem cautious_unshift (vs : List Value) : Cautious R (unshift vs) :=
  .checkFrozen (.ite (.pure _) (cautious_insertAt 0 vs))

theorem cautious_fill (v : Value) : Cautious R (fill v) := by
  apply Cautious.checkFrozen
  apply Cautious.check check_size
  intro n
  apply Cautious.ite (.pure _)
  exact .change (.bind (unfailing_propagate v) fun _ => .bind (fun _ => trivial) fun _ =>
    .bind (unfailing_ensureStorage _ _ _) fun _ =>
      .bind (unfailing_lift (Action.unfailing_pollOver _)) fun _ => unfailing_setSlots _ _)

theorem cautious_clear : Cautious R clear := .checkFrozen (.change (unfailing_replaceStore _ _))

theorem cautious_replace (other : Body) : Cautious R (replace other) :=
  .checkFrozen (.change (.bind (unfailing_propagateAll _) fun _ => unfailing_replaceStore _ _))

theorem unfailing_restartFilled (n : Nat) (v : Value) : Unfailing (restartFilled n v) :=
  .ite (unfailing_replaceStore _ _) (.bind (unfailing_propagate v) fun _ =>
    .bind (unfailing_lift (Action.unfailing_allocate _ _)) fun _ =>
      .ite (unfailing_replaceStore _ _)
      (.bind (unfailing_lift (Action.unfailing_pollOver _)) fun _ => unfailing_replaceStore _ _))

/-! ### Taking elements off, and turning round -/

theorem cautious_rotate (count : Int64) : Cautious R (rotate count) := by
  have hcopy (rotation n : Nat) : Unfailing (do
      let fresh ← Action.allocate (← kind).forMutation n
      let rotated ← Action.rotateCopy (← store) rotation n fresh
      replaceStore rotated n : Edit Unit) :=
    .bind (fun _ => trivial) fun _ => .bind (unfailing_lift (Action.unfailing_allocate _ _))
      fun _ => .bind (fun _ => trivial) fun _ => .bind
        (unfailing_lift (Action.unfailing_rotateCopy _ _ _ _)) fun _ => unfailing_replaceStore _ _
  apply Cautious.checkFrozen
  apply Cautious.check check_size
  intro n
  apply Cautious.ite (.pure _)
  apply Cautious.ite (.pure _)
  apply Cautious.change
  refine Unfailing.bind (fun _ => trivial) fun _ => ?_
  apply Unfailing.ite (hcopy _ n)
  apply Unfailing.bind (unfailing_lift Action.unfailing_options)
  intro _
  apply Unfailing.ite
  · exact .bind .get fun _ => unfailing_setSlots _ _
  · exact .bind (unfailing_reverseSlots _ _) fun _ => .bind (unfailing_reverseSlots _ _) fun _ =>
      unfailing_reverseSlots _ _

theorem cautious_deleteAt (index : Int64) : Cautious R (deleteAt index) := by
  apply Cautious.checkFrozen
  apply Cautious.check check_size
  intro n
  refine Cautious.read (fun w v h => by rw [h]) fun w => ?_
  cases w.body.position? index with
  | none => exact .pure _
  | some position =>
      apply Cautious.ite (.pure _)
      apply Cautious.change
      exact .bind (unfailing_getSlot _) fun _ => .bind unfailing_ensureMutable fun _ =>
        .bind (unfailing_moveSlots _ _ _) fun _ => .bind (unfailing_clearSlots _ _) fun _ =>
          .bind (unfailing_setSize _) fun _ => .pure _

theorem cautious_pop : Cautious R pop := by
  apply Cautious.checkFrozen
  apply Cautious.change
  refine Unfailing.bind (fun _ => trivial) fun n => ?_
  apply Unfailing.ite (.pure _)
  apply Unfailing.bind (unfailing_getSlot _)
  intro v
  refine Unfailing.bind (fun _ => trivial) fun _ => ?_
  apply Unfailing.ite
  · exact .bind (unfailing_clearSlots _ _) fun _ => .bind (unfailing_setSize _) fun _ => .pure _
  · exact .bind (unfailing_setSize _) fun _ => .pure _

theorem cautious_popN (count : Int64) : Cautious R (popN count) := by
  apply Cautious.checkFrozen
  apply Cautious.check check_size
  intro n
  apply Cautious.check ⟨unedited_countArgument count, steady_countArgument count⟩
  intro taken
  apply Cautious.ite (.pure _)
  apply Cautious.change
  refine Unfailing.bind (fun _ => trivial) fun _ => ?_
  apply Unfailing.bind (unfailing_lift (Action.unfailing_extract _ _ _))
  intro part
  refine Unfailing.bind (fun _ => trivial) fun _ => ?_
  apply Unfailing.ite
  · exact .bind (unfailing_clearSlots _ _) fun _ => .bind (unfailing_setSize _) fun _ =>
      unfailing_lift (Action.unfailing_demand _)
  · exact .bind (unfailing_setSize _) fun _ => unfailing_lift (Action.unfailing_demand _)

theorem cautious_shift : Cautious R shift := by
  apply Cautious.checkFrozen
  apply Cautious.change
  refine Unfailing.bind (fun _ => trivial) fun n => ?_
  apply Unfailing.ite (.pure _)
  exact .bind (unfailing_getSlot _) fun _ => .bind (unfailing_extractShared _ _) fun _ =>
    .bind (unfailing_replaceStore _ _) fun _ => .pure _

theorem cautious_shiftN (count : Int64) : Cautious R (shiftN count) := by
  apply Cautious.checkFrozen
  apply Cautious.check check_size
  intro n
  apply Cautious.check ⟨unedited_countArgument count, steady_countArgument count⟩
  intro taken
  apply Cautious.ite (.pure _)
  exact .change (.bind (unfailing_extractShared _ _) fun _ =>
    .bind (unfailing_extractShared _ _) fun _ => .bind (unfailing_replaceStore _ _) fun _ =>
      unfailing_lift (Action.unfailing_demand _))

end Edit

end AdaptiveArray
