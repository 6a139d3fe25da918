import AdaptiveArray.Proofs.Frame
import AdaptiveArray.Proofs.Workspace

/-!
# Steps that raise no error

Allocating, copying, and changing slots, sizes and stores may break or want memory, but
raise no error.  Errors come from the checks that an edit begins with.
-/

namespace AdaptiveArray

variable {σ α β : Type}

def Unfailing (c : EStateM Fault σ α) : Prop :=
  ∀ s, Ends c s (fun _ _ => True) fun f _ => f.Fatal

def Atomic (R : σ → σ → Prop) (c : EStateM Fault σ α) : Prop :=
  ∀ s, Ends c s (fun _ _ => True) fun f s' => f.Fatal ∨ R s s'

namespace Unfailing

protected theorem pure (x : α) : Unfailing (pure x : EStateM Fault σ α) := fun _ => trivial

protected theorem get : Unfailing (get : EStateM Fault σ σ) := fun _ => trivial

protected theorem modify (change : σ → σ) : Unfailing (modify change : EStateM Fault σ Unit) :=
  fun _ => trivial

protected theorem throw {f : Fault} (h : f.Fatal) : Unfailing (throw f : EStateM Fault σ α) :=
  fun _ => h

protected theorem bind {c : EStateM Fault σ α} {k : α → EStateM Fault σ β} (h : Unfailing c)
    (hk : ∀ x, Unfailing (k x)) : Unfailing (c >>= k) := fun s =>
  Ends.bind (h s) fun x s' _ => hk x s'

protected theorem ite {p : Prop} [Decidable p] {c d : EStateM Fault σ α} (hc : Unfailing c)
    (hd : Unfailing d) : Unfailing (if p then c else d) := by
  split
  · exact hc
  · exact hd

theorem within {R : σ → σ → Prop} {c : EStateM Fault σ α} (h : Unfailing c) (hR : Within R c)
    (s : σ) : Ends c s (fun _ s' => R s s') fun f _ => f.Fatal :=
  ((h s).and (hR s)).mono (fun _ _ hs => hs.2) fun _ _ hs => hs.1

theorem yields {R : σ → σ → Prop} {P : α → Prop} {c : EStateM Fault σ α} (h : Unfailing c)
    (hR : Yields R P c) (s : σ) : Ends c s (fun x s' => P x ∧ R s s') fun f _ => f.Fatal :=
  ((h s).and (hR s)).mono (fun _ _ hs => hs.2) fun _ _ hs => hs.1

theorem excused {early : Fault → σ → Prop} {c : EStateM Fault σ α} (h : Unfailing c) (s : σ) :
    Ends c s (fun _ _ => True) fun f s' => f.Fatal ∨ early f s' :=
  (h s).mono_early fun _ _ hf => .inl hf

theorem ends_bind {c : EStateM Fault σ α} {k : α → EStateM Fault σ β} {s : σ}
    {post : β → σ → Prop} {early : σ → Prop} (h : Unfailing c)
    (hk : ∀ x s', Ends (k x) s' post fun f s' => f.Fatal ∨ early s') :
    Ends (c >>= k) s post fun f s' => f.Fatal ∨ early s' :=
  Ends.bind ((h s).mono_early fun _ _ hf => .inl hf) fun x s' _ => hk x s'

end Unfailing

namespace Atomic

variable {R : σ → σ → Prop}

theorem of_unfailing {c : EStateM Fault σ α} (h : Unfailing c) : Atomic R c := fun s => h.excused s

theorem of_within {c : EStateM Fault σ α} (h : Within R c) : Atomic R c := fun s =>
  (h s).weaken fun _ _ _ => trivial

protected theorem ite {p : Prop} [Decidable p] {c d : EStateM Fault σ α} (hc : Atomic R c)
    (hd : Atomic R d) : Atomic R (if p then c else d) := by
  split
  · exact hc
  · exact hd

protected theorem bind [Evolution R] {c : EStateM Fault σ α} {k : α → EStateM Fault σ β}
    (h : Within R c) (hk : ∀ x, Atomic R (k x)) : Atomic R (c >>= k) := fun s =>
  Ends.bind (h s) fun x s' hs => (hk x s').mono (fun _ _ _ => trivial)
    fun _ _ hf => hf.imp_right (Evolution.trans hs)

theorem answer {c : EStateM Fault σ α} {f : α → β} (h : Atomic R c) :
    Atomic R (c >>= fun x => pure (f x)) := fun s =>
  Ends.bind (h s) fun _ _ _ => trivial

end Atomic

/-! ## Storage -/

namespace Action

theorem unfailing_ensure (holds : Bool) : Unfailing (ensure holds) := by
  cases holds
  · exact .throw Fault.fatal_broken
  · exact .pure ()

theorem unfailing_demand (found : Option α) : Unfailing (demand found) := by
  cases found
  · exact .throw Fault.fatal_broken
  · exact .pure _

theorem unfailing_options : Unfailing options := fun _ => ends_options.mpr trivial

theorem unfailing_pollAt (i : Nat) : Unfailing (pollAt i) :=
  .bind unfailing_options fun _ => .ite (.modify _) (.pure _)

theorem unfailing_pollOver (n : Nat) : Unfailing (pollOver n) :=
  .bind unfailing_options fun _ => .modify _

theorem unfailing_pollForCopy (e : Element) (n : Nat) : Unfailing (pollForCopy e n) :=
  .bind unfailing_options fun _ => .ite (.modify _) (.pure _)

theorem unfailing_newBuffer (e : Element) (n : Nat) : Unfailing (newBuffer e n) :=
  .ite (.pure _) (.throw Fault.fatal_outOfMemory)

theorem unfailing_newNative (n : Nat) : Unfailing (newNative n) :=
  .ite (.bind (.throw Fault.fatal_outOfMemory) fun _ _ => trivial) fun _ => trivial

theorem unfailing_allocate (k : Kind) (n : Nat) : Unfailing (allocate k n) := by
  unfold allocate
  split
  · exact .ite (.pure _) (.bind (unfailing_newBuffer _ _) fun _ => .pure _)
  · exact .bind (unfailing_newBuffer _ _) fun _ => .pure _
  · exact .bind (unfailing_newBuffer _ _) fun _ => .pure _
  · exact unfailing_newNative n

theorem unfailing_copyTo (src : Store) (srcStart : Nat) (dst : Store) (dstStart len : Nat) :
    Unfailing (copyTo src srcStart dst dstStart len) :=
  .bind (unfailing_ensure _) fun _ => .bind (unfailing_ensure _) fun _ => .ite (.pure _)
    (.bind (unfailing_demand _) fun _ => .bind (unfailing_pollForCopy _ _) fun _ => .pure _)

theorem unfailing_copyAll (bodies : List Body) (start : Nat) (dst : Store) :
    Unfailing (copyAll start bodies dst) := by
  induction bodies generalizing start dst with
  | nil => exact .pure dst
  | cons b rest ih => exact .bind (unfailing_copyTo _ _ _ _ _) fun dst => ih _ dst

theorem unfailing_copyBuffer (b : Buffer) : Unfailing (copyBuffer b) :=
  .ite (.bind (unfailing_pollOver _) fun _ => .pure _) (.pure _)

theorem unfailing_extract (s : Store) (start stop : Nat) : Unfailing (extract s start stop) := by
  refine .bind (unfailing_ensure _) fun _ => ?_
  split
  · exact unfailing_copyBuffer _
  · exact unfailing_copyBuffer _
  · exact .pure _

theorem unfailing_own (v : View) (sole : Bool) : Unfailing (own v sole) :=
  .ite (.pure _) (unfailing_copyBuffer _)

theorem unfailing_clearRange (s : Store) (start stop : Nat) :
    Unfailing (clearRange s start stop) :=
  .ite (.bind (unfailing_ensure _) fun _ => .pure _) (.pure _)

theorem unfailing_grownCapacity (current needed : Nat) :
    Unfailing (grownCapacity current needed) :=
  .ite (.pure _) (.bind (unfailing_ensure _) fun _ => .bind unfailing_options fun _ => .pure _)

theorem unfailing_rotateCopy (src : Store) (rotation size : Nat) (dst : Store) :
    Unfailing (rotateCopy src rotation size dst) :=
  .bind (unfailing_copyTo _ _ _ _ _) fun _ => unfailing_copyTo _ _ _ _ _

end Action

/-! ## Changes of an array -/

namespace Edit

theorem unfailing_lift {act : Action α} (h : Unfailing act) : Unfailing (liftM act : Edit α) :=
  fun w => (ends_lift act).mpr (h w.arena)

theorem unfailing_getSlot (i : Nat) : Unfailing (getSlot i) :=
  .bind .get fun _ => unfailing_lift (Action.unfailing_demand _)

theorem unfailing_change (check : Workspace → Bool) (change : Workspace → Workspace) :
    Unfailing (do
      Action.ensure (check (← get))
      modify change : Edit Unit) :=
  .bind .get fun _ => .bind (unfailing_lift (Action.unfailing_ensure _)) fun _ => .modify _

theorem unfailing_propagate (v : Value) : Unfailing (propagate v) := fun _ =>
  (ends_propagate v).mpr trivial

theorem unfailing_propagateAll (vs : List Value) : Unfailing (propagateAll vs) := fun _ =>
  (ends_propagateAll vs).mpr trivial

theorem unfailing_offers (bodies : List Body) :
    Unfailing (bodies.forM fun b => propagateAll b.toList) := fun _ =>
  (ends_forM_propagateAll bodies).mpr trivial

theorem unfailing_setSlot (i : Nat) (v : Value) : Unfailing (setSlot i v) :=
  unfailing_change _ _

theorem unfailing_setSlots (vs : List Value) (start : Nat) : Unfailing (setSlots start vs) := by
  induction vs generalizing start with
  | nil => exact .pure ()
  | cons v vs ih => exact .bind (unfailing_setSlot start v) fun _ => ih _

theorem unfailing_moveSlots (src dst len : Nat) : Unfailing (moveSlots src dst len) :=
  unfailing_change _ _

theorem unfailing_clearSlots (start stop : Nat) : Unfailing (clearSlots start stop) :=
  .ite (unfailing_change _ _) (.pure _)

theorem unfailing_reverseSlots (start stop : Nat) : Unfailing (reverseSlots start stop) :=
  unfailing_change _ _

theorem unfailing_setSize (n : Nat) : Unfailing (setSize n) :=
  unfailing_change (fun w => n ≤ w.body.capacity) _

theorem unfailing_spliceSlots (position n : Nat) (vs : List Value) :
    Unfailing (spliceSlots position n vs) := by
  have hwrite : Unfailing (do
      setSlots position vs
      setSize (max position n + vs.length)) :=
    .bind (unfailing_setSlots _ _) fun _ => unfailing_setSize _
  exact .ite (.bind (unfailing_moveSlots _ _ _) fun _ => hwrite)
    (.bind (unfailing_clearSlots _ _) fun _ => hwrite)

theorem unfailing_extendSlots (n position : Nat) (v : Value) :
    Unfailing (extendSlots n position v) :=
  .bind (unfailing_clearSlots _ _) fun _ => .bind (unfailing_setSlot _ v) fun _ =>
    unfailing_setSize _

theorem unfailing_replaceStore (s : Store) (n : Nat) : Unfailing (replaceStore s n) :=
  .bind (unfailing_lift (Action.unfailing_ensure _)) fun _ => .modify _

theorem unfailing_reallocate (target : Kind) (capacity : Nat) :
    Unfailing (reallocate target capacity) :=
  .bind (fun _ => trivial) fun _ => .bind (unfailing_lift (Action.unfailing_allocate _ _)) fun _ =>
    .bind (fun _ => trivial) fun _ => .bind (unfailing_lift (Action.unfailing_copyTo _ _ _ _ _))
      fun _ => .bind (.modify _) fun _ => unfailing_replaceStore _ _

theorem unfailing_unshare (v : View) (aside : List Store) : Unfailing (unshare v aside) :=
  .bind (fun _ => trivial) fun _ => .bind (fun _ => trivial) fun _ =>
    .bind (unfailing_lift (Action.unfailing_own _ _)) fun _ =>
      .bind (unfailing_lift (Action.unfailing_clearRange _ _ _)) fun _ => unfailing_replaceStore _ _

theorem unfailing_ensureStorage (target : Kind) (needed : Nat) (aside : List Store) :
    Unfailing (ensureStorage target needed aside) := by
  have hroom (capacity : Nat) : Unfailing (ensureStorage.room needed capacity) :=
    .ite (unfailing_lift (Action.unfailing_grownCapacity _ _)) (.pure _)
  refine .bind (fun _ => trivial) fun _ => .bind (fun _ => trivial) fun _ =>
    .ite (.pure _) (.bind (fun _ => trivial) fun s => ?_)
  split
  · exact .ite (unfailing_unshare _ aside) (.bind (hroom _) fun _ => unfailing_reallocate _ _)
  · exact .bind (hroom _) fun _ => unfailing_reallocate _ _

theorem unfailing_ensureMutable : Unfailing ensureMutable :=
  .bind (fun _ => trivial) fun _ => .bind (fun _ => trivial) fun _ => unfailing_ensureStorage _ _ _

theorem unfailing_shareRange (start stop : Nat) : Unfailing (shareRange start stop) := by
  refine .bind (fun _ => trivial) fun s => ?_
  split
  · exact .bind (unfailing_lift fun _ => trivial) fun _ =>
      .bind (unfailing_lift (Action.unfailing_demand _)) fun _ => .bind (.modify _) fun _ => .pure _
  · exact unfailing_lift (Action.unfailing_extract _ _ _)

theorem unfailing_extractShared (start stop : Nat) : Unfailing (extractShared start stop) :=
  .bind (fun _ => trivial) fun _ => .bind (unfailing_lift (Action.unfailing_ensure _)) fun _ =>
    unfailing_shareRange start stop

theorem unfailing_slice (start length : Int64) : Unfailing (slice start length) := by
  refine .bind (fun _ => trivial) fun _ => .bind .get fun w => ?_
  split
  · exact .pure _
  · exact .ite (.pure _) (.bind (unfailing_extractShared _ _) fun _ =>
      .bind (unfailing_lift (Action.unfailing_demand _)) fun _ => .pure _)

theorem unfailing_dup : Unfailing dup :=
  .bind (fun _ => trivial) fun _ => .ite (.pure _) (.bind (unfailing_extractShared _ _) fun _ =>
    unfailing_lift (Action.unfailing_demand _))

theorem unfailing_toNative : Unfailing toNative := by
  refine .bind (fun _ => trivial) fun s => ?_
  split
  · exact .pure _
  · exact .bind (fun _ => trivial) fun _ => .bind (unfailing_lift (Action.unfailing_newNative _))
      fun _ => .bind (unfailing_lift (Action.unfailing_copyTo _ _ _ _ _)) fun _ =>
        .bind (.modify _) fun _ => unfailing_replaceStore _ _

end Edit

end AdaptiveArray
