import AdaptiveArray.Native
import AdaptiveArray.Proofs.Unfailing

/-!
# Frames of edits

A relation of workspaces is a frame if the steps that edits are made of keep it.  The
steps are few: the slots and the size of the body change in place, a store is put in
place of another, elements move to native storage, and values are shared.  A relation
of arenas that bookkeeping and sharing keep gives such a frame.
-/

namespace AdaptiveArray

/-- A relation of workspaces that counting and changes of the elements keep.  There are no more
elements than before, or there is room for them. -/
class Workspace.Steady (S : Workspace → Workspace → Prop) : Prop extends Evolution S where
  counted : ∀ (w : Workspace) {a : Arena}, w.arena.Counted a → S w (w.withArena a)
  revised : ∀ (w : Workspace) {b : Body}, b.store.claim? = w.body.store.claim? →
    b.size ≤ w.body.size ∨ b.size ≤ b.capacity → S w { w with body := b }

class Workspace.Tally (S : Workspace → Workspace → Prop) : Prop extends Workspace.Steady S where
  replaced : ∀ (w : Workspace) {s : Store} (n : Nat), s.claim? = none → S w (w.replaced s n)
  rehoused : ∀ (w : Workspace) {a : Arena} (slots : Array Value) (n : Nat),
    (w.arena.enrolled slots.size).Counted a →
      S w ((w.withArena (a.attachMarker (.native w.arena.nextAddress slots))).replaced
        (.native w.arena.nextAddress slots) n)

class Workspace.Frame (S : Workspace → Workspace → Prop) : Prop extends Workspace.Tally S where
  shareValue : ∀ (w : Workspace) (v : Value), S w (w.withArena (w.arena.shareValue v))

def Workspace.Follows (R : Arena → Arena → Prop) (w w' : Workspace) : Prop :=
  w'.owner = w.owner ∧ R w.arena w'.arena

section

variable {R : Arena → Arena → Prop}

instance [Evolution R] : Evolution (Workspace.Follows R) where
  refl w := ⟨rfl, Evolution.refl w.arena⟩
  trans h h' := ⟨h'.1.trans h.1, Evolution.trans h.2 h'.2⟩

theorem Workspace.follows_replaced [Arena.Tally R] (w : Workspace) (s : Store) (n : Nat) :
    w.Follows R (w.replaced s n) :=
  ⟨rfl, Arena.Tally.booked (Arena.Booked.release w.arena w.body.store)⟩

instance [Arena.Tally R] : Workspace.Tally (Workspace.Follows R) where
  counted _ _ h := ⟨rfl, Arena.Count.counted h⟩
  revised w _ _ _ := ⟨rfl, Evolution.refl w.arena⟩
  replaced w s n _ := w.follows_replaced s n
  rehoused w a slots n h := by
    let moved := Store.native w.arena.nextAddress slots
    have hmoved := (w.arena.booked_enrolled slots.size).trans h.toBooked
    have hstart : w.Follows R (w.withArena (a.attachMarker moved)) :=
      ⟨rfl, Arena.Tally.booked (hmoved.trans (.attachMarker a moved))⟩
    exact Evolution.trans hstart (Workspace.follows_replaced _ _ n)

instance [Arena.Frame R] : Workspace.Frame (Workspace.Follows R) where
  shareValue w v := ⟨rfl, Arena.Frame.shareValue w.arena v⟩

end

theorem Arena.attachMarker_of_claim? {s : Store} (h : s.claim? = none) (a : Arena) :
    a.attachMarker s = a := by
  cases s with
  | native address slots => cases h
  | _ => rfl

namespace Edit

variable {α : Type}

variable {S : Workspace → Workspace → Prop}

theorem within_lift_of {R : Arena → Arena → Prop} {act : Action α}
    (hwith : ∀ (w : Workspace) (a : Arena), R w.arena a → S w (w.withArena a)) (h : Within R act) :
    Within S (liftM act : Edit α) := fun w => by
  rw [ends_lift]
  exact (h w.arena).mono (fun _ a => hwith w a) fun _ a => Or.imp_right (hwith w a)

theorem within_lift {R : Arena → Arena → Prop} {act : Action α} (h : Within R act) :
    Within (Workspace.Follows R) (liftM act : Edit α) :=
  within_lift_of (fun _ _ ha => ⟨rfl, ha⟩) h

theorem within_attempt {e : Edit α} (h : Within S e) : Within S (attempt e) := fun w => by
  rw [ends_attempt]
  refine (h w).mono_early fun f w' hw => ?_
  cases f with
  | raised e => exact hw.resolve_left (Fault.not_fatal_raised e)
  | _ => exact hw

section

variable [Evolution S]

theorem within_size : Within S size := .bind .get fun _ => .pure _

theorem within_capacity : Within S capacity := .bind .get fun _ => .pure _

theorem within_kind : Within S kind := .bind .get fun _ => .pure _

theorem within_store : Within S store := .bind .get fun _ => .pure _

theorem within_isMutable : Within S isMutable := .bind .get fun _ => .pure _

theorem within_checkFrozen : Within S checkFrozen :=
  .bind .get fun _ => .ite (.throw _) (.pure _)

end

section

variable [Workspace.Steady S]

theorem yields_count {P : α → Prop} {act : Action α} (h : Yields Arena.Counted P act) :
    Yields S P (liftM act : Edit α) := fun w => by
  rw [ends_lift]
  exact (h w.arena).mono (fun _ _ ha => ha.imp_right (Workspace.Steady.counted w))
    fun _ _ ha => ha.imp_right (Workspace.Steady.counted w)

theorem within_count {act : Action α} (h : Within Arena.Counted act) :
    Within S (liftM act : Edit α) :=
  (yields_count (P := fun _ => True) (.of_within h fun _ => trivial)).within

theorem within_getSlot (i : Nat) : Within S (getSlot i) :=
  .bind .get fun _ => within_count (Action.within_demand _)

theorem within_change (check : Workspace → Bool) (change : Body → Body)
    (hclaim : ∀ b, (change b).store.claim? = b.store.claim?)
    (hsize : ∀ w, check w →
      (change w.body).size ≤ w.body.size ∨ (change w.body).size ≤ (change w.body).capacity) :
    Within S (do
      Action.ensure (check (← get))
      modify fun ⟨owner, body, arena⟩ => ⟨owner, change body, arena⟩ : Edit Unit) := fun w => by
  rw [ends_bind, ends_get, ends_bind, ends_lift, Action.ends_ensure]
  split
  case isTrue hcheck => exact Workspace.Steady.revised w (hclaim w.body) (hsize w hcheck)
  case isFalse => exact .inl Fault.fatal_broken

theorem within_changeStore (check : Workspace → Bool) (change : Store → Store)
    (h : ∀ s, (change s).claim? = s.claim?) : Within S (do
      Action.ensure (check (← get))
      modify fun ⟨owner, body, arena⟩ => ⟨owner, { body with store := change body.store }, arena⟩ :
      Edit Unit) :=
  within_change check (fun b => { b with store := change b.store }) (fun b => h b.store)
    fun _ _ => .inl (Nat.le_refl _)

theorem within_setSlot (i : Nat) (v : Value) : Within S (setSlot i v) :=
  within_changeStore (fun w => w.body.store.admits i v) (fun s => s.set i v)
    fun s => s.claim?_set i v

theorem within_setSlots (vs : List Value) (start : Nat) : Within S (setSlots start vs) := by
  induction vs generalizing start with
  | nil => exact .pure ()
  | cons v vs ih => exact .bind (within_setSlot start v) fun _ => ih _

theorem within_moveSlots (src dst len : Nat) : Within S (moveSlots src dst len) :=
  within_changeStore (fun w => w.body.store.canMove src dst len) (fun s => s.move src dst len)
    fun s => s.claim?_move src dst len

theorem within_clearSlots (start stop : Nat) : Within S (clearSlots start stop) :=
  .ite (within_changeStore (fun w => w.body.store.hasWritable start stop)
    (fun s => s.clear start stop) fun s => s.claim?_clear start stop) (.pure _)

theorem within_reverseSlots (start stop : Nat) : Within S (reverseSlots start stop) :=
  within_changeStore (fun w => w.body.store.hasWritable start stop)
    (fun s => s.reverse start stop) fun s => s.claim?_reverse start stop

theorem within_setSize (n : Nat) : Within S (setSize n) :=
  within_change (fun w => n ≤ w.body.capacity) (fun b => { b with size := n }) (fun _ => rfl)
    fun _ hcheck => .inr (of_decide_eq_true hcheck)

theorem within_spliceSlots (position n : Nat) (vs : List Value) :
    Within S (spliceSlots position n vs) := by
  have hwrite : Within S (do
      setSlots position vs
      setSize (max position n + vs.length)) :=
    .bind (within_setSlots _ _) fun _ => within_setSize _
  exact .ite (.bind (within_moveSlots _ _ _) fun _ => hwrite)
    (.bind (within_clearSlots _ _) fun _ => hwrite)

theorem within_extendSlots (n position : Nat) (v : Value) :
    Within S (extendSlots n position v) :=
  .bind (within_clearSlots _ _) fun _ => .bind (within_setSlot _ v) fun _ => within_setSize _

theorem within_freeze : Within S freeze :=
  .modify fun w => Workspace.Steady.revised w rfl (.inl (Nat.le_refl _))

theorem within_append (n total : Nat) (others : List Body) : Within S (do
    let grown ← Action.copyAll n others (← takeStore)
    replaceStore grown total : Edit Unit) := fun w => by
  rw [ends_bind, ends_takeStore, ends_bind, ends_lift]
  refine ((Action.unfailing_copyAll _ _ _).yields
    (Action.yields_copyAll (R := Arena.Counted) _ _ _) _).mono ?_ fun f a hf => .inl hf
  rintro grown a ⟨hgrown, hcounted⟩
  unfold replaceStore
  rw [ends_bind, ends_lift, Action.ends_ensure]
  split
  case isTrue hroom =>
      have hstart : S w (w.withArena a) := Workspace.Steady.counted w hcounted
      exact Evolution.trans hstart
        (Workspace.Steady.revised (w.withArena a) hgrown (.inr (of_decide_eq_true hroom)))
  case isFalse => exact .inl Fault.fatal_broken

theorem yields_shareRange (start stop : Nat) :
    Yields S (fun part => part.claim? = none) (shareRange start stop) := fun w => by
  unfold shareRange
  rw [ends_bind, ends_store]
  split
  · rename_i b hstore
    have hcounted : w.arena.Counted { w.arena with nextBacking := w.arena.nextBacking + 1 } :=
      ⟨⟨rfl, rfl, rfl, rfl, rfl, rfl, Nat.le_succ _⟩, rfl, rfl⟩
    have hstart : S w (w.withArena _) := Workspace.Steady.counted w hcounted
    rw [ends_bind, ends_lift, Action.ends_newBacking, ends_bind, ends_lift]
    cases View.make? ⟨w.arena.nextBacking, b⟩ start (stop - start) with
    | none => exact .inl Fault.fatal_broken
    | some part =>
        refine ⟨rfl, Evolution.trans hstart
          (Workspace.Steady.revised _ ?_ (.inl (Nat.le_refl w.body.size)))⟩
        exact (congrArg Store.claim? hstore).symm
  · exact yields_count (Action.yields_extract _ _ _) w

theorem yields_extractShared (start stop : Nat) :
    Yields S (fun part => part.claim? = none) (extractShared start stop) :=
  .after within_size fun _ => .after (within_count (Action.within_ensure _)) fun _ =>
    yields_shareRange start stop

end

/-! ## Storage -/

section

variable [Workspace.Tally S]

theorem within_replaceStore {s : Store} (hs : s.claim? = none) (n : Nat) :
    Within S (replaceStore s n) :=
  .bind (within_count (Action.within_ensure _)) fun _ => .modify fun w =>
    Workspace.Tally.replaced w n hs

theorem follows_replaceStore {R : Arena → Arena → Prop} [Arena.Tally R] (s : Store) (n : Nat) :
    Within (Workspace.Follows R) (replaceStore s n) :=
  .bind (within_count (Action.within_ensure _)) fun _ => .modify fun w => w.follows_replaced s n

theorem ends_rehouse {w : Workspace} (src : Store) (slots : Array Value) (m n : Nat) :
    Ends (do
      let moved ← Action.copyTo src 0 (.native w.arena.nextAddress slots) 0 m
      modify fun w => { w with arena := w.arena.attachMarker moved }
      replaceStore moved n : Edit Unit) (w.withArena (w.arena.enrolled slots.size))
      (fun _ w' => S w w') fun f w' => f.Fatal ∨ S w w' := by
  rw [ends_bind, ends_lift]
  refine ((Action.unfailing_copyTo _ _ _ _ _).yields
    (Action.yields_copyTo (R := Arena.Counted) _ _ _ _ _) _).mono ?_ fun f a hf => .inl hf
  rintro moved a ⟨hmoved, hcounted⟩
  obtain ⟨slots', rfl, hsize⟩ := Store.exists_of_claim? hmoved
  unfold replaceStore
  rw [ends_bind, ends_modify, ends_bind, ends_lift, Action.ends_ensure]
  split
  · exact Workspace.Tally.rehoused w slots' n (hsize ▸ hcounted)
  · exact .inl Fault.fatal_broken

theorem within_reallocate (target : Kind) (capacity : Nat) :
    Within S (reallocate target capacity) := by
  by_cases htarget : target = .native
  · subst htarget
    intro w
    unfold reallocate
    rw [ends_bind, ends_size, ends_bind, ends_lift]
    refine (Action.ends_newNative_ite capacity).mpr ?_
    split
    · rw [ends_bind, ends_store]
      have hrehouse := ends_rehouse (S := S) (w := w) w.body.store
        (Array.replicate capacity .nil) w.body.size w.body.size
      rwa [Array.size_replicate] at hrehouse
    · exact .inl Fault.fatal_outOfMemory
  · refine .bind within_size fun _ => Yields.bind_within
      (yields_count (Action.yields_allocate htarget _)) fun fresh hfresh => ?_
    refine .bind within_store fun _ => Yields.bind_within
      (yields_count (Action.yields_copyTo _ _ _ _ _)) fun grown hgrown => ?_
    have hclaim := hgrown.trans hfresh
    refine .bind (.modify fun w => ?_) fun _ => within_replaceStore hclaim _
    rw [Arena.attachMarker_of_claim? hclaim]
    exact Evolution.refl w

theorem within_unshare (v : View) (aside : List Store) : Within S (unshare v aside) :=
  .bind within_size fun _ => .bind (.bind .get fun _ => .pure _) fun _ =>
    Yields.bind_within (yields_count (Action.yields_own _ _)) fun _ hown =>
      Yields.bind_within (yields_count (Action.yields_clearRange _ _ _)) fun _ hcleared =>
        within_replaceStore (hcleared.trans hown) _

theorem within_ensureStorage (target : Kind) (needed : Nat) (aside : List Store) :
    Within S (ensureStorage target needed aside) := by
  have hroom (capacity : Nat) : Within S (ensureStorage.room needed capacity) :=
    .ite (within_count (Action.within_grownCapacity _ _)) (.pure _)
  refine .bind within_kind fun current => .bind within_capacity fun capacity =>
    .ite (.pure _) (.bind within_store fun s => ?_)
  split
  · exact .ite (within_unshare _ aside) (.bind (hroom _) fun _ => within_reallocate _ _)
  · exact .bind (hroom _) fun _ => within_reallocate _ _

theorem within_ensureMutable : Within S ensureMutable :=
  .bind within_kind fun _ => .bind within_size fun _ => within_ensureStorage _ _ _

end

end Edit

class Workspace.Settled (S : Workspace → Workspace → Prop) : Prop extends Workspace.Steady S where
  ensureMutable : Within S Edit.ensureMutable

instance {S : Workspace → Workspace → Prop} [Workspace.Tally S] : Workspace.Settled S where
  ensureMutable := Edit.within_ensureMutable

/-! ## Array objects -/

def Arena.opened (a : Arena) (id : ArrayId) (b : Body) : Workspace :=
  ⟨id, b, a.setBody id .empty⟩

namespace Action

variable {α : Type} {a : Arena} {id : ArrayId} {post : α → Arena → Prop}
  {early : Fault → Arena → Prop}

theorem ends_editBody {e : Edit α} {b : Body} (hb : a.body? id = some b) :
    Ends (editBody id e) a post early ↔
      Ends e (a.opened id b) (fun x w => post x (w.arena.setBody id w.body))
        fun f w => early f (w.arena.setBody id w.body) := by
  unfold Ends editBody
  rw [hb]
  dsimp only
  rw [← Arena.opened]
  cases e (a.opened id b) <;> rfl

theorem ends_editBody_of_none {e : Edit α} (hb : a.body? id = none) :
    Ends (editBody id e) a post early ↔ early .broken a := by
  unfold Ends editBody
  rw [hb]

theorem ends_editBody_answer {β : Type} {e : Edit α} {f : α → β} {post : β → Arena → Prop} :
    Ends (editBody id (do return f (← e))) a post early ↔
      Ends (editBody id e) a (fun x => post (f x)) early := by
  cases hb : a.body? id with
  | none => rw [ends_editBody_of_none hb, ends_editBody_of_none hb]
  | some b =>
      rw [ends_editBody hb, ends_editBody hb, ends_bind]
      rfl

theorem ends_closing {act : Action α} {change : Arena → Arena} :
    Ends (closing act change) a post early ↔
      Ends act a (fun x b => post x (change b)) fun f b => early f (change b) := by
  unfold Ends closing
  cases act a <;> rfl

variable {R : Arena → Arena → Prop} [Evolution R]

theorem yields_editBody {P : α → Prop} {e : Edit α} (hset : ∀ a x, R a (a.setBody id x))
    (he : Yields (Workspace.Follows R) P e) : Yields R P (editBody id e) := by
  intro a
  cases hb : a.body? id with
  | none => exact (ends_editBody_of_none hb).mpr (.inl Fault.fatal_broken)
  | some b =>
      have hback (w : Workspace) (hw : Workspace.Follows R (a.opened id b) w) :
          R a (w.arena.setBody id w.body) :=
        Evolution.trans (hset a .empty) (Evolution.trans hw.2 (hset _ _))
      exact (ends_editBody hb).mpr ((he _).mono (fun _ w => And.imp_right (hback w))
        fun _ w => Or.imp_right (hback w))

theorem within_editBody {e : Edit α} (hset : ∀ a x, R a (a.setBody id x))
    (he : Within (Workspace.Follows R) e) : Within R (editBody id e) :=
  (yields_editBody hset (.of_within he fun _ => trivial : Yields _ (fun _ => True) e)).within

theorem within_closing {act : Action α} {change : Arena → Arena} (h : Within R act)
    (hchange : ∀ a, R a (change a)) : Within R (closing act change) := fun a =>
  ends_closing.mpr ((h a).mono (fun _ b hb => Evolution.trans hb (hchange b))
    fun _ b hf => hf.imp_right fun hb => Evolution.trans hb (hchange b))

theorem within_holding {act : Action α} (hlock : ∀ a lock, R a (a.setLock id lock))
    (hunlock : ∀ a, R a (a.unlock id)) (h : Within R act) : Within R (holding id act) := by
  apply Within.bind .get
  intro a
  split
  · exact .bind (.modify fun a => hlock a .mine) fun _ => within_closing h hunlock
  · exact h
  · exact .throw _

theorem within_call {block : Nat → Action α} (hcount : ∀ a n, R a { a with calls := n })
    (h : ∀ n, Within R (block n)) : Within R (call block) := by
  apply Within.bind .get
  intro a
  exact .bind (.modify fun a => hcount a _) fun _ => h _

end Action

end AdaptiveArray
