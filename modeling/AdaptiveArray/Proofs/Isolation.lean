import AdaptiveArray.Proofs.Ensuring
import AdaptiveArray.Proofs.Failing
import AdaptiveArray.Proofs.Frozen
import AdaptiveArray.Proofs.Histories
import AdaptiveArray.Proofs.Lockstep

/-!
# Isolation

Arrays and bare stores that look at one backing do not see each other change.  Three
things together make it so.  A change of one array reaches no other body.  A backing is
taken over, and from then on written in place, only when nobody else looks at it.  And
what the array comes to hold does not depend on whether it was taken over or copied,
except that the room of a backing may reach past the limit that several values pushed at
once would meet in a copy.
-/

namespace AdaptiveArray

variable {α : Type}

/-! ## What is left alone -/

namespace Arena

variable {ids : List ArrayId} {id : ArrayId} {a b c : Arena}

structure Leaves (ids : List ArrayId) (a b : Arena) : Prop where
  stores : b.stores = a.stores
  body? : ∀ j ∉ ids, ∀ x, a.body? j = some x → b.body? j = some x

/-- The bare stores are what they were, and the arrays there were, except those listed, have the
elements they had, in whatever stores. -/
structure Preserves (ids : List ArrayId) (a b : Arena) : Prop where
  stores : b.stores = a.stores
  tells : ∀ j ∉ ids, ∀ x, a.body? j = some x → x.Fits False →
    ∃ y, b.body? j = some y ∧ y.Tells x.toList x.frozen

theorem Leaves.of_bodies (hstores : b.stores = a.stores) (hbody : ∀ j, b.body? j = a.body? j) :
    a.Leaves ids b :=
  ⟨hstores, fun j _ _ hx => (hbody j).trans hx⟩

instance : Arena.Frame (Leaves ids) where
  refl _ := .of_bodies rfl fun _ => rfl
  trans h h' := ⟨h'.stores.trans h.stores, fun j hj x hx => h'.body? j hj x (h.body? j hj x hx)⟩
  booked h := .of_bodies h.stores (body?_of_objects h.objects)
  shareValue a v :=
    .of_bodies (by rw [(Remarked.shareValue a v).rest]) (Remarked.shareValue a v).body?

theorem Leaves.preserves (h : a.Leaves ids b) : a.Preserves ids b :=
  ⟨h.stores, fun j hj x hx hfits => ⟨x, h.body? j hj x hx, hfits.tells⟩⟩

instance : Arena.Frame (Preserves ids) where
  refl a := (Evolution.refl (R := Leaves ids) a).preserves
  booked h := Leaves.preserves (Tally.booked h)
  shareValue a v := (Frame.shareValue (R := Leaves ids) a v).preserves
  trans h h' := by
    refine ⟨h'.stores.trans h.stores, fun j hj x hx hfits => ?_⟩
    obtain ⟨y, hy, htells⟩ := h.tells j hj x hx hfits
    obtain ⟨z, hz, htells'⟩ := h'.tells j hj y hy htells.shows.fits
    rw [htells.shows.toList, htells.frozen] at htells'
    exact ⟨z, hz, htells'⟩

theorem Leaves.mono {ids' : List ArrayId} (h : a.Leaves ids b) (hsub : ids ⊆ ids') :
    a.Leaves ids' b :=
  ⟨h.stores, fun j hj => h.body? j fun hmem => hj (hsub hmem)⟩

theorem leaves_setBody (hid : id ∈ ids) (a : Arena) (x : Body) : a.Leaves ids (a.setBody id x) := by
  refine ⟨rfl, fun j hj y hy => ?_⟩
  have hne : j ≠ id := by
    rintro rfl
    exact hj hid
  rw [body?_setBody, if_neg hne, hy]

theorem leaves_setLock (a : Arena) (id : ArrayId) (lock : Lock) :
    a.Leaves ids (a.setLock id lock) :=
  .of_bodies (relabelled_setLock a id lock).stores (relabelled_setLock a id lock).body?

theorem leaves_unlock (a : Arena) (id : ArrayId) : a.Leaves ids (a.unlock id) := by
  refine .of_bodies ?_ (sameBodies_unlock a id)
  unfold unlock
  dsimp only
  split
  · rw [(Remarked.shareElements _ id).rest]
    rfl
  · rfl

end Arena

namespace Action

/-- The action touches no array: it leaves all as they are, and cannot tell twins apart. -/
def Detached (act : Action α) : Prop :=
  Within (Arena.Leaves []) act ∧ Blind act

theorem Detached.call {block : Nat → Action α} (h : ∀ n, (block n).Detached) :
    (Action.call block).Detached :=
  ⟨within_call (fun _ _ => .of_bodies rfl fun _ => rfl) fun n => (h n).1,
    .call fun n => (h n).2⟩

theorem within_mono {R R' : Arena → Arena → Prop} {act : Action α} (h : Within R act)
    (hmono : ∀ a b, R a b → R' a b) : Within R' act := fun a =>
  (h a).mono (fun _ _ => hmono a _) fun _ _ hf => hf.imp_right (hmono a _)

end Action

/-! ## Changes of one array -/

namespace Mutation

variable {m : Mutation} {ids : List ArrayId} {id : ArrayId} {a b c : Arena}

def Detached : Mutation → Prop
  | map f | restartWith _ f => ∀ n v, (f n v).Detached
  | reject f | keepIf f => ∀ n v, (f n v).Detached
  | deleteOr _ missing => ∀ v, (missing v).Detached
  | _ => True

theorem Detached.stays (h : m.Detached) (hdonor : ∀ other, m.donor? = some other → other ∈ ids) :
    m.Stays (Arena.Leaves ids) := by
  have hmono {β : Type} {act : Action β} (hact : act.Detached) : Within (Arena.Leaves ids) act :=
    Action.within_mono hact.1 fun _ _ h => h.mono (List.nil_subset ids)
  cases m with
  | map f => exact fun v => hmono (.call fun n => h n v)
  | deleteOr x missing => exact fun v => hmono (h v)
  | reject f => exact fun v => hmono (.call fun n => h n v)
  | keepIf f => exact fun v => hmono (.call fun n => h n v)
  | restartWith size f => exact fun v => hmono (.call fun n => h n v)
  | steal other => exact fun a b _ _ => Arena.leaves_setBody (hdonor other rfl) a _
  | _ => trivial

/-- One array comes to hold the same in twin arenas, whatever is done to it short of pushing several
values at once. -/
theorem Detached.paired (h : m.Detached) (hoperands : ∀ b ∈ m.operands, b.Fits False)
    (hpushed : ∀ vs, m ≠ .pushAll vs) : Edit.Paired m.edit := by
  have hrun {β : Type} {f : Block β} (hf : ∀ n v, (f n v).Detached) (v : Value) : Blind (f.run v) :=
    .call fun n => (hf n v).2
  cases m with
  | push v => exact (Edit.paired_push v).answer _
  | pushAll vs => exact absurd rfl (hpushed vs)
  | insert index vs => exact (Edit.paired_insert index vs).answer _
  | unshift vs => exact (Edit.paired_unshift vs).answer _
  | set index v => exact (Edit.paired_set index v).answer _
  | fill v => exact (Edit.paired_fill v).answer _
  | map f => exact (Edit.paired_map (hrun h)).answer _
  | concat others => exact (Edit.paired_concat hoperands).answer _
  | delete v => exact (Edit.paired_delete v).answer _
  | deleteOr v missing =>
      apply (Edit.paired_deleteOr v fun hwv => ?_).answer
      exact (Edit.beside_lift (h v).2 hwv).weaken fun _ _ _ _ h => h.2
  | deleteAt index => exact (Edit.paired_deleteAt index).answer _
  | compact => exact Edit.paired_compact.answer _
  | reject f => exact (Edit.paired_reject (hrun h)).answer _
  | keepIf f => exact (Edit.paired_keepIf (hrun h)).answer _
  | pop => exact Edit.paired_pop.answer _
  | popN count => exact (Edit.paired_popN count).answer _
  | shift => exact Edit.paired_shift.answer _
  | shiftN count => exact (Edit.paired_shiftN count).answer _
  | slice start length =>
      intro w v hwv hfits
      apply Beside.bind (Edit.paired_slice start length w v hwv hfits)
      rintro (_ | part) (_ | part') _ _ h <;> exact h
  | dup => exact Edit.paired_dup.answer _
  | extract start stop => exact (Edit.paired_extractShared start stop).answer _
  | clear => exact Edit.paired_clear.answer _
  | replace other =>
      exact (Edit.paired_replace (hoperands other (List.mem_singleton_self _))).answer _
  | steal other => exact (Edit.paired_steal other).answer _
  | restart size? fill? => exact (Edit.paired_restart size? fill?).answer _
  | restartWith size f => exact (Edit.paired_restartWith size (hrun h)).answer _
  | rotate count => exact (Edit.paired_rotate count).answer _
  | sort => exact Edit.paired_sort.answer _
  | freeze => exact Edit.paired_freeze.answer _
  | toNative => exact Edit.paired_toNative.answer _

theorem Detached.beside_edit (h : m.Detached) (hoperands : ∀ b ∈ m.operands, b.Fits False)
    {w v : Workspace} (hroom : ∀ vs, m = .pushAll vs → w.body.size + vs.length ≤ maxSize)
    (hwv : w.Pair Eq v) (hfits : w.body.Fits False) :
    Beside (fun f _ => f.Fatal) m.edit m.edit w v (fun _ _ w' v' => w'.Twin v')
      Workspace.Twin := by
  by_cases hpushed : ∃ vs, m = .pushAll vs
  · obtain ⟨vs, rfl⟩ := hpushed
    have hpush := Edit.beside_pushAll vs (hroom vs rfl) (hwv.twin hfits)
    exact hpush.bind fun _ _ _ _ h => h
  · exact h.paired hoperands (fun vs heq => hpushed ⟨vs, heq⟩) w v hwv hfits

end Mutation

namespace Action

variable {ids : List ArrayId} {id : ArrayId}

theorem leaves_edit {e : Edit α} (hid : id ∈ ids)
    (he : Within (Workspace.Follows (Arena.Leaves ids)) e) :
    Within (Arena.Leaves ids) (edit id e) :=
  within_holding (fun a => Arena.leaves_setLock a id) (fun a => Arena.leaves_unlock a id)
    (within_editBody (Arena.leaves_setBody hid) he)

theorem preserves_dup (id : ArrayId) : Within (Arena.Preserves ids) (edit id Edit.dup) := by
  refine within_holding (R := Arena.Preserves ids)
    (fun a lock => (Arena.leaves_setLock a id lock).preserves)
    (fun a => (Arena.leaves_unlock a id).preserves) fun a => ?_
  cases hbody : a.body? id with
  | none => exact (ends_editBody_of_none hbody).mpr (.inl Fault.fatal_broken)
  | some b =>
      have hothers := Edit.unfailing_dup.within
        (Edit.within_dup (S := Workspace.Follows (Arena.Leaves []))) (a.opened id b)
      have htells : Ends Edit.dup (a.opened id b)
          (fun _ w => b.Fits False → w.body.Tells b.toList b.frozen) fun _ _ => True := by
        by_cases hfits : b.Fits False
        · exact (Edit.ends_dup_tells (w := a.opened id b) hfits).weaken fun _ _ h _ => h
        · exact (Ends.trivial _ _).weaken fun _ _ _ h => absurd h hfits
      refine (ends_editBody hbody).mpr ((hothers.and htells).mono ?_ fun _ _ hf => .inl hf.1)
      rintro x w ⟨⟨-, hleaves⟩, hown⟩
      refine ⟨hleaves.stores, fun j hj y hy hfits => ?_⟩
      have hkept := hleaves.body? j List.not_mem_nil
      rw [show (a.opened id b).arena = a.setBody id .empty from rfl, Arena.body?_setBody] at hkept
      rw [Arena.body?_setBody]
      by_cases heq : j = id
      · subst heq
        obtain rfl : b = y := Option.some.inj (hbody.symm.trans hy)
        rw [if_pos rfl, hkept .empty (by rw [if_pos rfl, hbody]; rfl)]
        exact ⟨w.body, rfl, hown hfits⟩
      · rw [if_neg heq] at hkept ⊢
        exact ⟨y, hkept y hy, hfits.tells⟩

theorem preserves_snapshots (others : List ArrayId) :
    Within (Arena.Preserves ids) (snapshots others) := by
  induction others with
  | nil => exact .pure []
  | cons other others ih => exact .bind (preserves_dup other) fun _ => .bind ih fun _ => .pure _

theorem preserves_concat (id : ArrayId) (others : List ArrayId) :
    Within (Arena.Preserves [id]) (concat id others) :=
  .bind (within_bodyOf id) fun b => .bind (within_checkFrozen b) fun _ =>
    .bind (preserves_snapshots others) fun bodies =>
      within_mono (leaves_edit (List.mem_singleton_self id) (Edit.within_concat bodies))
        fun _ _ => Arena.Leaves.preserves

theorem preserves_replace (id other : ArrayId) :
    Within (Arena.Preserves [id]) (replace id other) :=
  .bind (within_bodyOf id) fun b => .bind (within_checkFrozen b) fun _ =>
    .ite (.bind (preserves_dup other) fun _ => within_mono
      (leaves_edit (List.mem_singleton_self id)
        (Edit.within_replace (Edit.follows_replaceStore _ _)))
      fun _ _ => Arena.Leaves.preserves) (.pure _)

end Action

/-! ## Requests -/

namespace Request

def target? : Request → Option ArrayId
  | mutate id _ | foreign id _ | concat id _ | replace id _ | steal id _ => some id
  | derive _ => none

def donor? : Request → Option ArrayId
  | mutate _ m | foreign _ m => m.donor?
  | steal _ other => some other
  | _ => none

def Detached : Request → Prop
  | mutate _ m | foreign _ m => m.Detached
  | _ => True

variable {r : Request} {id : ArrayId}

theorem preserves_run (htarget : r.target? = some id) (h : r.Detached) :
    Within (Arena.Preserves (id :: r.donor?.toList)) r.run := by
  have hself {ids : List ArrayId} : id ∈ id :: ids := List.mem_cons_self
  have hedit {m : Mutation} (hm : m.Detached) :
      Within (Workspace.Follows (Arena.Leaves (id :: m.donor?.toList))) m.edit :=
    Mutation.within_edit (hm.stays fun other hother => by simp [hother])
  have hmono {β : Type} {ids : List ArrayId} {act : Action β}
      (hact : Within (Arena.Leaves ids) act) :
      Within (Arena.Preserves ids) act := Action.within_mono hact fun _ _ => Arena.Leaves.preserves
  cases r with
  | mutate j m =>
      obtain rfl : j = id := Option.some.inj htarget
      exact hmono (Action.leaves_edit hself (hedit h))
  | foreign j m =>
      obtain rfl : j = id := Option.some.inj htarget
      apply hmono
      exact .bind .get fun _ => .bind (Action.within_ensure _) fun _ =>
        Action.within_editBody (Arena.leaves_setBody hself) (hedit h)
  | concat j others =>
      obtain rfl : j = id := Option.some.inj htarget
      exact .bind (Action.preserves_concat j others) fun _ => .pure _
  | replace j other =>
      obtain rfl : j = id := Option.some.inj htarget
      exact .bind (Action.preserves_replace j other) fun _ => .pure _
  | steal j other =>
      obtain rfl : j = id := Option.some.inj htarget
      have hemptied (a : Arena) (b : Body) : a.Leaves [j, other] (a.setBody other b) :=
        Arena.leaves_setBody (by simp) a b
      refine .bind (hmono ?_) fun _ => .pure _
      exact Action.within_holding (fun a => Arena.leaves_setLock a other)
        (fun a => Arena.leaves_unlock a other)
        (Action.leaves_edit hself
          (Edit.within_steal (Edit.follows_robbed fun a b _ _ => hemptied a _)))
  | derive d => cases htarget

end Request

/-! ## The same change in twin arenas -/

namespace Action

variable {id : ArrayId} {a c : Arena}

theorem beside_editBody {e : Edit α} (hac : a.Twin c) (hbody : a.body? id = c.body? id)
    (he : ∀ b, a.body? id = some b → ∀ w v : Workspace, w.body = b → w.Pair Eq v →
      Beside (fun f _ => f.Fatal) e e w v (fun _ _ w' v' => w'.Twin v') Workspace.Twin) :
    Beside (fun f _ => f.Fatal) (editBody id e) (editBody id e) a c (fun _ _ a' c' => a'.Twin c')
      Arena.Twin := by
  unfold Beside editBody
  rw [← hbody]
  cases hb : a.body? id with
  | none => exact .inl Fault.fatal_broken
  | some b =>
      have hrun := he b hb ⟨id, b, a.setBody id .empty⟩ ⟨id, b, c.setBody id .empty⟩ rfl
        ⟨rfl, rfl, hac.setBody (.refl Body.fits_empty)⟩
      have hback {w v : Workspace} (h : w.Twin v) :
          (w.arena.setBody id w.body).Twin (v.arena.setBody id v.body) := h.arena.setBody h.body
      unfold Beside at hrun
      dsimp only
      cases hw : e ⟨id, b, a.setBody id .empty⟩ <;> cases hv : e ⟨id, b, c.setBody id .empty⟩ <;>
        simp only [hw, hv] at hrun ⊢
      · exact hback hrun
      · exact hrun
      · exact hrun
      · exact hrun.imp_right fun h => h.imp_right hback

theorem beside_closing {act : Action α} {change : Arena → Arena}
    (h : Beside (fun f _ => f.Fatal) act act a c (fun _ _ a' c' => a'.Twin c') Arena.Twin)
    (hchange : ∀ a c : Arena, a.Twin c → (change a).Twin (change c)) :
    Beside (fun f _ => f.Fatal) (closing act change) (closing act change) a c
      (fun _ _ a' c' => a'.Twin c') Arena.Twin := by
  unfold Beside at h
  unfold Beside closing
  cases ha : act a <;> cases hc : act c <;> simp only [ha, hc] at h ⊢
  · exact hchange _ _ h
  · exact h
  · exact h
  · exact h.imp_right fun h => h.imp_right (hchange _ _)

theorem beside_edit {e : Edit α} (hac : a.Twin c) (hbody : a.body? id = c.body? id)
    (he : ∀ b, a.body? id = some b → ∀ w v : Workspace, w.body = b → w.Pair Eq v →
      Beside (fun f _ => f.Fatal) e e w v (fun _ _ w' v' => w'.Twin v') Workspace.Twin) :
    Beside (fun f _ => f.Fatal) (edit id e) (edit id e) a c (fun _ _ a' c' => a'.Twin c')
      Arena.Twin := by
  have hlocked (a : Arena) := (Arena.relabelled_setLock a id .mine).body? id
  apply Beside.get
  rw [← hac.lockOf id]
  split
  · apply Beside.modify
    apply beside_closing
    · apply beside_editBody (hac.setLock .mine)
      · rw [hlocked, hlocked, hbody]
      · rwa [hlocked]
    · exact fun _ _ h => h.unlock id
  · exact beside_editBody hac hbody he
  · exact .throw hac

end Action

/-! ## Taking over a backing -/

theorem Arena.viewers_ne_zero {a : Arena} {k : Backing} (h : a.Backs k) : a.viewers k.id ≠ 0 := by
  obtain ⟨s, hs, hk⟩ := h
  have hviews : s.views k.id := by simp [Store.views, hk]
  exact Nat.ne_of_gt (List.countP_pos_iff.mpr ⟨s, hs, hviews⟩)

/-- Nobody but the array `id`, no bare store and none of the stores put aside looks at the
backing. -/
structure Arena.Unseen (a : Arena) (id : ArrayId) (aside : List Store) (k : BackingId) : Prop where
  arrays : ∀ j b, j ≠ id → a.body? j = some b → ¬b.store.views k
  stores : ∀ entry ∈ a.stores, ¬entry.2.views k
  aside : ∀ s ∈ aside, ¬s.views k

theorem Edit.unshare_takes_over {a : Arena} {id : ArrayId} {b : Body} {w : Workspace}
    (hw : Workspace.Follows (Arena.Leaves []) (a.opened id b) w) (v : View) (aside : List Store) :
    ∃ sole, unshare v aside w = unshareAs v sole w ∧
      (sole = true → a.Unseen id aside v.backing.id) := by
  refine ⟨w.arena.viewers v.backing.id = 0 && !aside.any fun s => s.views v.backing.id, rfl,
    fun hsole => ?_⟩
  simp only [Bool.and_eq_true, decide_eq_true_eq, Bool.not_eq_true', List.any_eq_false] at hsole
  obtain ⟨hviewers, haside⟩ := hsole
  have hlive {s : Store} (hs : ∀ k, s.backing? = some k → w.arena.Backs k) :
      ¬s.views v.backing.id := by
    intro hviews
    simp only [Store.views, Option.any_eq_true_iff_get, decide_eq_true_eq] at hviews
    obtain ⟨hsome, heq⟩ := hviews
    exact Arena.viewers_ne_zero (hs _ (Option.some_get hsome).symm) (heq ▸ hviewers)
  refine ⟨fun j x hj hx => hlive fun k hk => ?_, fun entry hentry => hlive fun k hk => ?_, haside⟩
  · have hopened : (a.setBody id .empty).body? j = some x := by
      rw [Arena.body?_setBody, if_neg hj, hx]
    obtain ⟨o, ho, rfl⟩ := Option.map_eq_some_iff.mp (hw.2.body? j List.not_mem_nil x hopened)
    exact Arena.backs_of_object? ho hk
  · rw [← show w.arena.stores = a.stores from hw.2.stores] at hentry
    exact Arena.backs_iff.mpr (.inr ⟨entry, hentry, hk⟩)

/-! ## Isolation -/

/-- A change of one array is told from no other.  Views of one backing agree about it.  A request to
change an array, with a block that touches no array if with any, leaves the bare stores as they are
and every other array with the elements it had, except the one it empties besides.  While nothing
else is touched, unsharing takes over a backing only if no other array, no bare store and no store
put aside looks at it, and the elements are the same if it is copied.  So they are whatever is done:
where a backing is taken over that has to be copied in a twin arena, all arrays hold the same
afterwards, provided that several values are only pushed at once where there is room for all of them
under the limit. -/
theorem reached_changes_isolated {poking : Prop} {a : Arena} (h : Reached poking [] a) :
    (∀ k k', a.Backs k → a.Backs k' → k.id = k'.id → k = k') ∧
    (∀ (r : Request) id, r.target? = some id → r.Detached → ∀ a',
      ((∃ reply, r.run a = .ok reply a') ∨ ∃ e, r.run a = .error (.raised e) a') →
        a'.stores = a.stores ∧ ∀ j b, j ≠ id → r.donor? ≠ some j → a.body? j = some b →
          ∃ b', a'.body? j = some b' ∧ b'.toList = b.toList ∧ b'.frozen = b.frozen) ∧
    (∀ id b w v aside, a.body? id = some b →
      Workspace.Follows (Arena.Leaves []) (a.opened id b) w →
        (∃ sole, Edit.unshare v aside w = Edit.unshareAs v sole w ∧
          (sole = true → a.Unseen id aside v.backing.id)) ∧
        (w.body.Fits False → w.body.store = .view v → ∀ sole,
          Ends (Edit.unshareAs v sole) w
            (fun _ w' => w'.body.Tells w.body.toList w.body.frozen) fun _ _ => False)) ∧
    ∀ (m : Mutation) id c, m.Detached → (∀ b ∈ m.operands, b.Fits False) → a.Twin c →
      a.body? id = c.body? id →
      (∀ vs b, m = .pushAll vs → a.body? id = some b → b.size + vs.length ≤ maxSize) →
        Beside (fun f _ => f.Fatal) (m.perform id) (m.perform id) a c
          (fun _ _ a' c' => a'.Twin c') Arena.Twin := by
  obtain ⟨ha, -⟩ : a.Sound False [] ∧ _ := h.sound False.elim
  have hfits {id : ArrayId} {b : Body} (hb : a.body? id = some b) : b.Fits False :=
    (ha.belongs hb).fits.loose
  refine ⟨ha.coherent, fun r id htarget hr a' hrun => ?_, fun id b w v aside hb hw => ?_,
    fun m id c hm hoperands hac hbody hroom => Action.beside_edit hac hbody ?_⟩
  · have hkept : a.Preserves (id :: r.donor?.toList) a' :=
      (r.preserves_run htarget hr a).of_run hrun
    refine ⟨hkept.stores, fun j b hj hdonor hb => ?_⟩
    obtain ⟨b', hb', htells⟩ := hkept.tells j (by simpa [hj] using hdonor) b hb (hfits hb)
    exact ⟨b', hb', htells.shows.toList, htells.frozen⟩
  · refine ⟨Edit.unshare_takes_over hw v aside, fun hfits hstore sole => ?_⟩
    apply (Edit.ends_unshareAs sole hfits hstore).weaken
    exact fun _ w' ⟨hready, _⟩ => ⟨⟨hready.fits, hready.toList hfits⟩, hready.frozen⟩
  · rintro _ hb w v rfl hwv
    exact hm.beside_edit hoperands (fun vs hvs => hroom vs _ hvs hb) hwv (hfits hb)

/-- A slice of three numbers is written.  It is copied while the whole array is there too, and takes
the backing over where the other array has a store of its own. -/
theorem reached_changes_isolated_slice :
    let numbers : Buffer := .int #[1, 2, 3]
    let whole : Body := { store := .view ⟨⟨0, numbers⟩, 0, 3⟩, size := 3 }
    let part : Body := { store := .view ⟨⟨0, numbers⟩, 0, 2⟩, size := 2 }
    let apart : Body := { store := .owned numbers, size := 3 }
    let a : Arena :=
      { objects := #[some { body := whole }, some { body := part }], nextBacking := 1 }
    let c : Arena :=
      { objects := #[some { body := apart }, some { body := part }], nextBacking := 1 }
    Reached True [] a ∧ a.Twin c ∧ ∃ a' c',
      (Mutation.set 0 (.int 9)).perform 1 a = .ok .nothing a' ∧
      (Mutation.set 0 (.int 9)).perform 1 c = .ok .nothing c' ∧
      a'.body? 1 = some { store := .owned (.int #[9, 2]), size := 2 } ∧
      c'.body? 1 = some { store := .owned (.int #[9, 2, 0]), size := 2 } ∧ a'.Twin c' ∧
      ∃ b, a'.body? 0 = some b ∧ b.toList = [.int 1, .int 2, .int 3] := by
  intro numbers whole part apart a c
  have hnew : History True [] {} (Arena.withObject {} apart) :=
    .unblocked (r := .derive (.ofBuffer numbers))
      (by simp [numbers, Request.Fair, Derivation.values, Buffer.values, Arena.Knows,
        Value.arrayId?])
      (fun _ _ => rfl) rfl trivial (.object apart {})
  have hslice : History True [] (Arena.withObject {} apart) a :=
    .changed (.slice 0 2) 0 ⟨List.not_mem_nil, rfl, List.forall_mem_nil _, List.forall_mem_nil _⟩
      (fun _ _ => rfl) rfl trivial
      (.object part { objects := #[some { body := whole }], nextBacking := 1 })
  have hreached : Reached True [] a := .later (.start rfl rfl) (.trans hnew hslice)
  have hpart : part.Fits False := ⟨by decide, show 0 + 2 ≤ 3 by decide, False.elim⟩
  have hwhole : whole.Fits False := ⟨by decide, show 0 + 3 ≤ 3 by decide, False.elim⟩
  have happart : apart.Fits False := ⟨by decide, trivial, False.elim⟩
  have htwin : a.Twin c := by
    refine ⟨rfl, fun id => ?_, rfl, rfl, rfl, rfl⟩
    rcases id with _ | _ | id
    · exact .some ⟨⟨⟨hwhole, happart, rfl⟩, rfl⟩, rfl⟩
    · exact .some ⟨.refl hpart, rfl⟩
    · exact .none
  obtain ⟨-, hothers, -, htwins⟩ := reached_changes_isolated hreached
  let copied : Body := { store := .owned (.int #[9, 2]), size := 2 }
  let taken : Body := { store := .owned (.int #[9, 2, 0]), size := 2 }
  let a' : Arena := { a with objects := #[some { body := whole }, some { body := copied }] }
  let c' : Arena := { c with objects := #[some { body := apart }, some { body := taken }] }
  have hrun : (Mutation.set 0 (.int 9)).perform 1 a = .ok .nothing a' := by
    dsimp only [a', a, numbers, whole, part, copied]
    rfl
  have hrun' : (Mutation.set 0 (.int 9)).perform 1 c = .ok .nothing c' := by
    dsimp only [c', c, numbers, apart, part, taken]
    rfl
  refine ⟨hreached, htwin, a', c', hrun, hrun', rfl, rfl, ?_, ?_⟩
  · have hboth := htwins (.set 0 (.int 9)) 1 c trivial (List.forall_mem_nil _) htwin rfl
      fun _ _ h => by cases h
    unfold Beside at hboth
    rwa [hrun, hrun'] at hboth
  obtain ⟨b, hb, hlist, -⟩ := (hothers (.mutate 1 (.set 0 (.int 9))) 1 rfl trivial a'
    (.inl ⟨.nothing, hrun⟩)).2 0 whole (by decide) (by simp [Request.donor?, Mutation.donor?]) rfl
  exact ⟨b, hb, hlist.trans (by decide +kernel)⟩

/-! ## Past the limit -/

namespace Edit

variable {w : Workspace} {v : View} {x : Value} {sole : Bool}

theorem ends_push_room (hfits : w.body.Fits False) (hstore : w.body.store = .view v)
    (hspare : w.body.size < v.length)
    (hkind : w.body.kind.forValue x = w.body.kind.forMutation)
    (hsole : sole = true ↔ (w.offer x).arena.Unviewed [] v.backing.id) :
    Ends (push x) w (fun _ w' => w'.body.capacity = v.ownRoom sole) fun _ _ => True := by
  have hcapacity : w.body.capacity = v.length := by
    rw [Body.capacity, hstore]
    rfl
  have hunshare : ensureStorage w.body.kind.forMutation (w.body.size + 1) [] (w.offer x) =
      unshareAs v sole (w.offer x) := by
    have h : ensureStorage (w.offer x).body.kind.forMutation (w.body.size + 1) [] (w.offer x) =
        unshare v [] (w.offer x) :=
      ensureStorage_of_view (by rwa [Workspace.body_offer])
        (by rwa [Workspace.body_offer, hcapacity])
    rw [Workspace.body_offer] at h
    rw [h, Bool.eq_iff_iff.mpr (hsole.trans Arena.unviewed_iff.symm)]
    rfl
  unfold push
  rw [ends_bind, ends_checkFrozen]
  split
  · trivial
  rw [ends_bind, ends_propagate, ends_bind, ends_size, ends_bind, ends_kind, ends_bind,
    ends_capacity, Workspace.body_offer, if_neg (hcapacity ▸ Nat.ne_of_lt hspare), hkind]
  have howned : Ends (ensureStorage w.body.kind.forMutation (w.body.size + 1)) (w.offer x)
      (fun _ w' => w'.body.capacity = v.ownRoom sole) fun _ _ => True := by
    have h : Ends (unshareAs v sole) (w.offer x)
        (fun _ w' => (w.offer x).body.Ready False _ _ _ w'.body ∧ _) fun _ _ => True :=
      ends_unshareAs sole (by rwa [Workspace.body_offer]) (by rwa [Workspace.body_offer])
    rw [Ends, hunshare]
    exact h.weaken fun _ _ h => h.2
  refine Ends.bind howned fun _ w₁ hroom => ?_
  have hslot : Ends (setSlot w.body.size x) w₁
      (fun _ w' => w'.body.capacity = v.ownRoom sole) fun _ _ => True := by
    rw [ends_setSlot_ite]
    split
    · exact (Store.capacity_set _ _ _).trans hroom
    · trivial
  refine Ends.bind hslot fun _ w₂ hroom => (ends_setSize ?_).mpr hroom
  rw [hroom]
  exact Nat.le_trans hspare (v.length_le_ownRoom sole (hstore ▸ hfits.store))

/-- Two values are pushed onto a view with one slot to spare, of an array that is to have one
element less than it may.  The second one finds a slot past the limit if the backing was taken over
and has one. -/
theorem ends_pushAll_of_view (hfits : w.body.Fits False) (hopen : w.body.frozen = false)
    (hstore : w.body.store = .view v) (hlength : v.length = maxSize)
    (hsize : w.body.size + 1 = maxSize)
    (hkind : w.body.kind.forValue x = w.body.kind.forMutation)
    (hsole : sole = true ↔ (w.offer x).arena.Unviewed [] v.backing.id)
    (hmemory : Element.object.allocatable (max (reach w maxSize) (2 * (maxSize + 1)))) :
    Ends (pushAll [x, x]) w
      (fun _ w' => v.ownRoom sole ≠ maxSize ∧ w'.body.size = maxSize + 1)
      fun f w' => v.ownRoom sole = maxSize ∧ f = .raised .sizeTooBig ∧ w'.body.size = maxSize := by
  have hcapacity : w.body.capacity = maxSize := by
    rw [Body.capacity, hstore, ← hlength]
    rfl
  have hfirst : Ends (push x) w (fun _ w₁ => w₁.body.Fits False ∧ w₁.body.frozen = false ∧
      w₁.body.size = maxSize ∧ w₁.body.capacity = v.ownRoom sole ∧
      reach w₁ (maxSize + 1) ≤ max (reach w maxSize) (2 * (maxSize + 1))) fun _ _ => False := by
    have hspared := ends_push_of_spare (v := x) hfits hopen (by omega)
      (Element.allocatable_of_le (hsize ▸ hmemory) (Nat.le_max_left _ _))
    have hroom := ends_push_room hfits hstore (by omega) hkind hsole
    refine ((hspared.and hroom).and (((ends_push hfits x).and
      (within_push (S := Workspace.Follows Arena.Still) x w)))).mono ?_ fun f w' h => h.1.1
    rintro _ w₁ ⟨⟨hcount, hroom⟩, hbecomes, -, hstill⟩
    refine ⟨hbecomes.fits, hbecomes.frozen.trans hopen, hcount.trans hsize, hroom, ?_⟩
    have hextent := hbecomes.extent
    rw [hsize] at hextent
    unfold reach at hextent ⊢
    rw [← hstill.settings]
    omega
  unfold pushAll
  rw [ends_bind, ends_checkFrozen, if_neg (by simp [hopen])]
  refine Ends.bind (hfirst.mono_early fun _ _ => False.elim) ?_
  rintro _ w₁ ⟨hfits₁, hopen₁, hsize₁, hroom₁, hreach⟩
  by_cases hfull : v.ownRoom sole = maxSize
  · refine Ends.bind ((ends_push_counted x w₁).mono (fun _ _ h => ?_) fun f w' h => ?_)
      fun _ _ h => h
    · exact absurd (h.2.2 (by omega)) (by omega)
    · rcases h with ⟨-, hlt⟩ | ⟨hbody, hfrozen | ⟨-, -, rfl⟩⟩
      · exact absurd (hlt (by omega)) (by omega)
      · simp [hopen₁] at hfrozen
      · exact ⟨hfull, rfl, hbody ▸ hsize₁⟩
  · refine Ends.bind ((ends_push_of_spare hfits₁ hopen₁ (by omega) ?_).mono
      (fun _ _ h => ⟨hfull, h.trans (by rw [hsize₁])⟩) fun _ _ => False.elim) fun _ _ h => h
    exact Element.allocatable_of_le hmemory (hsize₁ ▸ hreach)

end Edit

/-- A part of a long array, with one slot of its view to spare, gets two values.  The second one is
refused where the part was copied, and goes past the limit where the backing was taken over. -/
theorem pushAll_differs_reclaimed :
    let numbers : Buffer := .zeros .int (maxSize + 1)
    let window : View := ⟨⟨0, numbers⟩, 0, maxSize⟩
    let whole : Body := { store := .view ⟨⟨0, numbers⟩, 0, maxSize + 1⟩, size := maxSize }
    let part : Body := { store := .view window, size := maxSize - 1 }
    let apart : Body := { store := .owned numbers, size := maxSize }
    let a : Arena :=
      { objects := #[some { body := whole }, some { body := part }], nextBacking := 1 }
    let c : Arena :=
      { objects := #[some { body := apart }, some { body := part }], nextBacking := 1 }
    a.Twin c ∧
    Ends ((Mutation.pushAll [.int 0, .int 0]).perform 1) a (fun _ _ => False)
      (fun f a' => f = .raised .sizeTooBig ∧ ∃ b, a'.body? 1 = some b ∧ b.size = maxSize) ∧
    Ends ((Mutation.pushAll [.int 0, .int 0]).perform 1) c
      (fun _ c' => ∃ b, c'.body? 1 = some b ∧ b.size = maxSize + 1) fun _ _ => False := by
  intro numbers window whole part apart a c
  have hnumbers : numbers.size = maxSize + 1 := Buffer.size_zeros _ _
  have helement : numbers.element = .int := Buffer.element_zeros _ _
  -- from here on only its size and the kind of its elements count, so that no slot is evaluated
  clear_value numbers
  have hwindow : (Store.view window).Fits := by
    change 0 + maxSize ≤ numbers.size
    omega
  have hpart : part.Fits False := .intro_view (Nat.sub_le _ _) hwindow rfl
  have hwhole : whole.Fits False := .intro_view (Nat.le_succ maxSize) (by
    change 0 + (maxSize + 1) ≤ numbers.size
    omega) rfl
  have happart : apart.Fits False :=
    ⟨Nat.le_trans (Nat.le_succ maxSize) (Nat.le_of_eq hnumbers.symm), trivial, False.elim⟩
  have hlists : whole.toList = apart.toList := by
    refine Body.toList_eq hwhole (Body.length_toList happart) fun i hi => ?_
    rw [Body.getElem?_toList_of_lt happart hi]
    change (if i < maxSize + 1 then numbers.get? (0 + i) else none) = numbers.get? i
    rw [if_pos (Nat.lt_succ_of_lt hi), Nat.zero_add]
  have htwin : a.Twin c := by
    refine ⟨rfl, fun id => ?_, rfl, rfl, rfl, rfl⟩
    rcases id with _ | _ | id
    · exact .some ⟨⟨⟨hwhole, happart, hlists⟩, rfl⟩, rfl⟩
    · exact .some ⟨.refl hpart, rfl⟩
    · exact .none
  have hkind : part.kind.forValue (.int 0) = part.kind.forMutation := by
    rw [show part.kind = .view .int from congrArg Kind.view helement]
    rfl
  have hrun (d : Arena) (sole : Bool) (hlock : d.Available 1) (hx : d.body? 1 = some part)
      (hsettings : (d.entered 1 part).arena.settings = {})
      (hsole : sole = true ↔ ((d.entered 1 part).offer (.int 0)).arena.Unviewed [] 0) :
      Ends ((Mutation.pushAll [.int 0, .int 0]).perform 1) d
        (fun _ d' => window.ownRoom sole ≠ maxSize ∧
          ∃ b, d'.body? 1 = some b ∧ b.size = maxSize + 1)
        fun f d' => window.ownRoom sole = maxSize ∧ f = .raised .sizeTooBig ∧
          ∃ b, d'.body? 1 = some b ∧ b.size = maxSize := by
    have hmemory : Element.object.allocatable
        (max (Edit.reach (d.entered 1 part) maxSize) (2 * (maxSize + 1))) := by
      unfold Edit.reach
      rw [hsettings]
      change Element.object.allocatable (max (max (max 16 numbers.size) _) _)
      rw [hnumbers]
      decide
    have hopened : (d.entered 1 part).arena.body? 1 = some .empty := by
      rw [Arena.entered, Arena.opened, Arena.body?_setBody, if_pos rfl, Arena.body?_locked, hx]
      rfl
    have hunlocked {d' : Arena} {n : Nat} (h : ∃ b, d'.body? 1 = some b ∧ b.size = n) :
        ∃ b, (d'.unlock 1).body? 1 = some b ∧ b.size = n := by
      rwa [(Arena.Relocked.unlock d' 1).body?]
    have hback {w : Workspace} {n : Nat} (hw : (d.entered 1 part).Follows (Arena.Leaves []) w)
        (hn : w.body.size = n) : ∃ b, (w.arena.setBody 1 w.body).body? 1 = some b ∧ b.size = n := by
      refine ⟨w.body, ?_, hn⟩
      rw [Arena.body?_setBody, if_pos rfl, hw.2.body? 1 List.not_mem_nil _ hopened]
      rfl
    have hpushed := Edit.ends_pushAll_of_view (w := d.entered 1 part) hpart rfl rfl rfl
      (Nat.sub_add_cancel (by decide)) hkind hsole hmemory
    have hwithin := Edit.within_pushAll (S := Workspace.Follows (Arena.Leaves []))
      [.int 0, .int 0] (d.entered 1 part)
    refine Action.ends_edit hlock hx (fun _ _ h => h.imp_right hunlocked)
      (fun _ _ h => h.imp_right fun h => h.imp_right hunlocked) (Ends.bind ?_ fun _ _ h => h)
    refine (hpushed.and hwithin).mono ?_ ?_
    · exact fun _ w h => ⟨h.1.1, hback h.2 h.1.2⟩
    · rintro f w ⟨⟨hfull, rfl, hsize⟩, hw⟩
      exact ⟨hfull, rfl, hback (hw.resolve_left (Fault.not_fatal_raised _)) hsize⟩
  have hcopied : window.ownRoom false = maxSize := by
    rw [View.ownRoom, Bool.false_and, if_neg Bool.false_ne_true]
  have hreclaimed : window.ownRoom true = maxSize + 1 := by
    rw [View.ownRoom, if_pos (by simp [window]), ← hnumbers]
  refine ⟨htwin, (hrun a false (.inl rfl) rfl rfl ?_).mono ?_ ?_,
    (hrun c true (.inl rfl) rfl rfl ?_).mono ?_ ?_⟩
  · rw [Arena.Unviewed, List.append_nil,
      show ((a.entered 1 part).offer (.int 0)).arena.liveStores = [whole.store, .empty] from rfl]
    exact iff_of_false Bool.false_ne_true fun h =>
      absurd (h _ List.mem_cons_self) (by simp [Store.views, whole, Store.backing?])
  · exact fun _ _ h => h.1 hcopied
  · exact fun _ _ h => h.2
  · rw [Arena.Unviewed, List.append_nil,
      show ((c.entered 1 part).offer (.int 0)).arena.liveStores = [.owned numbers, .empty] from rfl]
    simp [Store.views, Store.backing?]
  · exact fun _ _ h => h.2
  · exact fun _ _ h => absurd (hreclaimed.symm.trans h.1) (Nat.succ_ne_self maxSize)

end AdaptiveArray
