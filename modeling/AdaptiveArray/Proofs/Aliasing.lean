import AdaptiveArray.Proofs.Concat
import AdaptiveArray.Proofs.Courses
import AdaptiveArray.Proofs.Frozen
import AdaptiveArray.Proofs.Isolation
import AdaptiveArray.Proofs.Sorted
import AdaptiveArray.Proofs.Taking

/-!
# Arrays as operands of each other

Operands are duplicated before the array itself is changed.  A duplicate moves the elements
of its array behind a view, so several views of one backing may come together, that of the
changed array among them.  Each of them shows what its array held when the first duplicate
was made, however often one array is an operand.
-/

namespace AdaptiveArray

namespace Arena

variable {a b c : Arena} {ids : List ArrayId} {id j : ArrayId} {xs : List Value}

def HasElements (a : Arena) (id : ArrayId) (xs : List Value) : Prop :=
  ∃ x, a.body? id = some x ∧ x.Shows False xs

theorem HasElements.of_bodies (h : a.HasElements id xs) (hbody : ∀ j, b.body? j = a.body? j) :
    b.HasElements id xs := by
  obtain ⟨x, hx, hshows⟩ := h
  exact ⟨x, (hbody id).trans hx, hshows⟩

theorem Preserves.hasElements (h : a.Preserves ids b) (hj : j ∉ ids) (hxs : a.HasElements j xs) :
    b.HasElements j xs := by
  obtain ⟨x, hx, hshows⟩ := hxs
  obtain ⟨y, hy, htells⟩ := h.tells j hj x hx hshows.fits
  exact ⟨y, hy, hshows.toList ▸ htells.shows⟩

/-- Elements may have moved to other stores, with as many slots behind them, and no more can be
told. -/
structure Moves (a b : Arena) : Prop where
  settings : b.settings = a.settings
  available : ∀ {j}, a.Available j → b.Available j
  body : ∀ {j x}, a.body? j = some x → x.Fits False →
    ∃ y, b.body? j = some y ∧ y.Tells x.toList x.frozen ∧ y.store.extent = x.store.extent

namespace Moves

theorem refl (a : Arena) : a.Moves a :=
  ⟨rfl, id, fun hx hfits => ⟨_, hx, hfits.tells, rfl⟩⟩

theorem trans (h : a.Moves b) (h' : b.Moves c) : a.Moves c where
  settings := h'.settings.trans h.settings
  available := h'.available ∘ h.available
  body hx hfits := by
    obtain ⟨y, hy, htells, hextent⟩ := h.body hx hfits
    obtain ⟨z, hz, htells', hextent'⟩ := h'.body hy htells.shows.fits
    rw [htells.shows.toList, htells.frozen] at htells'
    exact ⟨z, hz, htells', hextent'.trans hextent⟩

theorem hasElements (h : a.Moves b) (hxs : a.HasElements j xs) : b.HasElements j xs := by
  obtain ⟨x, hx, hshows⟩ := hxs
  obtain ⟨y, hy, htells, -⟩ := h.body hx hshows.fits
  exact ⟨y, hy, hshows.toList ▸ htells.shows⟩

end Moves

theorem lockOf_modifyObject (a : Arena) (id : ArrayId) {change : ArrayObject → ArrayObject}
    (hlock : ∀ o, (change o).lock = o.lock) (j : ArrayId) :
    (a.modifyObject id change).lockOf j = a.lockOf j := by
  rw [lockOf, lockOf, object?_modifyObject]
  split
  · cases a.object? j <;> simp [hlock]
  · rfl

theorem Remarked.lockOf (h : a.Remarked b) (j : ArrayId) : b.lockOf j = a.lockOf j := by
  cases ho : a.object? j with
  | none => rw [Arena.lockOf, Arena.lockOf, ho, h.none j ho]
  | some o =>
      obtain ⟨o', ho', hmarked⟩ := h.some j o ho
      rw [Arena.lockOf, Arena.lockOf, ho, ho', Option.map_some, Option.map_some, hmarked.lock]

theorem lockOf_unlock (a : Arena) (id j : ArrayId) :
    (a.unlock id).lockOf j = (a.setLock id .free).lockOf j := by
  unfold unlock
  dsimp only
  split
  · rw [(Remarked.shareElements _ id).lockOf, lockOf_modifyObject]
    exact fun _ => rfl
  · rfl

theorem Available.unlock (h : a.Available j) (id : ArrayId) : (a.unlock id).Available j := by
  unfold Available
  rw [lockOf_unlock]
  exact h.setLock id (.inl rfl)

theorem Available.setBody (h : a.Available j) (id : ArrayId) (x : Body) :
    (a.setBody id x).Available j := by
  unfold Available
  rwa [Arena.setBody, lockOf_modifyObject]
  exact fun _ => rfl

theorem moves_unlock (a : Arena) (id : ArrayId) : a.Moves (a.unlock id) where
  settings := by
    rw [(Relocked.unlock a id).rest]
    rfl
  available h := h.unlock id
  body hx hfits := ⟨_, ((Relocked.unlock a id).body? _).trans hx, hfits.tells, rfl⟩

@[simp] theorem settings_entered (a : Arena) (id : ArrayId) (x : Body) :
    (a.entered id x).arena.settings = a.settings := by
  unfold entered opened locked
  split <;> rfl

theorem relocked_entered {x : Body} (hx : a.body? id = some x) :
    a.Relocked ((a.entered id x).arena.setBody id x) where
  rest := by
    unfold entered opened locked
    split <;> rfl
  size := (size_modifyObject _ id _).trans (size_entered a id x)
  body? j := by
    rw [entered, opened, body?_setBody, body?_setBody, body?_locked]
    split
    case isTrue heq =>
        rw [heq, hx]
        rfl
    case isFalse => rfl

theorem moves_of_entered {x : Body} {w : Workspace} (hx : a.body? id = some x)
    (hbooked : (a.entered id x).arena.Booked w.arena) (htells : w.body.Tells x.toList x.frozen)
    (hextent : w.body.store.extent = x.store.extent) : a.Moves (w.arena.setBody id w.body) where
  settings := hbooked.settings.trans (settings_entered a id x)
  available {j} h := by
    refine Available.setBody ?_ id w.body
    unfold Available Arena.lockOf object?
    rw [hbooked.objects]
    exact (h.locked id).setBody id .empty
  body {j y} hy hfits := by
    have hbody := body?_of_objects hbooked.objects j
    rw [entered, opened, body?_setBody, body?_locked] at hbody
    rw [body?_setBody]
    split
    case isTrue heq =>
        obtain rfl : x = y := Option.some.inj (hx.symm.trans (heq ▸ hy))
        rw [hbody, if_pos heq, hy]
        exact ⟨w.body, rfl, htells, hextent⟩
    case isFalse hne =>
        rw [hbody, if_neg hne]
        exact ⟨y, hy, hfits.tells, rfl⟩

end Arena

/-! ## Duplicates -/

theorem Edit.ends_dup_extent (w : Workspace) :
    Ends dup w (fun _ w' => w'.body.store.extent = w.body.store.extent) fun _ _ => True := by
  have hshare (start stop : Nat) : Ends (shareRange start stop) w
      (fun _ w' => w'.body.store.extent = w.body.store.extent) fun _ _ => True := by
    unfold shareRange
    rw [ends_bind, ends_store]
    split
    case h_1 b hstore =>
        rw [ends_bind, ends_lift, Action.ends_newBacking, ends_bind, ends_lift]
        cases View.make? ⟨w.arena.nextBacking, b⟩ start (stop - start) with
        | none => trivial
        | some part =>
            rw [Action.ends_demand_some, ends_bind, ends_modify, hstore]
            rfl
    case h_2 =>
        rw [ends_lift]
        exact (Ends.trivial _ _).weaken fun _ _ _ => rfl
  unfold dup extractShared
  rw [ends_bind, ends_size]
  split
  · rfl
  · rw [ends_bind, ends_bind, ends_size, ends_bind, ends_lift, Action.ends_ensure, if_pos (by simp)]
    refine (hshare 0 w.body.size).mono (fun part w' hextent => ?_) fun _ _ h => h
    rw [ends_lift]
    exact (Ends.trivial _ _).weaken fun _ _ _ => hextent

theorem flatMap_toList_of_shows {lists : List (List Value)} {copies : List Body}
    (h : List.Forall₂ (fun xs copy => copy.Shows False xs) lists copies) :
    (∀ copy ∈ copies, copy.Fits False) ∧ copies.flatMap Body.toList = lists.flatten := by
  induction h with
  | nil => exact ⟨nofun, rfl⟩
  | cons hcopy _ ih =>
      refine ⟨List.forall_mem_cons.mpr ⟨hcopy.fits, ih.1⟩, ?_⟩
      rw [List.flatMap_cons, List.flatten_cons, hcopy.toList, ih.2]

namespace Action

variable {a : Arena} {id : ArrayId} {x : Body} {xs ys : List Value} {early : Fault → Arena → Prop}

theorem ends_checkFrozen_open {post : Unit → Arena → Prop} (hopen : x.frozen = false) :
    Ends (checkFrozen x) a post early ↔ post () a := by
  rw [checkFrozen, hopen]
  rfl

theorem ends_snapshot (hlock : a.Available id) (hxs : a.HasElements id xs) :
    Ends (edit id Edit.dup) a (fun copy b => copy.Shows False xs ∧ a.Moves b) early := by
  obtain ⟨x, hx, hfits, rfl⟩ := hxs
  have hshows : Ends Edit.dup (a.entered id x) _ fun _ _ => False :=
    Edit.ends_dup_shows (w := a.entered id x) hfits
  have htells : Ends Edit.dup (a.entered id x) _ fun _ _ => True := Edit.ends_dup_tells hfits
  have hdup : Ends (edit id Edit.dup) a (fun copy b => copy.Shows False x.toList ∧ a.Moves b)
      fun _ _ => False := by
    refine ends_edit hlock hx (fun copy b h => ⟨h.1, h.2.trans (Arena.moves_unlock b id)⟩)
      (fun _ _ h => h)
      (((hshows.and htells).and (Edit.ends_dup_extent _)).mono ?_ fun _ _ h => h.1.1)
    rintro copy w ⟨⟨⟨hcopy, -, -, hbooked⟩, htells⟩, hextent⟩
    exact ⟨hcopy, Arena.moves_of_entered hx hbooked htells hextent⟩
  exact hdup.mono_early fun _ _ => False.elim

theorem ends_snapshots (ids : List ArrayId) : ∀ {a : Arena} {lists : List (List Value)},
    List.Forall₂ (fun i xs => a.Available i ∧ a.HasElements i xs) ids lists →
      Ends (snapshots ids) a (fun copies b =>
        List.Forall₂ (fun xs copy => copy.Shows False xs) lists copies ∧ a.Moves b) early := by
  induction ids with
  | nil =>
      rintro a _ ⟨⟩
      exact ⟨.nil, .refl a⟩
  | cons i ids ih =>
      rintro a _ (_ | ⟨⟨hlock, hxs⟩, hlists⟩)
      unfold snapshots
      refine Ends.bind (ends_snapshot hlock hxs) ?_
      rintro copy b ⟨hcopy, hmoves⟩
      refine Ends.bind (ih (hlists.imp fun _ _ h =>
        ⟨hmoves.available h.1, hmoves.hasElements h.2⟩)) ?_
      rintro copies c ⟨hcopies, hmoves'⟩
      exact ⟨.cons hcopy hcopies, hmoves.trans hmoves'⟩

theorem ends_edit_elements {α : Type} {e : Edit α} {P : Fault → Prop} (hlock : a.Available id)
    (hx : a.body? id = some x) (hothers : Within (Workspace.Follows (Arena.Leaves [])) e)
    (h : Ends e (a.entered id x) (fun _ w => w.body.Shows False xs) fun f _ => P f) :
    Ends (edit id e) a (fun _ b => b.HasElements id xs) fun f _ => P f := by
  refine ends_edit hlock hx (fun _ b h => h.of_bodies (Arena.Relocked.unlock b id).body?)
    (fun _ _ h => h) ((h.and (hothers _)).mono ?_ fun _ _ h => h.1)
  rintro _ w ⟨hshows, hleaves⟩
  have hopened : (a.entered id x).arena.body? id = some .empty := by
    rw [Arena.entered, Arena.opened, Arena.body?_setBody, if_pos rfl, Arena.body?_locked, hx]
    rfl
  refine ⟨w.body, ?_, hshows⟩
  rw [Arena.body?_setBody, if_pos rfl, hleaves.2.body? id List.not_mem_nil _ hopened]
  rfl

theorem ends_concat_of_elements {others : List ArrayId} {lists : List (List Value)}
    (hlock : a.Available id) (hx : a.body? id = some x) (hfits : x.Fits False)
    (hopen : x.frozen = false)
    (hlists : List.Forall₂ (fun i xs => a.Available i ∧ a.HasElements i xs) others lists)
    (hroom : x.size + lists.flatten.length ≤ maxSize) :
    Ends (concat id others) a
      (fun _ c => c.HasElements id (x.toList ++ lists.flatten) ∧ a.Preserves [id] c)
      fun f _ => f = .outOfMemory ∧
        ¬Element.object.allocatable (max a.settings.uninitializedSize x.store.extent) := by
  have happend : Ends (concat id others) a
      (fun _ c => c.HasElements id (x.toList ++ lists.flatten))
      fun f _ => f = .outOfMemory ∧
        ¬Element.object.allocatable (max a.settings.uninitializedSize x.store.extent) := by
    unfold concat
    rw [ends_bind, ends_bodyOf hx, ends_bind, ends_checkFrozen_open hopen]
    -- The array may be among the operands, and is a view of its own elements then.
    refine Ends.bind (ends_snapshots others hlists) ?_
    rintro copies b ⟨hcopies, hmoves⟩
    obtain ⟨y, hy, htells, hextent⟩ := hmoves.body hx hfits
    obtain ⟨hcopyfits, hvalues⟩ := flatMap_toList_of_shows hcopies
    have hsize : y.size = x.size := by
      rw [← Body.length_toList htells.shows.fits, htells.shows.toList, Body.length_toList hfits]
    have hreach : Edit.reach (b.entered id y) ((b.entered id y).body.size + totalSize copies) =
        max (max a.settings.uninitializedSize x.store.extent)
          (2 * (x.size + lists.flatten.length)) := by
      rw [Edit.reach, Arena.settings_entered, hmoves.settings, ← length_flatMap_toList hcopyfits,
        hvalues, ← hextent, ← hsize]
      rfl
    refine ends_edit_elements (hmoves.available hlock) hy (Edit.within_concat copies)
      ((Edit.ends_concat (w := b.entered id y) htells.shows.fits hcopyfits).mono ?_ ?_)
    · rintro _ w ⟨hbecomes, -⟩
      refine ⟨hbecomes.fits, hbecomes.toList.trans ?_⟩
      rw [hvalues, ← htells.shows.toList]
      rfl
    · intro f w hf
      cases f with
      | raised e =>
          rcases hf.1 with hfrozen | hbig
          · rw [show (b.entered id y).body.frozen = false from htells.frozen.trans hopen] at hfrozen
            cases hfrozen
          · rw [← length_flatMap_toList hcopyfits, hvalues] at hbig
            exact absurd (hsize ▸ hbig) (Nat.not_lt_of_le hroom)
      | broken => exact hf.elim
      | outOfMemory =>
          refine ⟨rfl, fun hlimit => hf ?_⟩
          rw [hreach]
          exact Element.allocatable_of_size_le hroom hlimit
  exact (happend.and (preserves_concat id others a)).mono_early fun _ _ h => h.1

theorem ends_replace_of_elements {other : ArrayId} (hid : a.Available id)
    (hother : a.Available other) (hne : id ≠ other) (hx : a.body? id = some x)
    (hopen : x.frozen = false) (hfits : x.Fits False) (hys : a.HasElements other ys) :
    Ends (replace id other) a (fun _ c => c.HasElements id ys ∧ a.Preserves [id] c) early := by
  have htaken : Ends (replace id other) a (fun _ c => c.HasElements id ys) fun _ _ => False := by
    unfold replace
    rw [ends_bind, ends_bodyOf hx, ends_bind, ends_checkFrozen_open hopen, if_pos hne]
    refine Ends.bind (ends_snapshot hother hys) ?_
    rintro copy b ⟨hcopy, hmoves⟩
    obtain ⟨y, hy, htells, -⟩ := hmoves.body hx hfits
    refine ends_edit_elements (hmoves.available hid) hy
      (Edit.within_replace (Edit.follows_replaceStore _ _))
      ((Edit.ends_replace_of_open (w := b.entered id y) (htells.frozen.trans hopen)
        hcopy.fits.size_le).weaken ?_)
    exact fun _ w htook => htook.shows hcopy
  exact (htaken.and (preserves_replace id other a)).mono_early fun _ _ h => h.1.elim

theorem replace_itself (hx : a.body? id = some x) (hopen : x.frozen = false) :
    replace id id a = .ok () a := by
  have h : Ends (replace id id) a (fun _ c => c = a) fun _ _ => False := by
    unfold replace
    rw [ends_bind, ends_bodyOf hx, ends_bind, ends_checkFrozen_open hopen,
      if_neg (not_not_intro rfl)]
    rfl
  obtain ⟨_, _, hrun, rfl⟩ := h.exists_ok fun _ _ h => h
  exact hrun

theorem ends_restart_itself (hlock : a.Available id) (hx : a.body? id = some x)
    (hopen : x.frozen = false) :
    Ends ((Mutation.restart (some (.array id)) none).perform id) a
      (fun reply c => reply = .nothing ∧ c.stores = a.stores ∧ ∀ j, c.body? j = a.body? j)
      early := by
  have h : Ends ((Mutation.restart (some (.array id)) none).perform id) a
      (fun reply c => reply = .nothing ∧ c.stores = a.stores ∧ ∀ j, c.body? j = a.body? j)
      fun _ _ => False := by
    refine ends_edit hlock hx ?_ (fun _ _ h => h) ?_
    · rintro reply b ⟨hreply, hstores, hbody⟩
      have hrelocked := Arena.Relocked.unlock b id
      refine ⟨hreply, ?_, fun j => (hrelocked.body? j).trans (hbody j)⟩
      rw [hrelocked.rest]
      exact hstores
    · have hstill : Ends (Edit.restart (some (.array id)) none) (a.entered id x)
          (fun _ w => w = a.entered id x) fun _ _ => False := by
        unfold Edit.restart
        rw [ends_bind, Edit.ends_checkFrozen,
          show (a.entered id x).body.frozen = false from hopen, if_neg Bool.false_ne_true]
        dsimp only
        rw [ends_bind, ends_get, show (a.entered id x).owner = id from rfl, if_pos rfl]
        rfl
      refine Ends.bind hstill ?_
      rintro _ _ rfl
      exact ⟨rfl, (Arena.relocked_entered hx).rest ▸ rfl, (Arena.relocked_entered hx).body?⟩
  exact h.mono_early fun _ _ => False.elim

end Action

/-! ## Later changes -/

def Arena.Keeps (id : ArrayId) (a b : Arena) : Prop :=
  ∀ ⦃xs⦄, a.HasElements id xs → b.HasElements id xs

theorem Arena.Leaves.keeps {a b : Arena} {id : ArrayId} (h : a.Leaves [] b) : a.Keeps id b :=
  fun _ => h.preserves.hasElements List.not_mem_nil

instance {id : ArrayId} : Arena.Frame (Arena.Keeps id) where
  refl _ _ h := h
  trans h h' _ hxs := h' (h hxs)
  booked h := Arena.Leaves.keeps (Arena.Tally.booked h)
  shareValue a v := Arena.Leaves.keeps (Arena.Frame.shareValue a v)

theorem Arena.keeps_setBody {id j : ArrayId} (hne : id ≠ j) (a : Arena) (x : Body) :
    a.Keeps j (a.setBody id x) :=
  fun _ => (Arena.leaves_setBody (List.mem_singleton_self id) a x).preserves.hasElements
    (by simpa using Ne.symm hne)

theorem Request.within_keeps {r : Request} {target id : ArrayId} (changes : r.target? = some target)
    (other : target ≠ id) (donor : r.donor? ≠ some id)
    (blocks : ∀ vs b answer? c, r.call vs b = some (answer?, c) → b.Keeps id c) :
    Within (Arena.Keeps id) r.run := by
  have hedit {m : Mutation} (hdonor : m.donor? ≠ some id)
      (hcall : ∀ v b answer? c, m.call v b = some (answer?, c) → b.Keeps id c) :
      Within (Arena.Keeps id) (Action.editBody target m.edit) := by
    refine Action.within_editBody (Arena.keeps_setBody other)
      (Mutation.yields_edit_of_call (fun j hj a b _ _ => Arena.keeps_setBody ?_ a _) hcall).within
    rintro rfl
    exact hdonor hj
  have hpreserved (h : r.Detached) : Within (Arena.Keeps id) r.run :=
    Action.within_mono (r.preserves_run changes h) fun a b hkept _ =>
      hkept.hasElements (by simp [Ne.symm other, donor])
  cases r with
  | mutate j m =>
      obtain rfl : j = target := Option.some.inj changes
      exact Action.within_holding (fun a lock => (Arena.leaves_setLock a j lock).keeps)
        (fun a => (Arena.leaves_unlock a j).keeps) (hedit donor fun v => blocks [v])
  | foreign j m =>
      obtain rfl : j = target := Option.some.inj changes
      exact .bind .get fun _ => .bind (Action.within_ensure _) fun _ =>
        hedit donor fun v => blocks [v]
  | concat | replace | steal => exact hpreserved trivial
  | derive d => cases changes

/-- Requests are made to change arrays, none of them to change this one or to empty it.  Whatever
else is done, by their blocks and with what they answer, leaves it the elements that it has. -/
abbrev Rules.besides (id : ArrayId) : Rules where
  request _ _ r := (∃ target, r.target? = some target ∧ target ≠ id) ∧ r.donor? ≠ some id
  called _ _ _ := True
  returned _ _ := True
  answer _ _ := True
  placed _ := Arena.Keeps id
  opened _ _ _ _ := False
  step _ := Arena.Keeps id

abbrev Arena.ChangedBesides (id : ArrayId) : Arena → Arena → Prop :=
  Course (.besides id) []

theorem Course.keeps {a b : Arena} {id : ArrayId} {held : List ArrayId}
    (h : Course (.besides id) held a b) : a.Keeps id b := by
  refine h.stays (R := fun _ => Arena.Keeps id)
    (fun _ a b hrelocked xs hxs => hxs.of_bodies hrelocked.body?)
    (fun _ a name xs hxs => hxs.of_bodies ?_) (fun _ a b allowed => allowed)
    fun held a r fair hblocks => ?_
  · exact Arena.body?_of_objects (Arena.objects_dropStore a name)
  · obtain ⟨⟨target, changes, other⟩, donor⟩ := fair
    have hcalls vs b answer? c hcall := (hblocks vs b answer? c trivial hcall).2
    exact (Request.within_keeps changes other donor hcalls a).weaken
      fun reply b hb _ c placed => Evolution.trans hb placed

/-- While no lock is held, an array that is not frozen takes other arrays and itself as operands,
any of them any number of times.  What they had comes behind what it had, in order, and all others
keep what they have; only memory can be lacking, for the slots that it has or that arrays start
with.  If it takes over the elements of another array, then both have them, and each keeps them
whatever is done to the other one.  Taking over its own and starting afresh from itself change
nothing. -/
theorem operands_may_alias {a : Arena} {id : ArrayId} {x : Body}
    (hfree : ∀ j o, a.object? j = some o → o.lock = .free) (hx : a.body? id = some x)
    (hfits : x.Fits False) (hopen : x.frozen = false) :
    (∀ (others : List ArrayId) (lists : List (List Value)),
      List.Forall₂ a.HasElements others lists → x.size + lists.flatten.length ≤ maxSize →
      Ends (Action.concat id others) a
        (fun _ c => c.HasElements id (x.toList ++ lists.flatten) ∧ a.Preserves [id] c)
        fun f _ => f = .outOfMemory ∧
          ¬Element.object.allocatable (max a.settings.uninitializedSize x.store.extent)) ∧
    (∀ (other : ArrayId) (ys : List Value), other ≠ id → a.HasElements other ys →
      ∃ c, Action.replace id other a = .ok () c ∧ a.Preserves [id] c ∧
        ∀ j, j = id ∨ j = other → ∀ d, c.ChangedBesides j d → d.HasElements j ys) ∧
    Action.replace id id a = .ok () a ∧
    ∃ c, (Mutation.restart (some (.array id)) none).perform id a = .ok .nothing c ∧
      c.stores = a.stores ∧ ∀ j, c.body? j = a.body? j := by
  have hlock {j : ArrayId} {ys : List Value} (h : a.HasElements j ys) : a.Available j := by
    obtain ⟨y, hy, -⟩ := h
    obtain ⟨o, ho, -⟩ := Option.map_eq_some_iff.mp hy
    exact .inl (by rw [Arena.lockOf, ho, Option.map_some, hfree j o ho])
  have hid : a.Available id := hlock ⟨x, hx, hfits.shows⟩
  refine ⟨fun others lists hlists hroom => ?_, fun other ys hne hys => ?_,
    Action.replace_itself hx hopen, ?_⟩
  · exact Action.ends_concat_of_elements hid hx hfits hopen
      (hlists.imp fun _ _ h => ⟨hlock h, h⟩) hroom
  · have htaken : Ends (Action.replace id other) a
        (fun _ c => c.HasElements id ys ∧ a.Preserves [id] c) fun _ _ => False :=
      Action.ends_replace_of_elements hid (hlock hys) (Ne.symm hne) hx hopen hfits hys
    obtain ⟨_, c, hrun, htook, hkept⟩ := htaken.exists_ok fun _ _ h => h
    refine ⟨c, hrun, hkept, ?_⟩
    rintro j (rfl | rfl) d hd
    · exact hd.keeps htook
    · exact hd.keeps (hkept.hasElements (by simpa using hne) hys)
  · have hstart : Ends _ a _ fun _ _ => False := Action.ends_restart_itself hid hx hopen
    obtain ⟨_, c, hrun, rfl, hstores, hbody⟩ := hstart.exists_ok fun _ _ h => h
    exact ⟨c, hrun, hstores, hbody⟩

/-- Two numbers are put behind themselves, with an array of a string between; or they are replaced
by the string, whose array may then be written. -/
theorem operands_may_alias_numbers :
    let numbers : Body := { store := .owned (.int #[1, 2]), size := 2 }
    let texts : Body := { store := .owned (.object #[.string 0 "x"]), size := 1 }
    let a : Arena := { objects := #[some { body := numbers }, some { body := texts }] }
    (∃ c, Action.concat 0 [0, 1, 0] a = .ok () c ∧ c.HasElements 0
      [.int 1, .int 2, .int 1, .int 2, .string 0 "x", .int 1, .int 2]) ∧
    ∃ c, Action.replace 0 1 a = .ok () c ∧ c.HasElements 1 [.string 0 "x"] ∧
      ∀ reply d, (Mutation.set 0 .nil).perform 1 c = .ok reply d →
        d.HasElements 0 [.string 0 "x"] := by
  intro numbers texts a
  have hnumbers : numbers.Fits False := ⟨by decide, trivial, nofun⟩
  have htexts : texts.Fits False := ⟨by decide, trivial, nofun⟩
  have hfree : ∀ j o, a.object? j = some o → o.lock = .free := by
    rintro (_ | _ | j) o ho <;> cases ho <;> rfl
  obtain ⟨hconcat, hreplace, -⟩ :=
    operands_may_alias hfree (rfl : a.body? 0 = some numbers) hnumbers rfl
  have hfirst : a.HasElements 0 [.int 1, .int 2] := ⟨numbers, rfl, hnumbers, by decide +kernel⟩
  have hsecond : a.HasElements 1 [.string 0 "x"] := ⟨texts, rfl, htexts, by decide +kernel⟩
  have hroom : Element.object.allocatable
      (max a.settings.uninitializedSize numbers.store.extent) := by decide +kernel
  have hlist : numbers.toList = [.int 1, .int 2] := by decide +kernel
  -- from here on only what is known of the arena counts, so that no run is evaluated
  clear_value a
  constructor
  · obtain ⟨_, d, hrun, helements, -⟩ := (hconcat [0, 1, 0] _
      (.cons hfirst (.cons hsecond (.cons hfirst .nil))) (by decide +kernel)).exists_ok
      fun _ _ h => h.2 hroom
    rw [hlist] at helements
    exact ⟨d, hrun, helements⟩
  · obtain ⟨c, hrun, -, hlater⟩ := hreplace 1 [.string 0 "x"] (by decide) hsecond
    refine ⟨c, hrun, hlater 1 (.inr rfl) c (.refl [] c), fun reply d hset => ?_⟩
    exact hlater 0 (.inl rfl) d (.changed (.set 0 .nil) 1 ⟨⟨1, rfl, by decide⟩, nofun⟩
      (fun _ _ => rfl) hset trivial fun _ h => h)

end AdaptiveArray
