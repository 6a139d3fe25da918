import AdaptiveArray.Proofs.Tracking
import AdaptiveArray.Proofs.Failing
import AdaptiveArray.Proofs.Pairing

/-!
# Frozen arrays

A frozen array can still move: its elements go behind a view when a part of them is
handed out, or to native storage.  They stay the same all the while.  Everything that
would change them looks at the mark first, except a deletion, which looks for a match
before.
-/

namespace AdaptiveArray

/-! ## Edits of a frozen array -/

theorem Traversal.equalArrays_of_readable {a b : Arena} (h : b.readable? = a.readable?)
    (how : Equality) (depth : Nat) : equalArrays b how depth = equalArrays a how depth := by
  induction depth with
  | zero => rfl
  | succ depth ih =>
      funext x y
      rw [equalArrays, equalArrays, h, ih]

theorem Arena.equal_of_readable {a b : Arena} (hsize : b.objects.size = a.objects.size)
    (h : b.readable? = a.readable?) (how : Equality) : b.equal how = a.equal how := by
  funext x y
  rw [Arena.equal, Arena.equal, depth, depth, hsize, Traversal.equalArrays_of_readable h]

theorem Arena.equal_of_objects {a b : Arena} (h : b.objects = a.objects) (how : Equality) :
    b.equal how = a.equal how :=
  equal_of_readable (congrArg Array.size h) (readable?_of_objects h) how

namespace Edit

variable {w₀ : Workspace} {test : Value → Edit Bool} {passes : Value → Bool}

theorem ends_removePass_frozen (hfits : w₀.body.Fits False) (hfrozen : w₀.body.frozen = true)
    (htest : ∀ v w, Workspace.Unedited Arena.Booked w₀ w → test v w = .ok (passes v) w)
    (left : Nat) {p : Pass} {w : Workspace} (hfound : p.found = none) (herror : p.error = none)
    (hwrite : p.write = p.read) (hleft : p.read + left = w₀.body.size)
    (hw : Workspace.Unedited Arena.Booked w₀ w) :
    Ends (removePass test left p) w
      (fun p' w' => (w₀.body.toList.drop p.read).any passes = false ∧ p'.found = none ∧
        p'.error = none ∧ p'.write = p'.read ∧ Workspace.Unedited Arena.Booked w₀ w')
      fun f w' => (w₀.body.toList.drop p.read).any passes = true ∧
        (∃ shown, f = .raised (.frozen shown)) ∧ Workspace.Unedited Arena.Booked w₀ w' := by
  induction left generalizing p w with
  | zero =>
      have hlength := Body.length_toList hfits
      refine ⟨?_, hfound, herror, hwrite, hw⟩
      rw [List.drop_eq_nil_of_le (by omega)]
      rfl
  | succ left ih =>
      obtain ⟨v, hv, hmem⟩ := Body.exists_get? hfits (i := p.read) (by omega)
      have hdrop : w₀.body.toList.drop p.read = v :: w₀.body.toList.drop (p.read + 1) := by
        obtain ⟨hlt, rfl⟩ := List.getElem?_eq_some_iff.mp hmem
        exact List.drop_eq_getElem_cons hlt
      rw [removePass, ends_bind, ends_lift]
      refine (Action.ends_pollAt p.read).weaken fun _ a hbooked => ?_
      have hw₁ : Workspace.Unedited Arena.Booked w₀ (w.withArena a) :=
        ⟨hw.owner, hw.body, hw.arena.trans hbooked⟩
      rw [ends_bind, ends_getSlot (hw₁.body ▸ hv), ends_bind, ends_attempt, Ends, htest v _ hw₁]
      dsimp only
      rw [hdrop, List.any_cons]
      cases hmatch : passes v with
      | true =>
          dsimp only
          rw [if_pos (by rw [hfound]; rfl), ends_bind, ends_checkFrozen, hw₁.body, hfrozen]
          exact ⟨rfl, ⟨_, rfl⟩, hw₁⟩
      | false =>
          dsimp only
          rw [if_neg (by simp [hwrite])]
          exact ih hfound herror (congrArg (· + 1) hwrite) (by dsimp only; omega) hw₁

theorem ends_removeWhere_frozen (hfits : w₀.body.Fits False) (hfrozen : w₀.body.frozen = true)
    (htest : ∀ v w, Workspace.Unedited Arena.Booked w₀ w → test v w = .ok (passes v) w) :
    Ends (removeWhere test) w₀
      (fun found w' => w₀.body.toList.any passes = false ∧ found = none ∧
        Workspace.Unedited Arena.Booked w₀ w')
      fun f w' => w₀.body.toList.any passes = true ∧ (∃ shown, f = .raised (.frozen shown)) ∧
        Workspace.Unedited Arena.Booked w₀ w' := by
  rw [removeWhere, ends_bind, ends_size, ends_bind, ends_lift, Action.ends_options]
  refine (ends_removePass_frozen (w := w₀.withArena w₀.arena.withSettings) hfits hfrozen htest
    w₀.body.size rfl rfl rfl (Nat.zero_add _) ⟨rfl, rfl, .withSettings _⟩).bind ?_
  rintro p w ⟨hnone, hfound, herror, hwrite, hw⟩
  rw [if_neg (by simp [hwrite])]
  dsimp only
  rw [herror]
  exact ⟨hnone, hfound, hw⟩

theorem ends_delete?_frozen (hfits : w₀.body.Fits False) (hfrozen : w₀.body.frozen = true)
    (v : Value) : Ends (delete? v) w₀
      (fun found w' => w₀.arena.includes w₀.body v = false ∧ found = none ∧
        Workspace.Unedited Arena.Booked w₀ w')
      fun f w' => w₀.arena.includes w₀.body v = true ∧ (∃ shown, f = .raised (.frozen shown)) ∧
        Workspace.Unedited Arena.Booked w₀ w' := by
  refine ends_removeWhere_frozen hfits hfrozen fun x w hw => ?_
  rw [← Arena.equal_of_objects hw.arena.objects]
  rfl

theorem ends_deleteOr_frozen (hfits : w₀.body.Fits False) (hfrozen : w₀.body.frozen = true)
    {v : Value} {missing : Value → Edit Value} {post : Value → Workspace → Prop}
    {early : Fault → Workspace → Prop}
    (hmissing : w₀.arena.includes w₀.body v = false → ∀ w, Workspace.Unedited Arena.Booked w₀ w →
      Ends (missing v) w post early)
    (hearly : w₀.arena.includes w₀.body v = true → ∀ w shown,
      Workspace.Unedited Arena.Booked w₀ w → early (.raised (.frozen shown)) w) :
    Ends (deleteOr v missing) w₀ post early := by
  refine Ends.bind ((ends_delete?_frozen hfits hfrozen v).mono_early ?_) ?_
  · rintro _ w ⟨hmatch, ⟨shown, rfl⟩, hw⟩
    exact hearly hmatch w shown hw
  · rintro _ w ⟨hnone, rfl, hw⟩
    exact hmissing hnone w hw

end Edit

theorem Mutation.ends_edit_frozen (m : Mutation) {w : Workspace} (hfits : w.body.Fits False)
    (hfrozen : w.body.frozen = true) :
    Ends m.edit w (fun _ w' => w'.body.Tells w.body.toList true)
      fun f w' => f.Fatal ∨ w'.body.Tells w.body.toList true := by
  have hsame {w' : Workspace} (h : w'.body = w.body) : w'.body.Tells w.body.toList true := by
    rw [h]
    exact ⟨hfits.shows, hfrozen⟩
  have hdelete {v : Value} (missing : Value → Edit Value)
      (hmissing : ∀ w : Workspace, Ends (missing v) w (fun _ w' => w'.body = w.body)
        fun _ w' => w'.body = w.body) :
      Ends (Edit.deleteOr v missing) w (fun _ w' => w'.body.Tells w.body.toList true)
        fun f w' => f.Fatal ∨ w'.body.Tells w.body.toList true := by
    refine Edit.ends_deleteOr_frozen hfits hfrozen (fun _ w₁ hw₁ => ?_)
      fun _ w₁ _ hw₁ => .inr (hsame hw₁.body)
    exact (hmissing w₁).mono (fun _ _ h => hsame (h.trans hw₁.body))
      fun _ _ h => .inr (hsame (h.trans hw₁.body))
  have htells {w' : Workspace} (h : w'.body.Tells w.body.toList w.body.frozen) :
      w'.body.Tells w.body.toList true := hfrozen ▸ h
  by_cases hm : m.Guarded
  · exact (ends_of_error (edit_of_frozen hm hfrozen)).mpr (.inr (hsame rfl))
  cases m with
  | delete v => exact (hdelete (fun _ => pure .nil) fun _ => rfl).bind fun _ _ h => h
  | deleteOr v missing =>
      refine (hdelete (fun v => missing v) fun w => ?_).bind fun _ _ h => h
      rw [Edit.ends_lift]
      exact (Ends.trivial _ _).mono (fun _ _ _ => rfl) fun _ _ _ => rfl
  | slice start length =>
      refine (Edit.ends_slice_tells hfits start length).bind fun part _ h => ?_
      cases part <;> exact htells h
  | dup => exact (Edit.ends_dup_tells hfits).bind fun _ _ h => htells h
  | extract start stop =>
      exact (Edit.ends_extractShared_tells hfits start stop (.inl Fault.fatal_broken)).bind
        fun _ _ h => htells h
  | freeze => exact ⟨(hfits.with_frozen true).shows, rfl⟩
  | toNative =>
      refine ((Edit.ends_toNative hfits).mono (fun _ _ h => htells h.tells) fun _ w' hf => ?_).bind
        fun _ _ h => h
      exact hf.imp_right fun hrefused => hsame hrefused.2
  | _ => exact absurd trivial hm

/-! ## Frozen arrays among others -/

/-- Every array kept that is frozen and is not being edited stays frozen and holds what it held. -/
def Arena.Seals (kept : ArrayId → Prop) (held : List ArrayId) (a b : Arena) : Prop :=
  ∀ id, kept id → id ∉ held → ∀ x, a.body? id = some x → x.Fits False → x.frozen = true →
    ∃ y, b.body? id = some y ∧ y.Tells x.toList true

variable {kept : ArrayId → Prop} {held : List ArrayId} {a b : Arena} {id : ArrayId}

namespace Arena

instance : Arena.Lenient (Seals kept held) where
  refl _ := fun _ _ _ x hx hfits hfrozen => ⟨x, hx, hfits.shows, hfrozen⟩
  trans h h' := by
    intro id hkept hid x hx hfits hfrozen
    obtain ⟨y, hy, htells⟩ := h id hkept hid x hx hfits hfrozen
    obtain ⟨z, hz, htells'⟩ := h' id hkept hid y hy htells.shows.fits htells.frozen
    exact ⟨z, hz, htells.shows.toList ▸ htells'⟩
  bodies h := fun id _ _ x hx hfits hfrozen => ⟨x, h id x hx, hfits.shows, hfrozen⟩

theorem seals_setBody (hid : id ∈ held ∨ ∀ x, a.body? id = some x → x.frozen = false) (y : Body) :
    a.Seals kept held (a.setBody id y) := by
  intro j _ hj x hx hfits hfrozen
  have hne : j ≠ id := by
    rintro rfl
    rcases hid with hid | hid
    · exact hj hid
    · exact absurd (hid x hx) (by simp [hfrozen])
  exact ⟨x, by rw [body?_setBody, if_neg hne, hx], hfits.shows, hfrozen⟩

theorem seals_vacate (hid : ¬kept id) (a : Arena) : a.Seals kept held (a.vacate id) := by
  intro j hkept _ x hx hfits hfrozen
  have hne : j ≠ id := fun heq => hid (heq ▸ hkept)
  exact ⟨x, by rw [body?_vacate, if_neg hne, hx], hfits.shows, hfrozen⟩

def Guards (kept : ArrayId → Prop) (held : List ArrayId) (a b : Arena) : Prop :=
  a.Reserved held b ∧ a.Seals kept held b

instance : Arena.Lenient (Guards kept held) where
  refl a := ⟨Evolution.refl a, Evolution.refl a⟩
  trans h h' := ⟨Evolution.trans h.1 h'.1, Evolution.trans h.2 h'.2⟩
  bodies h := ⟨Lenient.bodies h, Lenient.bodies h⟩

end Arena

theorem Arena.seals_closed {x : Body} {w : Workspace} (hx : a.body? id = some x)
    (hothers : Workspace.Follows (Seals kept (id :: held)) (a.opened id x) w)
    (hplace : w.arena.body? id = some .empty)
    (hself : x.Fits False → x.frozen = true → w.body.Tells x.toList true) :
    a.Seals kept held (w.arena.setBody id w.body) := by
  intro j hkept hj y hy hfits hfrozen
  rw [body?_setBody]
  by_cases heq : j = id
  · rw [heq, hx] at hy
    obtain rfl := Option.some.inj hy
    exact ⟨w.body, by rw [if_pos heq, heq, hplace]; rfl, hself hfits hfrozen⟩
  · rw [if_neg heq]
    refine hothers.2 j hkept (by simp [heq, hj]) y ?_ hfits hfrozen
    rw [opened, body?_setBody, if_neg heq, hy]

theorem Mutation.Allowed.seals {m : Mutation} {blocks : Arena → Arena → Prop}
    (hm : m.Allowed blocks held id) (hblocks : ∀ b c, blocks b c → b.Seals kept (id :: held) c) :
    Yields (Workspace.Follows (Arena.Seals kept (id :: held))) Reply.Unclaimed m.edit :=
  yields_edit_of_call (fun other _ a y hy hfrozen => Arena.seals_setBody (.inr fun z hz => by
      rw [← Option.some.inj (hy.symm.trans hz), hfrozen]) _)
    fun v b answer? c hcall => hblocks b c (hm.block v b answer? c hcall)

theorem Mutation.seals_editBody {m : Mutation}
    (hm : m.Allowed (Arena.Guards kept (id :: held)) held id) :
    Yields (Arena.Seals kept held) Reply.Unclaimed (Action.editBody id m.edit) := by
  intro a
  cases hx : a.body? id with
  | none => exact (Action.ends_editBody_of_none hx).mpr (.inl Fault.fatal_broken)
  | some x =>
      have hothers := hm.seals (fun b c hbc => hbc.2) (a.opened id x)
      have hplace := hm.ends_reserved (fun b c hbc => hbc.1.mono (by simp)) hx
      have hself : Ends m.edit (a.opened id x)
          (fun _ w => x.Fits False → x.frozen = true → w.body.Tells x.toList true)
          fun f w => f.Fatal ∨ (x.Fits False → x.frozen = true → w.body.Tells x.toList true) := by
        by_cases hsealed : x.Fits False ∧ x.frozen = true
        · exact (m.ends_edit_frozen (w := a.opened id x) hsealed.1 hsealed.2).mono
            (fun _ _ h _ _ => h) fun _ _ hf => hf.imp_right fun h _ _ => h
        · exact (Ends.trivial _ _).mono (fun _ _ _ h h' => absurd ⟨h, h'⟩ hsealed)
            fun _ _ _ => .inr fun h h' => absurd ⟨h, h'⟩ hsealed
      refine (Action.ends_editBody hx).mpr ((hothers.and (hplace.and hself)).mono ?_ ?_)
      · exact fun reply w hw => ⟨hw.1.1, Arena.seals_closed hx hw.1.2 hw.2.1 hw.2.2⟩
      · rintro f w ⟨hothers, hplace, hself⟩
        by_cases hfatal : f.Fatal
        · exact .inl hfatal
        · exact .inr (Arena.seals_closed hx (hothers.resolve_left hfatal)
            (hplace.resolve_left hfatal) (hself.resolve_left hfatal))

/-- Unless slots are written by native address, no course changes a frozen array. -/
theorem Course.guards {poking : Prop} {answers : Arena → Reply → Prop}
    (h : Course (.tracking poking kept answers) held a b) (hpoking : ¬poking) :
    a.Guards kept held b := by
  refine h.follows (fun held id m hm a => ?_)
    (fun held id a free loose => ⟨Arena.reserved_vacate free a, Arena.seals_vacate loose a⟩)
    fun allowed => absurd allowed hpoking
  have hreserved := hm.reserved_editBody (fun _ _ hbc => hbc.1) a
  refine (hreserved.and (Mutation.seals_editBody hm a)).mono ?_ ?_
  · exact fun _ _ hb => ⟨hb.1.1, hb.1.2, hb.2.2⟩
  · exact fun f b hf => or_and_left.mpr hf

/-- In the midst of edits, too, a frozen array holds what it held, in the arena or out of it. -/
theorem Leads.sealed {poking : Prop} {answers : Arena → Reply → Prop}
    {before edited : List (ArrayId × Body)} {x : Body}
    (h : Leads (.tracking poking kept answers) before a edited b) (hpoking : ¬poking)
    (hkept : kept id)
    (hid : id ∉ before.map Prod.fst) (hx : a.body? id = some x) (hfits : x.Fits False)
    (hfrozen : x.frozen = true) : ∃ y : Body, y.Tells x.toList true ∧
      (id ∉ edited.map Prod.fst ∧ b.body? id = some y ∨ (id, y) ∈ edited) := by
  induction h with
  | start => exact ⟨x, ⟨hfits.shows, hfrozen⟩, .inl ⟨hid, hx⟩⟩
  | later _ course ih =>
      obtain ⟨y, htells, ⟨hid, hy⟩ | hy⟩ := ih
      · obtain ⟨z, hz, htells'⟩ :=
          (course.guards hpoking).2 id hkept hid y hy htells.shows.fits htells.frozen
        exact ⟨z, htells.shows.toList ▸ htells', .inl ⟨hid, hz⟩⟩
      · exact ⟨y, htells, .inr hy⟩
  | @opened edited b j z m w _ body fair blocks _ run ih =>
      obtain ⟨y, htells, ⟨hid, hy⟩ | hy⟩ := ih
      · by_cases heq : id = j
        · rw [← heq, hy] at body
          obtain rfl := Option.some.inj body
          have hself := m.ends_edit_frozen (w := b.opened j y) htells.shows.fits htells.frozen
          exact ⟨w.body, htells.shows.toList ▸ hself.of_run run, .inr (heq ▸ List.mem_cons_self)⟩
        · have hothers : Yields (Workspace.Follows (Arena.Seals kept (j :: edited.map Prod.fst)))
              Reply.Unclaimed m.edit :=
            (fair.allowed fun vs b answer? c => blocks vs b answer? c trivial).seals
              fun b c hbc => (hbc.guards hpoking).2
          have hseals : (b.opened j z).Follows _ w := (hothers.within _).of_run run
          have hj : id ∉ j :: edited.map Prod.fst := by simp [heq, hid]
          have hopened : (b.opened j z).arena.body? id = some y := by
            rw [Arena.opened, Arena.body?_setBody, if_neg heq, hy]
          obtain ⟨y', hy', htells'⟩ :=
            hseals.2 id hkept hj y hopened htells.shows.fits htells.frozen
          exact ⟨y', htells.shows.toList ▸ htells', .inl ⟨hj, hy'⟩⟩
      · exact ⟨y, htells, .inr (List.mem_cons_of_mem _ hy)⟩

/-! ## What is asked of a frozen array -/

def Arena.Available (a : Arena) (id : ArrayId) : Prop :=
  a.lockOf id = some .free ∨ a.lockOf id = some .mine

def Arena.locked (a : Arena) (id : ArrayId) : Arena :=
  if a.lockOf id = some .free then a.setLock id .mine else a

def Arena.entered (a : Arena) (id : ArrayId) (x : Body) : Workspace :=
  (a.locked id).opened id x

namespace Arena

theorem body?_locked (a : Arena) (id j : ArrayId) : (a.locked id).body? j = a.body? j := by
  unfold locked
  split
  · exact (Relocked.setLock a id .mine).body? j
  · rfl

theorem size_entered (a : Arena) (id : ArrayId) (x : Body) :
    (a.entered id x).arena.objects.size = a.objects.size := by
  rw [entered, opened, setBody, size_modifyObject, locked]
  split
  · exact size_modifyObject a id _
  · rfl

theorem lockOf_setLock (a : Arena) (id : ArrayId) (lock : Lock) (j : ArrayId) :
    (a.setLock id lock).lockOf j =
      if j = id then (a.lockOf j).map fun _ => lock else a.lockOf j := by
  rw [lockOf, object?_setLock]
  split
  · cases h : a.object? j <;> simp [lockOf, h]
  · rfl

theorem Available.setLock (h : a.Available id) (j : ArrayId) {lock : Lock}
    (hlock : lock = .free ∨ lock = .mine) : (a.setLock j lock).Available id := by
  unfold Available at h ⊢
  rw [lockOf_setLock]
  split
  · rcases h with h | h <;> simpa [h] using hlock
  · exact h

theorem Available.locked (h : a.Available id) (j : ArrayId) : (a.locked j).Available id := by
  unfold Arena.locked
  split
  · exact h.setLock j (.inr rfl)
  · exact h

theorem Available.exists_body? (h : a.Available id) : ∃ x, a.body? id = some x := by
  have hlock : ∃ lock, a.lockOf id = some lock := h.elim (⟨_, ·⟩) (⟨_, ·⟩)
  obtain ⟨lock, hlock⟩ := hlock
  obtain ⟨o, ho, -⟩ := Option.map_eq_some_iff.mp hlock
  exact ⟨o.body, by rw [body?, ho]; rfl⟩

end Arena

def Fault.Frozen (f : Fault) : Prop := ∃ shown, f = .raised (.frozen shown)

namespace Action

variable {α : Type} {post : α → Arena → Prop} {early : Fault → Arena → Prop}

theorem ends_bodyOf {x : Body} {post : Body → Arena → Prop} {early : Fault → Arena → Prop}
    (hx : a.body? id = some x) : Ends (bodyOf id) a post early ↔ post x a := by
  rw [bodyOf, ends_bind, ends_get, hx, ends_demand_some]

theorem ends_checkFrozen_of {x : Body} {post : Unit → Arena → Prop} (hx : x.frozen = true) :
    Ends (checkFrozen x) a post fun f _ => f.Frozen := by
  rw [checkFrozen, if_pos hx]
  exact ⟨_, rfl⟩

theorem ends_holding {act : Action α} (hlock : a.Available id)
    (hpost : ∀ x b, post x b → post x (b.unlock id))
    (hearly : ∀ f b, early f b → early f (b.unlock id)) (h : Ends act (a.locked id) post early) :
    Ends (holding id act) a post early := by
  unfold holding
  rw [ends_bind, ends_get]
  rcases hlock with hfree | hmine
  · rw [hfree, ends_bind, ends_modify]
    rw [Arena.locked, if_pos hfree] at h
    exact ends_closing.mpr (h.mono hpost hearly)
  · rw [hmine]
    rwa [Arena.locked, if_neg (by simp [hmine])] at h

theorem ends_edit {e : Edit α} {x : Body} (hlock : a.Available id) (hx : a.body? id = some x)
    (hpost : ∀ x b, post x b → post x (b.unlock id))
    (hearly : ∀ f b, early f b → early f (b.unlock id))
    (h : Ends e (a.entered id x) (fun y w => post y (w.arena.setBody id w.body))
      fun f w => early f (w.arena.setBody id w.body)) : Ends (edit id e) a post early :=
  ends_holding hlock hpost hearly ((ends_editBody ((a.body?_locked id id).trans hx)).mpr h)

end Action

theorem Edit.ends_steal_frozen {w : Workspace} {other : ArrayId} (h : w.body.frozen = true ∨
    ∃ x, w.arena.body? other = some x ∧ x.frozen = true) :
    Ends (steal other) w (fun _ _ => False) fun f _ => f.Frozen := by
  by_cases hfrozen : w.body.frozen = true
  · exact (ends_of_error (run_bind_of_error (checkFrozen_eq hfrozen))).mpr ⟨_, rfl⟩
  · obtain ⟨x, hx, hdonor⟩ := h.resolve_left hfrozen
    rw [steal, ends_bind, ends_checkFrozen, if_neg hfrozen, ends_bind, ends_get, ends_bind,
      ends_lift,
      hx, Action.ends_demand_some, ends_bind, ends_lift]
    exact Action.ends_checkFrozen_of hdonor

namespace Request

def Changes (id : ArrayId) (m : Mutation) (r : Request) : Prop :=
  r = mutate id m ∨ r = foreign id m

def Edits (id : ArrayId) : Request → Prop
  | mutate j m | foreign j m => j = id ∧ m.Guarded
  | concat j _ | replace j _ => j = id
  | steal j other => j = id ∨ other = id
  | derive _ => False

def Ready (a : Arena) : Request → Prop
  | mutate id _ => a.Available id
  | foreign id _ => a.lockOf id = some .elsewhere
  | steal id other => a.Available id ∧ a.Available other
  | _ => True

variable {r : Request} {x : Body}

theorem ends_change {m : Mutation} {post : Reply → Arena → Prop} {early : Fault → Arena → Prop}
    (hr : r.Changes id m) (hready : r.Ready a) (hx : a.body? id = some x)
    (hpost : ∀ reply b, post reply b → post reply (b.unlock id))
    (hearly : ∀ f b, early f b → early f (b.unlock id))
    (h : Ends m.edit (a.entered id x) (fun reply w => post reply (w.arena.setBody id w.body))
      fun f w => early f (w.arena.setBody id w.body)) : Ends r.run a post early := by
  rcases hr with rfl | rfl
  · exact Action.ends_edit hready hx hpost hearly h
  · have helsewhere : a.lockOf id = some .elsewhere := hready
    rw [Arena.entered, Arena.locked, if_neg (by simp [helsewhere])] at h
    rw [run, ends_bind, ends_get, ends_bind, Action.ends_ensure,
      if_pos (decide_eq_true helsewhere)]
    exact (Action.ends_editBody hx).mpr h

theorem ends_run_frozen (hr : r.Edits id) (hready : r.Ready a) (hx : a.body? id = some x)
    (hfrozen : x.frozen = true) : Ends r.run a (fun _ _ => False) fun f _ => f.Frozen := by
  have hguarded {m : Mutation} (hm : m.Guarded) {w : Workspace} (hw : w.body.frozen = true) :
      Ends m.edit w (fun _ _ => False) fun f _ => f.Frozen :=
    (ends_of_error (Mutation.edit_of_frozen hm hw)).mpr ⟨_, rfl⟩
  cases r with
  | mutate j m =>
      obtain ⟨rfl, hm⟩ := hr
      exact ends_change (.inl rfl) hready hx (fun _ _ h => h) (fun _ _ h => h)
        (hguarded hm hfrozen)
  | foreign j m =>
      obtain ⟨rfl, hm⟩ := hr
      exact ends_change (.inr rfl) hready hx (fun _ _ h => h) (fun _ _ h => h)
        (hguarded hm hfrozen)
  | concat j others =>
      obtain rfl := hr
      rw [run, ends_bind, Action.concat, ends_bind, Action.ends_bodyOf hx, ends_bind]
      exact Action.ends_checkFrozen_of hfrozen
  | replace j other =>
      obtain rfl := hr
      rw [run, ends_bind, Action.replace, ends_bind, Action.ends_bodyOf hx, ends_bind]
      exact Action.ends_checkFrozen_of hfrozen
  | steal j other =>
      obtain ⟨hj, hother⟩ := hready
      obtain ⟨y, hy⟩ := hj.exists_body?
      rw [run, ends_bind]
      refine Action.ends_holding hother (fun _ _ => False.elim) (fun _ _ h => h)
        (Action.ends_edit (hj.locked other) ((a.body?_locked other j).trans hy) (fun _ _ h => h)
          (fun _ _ h => h) (Edit.ends_steal_frozen ?_))
      by_cases heq : id = j
      · subst heq
        exact .inl (Option.some.inj (hx.symm.trans hy) ▸ hfrozen)
      · obtain rfl : other = id := hr.resolve_left fun h => heq h.symm
        refine .inr ⟨x, ?_, hfrozen⟩
        rw [Arena.entered, Arena.opened, Arena.body?_setBody, if_neg heq, Arena.body?_locked,
          Arena.body?_locked, hx]
  | derive d => exact hr.elim

end Request

/-- Everything that would change the elements of the array fails because it is frozen.  A deletion
does so if it finds a match, and otherwise goes on to what is to be done then. -/
structure Arena.Resists (a : Arena) (id : ArrayId) (x : Body) : Prop where
  refused : ∀ r : Request, r.Edits id → r.Ready a →
    ∃ shown b, r.run a = .error (.raised (.frozen shown)) b
  matched : ∀ (r : Request) (m : Mutation) v, r.Changes id m → r.Ready a →
    (m = .delete v ∨ ∃ missing, m = .deleteOr v missing) →
      (a.entered id x).arena.includes x v = true →
        ∃ shown b, r.run a = .error (.raised (.frozen shown)) b
  unmatched : ∀ (r : Request) v, r.Changes id (.delete v) → r.Ready a →
    (a.entered id x).arena.includes x v = false → ∃ b, r.run a = .ok (.value .nil) b
  missing : ∀ v missing, (a.entered id x).arena.includes x v = false →
    ∃ w, (a.entered id x).Unedited Arena.Booked w ∧
      (Mutation.deleteOr v missing).edit (a.entered id x) =
        (do return Reply.value (← missing v) : Edit Reply) w

theorem Ends.frozen_error {σ α : Type} {c : EStateM Fault σ α} {s : σ}
    (h : Ends c s (fun _ _ => False) fun f _ => f.Frozen) :
    ∃ shown s', c s = .error (.raised (.frozen shown)) s' := by
  obtain ⟨_, s', run, shown, rfl⟩ := h.exists_error fun _ _ => not_false
  exact ⟨shown, s', run⟩

theorem Arena.resists_of_frozen {x : Body} (hx : a.body? id = some x) (hfits : x.Fits False)
    (hfrozen : x.frozen = true) : a.Resists id x where
  refused r hr hready := (r.ends_run_frozen hr hready hx hfrozen).frozen_error
  matched r m v hr hready hm hmatch := by
    have hdelete (missing : Value → Edit Value) : Ends (Edit.deleteOr v missing) (a.entered id x)
        (fun _ _ => False) fun f _ => f.Frozen :=
      Edit.ends_deleteOr_frozen hfits hfrozen
        (fun hnone => absurd (hnone.symm.trans hmatch) Bool.false_ne_true)
        fun _ _ shown _ => ⟨shown, rfl⟩
    refine (Request.ends_change hr hready hx (fun _ _ h => h) (fun _ _ h => h) ?_).frozen_error
    obtain rfl | ⟨missing, rfl⟩ := hm
    · exact (hdelete _).bind fun _ _ h => h.elim
    · exact (hdelete _).bind fun _ _ h => h.elim
  unmatched r v hr hready hnone := by
    have hnil : Ends (Edit.deleteOr v fun _ => pure .nil) (a.entered id x)
        (fun v _ => v = .nil) fun _ _ => False :=
      Edit.ends_deleteOr_frozen hfits hfrozen (fun _ _ _ => rfl)
        fun hmatch => absurd (hnone.symm.trans hmatch) Bool.false_ne_true
    have hdelete : Ends (Mutation.delete v).edit (a.entered id x)
        (fun reply _ => reply = .value .nil) fun _ _ => False :=
      hnil.bind fun _ _ h => congrArg Reply.value h
    have hrun : Ends r.run a (fun reply _ => reply = .value .nil) fun _ _ => False :=
      Request.ends_change hr hready hx (fun _ _ h => h) (fun _ _ h => h) hdelete
    obtain ⟨_, b, run, rfl⟩ := hrun.exists_ok fun _ _ => not_false
    exact ⟨b, run⟩
  missing v missing hnone := by
    have hentered : (a.entered id x).body.Fits False := hfits
    obtain ⟨_, w, run, -, rfl, hw⟩ :=
      (Edit.ends_delete?_frozen hentered hfrozen v).exists_ok fun _ _ hmatch =>
        Bool.false_ne_true (hnone.symm.trans hmatch.1)
    refine ⟨w, hw, ?_⟩
    change (Edit.deleteOr v (fun v => missing v) >>= fun v => pure (Reply.value v)) _ = _
    rw [Edit.deleteOr]
    simp only [bind, EStateM.bind, run]

/-! ## Freezing -/

theorem Request.ends_freeze {r : Request} {x : Body} (hr : r.Changes id .freeze)
    (hready : r.Ready a) (hx : a.body? id = some x) :
    Ends r.run a (fun reply b => reply = .nothing ∧ b.body? id = some { x with frozen := true })
      fun _ _ => False := by
  refine ends_change hr hready hx (fun reply b hb => ?_) (fun _ _ h => h) ⟨rfl, ?_⟩
  · exact hb.imp_right (((Arena.Relocked.unlock b id).body? id).trans ·)
  · rw [Arena.body?_setBody, if_pos rfl, Arena.entered, Arena.opened, Arena.body?_setBody,
      if_pos rfl,
      Arena.body?_locked, hx]
    rfl

/-- Frozen means frozen.  An array can be frozen whenever its lock can be had.  From then on,
whatever is done to it and to others short of giving it up and of writing slots by native address,
it stays frozen and holds the values that it held.  This is so in the midst of edits, its own among
them; and whenever it is in the arena, what would change its elements fails, except a deletion that
finds no match. -/
theorem freeze_lasts {r : Request} {x : Body} (hr : r.Changes id .freeze) (hready : r.Ready a)
    (hx : a.body? id = some x) (hfits : x.Fits False) :
    ∃ b, r.run a = .ok .nothing b ∧ ∀ before edited c, id ∉ before.map Prod.fst →
      Leads (.tracking False (· = id)) before b edited c →
        ∃ y : Body, y.frozen = true ∧ y.toList = x.toList ∧
        (id ∉ edited.map Prod.fst ∧ c.body? id = some y ∧ c.Resists id y ∨ (id, y) ∈ edited) := by
  obtain ⟨_, b, run, rfl, hb⟩ := (Request.ends_freeze hr hready hx).exists_ok fun _ _ => not_false
  refine ⟨b, run, fun before edited c hid h => ?_⟩
  obtain ⟨y, htells, hy⟩ :=
    h.sealed not_false (rfl : id = id) hid hb (hfits.with_frozen true) rfl
  refine ⟨y, htells.frozen, htells.shows.toList, hy.imp_left fun hy => ⟨hy.1, hy.2, ?_⟩⟩
  exact Arena.resists_of_frozen hy.2 htells.shows.fits htells.frozen

/-- Three numbers are frozen.  Two of them are sliced off, one is written there, and the frozen
array goes to native storage. -/
theorem freeze_lasts_slice :
    let numbers : Buffer := .int #[1, 2, 3]
    let a : Arena := { objects := #[some { body := { store := .owned numbers, size := 3 } }] }
    ∃ b c y, (Mutation.freeze).perform 0 a = .ok .nothing b ∧
      Leads (.tracking False (· = 0)) [] b [] c ∧
      c.body? 0 = some y ∧ y.kind = .native ∧ y.frozen = true ∧
      y.toList = [.int 1, .int 2, .int 3] ∧
      ∃ shown d, (Mutation.push .nil).perform 0 c = .error (.raised (.frozen shown)) d := by
  intro numbers a
  let sealed : Body := { store := .owned numbers, size := 3, frozen := true }
  let whole : Body := { store := .view ⟨⟨0, numbers⟩, 0, 3⟩, size := 3, frozen := true }
  let part : Body := { store := .view ⟨⟨0, numbers⟩, 0, 2⟩, size := 2 }
  let apart : Body := { store := .owned (.int #[9, 2]), size := 2 }
  let moved : Body := { store := .native 0 #[.int 1, .int 2, .int 3], size := 3, frozen := true }
  let b : Arena := { objects := #[some { body := sealed }] }
  let sliced : Arena :=
    { objects := #[some { body := whole }, some { body := part }], nextBacking := 1 }
  let written : Arena :=
    { sliced with objects := #[some { body := whole }, some { body := apart }] }
  let c : Arena :=
    { written with
      objects := #[some { body := moved }, some { body := apart }]
      registry := [(0, ⟨3, true⟩)]
      options? := some {}
      nextAddress := 1 }
  have hfits : ({ store := .owned numbers, size := 3 } : Body).Fits False :=
    ⟨by decide, trivial, nofun⟩
  obtain ⟨b', hb', hlasts⟩ :=
    freeze_lasts (r := .mutate 0 .freeze) (a := a) (.inl rfl) (.inl rfl) rfl hfits
  have hb : (Request.mutate 0 .freeze).run a = .ok .nothing b := rfl
  obtain rfl : b = b' := by
    rw [hb] at hb'
    injection hb'
  have hslice : Course (.tracking False (· = 0)) [] b sliced :=
    .changed (.slice 0 2) 0 ⟨nofun, rfl, nofun⟩ (fun _ _ => rfl) rfl trivial
      (.object part { objects := #[some { body := whole }], nextBacking := 1 })
  have hwrite : Course (.tracking False (· = 0)) [] sliced written :=
    .changed (.set 0 (.int 9)) 1 ⟨nofun, rfl, nofun⟩ (fun _ _ => rfl) rfl trivial
      (.read rfl _ : Reply.Placed .nothing _ _)
  have hrun : Mutation.toNative.perform 0 written = .ok .nothing c := by
    dsimp only [written, sliced, c, whole, part, apart, moved, numbers]
    with_unfolding_all rfl
  have hmove : Course (.tracking False (· = 0)) [] written c :=
    .changed .toNative 0 ⟨nofun, rfl, nofun⟩ (fun _ _ => rfl) hrun trivial
      (.read rfl _ : Reply.Placed .nothing _ _)
  have hleads : Leads (.tracking False (· = 0)) [] b [] c :=
    .later .start (.trans hslice (.trans hwrite hmove))
  obtain ⟨y, hfrozen, hlist, hy⟩ := hlasts [] [] c nofun hleads
  obtain ⟨-, hy, hresists⟩ := hy.resolve_right nofun
  obtain rfl : moved = y := Option.some.inj hy
  exact ⟨b, c, moved, hb, hleads, hy, rfl, hfrozen, hlist.trans (by decide +kernel),
    hresists.refused (.mutate 0 (.push .nil)) ⟨rfl, trivial⟩ (.inl rfl)⟩

end AdaptiveArray
