import AdaptiveArray.Edit.Removal
import AdaptiveArray.Proofs.StepFrame
import AdaptiveArray.Proofs.Readiness

/-!
# Removing elements

A removal reads the elements from left to right and moves what it keeps to the front, so
at any moment the array begins with what was kept and ends with what was not read.  What
is kept depends on the test alone; the rules below take a statement about the arena that
the test maintains, and know nothing else of it.  Of its own a removal fails only on a
frozen array.
-/

namespace AdaptiveArray

namespace Edit

variable {strict : Prop} {owner : ArrayId} {b : Body} {test : Value → Edit Bool}

structure Passing (strict : Prop) (b : Body) (p : Pass) (kept : List Value) (b' : Body) :
    Prop where
  fits : b'.Fits strict
  size : b'.size = b.size
  frozen : b'.frozen = b.frozen
  write : p.write = kept.length
  write_le : p.write ≤ p.read
  read_le : p.read ≤ b.size
  front : ∀ i, i < p.write → b'.store.get? i = kept[i]?
  rest : ∀ i, p.read ≤ i → i < b.size → b'.store.get? i = b.store.get? i
  untouched : p.found = none → b' = b ∧ p.write = p.read
  isMutable : p.found ≠ none → b'.store.isMutable

theorem Passing.start (hfits : b.Fits strict) : Passing strict b {} [] b where
  fits := hfits
  size := rfl
  frozen := rfl
  write := rfl
  write_le := Nat.le_refl 0
  read_le := Nat.zero_le _
  front _ hi := absurd hi (Nat.not_lt_zero _)
  rest _ _ _ := rfl
  untouched _ := ⟨rfl, rfl⟩
  isMutable h := absurd rfl h

theorem Passing.drop {p : Pass} {kept : List Value} {b' : Body} {v : Value}
    (h : Passing strict b p kept b') (hread : p.read < b.size) (hmut : b'.store.isMutable) :
    Passing strict b { p with read := p.read + 1, found := some v } kept b' where
  fits := h.fits
  size := h.size
  frozen := h.frozen
  write := h.write
  write_le := Nat.le_succ_of_le h.write_le
  read_le := hread
  front := h.front
  rest i hi hlt := h.rest i (Nat.le_of_succ_le hi) hlt
  untouched h := nomatch h
  isMutable _ := hmut

theorem Passing.stay {p : Pass} {kept : List Value} {b' : Body} {v : Value}
    (h : Passing strict b p kept b') (hread : p.read < b.size)
    (hv : b'.store.get? p.read = some v) (heq : p.write = p.read) :
    Passing strict b { p with read := p.read + 1, write := p.write + 1 } (kept ++ [v]) b' where
  fits := h.fits
  size := h.size
  frozen := h.frozen
  write := by simp [h.write]
  write_le := Nat.succ_le_succ h.write_le
  read_le := hread
  front i hi := by
    have hlen := h.write
    rw [List.getElem?_append]
    by_cases hlt : i < p.write
    · rw [if_pos (by omega), h.front i hlt]
    · have hi' : i = p.read := by
        have : i < p.write + 1 := hi
        omega
      rw [if_neg (by omega), hi', hv, show p.read - kept.length = 0 by omega]
      rfl
  rest i hi hlt := h.rest i (Nat.le_of_succ_le hi) hlt
  untouched hnone := ⟨(h.untouched hnone).1, congrArg (· + 1) heq⟩
  isMutable := h.isMutable

theorem Passing.move {p : Pass} {kept : List Value} {b' : Body} {v : Value} {s : Store}
    (h : Passing strict b p kept b') (hread : p.read < b.size)
    (hv : b'.store.get? p.read = some v) (hmut : b'.store.isMutable) (hfound : p.found ≠ none)
    (hkind : s.kind = b'.kind) (hcapacity : s.capacity = b'.capacity)
    (hslot : ∀ i, s.get? i = if p.write ≤ i ∧ i < p.write + 1 then
      b'.store.get? (p.read + (i - p.write)) else b'.store.get? i) :
    Passing strict b { p with read := p.read + 1, write := p.write + 1 } (kept ++ [v])
      { b' with store := s } := by
  have hlen := h.write
  have hle := h.write_le
  have hsmut : s.isMutable := Store.isMutable_of_kind hkind hmut
  have hsize := h.size
  refine ⟨.intro_written hmut hkind hcapacity h.fits.size_le fun hstrict i hi hlt => ?_, h.size,
    h.frozen, by simp [h.write], Nat.succ_le_succ h.write_le, hread, fun i hi => ?_,
    fun i hi hlt => ?_, fun hnone => absurd hnone hfound, fun _ => hsmut⟩
  · rw [hslot, if_neg (by omega)]
    exact h.fits.tidy hstrict hmut i hi hlt
  · have hi' : i < p.write + 1 := hi
    change s.get? i = _
    rw [hslot, List.getElem?_append]
    by_cases hlt : i < p.write
    · rw [if_neg (by omega), if_pos (by omega), h.front i hlt]
    · have hi'' : i = p.write := by omega
      subst hi''
      rw [if_pos (by omega), Nat.sub_self, Nat.add_zero, hv, if_neg (by omega), hlen, Nat.sub_self]
      rfl
  · have hi' : p.read + 1 ≤ i := hi
    change s.get? i = _
    rw [hslot, if_neg (by omega)]
    exact h.rest i (by omega) hlt

theorem Passing.ready {p : Pass} {kept : List Value} {b' b'' : Body} {limit : Nat}
    (h : Passing strict b p kept b') (hmut : b'.kind ≠ .empty)
    (hready : b'.Ready strict b'.kind.forMutation b'.size limit b'') :
    Passing strict b { p with found := some .nil } kept b'' where
  fits := hready.fits
  size := hready.size.trans h.size
  frozen := hready.frozen.trans h.frozen
  write := h.write
  write_le := h.write_le
  read_le := h.read_le
  front i hi := by
    have hle := h.write_le
    have hread := h.read_le
    have hi' : i < p.write := hi
    rw [hready.slot i (by rw [h.size]; omega), h.front i hi]
  rest i hi hlt := by rw [hready.slot i (by rw [h.size]; exact hlt), h.rest i hi hlt]
  untouched h := nomatch h
  isMutable _ := hready.isMutable (Kind.isMutable_forMutation hmut)

/-- What a finished removal leaves of `b`: the values kept of the first `read` elements, and the
elements after these. -/
def Removed (strict : Prop) (b : Body) (kept : List Value) (read : Nat) (b' : Body) : Prop :=
  b.Becomes strict (kept ++ b.toList.drop read) b'.store.extent b'

theorem Passing.removed_in_place {p : Pass} {kept : List Value} {b' : Body} (hfits : b.Fits strict)
    (h : Passing strict b p kept b') (heq : p.write = p.read) :
    Removed strict b kept p.read b' := by
  have hlen := h.write
  have hread := h.read_le
  refine ⟨h.fits, Body.toList_eq h.fits ?_ fun i hi => ?_, h.frozen, Nat.le_refl _, ?_⟩
  · rw [List.length_append, List.length_drop, Body.length_toList hfits, h.size]
    omega
  · rw [h.size] at hi
    rw [List.getElem?_append]
    by_cases hlt : i < p.write
    · rw [if_pos (by omega), h.front i hlt]
    · rw [if_neg (by omega), List.getElem?_drop, h.rest i (by omega) hi,
        Body.getElem?_toList_of_lt hfits (by omega)]
      congr 1
      omega
  · by_cases hfound : p.found = none
    · exact .inr (by rw [(h.untouched hfound).1])
    · exact .inl (h.isMutable hfound)

/-- The rest is moved behind what was kept, and what is left over behind it is cleared. -/
theorem Passing.removed {p : Pass} {kept : List Value} {b' : Body} {s : Store}
    (hfits : b.Fits strict) (h : Passing strict b p kept b') (hmut : b'.store.isMutable)
    (hkind : s.kind = b'.kind) (hcapacity : s.capacity = b'.capacity)
    (hslot : ∀ i, s.get? i =
      if p.write + (b.size - p.read) ≤ i ∧ i < b.size then some b'.store.zero
      else if p.write ≤ i ∧ i < p.write + (b.size - p.read) then
        b'.store.get? (p.read + (i - p.write))
      else b'.store.get? i) :
    Removed strict b kept p.read { b' with store := s, size := p.write + (b.size - p.read) } := by
  have hlen := h.write
  have hread := h.read_le
  have hwrite := h.write_le
  have hsize := h.size
  have hsmut : s.isMutable := Store.isMutable_of_kind hkind hmut
  have hcap : b.size ≤ b'.capacity := hsize ▸ h.fits.size_le
  have hfits' :
      ({ b' with store := s, size := p.write + (b.size - p.read) } : Body).Fits strict := by
    have hroom : p.write + (b.size - p.read) ≤ b'.capacity := by omega
    refine .intro_written hmut hkind hcapacity hroom fun hstrict i hi hlt => ?_
    rw [hslot]
    by_cases hold : i < b.size
    · rw [if_pos ⟨hi, hold⟩]
    · rw [if_neg (by omega), if_neg (by omega)]
      exact h.fits.tidy hstrict hmut i (by omega) hlt
  refine ⟨hfits', Body.toList_eq hfits' ?_ fun i hi => ?_, h.frozen, Nat.le_refl _, .inl hsmut⟩
  · rw [List.length_append, List.length_drop, Body.length_toList hfits]
    change _ = p.write + (b.size - p.read)
    omega
  · have hi' : i < p.write + (b.size - p.read) := hi
    change s.get? i = _
    rw [hslot, if_neg (by omega), List.getElem?_append]
    by_cases hlt : i < p.write
    · rw [if_neg (by omega), if_pos (by omega), h.front i hlt]
    · rw [if_pos (by omega), if_neg (by omega), List.getElem?_drop, h.rest _ (by omega) (by omega),
        Body.getElem?_toList_of_lt hfits (by omega)]
      congr 1
      omega

/-! ## The pass -/

/-- What is known of a removal under way: the error that stopped it, the last element it removed,
what it has kept, how many elements it has read, and the arena. -/
abbrev Account := Option ArrayError → Option Value → List Value → Nat → Arena → Prop

/-- An account that bookkeeping leaves true and that a run of the test on the next element carries
on.  Of a test that breaks `broke` is known. -/
structure Carries (owner : ArrayId) (b : Body) (test : Value → Edit Bool) (J : Account)
    (broke : Fault → Arena → Prop) : Prop where
  booked : ∀ {found kept read a a'}, J none found kept read a → a.Booked a' →
    J none found kept read a'
  test : ∀ {w : Workspace} {v found kept read}, w.owner = owner → b.toList[read]? = some v →
    J none found kept read w.arena → Ends (test v) w
      (fun drop w' => w'.owner = owner ∧ w'.body = w.body ∧
        J none (if drop then some v else found) (if drop then kept else kept ++ [v]) (read + 1)
          w'.arena)
      (fun f w' => f.Fatal ∧ broke f w'.arena ∨ ∃ e, f = .raised e ∧ w'.owner = owner ∧
        w'.body = w.body ∧ J (some e) found kept read w'.arena)

variable {J : Account} {broke : Fault → Arena → Prop}

theorem Passing.ends_ensureMutable {p : Pass} {kept : List Value} {w : Workspace}
    {early : Fault → Workspace → Prop} (h : Passing strict b p kept w.body)
    (hread : p.read < b.size) :
    Ends ensureMutable w
      (fun _ w' => Passing strict b { p with found := some .nil } kept w'.body) early := by
  have hkind : w.body.kind ≠ .empty := Body.kind_ne_empty h.fits (by rw [h.size]; omega)
  apply (Edit.ends_ensureMutable h.fits hkind).weaken
  exact fun _ w' hready => h.ready hkind hready

theorem Passing.ends_moveSlots {p : Pass} {kept : List Value} {w : Workspace} {v : Value}
    {early : Fault → Workspace → Prop} (h : Passing strict b p kept w.body)
    (hread : p.read < b.size) (hv : w.body.store.get? p.read = some v)
    (hgap : p.write ≠ p.read) :
    Ends (moveSlots p.read p.write 1) w (fun _ w' => ∃ s, w' = w.withStore s ∧
      Passing strict b { p with read := p.read + 1, write := p.write + 1 } (kept ++ [v])
        w'.body) early := by
  have hne : p.found ≠ none := fun hnone => hgap (h.untouched hnone).2
  have hmut := h.isMutable hne
  have hcap : b.size ≤ w.body.store.capacity := h.size ▸ h.fits.size_le
  have hle := h.write_le
  rw [Edit.ends_moveSlots (Store.canMove_of_le hmut (by omega) (by omega))]
  refine ⟨_, rfl, h.move hread hv hmut hne (Store.kind_move hmut _ _ _)
    (Store.capacity_move hmut _ _ _) fun i => ?_⟩
  exact Store.get?_move hmut (by omega) (by omega) i

def Barred (owner : ArrayId) (b : Body) (J : Account) (broke : Fault → Arena → Prop) (f : Fault)
    (w' : Workspace) : Prop :=
  f.Fatal ∧ broke f w'.arena ∨ (∃ e, f = .raised e) ∧ b.frozen ∧ w'.owner = owner ∧ w'.body = b ∧
    ∃ found kept read, J none found kept read w'.arena

theorem ends_removePass (hfits : b.Fits strict) (hJ : Carries owner b test J broke) (left : Nat) :
    ∀ {w : Workspace} {p : Pass} {kept : List Value}, w.owner = owner → p.read + left = b.size →
      p.error = none → Passing strict b p kept w.body → J none p.found kept p.read w.arena →
      Ends (removePass test left p) w (fun p' w' => ∃ kept', w'.owner = owner ∧
        Passing strict b p' kept' w'.body ∧ J p'.error p'.found kept' p'.read w'.arena ∧
        (p'.error = none → p'.read = b.size)) (Barred owner b J broke) := by
  -- On the elements left to read.  Passing tells the slots and the account what the test has done,
  -- and neither has to know what the other one tells.
  induction left with
  | zero =>
      intro w p kept howner hleft herror hp hj
      refine ⟨kept, howner, hp, ?_, fun _ => hleft⟩
      rwa [herror]
  | succ left ih =>
      intro w p kept howner hleft herror hp hj
      have hread : p.read < b.size := by omega
      have hnext : p.read + 1 + left = b.size := by omega
      obtain ⟨v, hv, hmem⟩ := Body.exists_get? hfits hread
      have hslot := (hp.rest p.read (Nat.le_refl _) hread).trans hv
      unfold removePass
      rw [ends_bind, ends_lift]
      refine (Action.ends_pollAt p.read).weaken fun _ a₁ hbooked => ?_
      rw [ends_bind, ends_getSlot (w := w.withArena a₁) hslot, ends_bind, ends_attempt]
      refine (hJ.test (w := w.withArena a₁) howner hmem (hJ.booked hj hbooked)).mono ?_ ?_
      · rintro drop w₁ ⟨howner₁, hbody, hj₁⟩
        rw [Workspace.body_withArena] at hbody
        have hp₁ : Passing strict b p kept w₁.body := hbody ▸ hp
        cases drop with
        | true =>
            dsimp only
            split
            case isTrue hfirst =>
                -- Only the first match looks at the mark and makes the array writable.
                have hnone : p.found = none := by simpa using hfirst
                obtain ⟨hsame, -⟩ := hp₁.untouched hnone
                rw [ends_bind, ends_checkFrozen]
                split
                case isTrue hfrozen =>
                    exact .inr ⟨⟨_, rfl⟩, hsame ▸ hfrozen, howner₁, hsame, _, _, _, hj₁⟩
                case isFalse =>
                    have hready : Ends ensureMutable w₁ (fun _ w' =>
                        Passing strict b { p with found := some .nil } kept w'.body)
                        fun _ _ => False := hp₁.ends_ensureMutable hread
                    refine Ends.bind ((hready.and
                      (within_ensureMutable (S := Workspace.Follows Arena.Booked) w₁)).mono_early
                      fun f w' h => h.1.elim) ?_
                    rintro _ w₂ ⟨hp₂, howner₂, hbooked₂⟩
                    exact ih (howner₂.trans howner₁) hnext herror
                      (hp₂.drop (v := v) hread (hp₂.isMutable nofun)) (hJ.booked hj₁ hbooked₂)
            case isFalse hfound =>
                have hne : p.found ≠ none := by
                  intro h
                  simp [h] at hfound
                exact ih howner₁ hnext herror
                  (hp₁.drop (v := v) hread (hp₁.isMutable hne)) hj₁
        | false =>
            have hslot₁ : w₁.body.store.get? p.read = some v := hbody ▸ hslot
            dsimp only
            split
            case isTrue hgap =>
                refine Ends.bind (hp₁.ends_moveSlots hread hslot₁ hgap) ?_
                rintro _ _ ⟨s, rfl, hp₂⟩
                exact ih (w := w₁.withStore s) howner₁ hnext herror hp₂ hj₁
            case isFalse hgap =>
                exact ih howner₁ hnext herror
                  (hp₁.stay hread hslot₁ (Decidable.not_not.mp hgap)) hj₁
      · rintro f w₁ hf
        cases f with
        | raised e =>
            obtain h | ⟨_, ⟨⟩, howner₁, hbody, hj₁⟩ := hf
            · exact absurd rfl (h.1 e)
            · rw [Workspace.body_withArena] at hbody
              exact ⟨kept, howner₁, { hbody ▸ hp with }, hj₁, nofun⟩
        | broken => exact .inl (hf.resolve_right nofun)
        | outOfMemory => exact .inl (hf.resolve_right nofun)

def Stopped (strict : Prop) (owner : ArrayId) (b : Body) (J : Account)
    (broke : Fault → Arena → Prop) (f : Fault) (w' : Workspace) : Prop :=
  (∃ e found kept read, f = .raised e ∧ w'.owner = owner ∧ Removed strict b kept read w'.body ∧
    J (some e) found kept read w'.arena) ∨ Barred owner b J broke f w'

theorem ends_closeGap {α : Type} {rest : Edit α} {post : α → Workspace → Prop}
    {early : Fault → Workspace → Prop} {p : Pass} {kept : List Value} {w w₁ : Workspace}
    (hfits : w.body.Fits strict) (hp : Passing strict w.body p kept w₁.body)
    (hgap : p.found ≠ none)
    (hrest : ∀ b', Removed strict w.body kept p.read b' →
      Ends rest { w₁ with body := b' } post early) :
    Ends (do
      moveSlots p.read p.write (w.body.size - p.read)
      clearSlots (p.write + (w.body.size - p.read)) w.body.size
      setSize (p.write + (w.body.size - p.read))
      rest) w₁ post early := by
  have hmut := hp.isMutable hgap
  have hcap : w.body.size ≤ w₁.body.store.capacity := hp.size ▸ hp.fits.size_le
  have hle := hp.write_le
  have hread_le := hp.read_le
  have hsrc : p.read + (w.body.size - p.read) ≤ w₁.body.store.capacity := by omega
  have hdst : p.write + (w.body.size - p.read) ≤ w₁.body.store.capacity := by omega
  have hmoved := Store.get?_move hmut hsrc hdst
  have hkind := Store.kind_move hmut p.read p.write (w.body.size - p.read)
  have hcapacity := Store.capacity_move hmut p.read p.write (w.body.size - p.read)
  rw [ends_bind, ends_moveSlots (Store.canMove_of_le hmut hsrc hdst), ends_bind]
  refine ends_clearSlots (w := w₁.withStore _) (fun _ => ?_) ?_
    fun s hskind hscapacity hsslot _ => ?_
  · exact Store.isMutable_of_kind hkind hmut
  · rw [Workspace.body_withStore, Body.capacity_mk, hcapacity]
    exact hcap
  · rw [Workspace.body_withStore, Body.kind_mk] at hskind
    rw [Workspace.body_withStore, Body.capacity_mk] at hscapacity
    rw [ends_bind, ends_setSize (by
      change _ ≤ s.capacity
      rw [hscapacity, hcapacity]
      exact hdst)]
    have hremoved := hp.removed (s := s) hfits hmut (hskind.trans hkind)
      (hscapacity.trans hcapacity) fun i => ?_
    · exact hrest _ hremoved
    rw [hsslot, show (w₁.withStore (w₁.body.store.move p.read p.write
      (w.body.size - p.read))).body.store = w₁.body.store.move p.read p.write
      (w.body.size - p.read) from rfl, hmoved, Store.zero_of_kind hkind]

theorem ends_removeWhere {w : Workspace} (hfits : w.body.Fits strict)
    (hJ : Carries w.owner w.body test J broke) (hstart : J none none [] 0 w.arena) :
    Ends (removeWhere test) w (fun found w' => ∃ kept, w'.owner = w.owner ∧
      Removed strict w.body kept w.body.size w'.body ∧ J none found kept w.body.size w'.arena)
      (Stopped strict w.owner w.body J broke) := by
  have hanswer : ∀ {p : Pass} {kept : List Value} {w' : Workspace}, w'.owner = w.owner →
      (p.error = none → p.read = w.body.size) → Removed strict w.body kept p.read w'.body →
      J p.error p.found kept p.read w'.arena →
      Ends (conclude p.error p.found) w'
        (fun found w' => ∃ kept, w'.owner = w.owner ∧
          Removed strict w.body kept w.body.size w'.body ∧ J none found kept w.body.size w'.arena)
        (Stopped strict w.owner w.body J broke) := by
    intro p kept w' howner hread hremoved hj
    cases herror : p.error with
    | some e =>
        rw [herror] at hj
        exact .inl ⟨e, p.found, kept, p.read, rfl, howner, hremoved, hj⟩
    | none =>
        rw [herror, hread herror] at hj
        rw [hread herror] at hremoved
        exact ⟨kept, howner, hremoved, hj⟩
  unfold removeWhere
  rw [ends_bind, ends_size, ends_bind, ends_lift, Action.ends_options]
  have hj : J none none [] 0 w.arena.withSettings := hJ.booked hstart (.withSettings _)
  refine Ends.bind ((ends_removePass hfits hJ w.body.size (w := w.withArena w.arena.withSettings)
    rfl (Nat.zero_add _) rfl (.start hfits) hj).mono_early fun _ _ h => .inr h) ?_
  rintro p w₁ ⟨kept, howner, hp, hj₁, hread⟩
  dsimp only
  split
  case isTrue hgap =>
      refine ends_closeGap hfits hp (fun h => hgap (hp.untouched h).2) fun b' hremoved => ?_
      exact hanswer howner hread hremoved hj₁
  case isFalse hgap =>
      exact hanswer howner hread (hp.removed_in_place hfits (Decidable.not_not.mp hgap)) hj₁

private theorem Passing.at_position {position limit : Nat} {v : Value} {b' : Body}
    (hfits : b.Fits strict) (hlt : position < b.size) (hkind : b.kind ≠ .empty)
    (hready : b.Ready strict b.kind.forMutation b.size limit b') :
    Passing strict b { read := position + 1, write := position, found := some v }
      (b.toList.take position) b' where
  fits := hready.fits
  size := hready.size
  frozen := hready.frozen
  write := by
    rw [List.length_take, Body.length_toList hfits]
    exact (Nat.min_eq_left (Nat.le_of_lt hlt)).symm
  write_le := Nat.le_succ position
  read_le := hlt
  front i hi := by
    have hi' : i < position := hi
    rw [List.getElem?_take, if_pos hi', Body.getElem?_toList_of_lt hfits (by omega),
      hready.slot i (by omega)]
  rest i _ hi := hready.slot i hi
  untouched h := nomatch h
  isMutable _ := hready.isMutable (Kind.isMutable_forMutation hkind)

theorem ends_deleteAt {w : Workspace} (hfits : w.body.Fits strict) (index : Int64) :
    Ends (deleteAt index) w (fun v w' =>
        ((∀ position, w.body.position? index = some position → w.body.size ≤ position) ∧
          v = .nil ∧ w'.body = w.body) ∨
        ∃ position, w.body.position? index = some position ∧ w.body.toList[position]? = some v ∧
          Removed strict w.body (w.body.toList.take position) (position + 1) w'.body)
      (fun f w' => (∃ e, f = .raised e) ∧ w.body.frozen ∧ w'.body = w.body) := by
  unfold deleteAt
  rw [ends_bind, ends_checkFrozen]
  split
  case isTrue hfrozen => exact ⟨⟨_, rfl⟩, hfrozen, rfl⟩
  case isFalse =>
      rw [ends_bind, ends_size, ends_bind, ends_get]
      split
      case h_1 hnone => exact .inl ⟨fun _ hsome => by simp [hnone] at hsome, rfl, rfl⟩
      case h_2 position hposition =>
          split
          case isTrue hout =>
              refine .inl ⟨fun position' hposition' => ?_, rfl, rfl⟩
              rw [hposition] at hposition'
              exact Option.some.inj hposition' ▸ hout
          case isFalse hin =>
              have hlt : position < w.body.size := by omega
              have hkind : w.body.kind ≠ .empty := Body.kind_ne_empty hfits (by omega)
              obtain ⟨v, hv, hmem⟩ := Body.exists_get? hfits hlt
              rw [ends_bind, ends_getSlot hv]
              refine Ends.bind (ends_ensureMutable hfits hkind) fun _ w₁ hready => ?_
              have hp := Passing.at_position (v := v) hfits hlt hkind hready
              rw [Nat.sub_sub, show w.body.size - 1 = position + (w.body.size - (position + 1)) by
                omega]
              exact ends_closeGap (w := w)
                (p := { read := position + 1, write := position, found := some v }) hfits hp
                (by simp) fun b' hremoved => .inr ⟨position, hposition, hmem, hremoved⟩

end Edit

end AdaptiveArray
