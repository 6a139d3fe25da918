import AdaptiveArray.Proofs.Limit

/-!
# Failing and sharing

An edit of a shared array shares the values it stores, and nothing takes a mark back.
Most edits come to that when they have looked at everything that can be wrong, so one
that raises an error has marked nothing.  Pushing and setting share their value before
they look at the limit: a value refused because the array would be too large stays
shared, though no array has come to hold it.
-/

namespace AdaptiveArray

def Mutation.offered? : Mutation → ArrayError → Option Value
  | push v, .sizeTooBig => some v
  | set _ v, .indexTooBig _ => some v
  | _, _ => none

/-! ## What an edit that fails has offered -/

namespace Edit

/-- An error leaves the array as it was, and the arena too but for a value that has been offered.  A
value is offered only where the size asked for is too large. -/
structure Spoiled (m : Mutation) (w : Workspace) (err : ArrayError) (w' : Workspace) : Prop where
  unedited : Workspace.Unedited Arena.Booked ((m.offered? err).elim w w.offer) w'
  oversize : m.offered? err ≠ none → ∃ n, m.demand? w.body = some (n, err) ∧ maxSize < n

theorem spoiled_of_none {m : Mutation} {w w' : Workspace} {err : ArrayError}
    (h : m.offered? err = none) (hw : Workspace.Unedited Arena.Booked w w') :
    Spoiled m w err w' where
  unedited := by rwa [h]
  oversize hsome := absurd h hsome

def Spoiling (m : Mutation) (e : Edit Unit) (w : Workspace) : Prop :=
  Ends e w (fun _ _ => True) fun f w' => f.Fatal ∨ ∃ err, f = .raised err ∧ Spoiled m w err w'

theorem spoiling_checkFrozen {m : Mutation} {w : Workspace} {k : Unit → Edit Unit}
    (hnone : ∀ text, m.offered? (.frozen text) = none) (h : Spoiling m (k ()) w) :
    Spoiling m (checkFrozen >>= k) w := by
  unfold Spoiling
  rw [ends_bind, ends_checkFrozen]
  split
  · exact .inr ⟨_, rfl, spoiled_of_none (hnone _) (Evolution.refl w)⟩
  · exact h

theorem spoiling_push (v : Value) (w : Workspace) : Spoiling (.push v) (push v) w := by
  have hwrite : Unfailing (do
      setSlot w.body.size v
      setSize (w.body.size + 1) : Edit Unit) :=
    .bind (unfailing_setSlot _ v) fun _ => unfailing_setSize _
  refine spoiling_checkFrozen (fun _ => rfl) ?_
  unfold Spoiling
  rw [ends_bind, ends_propagate, ends_bind, ends_size, ends_bind, ends_kind, ends_bind,
    ends_capacity]
  simp only [Workspace.body_offer]
  split
  case isTrue =>
      rw [ends_bind, ends_lift]
      refine (Action.ends_capacityForOneMore _).weaken fun room a ha => ?_
      split
      case isTrue hbig =>
          -- The only look at the limit, and the value has been offered by now.
          exact .inr ⟨.sizeTooBig, rfl, ⟨rfl, rfl, ha.1⟩, fun _ => ⟨_, rfl, hbig⟩⟩
      case isFalse => exact (Unfailing.bind (unfailing_reallocate _ _) fun _ => hwrite).excused _
  case isFalse => exact (Unfailing.bind (unfailing_ensureStorage _ _ _) fun _ => hwrite).excused _

theorem spoiling_set (index : Int64) (v : Value) (w : Workspace) :
    Spoiling (.set index v) (set index v) w := by
  refine spoiling_checkFrozen (fun _ => rfl) ?_
  unfold Spoiling
  rw [ends_bind, ends_size, ends_bind, ends_get]
  dsimp only
  cases hposition : w.body.position? index with
  | none => exact .inr ⟨.indexTooSmall _ _, rfl, spoiled_of_none rfl (Evolution.refl w)⟩
  | some position =>
      dsimp only
      rw [ends_bind, ends_propagate, ends_bind, ends_kind]
      split
      case isTrue =>
          exact (Unfailing.bind (unfailing_ensureStorage _ _ _) fun _ =>
            unfailing_setSlot _ v).excused _
      case isFalse hle =>
          split
          case isTrue hbig =>
              refine .inr ⟨.indexTooBig index.toInt, rfl, Evolution.refl (w.offer v), fun _ => ?_⟩
              refine ⟨max (position + 1) w.body.size, ?_,
                Nat.lt_of_lt_of_le hbig (Nat.le_max_left _ _)⟩
              rw [Mutation.demand?, hposition]
              rfl
          case isFalse =>
              exact (Unfailing.bind (unfailing_ensureStorage _ _ _) fun _ =>
                .bind (unfailing_clearSlots _ _) fun _ => .bind (unfailing_setSlot _ v) fun _ =>
                  unfailing_setSize _).excused _

end Edit

namespace Mutation

variable {m : Mutation}

theorem ends_edit_spoiled (hm : ¬m.Piecemeal) (hmissing : m.MissesWithin Arena.Booked)
    (w : Workspace) : Ends m.edit w (fun _ _ => True) fun f w' =>
      f.Fatal ∨ ∃ err, f = .raised err ∧ Edit.Spoiled m w err w' := by
  by_cases hfirst : m.OffersFirst
  case pos =>
      cases m with
      | push v => exact Ends.bind (Edit.spoiling_push v w) fun _ _ _ => trivial
      | set index v => exact Ends.bind (Edit.spoiling_set index v w) fun _ _ _ => trivial
      | _ => exact hfirst.elim
  case neg =>
      -- Every other change has looked at everything when it offers its values.
      have hnone (err : ArrayError) : m.offered? err = none := by
        cases m <;> first
          | exact absurd trivial hfirst
          | rfl
      refine (atomic_edit_of_count hm hfirst hmissing w).mono_early fun f w' hf => ?_
      cases f with
      | raised err =>
          have hw := hf.resolve_left (Fault.not_fatal_raised err)
          exact .inr ⟨err, rfl, Edit.spoiled_of_none (hnone err) hw⟩
      | outOfMemory => exact .inl Fault.fatal_outOfMemory
      | broken => exact .inl Fault.fatal_broken

theorem spoiled_of_error (hm : ¬m.Piecemeal) (hmissing : m.MissesWithin Arena.Booked)
    {w w' : Workspace} {err : ArrayError} (h : m.edit w = .error (.raised err) w') :
    Edit.Spoiled m w err w' := by
  obtain ⟨_, ⟨⟩, hw⟩ := (ends_edit_spoiled hm hmissing w).of_raised h
  exact hw

end Mutation

/-! ## Marks of the array objects -/

def Arena.SameMarks (a b : Arena) : Prop :=
  ∀ id, b.isShared id = a.isShared id ∧ b.isPending id = a.isPending id

namespace Arena.SameMarks

variable {a b c : Arena}

theorem trans (h : a.SameMarks b) (h' : b.SameMarks c) : a.SameMarks c :=
  fun id => ⟨(h' id).1.trans (h id).1, (h' id).2.trans (h id).2⟩

theorem of_objects (h : b.objects = a.objects) : a.SameMarks b := fun id => by
  simp only [isShared, isPending, object?, h, and_self]

theorem setBody (a : Arena) (id : ArrayId) (b : Body) : a.SameMarks (a.setBody id b) :=
  fun j => ⟨a.isShared_setBody id b j, a.isPending_setBody id b j⟩

theorem setLock (a : Arena) (id : ArrayId) (lock : Lock) : a.SameMarks (a.setLock id lock) := by
  intro j
  rw [isShared, isPending, object?_setLock]
  split
  · cases ho : a.object? j <;> simp [isShared, isPending, ho]
  · exact ⟨rfl, rfl⟩

theorem unlock (a : Arena) (id : ArrayId) (h : a.isPending id = false) :
    a.SameMarks (a.unlock id) := by
  have hpending : (a.setLock id .free).isPending id = false := (setLock a id .free id).2.trans h
  unfold Arena.unlock
  dsimp only
  rw [isPending] at hpending
  rw [if_neg (by simp [hpending])]
  exact setLock a id .free

end Arena.SameMarks

namespace Action

variable {α : Type} {loud : ArrayError → Prop}

def Silent (loud : ArrayError → Prop) (act : Action α) : Prop :=
  ∀ a : Arena, (∀ id, a.isPending id = false) → Ends act a (fun _ _ => True)
    fun f b => ∀ err, f = .raised err → ¬loud err → a.SameMarks b

theorem silent_editBody {e : Edit α} (h : ∀ w, Ends e w (fun _ _ => True) fun f w' =>
      ∀ err, f = .raised err → ¬loud err → w'.arena.objects = w.arena.objects)
    (id : ArrayId) : Silent loud (editBody id e) := by
  intro a _
  cases hbody : a.body? id with
  | none => exact (ends_editBody_of_none hbody).mpr nofun
  | some b =>
      refine (ends_editBody hbody).mpr ((h _).mono_early fun f w hf err herr hquiet => ?_)
      have hopened : a.SameMarks (a.opened id b).arena := .setBody a id .empty
      exact hopened.trans ((Arena.SameMarks.of_objects (hf err herr hquiet)).trans (.setBody _ _ _))

theorem silent_holding {act : Action α} (h : Silent loud act) (id : ArrayId) :
    Silent loud (holding id act) := by
  intro a hpending
  unfold holding
  rw [ends_bind, ends_get]
  split
  case h_1 =>
      have hlocked : a.SameMarks (a.setLock id .mine) := .setLock a id .mine
      rw [ends_bind, ends_modify, ends_closing]
      refine (h _ fun j => (hlocked j).2.trans (hpending j)).mono_early ?_
      intro f b hf err herr hquiet
      have hb : a.SameMarks b := hlocked.trans (hf err herr hquiet)
      exact hb.trans (.unlock b id ((hb id).2.trans (hpending id)))
  case h_2 => exact h a hpending
  case h_3 => exact nofun

end Action

namespace Mutation

variable {m : Mutation}

theorem silent_perform (hm : ¬m.Piecemeal) (hmissing : m.MissesWithin Arena.Booked) (id : ArrayId) :
    Action.Silent (fun err => m.offered? err ≠ none) (m.perform id) := by
  refine Action.silent_holding (Action.silent_editBody (fun w => ?_) id) id
  refine (ends_edit_spoiled hm hmissing w).mono_early ?_
  rintro f w' hf err rfl hquiet
  obtain hfatal | ⟨_, ⟨⟩, hw⟩ := hf
  · exact absurd rfl (hfatal err)
  · have hbooked := hw.unedited.arena.objects
    rwa [not_not.mp hquiet] at hbooked

/-- A change that raises an error shares nothing, unless it is pushing or setting and asks for too
large a size.  It shares then what it would have shared had the value been stored, which is nothing
if its array is not shared.  Nor does the change of an array object, if no walk is put off. -/
theorem errors_share_nothing (hm : ¬m.Piecemeal) (hmissing : m.MissesWithin Arena.Booked) :
    (∀ w w' err, m.edit w = .error (.raised err) w' →
      (m.offered? err = none ∨ w.arena.isShared w.owner = false →
        ∀ id, w'.arena.isShared id = w.arena.isShared id) ∧
      ∀ v, m.offered? err = some v →
        (∀ id, w'.arena.isShared id = (w.arena.offer w.owner v).isShared id) ∧
        ∃ n, m.demand? w.body = some (n, err) ∧ maxSize < n) ∧
    ∀ id a a' err, m.perform id a = .error (.raised err) a' → m.offered? err = none →
      (∀ j, a.isPending j = false) → ∀ j, a'.isShared j = a.isShared j := by
  constructor
  · intro w w' err herror
    obtain ⟨⟨-, -, hbooked⟩, hoversize⟩ := spoiled_of_error hm hmissing herror
    have hmarks := Arena.SameMarks.of_objects hbooked.objects
    constructor
    · rintro (hnone | hunshared) id
      · rw [(hmarks id).1, hnone]
        rfl
      · rw [(hmarks id).1]
        cases m.offered? err with
        | none => rfl
        | some v =>
            change (w.arena.offer w.owner v).isShared id = _
            rw [Arena.offer, if_neg (by simp [hunshared])]
    · intro v hv
      refine ⟨fun id => ?_, hoversize (by simp [hv])⟩
      rw [(hmarks id).1, hv]
      rfl
  · intro id a a' err herror hnone hpending j
    have hsilent := (silent_perform hm hmissing id a hpending).of_error herror
    exact (hsilent err rfl (by simp [hnone]) j).1

/-- Inserting an array far behind the end of a shared one shares nothing. -/
theorem errors_share_nothing_insert :
    let a : Arena :=
      { objects := #[some { body := .empty, shared := true }, some { body := .empty }] }
    (∃ err w', (insert 2147483647 [.array 1]).edit ⟨0, .empty, a⟩ = .error (.raised err) w' ∧
      w'.arena.isShared 1 = a.isShared 1) ∧
    ∃ err a', (insert 2147483647 [.array 1]).perform 0 a = .error (.raised err) a' ∧
      a'.isShared 1 = false := by
  intro a
  have hinsert := errors_share_nothing (m := insert 2147483647 [.array 1]) id trivial
  have hpending : ∀ j, a.isPending j = false := by
    rintro (_ | _ | j)
    · rfl
    · rfl
    · rfl
  refine ⟨⟨_, _, rfl, ?_⟩, ⟨_, _, rfl, ?_⟩⟩
  · exact (hinsert.1 ⟨0, .empty, a⟩ _ _ rfl).1 (.inl rfl) 1
  · exact hinsert.2 0 a _ _ rfl rfl hpending 1

/-- Setting an element as far behind the end raises the same error, and shares the array. -/
theorem refused_set_shares :
    let a : Arena :=
      { objects := #[some { body := .empty, shared := true }, some { body := .empty }] }
    a.isShared 1 = false ∧ ∃ w', (set 2147483647 (.array 1)).edit ⟨0, .empty, a⟩ =
      .error (.raised (.indexTooBig 2147483647)) w' ∧ w'.body = .empty ∧
        w'.arena.isShared 1 = true :=
  ⟨rfl, _, rfl, rfl, rfl⟩

end Mutation

end AdaptiveArray
