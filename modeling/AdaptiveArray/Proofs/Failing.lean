import AdaptiveArray.Proofs.Caution
import AdaptiveArray.Proofs.Custody

/-!
# Errors leave no trace

An edit looks for what can be wrong before it changes anything: once it has begun to
change an array it raises no error any more.  So an array that an edit has failed on is
what it was, and so are all others.  This is so for every edit but those that go on
element by element with values or answers of a block that come one at a time.
-/

namespace AdaptiveArray

variable {α β : Type}

/-! ## Edits that fail at once or not at all -/

namespace Edit

variable {R : Arena → Arena → Prop} [Arena.Count R]

theorem atomic_steal (other : ArrayId) : Atomic (Workspace.Unedited R) (steal other) :=
  .bind unedited_checkFrozen fun _ => .bind .get fun _ =>
    .bind (unedited_lift (Action.within_demand _)) fun b =>
      .bind (unedited_lift (Action.within_checkFrozen b)) fun _ =>
        .of_unfailing (.bind (unfailing_propagateAll _) fun _ => .bind (.modify _) fun _ =>
          unfailing_replaceStore _ _)

theorem atomic_restart (size? fill? : Option Value) :
    Atomic (Workspace.Unedited R) (restart size? fill?) := by
  refine .bind unedited_checkFrozen fun _ => ?_
  split
  · exact .of_unfailing (unfailing_replaceStore _ _)
  · refine .bind .get fun w => .ite (.of_unfailing (.pure _)) ?_
    split
    · exact (cautious_replace _).atomic
    · exact .of_within (unedited_fail _)
  · exact .bind (unedited_sizeArgument _) fun _ => .of_unfailing (unfailing_restartFilled _ _)
  · refine .ite (.bind (unedited_fail _) fun _ => ?_) ?_
    all_goals
      exact .bind (unedited_sizeArgument _) fun _ => .of_unfailing (unfailing_restartFilled _ _)
  · exact .of_within (unedited_fail _)

theorem atomic_sort : Atomic (Workspace.Unedited R) sort :=
  .bind unedited_checkFrozen fun _ => .bind .get fun w =>
    .bind (unedited_lift (Body.yields_sort w.body).within) fun _ => (cautious_replace _).atomic

/-! ### Removing what passes a test -/

def Quiet (test : Value → Edit Bool) : Prop :=
  ∀ v w, Ends (test v) w (fun _ w' => w' = w) fun f _ => f.Fatal

/-- Until a pass has found something to remove it has not moved anything, and it fails only when it
finds the first match. -/
theorem ends_removePass_quiet {test : Value → Edit Bool} (htest : Quiet test) (left : Nat)
    {p : Pass} {w₀ w : Workspace}
    (h : p.found = none → p.write = p.read ∧ Workspace.Unedited R w₀ w) (herror : p.error = none) :
    Ends (removePass test left p) w
      (fun p' w' => p'.error = none ∧
        (p'.found = none → p'.write = p'.read ∧ Workspace.Unedited R w₀ w'))
      fun f w' => f.Fatal ∨ Workspace.Unedited R w₀ w' := by
  -- Nothing is said of the array once something was found, since no error can come up after that.
  induction left generalizing p w with
  | zero => exact ⟨herror, h⟩
  | succ left ih =>
      have hlook (i : Nat) : Within (Workspace.Unedited R) (do
          Action.pollAt i
          getSlot i : Edit Value) :=
        .bind (unedited_lift (Action.within_pollAt _)) fun _ => unedited_getSlot _
      have hsteady (i : Nat) : Unfailing (do
          Action.pollAt i
          getSlot i : Edit Value) :=
        .bind (unfailing_lift (Action.unfailing_pollAt _)) fun _ => unfailing_getSlot _
      have hfirst := ((hsteady p.read).within (hlook p.read) w).mono_early
        fun f w' hf => Or.inl (b := Workspace.Unedited R w₀ w') hf
      rw [ends_bind] at hfirst
      rw [removePass, ends_bind]
      refine hfirst.weaken fun _ w₁ hw₁ => Ends.bind hw₁ fun v w₂ hw₂ => ?_
      have h₂ : p.found = none → p.write = p.read ∧ Workspace.Unedited R w₀ w₂ :=
        fun hnone => (h hnone).imp_right fun hw => Evolution.trans hw hw₂
      rw [ends_bind, ends_attempt]
      refine (htest v w₂).mono ?_ ?_
      · rintro matched _ rfl
        cases matched with
        | true =>
            refine ends_ite (fun hnone => ?_) fun _ => ih nofun herror
            have hfound : p.found = none := Option.isNone_iff_eq_none.mp hnone
            rw [ends_bind, ends_checkFrozen]
            split
            · exact .inr (h₂ hfound).2
            · exact unfailing_ensureMutable.ends_bind fun _ _ => ih nofun herror
        | false =>
            refine ends_ite (fun hne => ?_) fun heq => ih ?_ herror
            · exact (unfailing_moveSlots _ _ _).ends_bind fun _ _ =>
                ih (fun hnone => absurd (h hnone).1 hne) herror
            · exact fun hnone => ⟨congrArg (· + 1) (h₂ hnone).1, (h₂ hnone).2⟩
      · intro f w' hf
        cases f with
        | raised e => exact absurd rfl (hf e)
        | _ => exact .inl hf

theorem ends_removeWhere_quiet {test : Value → Edit Bool} (htest : Quiet test) (w : Workspace) :
    Ends (removeWhere test) w (fun found w' => found = none → Workspace.Unedited R w w')
      fun f w' => f.Fatal ∨ Workspace.Unedited R w w' := by
  rw [removeWhere, ends_bind, ends_size, ends_bind]
  refine (unedited_lift Action.within_options w).weaken fun _ w₁ hw₁ => ?_
  refine Ends.bind (ends_removePass_quiet htest w.body.size (fun _ => ⟨rfl, hw₁⟩) rfl) ?_
  rintro p w₂ ⟨herror, hp⟩
  dsimp only
  rw [herror]
  refine ends_ite (fun hne => ?_) fun _ hnone => (hp hnone).2
  have hfound : p.found ≠ none := fun hnone => hne (hp hnone).1
  exact (unfailing_moveSlots _ _ _).ends_bind fun _ _ => (unfailing_clearSlots _ _).ends_bind
    fun _ _ => (unfailing_setSize _).ends_bind fun _ _ hnone => absurd hnone hfound

theorem atomic_deleteOr {v : Value} {missing : Value → Edit Value}
    (hmissing : ∀ v, Within (Workspace.Unedited R) (missing v)) :
    Atomic (Workspace.Unedited R) (deleteOr v missing) := fun w => by
  have hquiet : Quiet fun x => return (← get).arena.equal .numeric x v := fun _ _ => rfl
  refine Ends.bind (ends_removeWhere_quiet hquiet w) fun found w' hw' => ?_
  cases found with
  | some x => trivial
  | none =>
      exact (hmissing v w').mono (fun _ _ _ => trivial)
        fun _ _ hf => hf.imp_right (Evolution.trans (hw' rfl))

theorem atomic_compact : Atomic (Workspace.Unedited R) compact := by
  refine .bind unedited_checkFrozen fun _ => .bind (unedited_read _) fun _ =>
    .ite (.of_unfailing (.pure _)) (.answer fun w => ?_)
  have hquiet : Quiet fun x => return x.isNil := fun _ _ => rfl
  exact (ends_removeWhere_quiet hquiet w).weaken fun _ _ _ => trivial

end Edit

/-! ## Changes of one array object -/

def Arena.SameBodies (a b : Arena) : Prop := ∀ id, b.body? id = a.body? id

instance : Arena.Frame Arena.SameBodies where
  refl _ _ := rfl
  trans h h' id := (h' id).trans (h id)
  booked h := Arena.body?_of_objects h.objects
  shareValue a v := (Arena.Remarked.shareValue a v).body?

instance : Arena.Frame fun _ _ : Arena => True where
  refl _ := trivial
  trans _ _ := trivial
  booked _ := trivial
  shareValue _ _ := trivial

namespace Mutation

/-- The change goes on element by element, with values or answers of a block that come one at a
time. -/
def Piecemeal : Mutation → Prop
  | pushAll _ => True
  | map _ => True
  | reject _ => True
  | keepIf _ => True
  | restartWith _ _ => True
  | _ => False

def MissesWithin (R : Arena → Arena → Prop) : Mutation → Prop
  | deleteOr _ missing => ∀ v, Within R (missing v)
  | _ => True

def OffersFirst : Mutation → Prop
  | push _ => True
  | set _ _ => True
  | _ => False

variable {R : Arena → Arena → Prop} {m : Mutation}

theorem atomic_edit_of_count [Arena.Count R] (hm : ¬m.Piecemeal) (hfirst : ¬m.OffersFirst)
    (hmissing : m.MissesWithin R) : Atomic (Workspace.Unedited R) m.edit := by
  cases m with
  | push v => exact absurd trivial hfirst
  | pushAll vs => exact absurd trivial hm
  | insert index vs => exact (Edit.cautious_insert index vs).atomic.answer
  | unshift vs => exact (Edit.cautious_unshift vs).atomic.answer
  | set index v => exact absurd trivial hfirst
  | fill v => exact (Edit.cautious_fill v).atomic.answer
  | map f => exact absurd trivial hm
  | concat others => exact (Edit.cautious_concat others).atomic.answer
  | delete v => exact (Edit.atomic_deleteOr fun _ => .pure _).answer
  | deleteOr v missing =>
      exact (Edit.atomic_deleteOr fun v => Edit.unedited_lift (hmissing v)).answer
  | deleteAt index => exact (Edit.cautious_deleteAt index).atomic.answer
  | compact => exact Edit.atomic_compact.answer
  | reject f => exact absurd trivial hm
  | keepIf f => exact absurd trivial hm
  | pop => exact Edit.cautious_pop.atomic.answer
  | popN count => exact (Edit.cautious_popN count).atomic.answer
  | shift => exact Edit.cautious_shift.atomic.answer
  | shiftN count => exact (Edit.cautious_shiftN count).atomic.answer
  | slice start length =>
      refine .of_unfailing (.bind (Edit.unfailing_slice start length) fun part => ?_)
      split <;> exact .pure _
  | dup => exact .of_unfailing (.bind Edit.unfailing_dup fun _ => .pure _)
  | extract start stop =>
      exact .of_unfailing (.bind (Edit.unfailing_extractShared start stop) fun _ => .pure _)
  | clear => exact Edit.cautious_clear.atomic.answer
  | replace other => exact (Edit.cautious_replace other).atomic.answer
  | steal other => exact (Edit.atomic_steal other).answer
  | restart size? fill? => exact (Edit.atomic_restart size? fill?).answer
  | restartWith size f => exact absurd trivial hm
  | rotate count => exact (Edit.cautious_rotate count).atomic.answer
  | sort => exact Edit.atomic_sort.answer
  | freeze => exact .of_unfailing (.bind (.modify _) fun _ => .pure _)
  | toNative => exact .of_unfailing (.bind Edit.unfailing_toNative fun _ => .pure _)

theorem atomic_edit [Arena.Frame R] (hm : ¬m.Piecemeal) (hmissing : m.MissesWithin R) :
    Atomic (Workspace.Unedited R) m.edit := by
  cases m with
  | push v => exact (Edit.cautious_push v).atomic.answer
  | set index v => exact (Edit.cautious_set index v).atomic.answer
  | _ => exact atomic_edit_of_count hm id hmissing

end Mutation

theorem Arena.body?_setBody (a : Arena) (id : ArrayId) (b : Body) (j : ArrayId) :
    (a.setBody id b).body? j = if j = id then (a.body? j).map fun _ => b else a.body? j := by
  rw [body?, body?, object?_setBody]
  split
  · cases a.object? j <;> rfl
  · rfl

theorem Arena.sameBodies_unlock (a : Arena) (id : ArrayId) : a.SameBodies (a.unlock id) := by
  unfold unlock
  dsimp only
  split
  · have hrelabelled := (relabelled_setLock a id .free).trans
      (relabelled_modifyObject (a.setLock id .free) id
        (fun o => { o with sharePending := false }) (fun _ => rfl) fun _ => rfl)
    exact fun j => ((Remarked.shareElements _ id).body? j).trans (hrelabelled.body? j)
  · exact (relabelled_setLock a id .free).body?

namespace Action

theorem atomic_editBody {e : Edit α} (h : Atomic (Workspace.Unedited Arena.SameBodies) e)
    (id : ArrayId) : Atomic Arena.SameBodies (editBody id e) := by
  intro a
  cases hbody : a.body? id with
  | none => exact (ends_editBody_of_none hbody).mpr (.inl Fault.fatal_broken)
  | some b =>
      refine (ends_editBody hbody).mpr ((h _).mono (fun _ _ _ => trivial) fun f w hf => ?_)
      refine hf.imp_right fun hw j => ?_
      have harena : w.arena.body? j = (a.setBody id .empty).body? j := hw.arena j
      have hback : w.body = b := hw.body
      rw [Arena.body?_setBody, harena, Arena.body?_setBody, hback]
      split
      case isTrue heq =>
          rw [heq, hbody]
          rfl
      case isFalse => rfl

theorem atomic_closing {act : Action α} {change : Arena → Arena}
    (h : Atomic Arena.SameBodies act) (hchange : ∀ a : Arena, a.SameBodies (change a)) :
    Atomic Arena.SameBodies (closing act change) := fun a =>
  ends_closing.mpr ((h a).mono (fun _ _ _ => trivial)
    fun _ b hf => hf.imp_right fun hb => Evolution.trans hb (hchange b))

theorem atomic_holding {act : Action α} (h : Atomic Arena.SameBodies act) (id : ArrayId) :
    Atomic Arena.SameBodies (holding id act) := by
  refine .bind .get fun a => ?_
  split
  · exact .bind (.modify fun a => (Arena.relabelled_setLock a id .mine).body?) fun _ =>
      atomic_closing h fun a => a.sameBodies_unlock id
  · exact h
  · exact .of_unfailing (.throw Fault.fatal_broken)

end Action

namespace Mutation

def Guarded : Mutation → Prop
  | delete _ | deleteOr _ _ | slice _ _ | dup | extract _ _ | freeze | toNative => False
  | _ => True

theorem Piecemeal.guarded {m : Mutation} (h : m.Piecemeal) : m.Guarded := by
  cases m <;> first
    | exact h.elim
    | trivial

theorem edit_of_frozen {m : Mutation} (hm : m.Guarded) {w : Workspace}
    (h : w.body.frozen = true) :
    m.edit w = .error (.raised (.frozen (w.arena.inspectBody w.body))) w := by
  have hcheck := Edit.checkFrozen_eq h
  cases m <;> first
    | exact hm.elim
    | exact run_bind_of_error (run_bind_of_error hcheck)

/-- An error leaves no trace.  An edit that raises one leaves its array as it was, whatever was to
be done where there was nothing to delete; so it leaves the array that it was to steal from.  The
change of an array object leaves every array object as it was.  And a change that goes on element by
element does not begin on a frozen array: nothing at all is changed, and no call of a block is
counted. -/
theorem errors_leave_no_trace (m : Mutation) :
    (¬m.Piecemeal → ∀ w w' e, m.edit w = .error (.raised e) w' → w'.body = w.body ∧
      ∀ other, m = .steal other → w'.arena.body? other = w.arena.body? other) ∧
    (¬m.Piecemeal → m.MissesWithin Arena.SameBodies → ∀ id a a' e,
      m.perform id a = .error (.raised e) a' → ∀ j, a'.body? j = a.body? j) ∧
    (m.Piecemeal → ∀ w : Workspace, w.body.frozen = true →
      m.edit w = .error (.raised (.frozen (w.arena.inspectBody w.body))) w) := by
  refine ⟨fun hm w w' e herror => ⟨?_, ?_⟩, fun hm hmissing id a a' e herror => ?_,
    fun hm w h => edit_of_frozen hm.guarded h⟩
  · have hmissing : m.MissesWithin fun _ _ => True := by
      cases m with
      | deleteOr v missing =>
          exact fun v a => (Ends.trivial (missing v) a).mono (fun _ _ _ => trivial)
            fun _ _ _ => .inr trivial
      | _ => trivial
    exact ((atomic_edit hm hmissing w).of_raised herror).body
  · rintro other rfl
    have h := atomic_edit (R := Arena.SameBodies) (m := .steal other) hm trivial w
    exact (h.of_raised herror).arena other
  · have h := Action.atomic_holding (Action.atomic_editBody (atomic_edit hm hmissing) id) id a
    exact h.of_raised herror

/-- Stealing from a frozen array fails, as an edit and as the change of an array object; and
rejecting from it calls no block. -/
theorem errors_leave_no_trace_steal :
    let full : Body := { store := .owned (.int #[5]), size := 1 }
    let sealed : Body := { store := .owned (.object #[.nil]), size := 1, frozen := true }
    let a : Arena := { objects := #[some { body := full }, some { body := sealed }] }
    (∃ e w', (steal 1).edit ⟨0, full, a⟩ = .error (.raised e) w' ∧ w'.body = full ∧
      w'.arena.body? 1 = some sealed) ∧
    (∃ e a', (steal 1).perform 0 a = .error (.raised e) a' ∧ a'.body? 0 = some full ∧
      a'.body? 1 = some sealed) ∧
    (reject fun _ _ => pure true).edit ⟨1, sealed, a⟩ =
      .error (.raised (.frozen (a.inspectBody sealed))) ⟨1, sealed, a⟩ := by
  intro full sealed a
  have hsteal := errors_leave_no_trace (steal 1)
  have hsimple : ¬(steal 1).Piecemeal := id
  refine ⟨⟨_, _, rfl, ?_⟩, ⟨_, _, rfl, ?_⟩, ?_⟩
  · have h := hsteal.1 hsimple ⟨0, full, a⟩ _ _ rfl
    exact ⟨h.1, h.2 1 rfl⟩
  · have h := hsteal.2.1 hsimple trivial 0 a _ _ rfl
    exact ⟨h 0, h 1⟩
  · exact (errors_leave_no_trace (reject fun _ _ => pure true)).2.2 trivial ⟨1, sealed, a⟩ rfl

end Mutation

end AdaptiveArray
