import AdaptiveArray.Json.Settings
import AdaptiveArray.Proofs.Building
import AdaptiveArray.Proofs.Writing

/-!
# Growth

A push makes room for its value where there is none.  How much it makes is set by the
options and by the room there was, and it is more than before whatever the options are,
unless there was no room at all and the options ask for none to start with.
-/

namespace AdaptiveArray

theorem Builder.ends_pushAll_of_canGrow {early : Fault → Arena → Prop}
    (hmemory : ∀ a, early .outOfMemory a) (vs : List Value) :
    ∀ {a : Arena} {b : Builder} {xs : List Value}, b.Holds xs → b.CanGrow a →
      Ends (b.pushAll vs) a (fun b' _ => b'.Holds (xs ++ vs)) early := by
  induction vs with
  | nil =>
      intro a b xs h _
      rw [List.append_nil]
      exact h
  | cons v vs ih =>
      intro a b xs h hgrow
      unfold pushAll
      refine Ends.bind (ends_push_of_canGrow h v hmemory fun hstuck => absurd hgrow hstuck) ?_
      rintro b' a' ⟨-, hholds, hgrow'⟩
      have hrest := ih hholds (hgrow' hgrow)
      rwa [List.append_assoc] at hrest

/-- Pushing to an array that is neither frozen nor as large as arrays may be, and pushing to a
builder over and over, end with the values stored and room for them, or for want of memory. -/
theorem push_makes_room (w : Workspace) (v : Value) (a : Arena) (expected : Nat)
    (vs : List Value) :
    (w.body.Fits False → w.body.frozen = false → w.body.size < maxSize →
      w.arena.settings.uninitializedSize ≠ 0 ∨ w.body.capacity ≠ 0 →
      Ends (Edit.push v) w
        (fun _ w' => w'.body.toList = w.body.toList ++ [v] ∧ w'.body.size = w.body.size + 1 ∧
          w'.body.size ≤ w'.body.capacity)
        fun f _ => f = .outOfMemory ∧
          ¬Element.object.allocatable (Edit.reach w (w.body.size + 1))) ∧
    (a.settings.uninitializedSize ≠ 0 ∨ expected ≠ 0 →
      Ends (({ expected } : Builder).pushAll vs) a
        (fun b _ => b.Holds vs ∧ b.size = vs.length ∧ b.size ≤ b.store.capacity)
        fun f _ => f = .outOfMemory) := by
  constructor
  · intro hfits hopen hmax hroom
    refine (Edit.ends_push hfits v).mono (fun _ w' h => ?_) fun f w' h => ?_
    · refine ⟨h.toList, ?_, h.fits.size_le⟩
      have hlen := congrArg List.length h.toList
      rwa [Body.length_toList h.fits, List.length_append, Body.length_toList hfits] at hlen
    · cases f with
      | raised e =>
          rcases h.1 with hfrozen | ⟨-, hlarge⟩
          · rw [hopen] at hfrozen
            cases hfrozen
          · omega
      | broken => exact absurd hroom (by simp [h.1, h.2])
      | outOfMemory => exact ⟨rfl, h⟩
  · intro hroom
    have hgrow : ({ expected } : Builder).CanGrow a :=
      ⟨(by decide : 0 < UInt64.size - 1), hroom.imp_right Or.inl⟩
    refine (Builder.ends_pushAll_of_canGrow (fun _ => rfl) vs (Builder.holds_new expected)
      hgrow).weaken fun b _ h => ?_
    exact ⟨h, h.size_eq, h.shows.fits.size_le⟩

/-- The first value of an array and of a builder that expects one. -/
theorem push_makes_room_first :
    Ends (Edit.push (.int 1)) ⟨0, .empty, {}⟩ (fun _ w' => w'.body.toList = [.int 1] ∧
      w'.body.size = 1 ∧ w'.body.size ≤ w'.body.capacity)
      (fun f _ => f = .outOfMemory ∧ ¬Element.object.allocatable 16) ∧
    Ends (({ expected := 1 } : Builder).pushAll [.nil]) {}
      (fun b _ => b.Holds [.nil] ∧ b.size = 1 ∧ b.size ≤ b.store.capacity)
      fun f _ => f = .outOfMemory :=
  ⟨(push_makes_room ⟨0, .empty, {}⟩ (.int 1) {} 1 [.nil]).1 Body.fits_empty rfl (by decide)
      (.inl (by decide)),
    (push_makes_room ⟨0, .empty, {}⟩ (.int 1) {} 1 [.nil]).2 (.inr (by decide))⟩

/-- With options that start arrays with no room the first push breaks, to an array and to a builder
that expects nothing. -/
theorem push_breaks_without_room :
    ∃ o a, Options.ofJson "\x7b\"array_uninitialized_size\":0\x7d" = .ok o ∧
      Action.installOptions o {} = .ok () a ∧
      (∃ w', Edit.push (.int 1) ⟨0, .empty, a⟩ = .error .broken w') ∧
      ∃ a', Builder.push {} (.int 1) a = .error .broken a' :=
  ⟨{ uninitializedSize := 0 }, { options? := some { uninitializedSize := 0 } }, rfl, rfl,
    ⟨_, rfl⟩, ⟨_, rfl⟩⟩

end AdaptiveArray
