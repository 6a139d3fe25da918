import AdaptiveArray.Edit.Fill
import AdaptiveArray.Proofs.Writing

/-!
# Mapping in place

A map writes over one element after the other.  Its rule takes a statement about the
array and the arena that holds before each element; what a step does to it is known once
the block has answered.
-/

namespace AdaptiveArray

namespace Edit

variable {strict : Prop} {early : Fault → Workspace → Prop} {f : Block Value}

theorem ends_writeElement {α : Type} {w : Workspace} {rest : Edit α} {post : α → Workspace → Prop}
    (hfits : w.body.Fits strict) {i : Nat} (hi : i < w.body.size) (v : Value)
    (hrest : ∀ w', Workspace.Follows Arena.Booked w w' →
      w.body.Becomes strict (w.body.toList.set i v) w.body.store.extent w'.body →
      Ends rest w' post early)
    (hmemory : ¬Element.object.allocatable w.body.store.extent → ∀ w', early .outOfMemory w') :
    Ends (do
      ensureStorage ((← kind).forValue v) w.body.size
      setSlot i v
      rest) w post early := by
  have hmut := Kind.isMutable_forValue w.body.kind v
  rw [ends_bind, ends_kind]
  have hready : Ends (ensureStorage (w.body.kind.forValue v) w.body.size) w _ early :=
    ends_ensureStorage_within hfits (Kind.widens_forValue w.body.kind v) hmut (Nat.le_refl _)
      (Nat.le_refl _) (fun hlt => absurd hfits.size_le (Nat.not_le_of_lt hlt)) hmemory
  refine Ends.bind ((hready.and
    (within_ensureStorage (S := Workspace.Follows Arena.Booked) _ _ _ w)).mono_early
      fun _ _ h => h.1) ?_
  rintro _ w' ⟨hready, hfollows⟩
  refine Ends.bind (((ends_overwriteSlot hfits hready hmut (Kind.holds_forValue _ v)
    hi).and (within_setSlot (S := Workspace.Follows Arena.Booked) i v w')).mono_early
    fun _ _ h => h.1) ?_
  rintro _ w'' ⟨hbecomes, hfollows'⟩
  rw [overwrite_of_lt (by rw [Body.length_toList hfits]; exact hi)] at hbecomes
  exact hrest w'' (Evolution.trans hfollows hfollows') hbecomes

theorem ends_mapFrom {n : Nat} {I : Nat → Workspace → Prop}
    (hfits : ∀ {i w}, I i w → w.body.Fits strict ∧ w.body.size = n)
    (hstep : ∀ {i : Nat} {w : Workspace} {v : Value}, I i w → w.body.toList[i]? = some v →
      Ends (f.run v) w.arena
        (fun y a => ∀ w', Workspace.Follows Arena.Booked ((w.withArena a).offer y) w' →
          w.body.Becomes strict (w.body.toList.set i y) w.body.store.extent w'.body → I (i + 1) w')
        (fun f a => early f (w.withArena a)))
    (hmemory : ∀ {i w}, I i w → ¬Element.object.allocatable w.body.store.extent →
      ∀ w', early .outOfMemory w') (left : Nat) :
    ∀ {i : Nat} {w : Workspace}, i + left = n → I i w →
      Ends (mapFrom f n left i) w (fun _ w' => I n w') early := by
  induction left with
  | zero =>
      intro i w hleft hI
      rw [← show i = n from hleft]
      exact hI
  | succ left ih =>
      intro i w hleft hI
      obtain ⟨hw, rfl⟩ := hfits hI
      obtain ⟨v, hv, hmem⟩ := Body.exists_get? hw (i := i) (by omega)
      unfold mapFrom
      rw [ends_bind, ends_getSlot hv, ends_bind, ends_lift]
      refine (hstep hI hmem).weaken fun y a hnext => ?_
      rw [ends_bind, ends_propagate]
      refine ends_writeElement (w := (w.withArena a).offer y) (by simpa using hw)
        (by simpa using (by omega : i < w.body.size)) y (fun w' hfollows hbecomes => ?_)
        (by simpa using hmemory hI)
      exact ih (by omega) (hnext w' hfollows (by simpa using hbecomes))

theorem ends_map {w : Workspace} {I : Nat → Workspace → Prop}
    (hfits : ∀ {i w'}, I i w' → w'.body.Fits strict ∧ w'.body.size = w.body.size)
    (hstep : ∀ {i : Nat} {w' : Workspace} {v : Value}, I i w' → w'.body.toList[i]? = some v →
      Ends (f.run v) w'.arena
        (fun y a => ∀ w'', Workspace.Follows Arena.Booked ((w'.withArena a).offer y) w'' →
          w'.body.Becomes strict (w'.body.toList.set i y) w'.body.store.extent w''.body →
          I (i + 1) w'')
        (fun f a => early f (w'.withArena a)))
    (hmemory : ∀ {i w'}, I i w' → ¬Element.object.allocatable w'.body.store.extent →
      ∀ w'', early .outOfMemory w'') (hstart : I 0 w)
    (hfrozen : ∀ e, w.body.frozen → early (.raised e) w) :
    Ends (map f) w (fun _ w' => I w.body.size w') early := by
  unfold map
  rw [ends_bind, ends_checkFrozen]
  split
  case isTrue h => exact hfrozen _ h
  case isFalse =>
      rw [ends_bind, ends_size]
      exact ends_mapFrom hfits hstep hmemory w.body.size (Nat.zero_add _) hstart

end Edit

end AdaptiveArray
