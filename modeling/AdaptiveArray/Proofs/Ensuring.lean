import AdaptiveArray.Proofs.Readiness
import AdaptiveArray.Proofs.StepFrame

/-!
# What `ensureStorage` promises

Every edit that writes elements asks for a store first.  It gets one that nobody else
looks at, of the kind and with the room it asked for, and finds its elements there.  The
store stays if it is that already, and otherwise there is nothing but zero behind the
elements of the new one.  The buffer of a view becomes the array's own only if no other
store looks at it.
-/

namespace AdaptiveArray

def Arena.Unviewed (a : Arena) (aside : List Store) (k : BackingId) : Prop :=
  ∀ s ∈ a.liveStores ++ aside, s.views k = false

theorem Arena.unviewed_iff {a : Arena} {aside : List Store} {k : BackingId} :
    (a.viewers k = 0 && !aside.any fun s => s.views k) = true ↔ a.Unviewed aside k := by
  simp only [Arena.Unviewed, Arena.viewers, Bool.and_eq_true, decide_eq_true_eq,
    List.countP_eq_zero, Bool.not_eq_true', List.any_eq_false, Bool.not_eq_true,
    List.forall_mem_append]

namespace Edit

theorem ensureStorage_of_view {w : Workspace} {needed : Nat} {aside : List Store} {v : View}
    (hstore : w.body.store = .view v)
    (hroom : needed ≤ w.body.capacity) :
    ensureStorage w.body.kind.forMutation needed aside w = unshare v aside w := by
  have hmove : ¬(decide (w.body.kind.forMutation = w.body.kind) && w.body.kind.isMutable &&
      decide (needed ≤ w.body.capacity)) = true := by
    simp [Body.kind, hstore, Store.kind, Kind.isMutable]
  unfold ensureStorage
  rw [run_bind_of_ok (show kind w = .ok w.body.kind w from rfl),
    run_bind_of_ok (show capacity w = .ok w.body.capacity w from rfl), if_neg hmove,
    run_bind_of_ok (show store w = .ok (.view v) w by rw [← hstore]; rfl)]
  dsimp only
  rw [if_pos (by simp [hroom])]

/-- The array gets a store of its own, of the kind and with the room asked for, under the elements
it has; only memory can run out.  A store that is that already stays as it is, and otherwise all
slots behind the elements are zero.  Other arrays and bare stores keep their stores, and so their
views of a backing that was given up; where a view with enough room is taken out of sharing, its
backing is taken over only if no other store looks at it. -/
theorem ensureStorage_exact {w : Workspace} {target : Kind} (needed : Nat) (aside : List Store)
    (hfits : w.body.Fits False) (hmut : target.isMutable) (hwide : w.body.kind.widens target)
    (hsize : w.body.size ≤ needed) :
    Ends (ensureStorage target needed aside) w
      (fun _ w' => (w'.owner = w.owner ∧ w.arena.Booked w'.arena) ∧
        (w'.body.kind = target ∧ w'.body.store.backing? = none ∧ needed ≤ w'.body.capacity) ∧
        (w'.body.size = w.body.size ∧ w'.body.frozen = w.body.frozen ∧
          w'.body.toList = w.body.toList) ∧
        if w.body.kind = target ∧ needed ≤ w.body.capacity then w' = w
        else ∀ i, w.body.size ≤ i → i < w'.body.capacity →
          w'.body.store.get? i = some w'.body.store.zero)
      (fun f _ => f = .outOfMemory ∧ ¬Element.object.allocatable (reach w needed)) ∧
    ∀ v, w.body.store = .view v → target = w.body.kind.forMutation → needed ≤ w.body.capacity →
      ∃ sole, ensureStorage target needed aside w = unshareAs v sole w ∧
        (sole = true ↔ w.arena.Unviewed aside v.backing.id) := by
  constructor
  · by_cases hstay : w.body.kind = target ∧ needed ≤ w.body.capacity
    · obtain ⟨rfl, hroom⟩ := hstay
      refine (ends_of_ok (ensureStorage_of_ready hmut hroom)).mpr ?_
      exact ⟨⟨rfl, .refl _⟩, ⟨rfl, Store.backing?_of_isMutable hmut, hroom⟩, ⟨rfl, rfl, rfl⟩,
        by simp [hroom]⟩
    · have hready : Ends (ensureStorage target needed aside) w
          (fun _ w' => w.body.Ready True target needed (reach w needed) w'.body)
          fun f _ => f = .outOfMemory ∧ ¬Element.object.allocatable (reach w needed) :=
        ends_ensureStorage_moving hfits hwide hmut hsize (by unfold reach; omega)
          (fun _ => Nat.le_refl _) (fun hbig _ => ⟨rfl, hbig⟩) hstay
      refine (hready.and (within_ensureStorage (S := Workspace.Follows Arena.Booked) target needed
        aside w)).mono ?_ fun f _ h => h.1
      rintro _ w' ⟨hready, howner, hbooked⟩
      have hmut' := hready.isMutable hmut
      refine ⟨⟨howner, hbooked⟩, ⟨hready.kind, Store.backing?_of_isMutable hmut', hready.room⟩,
        ⟨hready.size, hready.frozen, hready.toList hfits⟩, ?_⟩
      rw [if_neg hstay]
      exact fun i hi hlt => hready.fits.tidy trivial hmut' i (hready.size ▸ hi) hlt
  · rintro v hstore rfl hroom
    exact ⟨_, ensureStorage_of_view hstore hroom, Arena.unviewed_iff⟩

/-- A view with a stale slot, of a backing that a bare store looks at too: it is copied when it is
to be written, and its elements move when there is to be more room in native storage. -/
theorem ensureStorage_exact_shared :
    let window : View := ⟨⟨3, .int #[1, 2, 3, 4]⟩, 0, 3⟩
    let w : Workspace :=
      ⟨0, { store := .view window, size := 2 }, { stores := [("window", .view window)] }⟩
    (∃ w', ensureStorage (.owned .int) 3 [] w = .ok () w' ∧ unshareAs window false w = .ok () w' ∧
      w'.body.toList = [.int 1, .int 2] ∧ w'.body.store.get? 2 = some w'.body.store.zero) ∧
    ∃ w', ensureStorage .native 5 [] w = .ok () w' ∧ w'.body.kind = .native ∧
      w'.body.toList = [.int 1, .int 2] ∧ 5 ≤ w'.body.capacity := by
  intro window w
  have hfits : w.body.Fits False := .intro_view (by decide) (by change 0 + 3 ≤ 4; decide) rfl
  have htoList : w.body.toList = [.int 1, .int 2] := by decide +kernel
  constructor
  · obtain ⟨hends, hunshared⟩ := ensureStorage_exact 3 [] hfits
      (by decide : (Kind.owned .int).isMutable) (by decide) (by decide)
    obtain ⟨_, w', hrun, -, ⟨-, -, hroom⟩, ⟨hsize, -, hsame⟩, hzero⟩ := hends.exists_ok
      fun _ _ h => h.2 (by decide)
    obtain ⟨sole, heq, hsole⟩ := hunshared window rfl rfl (by decide)
    have hviewed : ¬w.arena.Unviewed [] window.backing.id := fun h =>
      absurd (h (.view window) (by decide)) (by decide)
    obtain rfl : sole = false := Bool.eq_false_iff.mpr fun h => hviewed (hsole.mp h)
    refine ⟨w', hrun, heq ▸ hrun, hsame.trans htoList, ?_⟩
    rw [if_neg (by decide)] at hzero
    exact hzero 2 (by decide) (Nat.lt_of_lt_of_le (by decide) hroom)
  · obtain ⟨_, w', hrun, -, ⟨hkind, -, hroom⟩, ⟨-, -, hsame⟩, -⟩ :=
      (ensureStorage_exact 5 [] hfits (by decide : Kind.native.isMutable) (by decide)
        (by decide)).1.exists_ok fun _ _ h => h.2 (by decide)
    exact ⟨w', hrun, hkind, hsame.trans htoList, hroom⟩

end Edit

end AdaptiveArray
