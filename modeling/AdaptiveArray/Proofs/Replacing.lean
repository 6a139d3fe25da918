import AdaptiveArray.Edit.Fill
import AdaptiveArray.Native
import AdaptiveArray.Proofs.Sorting

/-!
# Other elements altogether

Changes that give an array other elements than it had, or put the ones it has into
another store: clearing, taking over another array, starting afresh, sorting, and moving
to native storage.
-/

namespace AdaptiveArray

namespace Body

theorem shows_clone {strict : Prop} {b : Body} (hfits : b.Fits strict) :
    b.clone.Shows strict b.toList := by
  cases hstore : b.store with
  | native address slots =>
      have hclone : b.clone = { b with store := .owned (.object slots) } := by
        rw [clone, hstore]
        rfl
      have hslot : ∀ i, (Store.owned (.object slots)).get? i = b.store.get? i := by
        intro i
        rw [hstore]
        rfl
      have hfits' : b.clone.Fits strict := by
        rw [hclone]
        refine ⟨?_, True.intro, fun hstrict _ i hi hlt => ?_⟩
        · have h := hfits.size_le
          rwa [Body.capacity, hstore] at h
        · have h := hfits.tidy hstrict (by rw [hstore]; rfl) i hi (by
            rw [Body.capacity, hstore]
            exact hlt)
          rw [← hslot] at h
          rw [h, hstore]
          rfl
      refine ⟨hfits', ?_⟩
      rw [hclone] at hfits' ⊢
      exact toList_congr hfits hfits' rfl fun i _ => hslot i
  | _ =>
      have hclone : b.clone = b := by
        cases b
        subst hstore
        rfl
      rw [hclone]
      exact hfits.shows

theorem foldl_set_replicate {s : Store} {v : Value} (hmut : s.isMutable)
    (hholds : s.kind.holds v) (n : Nat) (hn : n ≤ s.capacity) :
    ((List.range n).foldl (fun s i => s.set i v) s).Written s 0 (List.replicate n v) := by
  induction n with
  | zero => exact Store.written_nil s 0
  | succ n ih =>
      have h := ih (by omega)
      have hadmits := Store.admits_of_holds (v := v) (i := n) (s := (List.range n).foldl
        (fun s i => s.set i v) s) (Store.isMutable_of_kind h.kind hmut) (by rwa [h.kind])
        (by rw [h.capacity]; omega)
      rw [List.range_succ, List.foldl_append, List.replicate_succ']
      refine h.append ?_
      rw [List.length_replicate, Nat.zero_add]
      exact Store.Written.cons hadmits (Store.written_nil _ _)

end Body

namespace Edit

variable {strict : Prop} {w : Workspace}

def TookOver (b : Body) (w w' : Workspace) : Prop :=
  w'.body = { store := b.store, size := b.size, frozen := w.body.frozen }

theorem TookOver.shows {b : Body} {xs : List Value} {w' : Workspace} (h : TookOver b w w')
    (hb : b.Shows strict xs) : w'.body.Shows strict xs := by
  have hbody : w'.body = { b with frozen := w.body.frozen } := h
  rw [hbody]
  exact ⟨hb.fits.with_frozen _, hb.toList⟩

theorem TookOver.store {b : Body} {w' : Workspace} (h : TookOver b w w') :
    w'.body.store = b.store := by
  rw [h]

theorem TookOver.frozen {b : Body} {w' : Workspace} (h : TookOver b w w') :
    w'.body.frozen = w.body.frozen := by
  rw [h]

theorem ends_clear : Ends clear w (fun _ w' => TookOver .empty w w') (Halted w) := by
  unfold clear
  rw [ends_bind, ends_checkFrozen]
  split
  · exact .inr ⟨⟨_, rfl⟩, rfl⟩
  · rw [ends_replaceStore (s := .empty) (Nat.le_refl 0)]
    rfl

theorem ends_replace {b : Body} (hsize : b.size ≤ b.capacity) :
    Ends (replace b) w (fun _ w' => TookOver b w w') (Halted w) := by
  unfold replace
  rw [ends_bind, ends_checkFrozen]
  split
  · exact .inr ⟨⟨_, rfl⟩, rfl⟩
  · rw [ends_bind, ends_propagateAll, ends_replaceStore hsize]
    simp [TookOver, Workspace.replaced]

theorem ends_steal {other : ArrayId}
    (hfits : ∀ b, w.arena.body? other = some b → b.size ≤ b.capacity) :
    Ends (steal other) w (fun _ w' => ∃ b, w.arena.body? other = some b ∧ TookOver b w w')
      (Halted w) := by
  unfold steal
  rw [ends_bind, ends_checkFrozen]
  split
  · exact .inr ⟨⟨_, rfl⟩, rfl⟩
  · rw [ends_bind, ends_get, ends_bind, ends_lift]
    cases hother : w.arena.body? other with
    | none => exact .inl Fault.fatal_broken
    | some b =>
        rw [Action.ends_demand_some, ends_bind, ends_lift]
        unfold Action.checkFrozen
        split
        · exact .inr ⟨⟨_, rfl⟩, rfl⟩
        · simp only [ends_pure, ends_bind, ends_propagateAll, ends_modify]
          rw [ends_replaceStore (hfits b hother)]
          exact ⟨b, rfl, by simp [TookOver, Workspace.replaced]⟩

theorem ends_sort (hfits : w.body.Fits strict) :
    Ends sort w (fun _ w' => ∃ b ys, b.New ys ∧ ys.Perm w.body.toList ∧ TookOver b w w')
      (Halted w) := by
  unfold sort
  rw [ends_bind, ends_checkFrozen]
  split
  · exact .inr ⟨⟨_, rfl⟩, rfl⟩
  · rw [ends_bind, ends_get, ends_bind, ends_lift]
    refine (Body.ends_sort hfits).mono ?_ fun f a _ => ?_
    · rintro b a ⟨ys, hnew, hperm⟩
      exact (ends_replace (w := w.withArena a) hnew.shows.fits.size_le).mono
        (fun _ w' h => ⟨b, ys, hnew, hperm, h⟩) fun f w' h => h
    · cases f with
      | raised e => exact .inr ⟨⟨_, rfl⟩, rfl⟩
      | _ => exact .inl nofun

theorem ends_toNative (hfits : w.body.Fits strict) :
    Ends toNative w (fun _ w' => w.body.Becomes strict w.body.toList
      (max w.body.store.extent w.body.size) w'.body) (Halted w) := by
  unfold toNative
  rw [ends_bind, ends_store]
  have hsize : w.body.size ≤ w.body.store.capacity := hfits.size_le
  have hextent := Store.capacity_le_extent hfits.store
  split
  case h_1 => exact Body.Becomes.refl hfits (Nat.le_max_left _ _)
  case h_2 =>
      rw [ends_bind, ends_size, ends_bind, ends_lift]
      refine (Action.ends_newNative _ fun _ => .inl Fault.fatal_outOfMemory).weaken ?_
      rintro fresh a₁ ⟨-, hblank⟩
      have hmut := hblank.isMutable (by simp)
      have hkind : fresh.kind = .native := hblank.kind (by simp)
      have hcap := hblank.capacity
      rw [ends_bind, ends_lift]
      refine (Action.ends_copyTo hfits.store (by rw [Nat.zero_add]; exact hsize) hmut (by omega)
        fun hne => ?_).weaken ?_
      · rw [hkind]
        cases w.body.store with
        | empty => rfl
        | owned b => cases b <;> rfl
        | view v =>
            simp only [Store.kind]
            cases v.backing.buffer.element <;> rfl
        | native _ _ => rfl
      · rintro moved a₂ ⟨-, hover⟩
        have hmovedCap := hover.capacity
        rw [ends_bind, ends_modify, ends_replaceStore (by omega)]
        have hready := Body.Ready.replace strict (b := w.body) (hover.isMutable hmut)
          (by omega) ?_ ?_
        · refine ⟨hready.fits, hready.toList hfits, rfl, ?_, .inl (hover.isMutable hmut)⟩
          change moved.extent ≤ _
          rw [Store.extent_of_isMutable (hover.isMutable hmut)]
          omega
        · intro i hi
          rw [hover.slot, if_pos (by omega), Nat.zero_add, Nat.sub_zero]
        · intro i hle hi
          rw [hover.slot, if_neg (by omega), hblank.slot i (by omega),
            Store.zero_of_kind hover.kind]

/-! ## Starting afresh -/

theorem ends_replaceStore_filled {w' : Workspace} {s : Store} {n : Nat} {v : Value}
    (hbody : w'.body = w.body) (hmut : s.isMutable) (hcapacity : s.capacity = n)
    (hslot : ∀ i, i < n → s.get? i = some v) :
    Ends (replaceStore s n) w'
      (fun _ w'' => ∃ b, b.New (List.replicate n v) ∧ TookOver b w w'') (Halted w) := by
  rw [ends_replaceStore (Nat.le_of_eq hcapacity.symm)]
  refine ⟨{ store := s, size := n }, ?_, by simp [TookOver, Workspace.replaced, hbody]⟩
  have hnew : Body.New (List.replicate n v) _ := Body.new_of_full (Store.fits_of_isMutable hmut)
    (Store.backing?_of_isMutable hmut) (by rw [List.length_replicate, hcapacity]) fun i hi => by
      rw [List.length_replicate] at hi
      rw [hslot i hi, List.getElem?_replicate, if_pos hi]
  rwa [List.length_replicate] at hnew

theorem ends_restartFilled (n : Nat) (v : Value) :
    Ends (restartFilled n v) w
      (fun _ w' => ∃ b, b.New (List.replicate n v) ∧ TookOver b w w') (Halted w) := by
  unfold restartFilled
  split
  case isTrue hzero =>
      rw [ends_replaceStore (s := .empty) (Nat.le_refl 0), hzero]
      exact ⟨.empty, Body.new_empty, rfl⟩
  case isFalse =>
      have hmut := Kind.isMutable_ofValue v
      have hne : Kind.ofValue v ≠ .empty := Kind.ne_empty_of_isMutable hmut
      rw [ends_bind, ends_propagate, ends_bind, ends_lift]
      refine (Action.ends_allocate _ n fun _ => .inl Fault.fatal_outOfMemory).weaken ?_
      rintro fresh a₁ ⟨-, hblank⟩
      have hfresh := hblank.isMutable hne
      have hkind : fresh.kind = Kind.ofValue v := by
        rw [hblank.kind hne, Kind.forMutation_of_isMutable hmut]
      have hcap := hblank.capacity
      split
      case isTrue hnil =>
          refine ends_replaceStore_filled (Workspace.body_offer w v) hfresh hcap fun i hi => ?_
          have hv : v = .nil := by
            cases v with
            | nil => rfl
            | _ => cases hnil
          rw [hblank.slot i hi, Store.zero_of_holds_nil hfresh (by rw [hkind, hv]; rfl), hv]
      case isFalse =>
          have hwritten := Body.foldl_set_replicate hfresh (hkind ▸ Kind.holds_ofValue v) n
            (Nat.le_of_eq hcap.symm)
          rw [ends_bind, ends_lift]
          refine (Action.ends_pollOver n).weaken fun _ a₂ _ => ?_
          refine ends_replaceStore_filled (Workspace.body_offer w v) ?_
            (hwritten.capacity.trans hcap) fun i hi => ?_
          · rwa [Store.isMutable, hwritten.kind]
          · rw [hwritten.slot, List.length_replicate, if_pos (by omega), Nat.sub_zero,
              List.getElem?_replicate, if_pos hi]

theorem ends_sizeArgument {n : Int64} {post : Nat → Workspace → Prop}
    {early : Fault → Workspace → Prop} (hpost : ∀ n, n ≤ maxSize → post n w)
    (hearly : ∀ e, early (.raised e) w) : Ends (sizeArgument n) w post early := by
  unfold sizeArgument
  dsimp only
  by_cases hnegative : n.toInt < 0
  · rw [if_pos hnegative]
    exact hearly _
  · rw [if_neg hnegative]
    split
    · exact hearly _
    case isFalse hsmall => exact hpost _ (Nat.le_of_not_lt hsmall)

end Edit

end AdaptiveArray
