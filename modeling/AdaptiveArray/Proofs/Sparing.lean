import AdaptiveArray.Proofs.Custody
import AdaptiveArray.Proofs.Keeping
import AdaptiveArray.Proofs.Parts
import AdaptiveArray.Proofs.Replacing
import AdaptiveArray.Proofs.Rotation

/-!
# Edits that give up elements or take over others

Parts that become arrays of their own, and edits that put a new store in place of the old
one, keep the arena sound like those that write.
-/

namespace AdaptiveArray.Edit

variable {sharing : Prop} {held : List ArrayId} {α : Type} {w w' : Workspace} {e : Edit α}

/-! ## Parts -/

structure Spares (b : Body) (w : Workspace) : Prop where
  lends : b.Lends w.arena
  backing : ∀ k, b.store.backing? = some k → w.body.store.backing? = some k

theorem spares_empty : Spares .empty w :=
  ⟨⟨Body.fits_empty, nofun⟩, nofun⟩

theorem Spares.of_shows {b : Body} {xs : List Value} (h : w.Kept sharing held)
    (hlater : w.Later held w') (hshows : b.Shows True xs) (hsub : ∀ v ∈ xs, v ∈ w.body.toList)
    (hbacking : ∀ k, b.store.backing? = some k → w'.body.store.backing? = some k) : Spares b w' :=
  ⟨⟨hshows.fits, fun v hv =>
    hlater.arena.knows (h.body.safe v (hsub v (hshows.toList ▸ hv))).known⟩,
    hbacking⟩

theorem mem_drop_take {xs : List Value} {m n : Nat} {v : Value} (hv : v ∈ (xs.drop m).take n) :
    v ∈ xs :=
  List.mem_of_mem_drop (List.mem_of_mem_take hv)

theorem Shared.kept {start stop : Nat} {part : Store} (h : w.Kept sharing held)
    (hshared : Shared True start stop w part w') : w'.Kept sharing held ∧ w.Later held w' := by
  refine h.follow [] ⟨hshared.owner, Arena.Tally.booked hshared.booked⟩ nofun hshared.fits
    (fun v hv => .inl (hshared.toList h.body.fits ▸ hv)) fun k hk => ?_
  rcases hshared.traced k hk with hk | ⟨b, -, rfl, hlt⟩
  · exact .inl (.inr hk)
  · refine .inr ⟨Nat.le_refl _, hlt, fun k' hk' heq => ?_⟩
    have hold := (Arena.backs_congr (Arena.body?_of_objects hshared.booked.objects)
      hshared.booked.stores k').mp hk'
    exact absurd (heq ▸ h.arena.fresh k' hold) (Nat.lt_irrefl _)

theorem Shared.replaced {start stop : Nat} {part : Store} (h : w.Kept sharing held)
    (hshared : Shared True start stop w part w') (hstop : stop ≤ w.body.size) :
    (w'.replaced part (stop - start)).Kept sharing held ∧
      w.Later held (w'.replaced part (stop - start)) := by
  obtain ⟨h', hlater⟩ := hshared.kept h
  have hshows := hshared.shows True h.body.fits hstop
  have hfollows : Workspace.Follows (Arena.Evolves sharing (w'.owner :: held)) w'
      (w'.replaced part (stop - start)) :=
    ⟨rfl, Arena.Tally.booked (Arena.Booked.release w'.arena w'.body.store)⟩
  have hkept := h'.follow [] hfollows nofun (hshows.fits.with_frozen _) (fun v hv => ?_)
    fun k hk => .inl (.inr (hshared.part.backing ▸ hk))
  · exact ⟨hkept.1, hlater.trans hkept.2⟩
  · have hv' : v ∈ ({ store := part, size := stop - start } : Body).toList := hv
    rw [hshows.toList] at hv'
    exact .inl (hshared.toList h.body.fits ▸ mem_drop_take hv')

theorem keeps_extractShared (h : w.Kept sharing held) (start stop : Nat) :
    Keeps sharing held (extractShared start stop) w fun part w' =>
      ∀ k, part.backing? = some k → w'.body.store.backing? = some k := by
  by_cases hin : start ≤ stop ∧ stop ≤ w.body.size
  · exact (ends_extractShared h.body.fits hin.1 hin.2).weaken fun _ _ hshared =>
      ⟨hshared.kept h, fun _ hk => hshared.part.backing ▸ hk⟩
  · unfold Keeps extractShared
    rw [ends_bind, ends_size, ends_bind, ends_lift, Action.ends_ensure, if_neg (by simpa using hin)]
    exact .inl Fault.fatal_broken

theorem keeps_slice (h : w.Kept sharing held) (start length : Int64) :
    Keeps sharing held (slice start length) w fun part w' => ∀ b, part = some b → Spares b w' := by
  refine (ends_slice h.body.fits start length).weaken ?_
  rintro part w' (⟨rfl, rfl, -⟩ | ⟨first, stop, s, -, -, hle, hlimit, hshared, rfl⟩)
  · exact ⟨Keeps.nothing h, nofun⟩
  · have hstop : stop ≤ w.body.size := hlimit ▸ Nat.min_le_right _ _
    have hkept := hshared.kept h
    refine ⟨hkept, fun b hb => ?_⟩
    cases hb
    exact .of_shows h hkept.2 (hshared.shows _ h.body.fits hstop) (fun _ => mem_drop_take)
      fun k hk => hshared.part.backing ▸ hk

theorem keeps_dup (h : w.Kept sharing held) : Keeps sharing held dup w Spares := by
  refine (ends_dup h.body.fits).weaken ?_
  rintro b w' (⟨-, rfl, rfl⟩ | ⟨part, hshared, rfl⟩)
  · exact ⟨Keeps.nothing h, spares_empty⟩
  · have hkept := hshared.kept h
    exact ⟨hkept, .of_shows h hkept.2 (hshared.shows _ h.body.fits (Nat.le_refl _))
      (fun _ => mem_drop_take) fun k hk => hshared.part.backing ▸ hk⟩

theorem Refused.kept {f : Fault} (h : w.Kept sharing held) (hrefused : Refused w f w')
    (hfollows : f.Fatal ∨ Workspace.Follows (Arena.Evolves sharing (w.owner :: held)) w w') :
    f.Fatal ∨ w'.Kept sharing held ∧ w.Later held w' :=
  hfollows.imp_right fun hfollows => keeps_same h hfollows hrefused.2

theorem Truncated.kept {m : Nat} {s : Store} {a : Arena} (h : w.Kept sharing held)
    (htruncated : Truncated m w.body s) (hm : m ≤ w.body.size) (hbooked : w.arena.Booked a) :
    (((w.withArena a).withStore s).withSize m).Kept sharing held ∧
      w.Later held (((w.withArena a).withStore s).withSize m) := by
  have hshows := htruncated.shows h.body.fits hm
  refine h.follow [] ⟨rfl, Arena.Tally.booked hbooked⟩ nofun hshows.fits
    (fun v hv => .inl ?_) fun k hk => .inl (.inr (htruncated.backing ▸ hk))
  have hv' : v ∈ ({ w.body with store := s, size := m } : Body).toList := hv
  rw [hshows.toList] at hv'
  exact List.mem_of_mem_take hv'

theorem keeps_pop (h : w.Kept sharing held) : Keeps sharing held pop w fun _ _ => True := by
  have hwithin := within_pop
    (S := Workspace.Follows (Arena.Evolves sharing (w.owner :: held))) w
  refine ((ends_pop h.body.fits).and hwithin).mono ?_ fun _ _ hf => hf.1.1.kept h hf.2
  rintro _ w' ⟨⟨-, -, rfl⟩ | ⟨-, -, s, hs, rfl⟩, -⟩
  · exact ⟨Keeps.nothing h, trivial⟩
  · exact ⟨hs.kept (a := w.arena) h (Nat.sub_le _ _) (.refl _), trivial⟩

theorem keeps_popN (h : w.Kept sharing held) (count : Int64) :
    Keeps sharing held (popN count) w Spares := by
  have hwithin := within_popN
    (S := Workspace.Follows (Arena.Evolves sharing (w.owner :: held))) count w
  refine ((ends_popN h.body.fits count).and hwithin).mono ?_ fun _ _ hf => hf.1.1.kept h hf.2
  rintro b w' ⟨⟨-, rfl, rfl⟩ | ⟨taken, part, s, htaken, hpart, rfl, hs, a, hbooked, rfl⟩, -⟩
  · exact ⟨Keeps.nothing h, spares_empty⟩
  · have hle : taken ≤ w.body.size := htaken ▸ Nat.min_le_right _ _
    have hkept := hs.kept h (Nat.sub_le _ _) hbooked
    have hshows := Body.shows_part True h.body.fits (Nat.le_refl _) hpart
    rw [show w.body.size - (w.body.size - taken) = taken by omega] at hshows
    refine ⟨hkept, .of_shows h hkept.2 hshows (fun _ => mem_drop_take) fun k hk => ?_⟩
    exact hs.backing.trans (hpart.backing ▸ hk)

theorem keeps_shift (h : w.Kept sharing held) : Keeps sharing held shift w fun _ _ => True := by
  have hwithin := within_shift
    (S := Workspace.Follows (Arena.Evolves sharing (w.owner :: held))) w
  refine ((ends_shift h.body.fits).and hwithin).mono ?_ fun _ _ hf => hf.1.1.kept h hf.2
  rintro _ w' ⟨⟨-, -, rfl⟩ | ⟨-, -, part, w'', hshared, rfl⟩, -⟩
  · exact ⟨Keeps.nothing h, trivial⟩
  · exact ⟨hshared.replaced h (Nat.le_refl _), trivial⟩

theorem keeps_shiftN (h : w.Kept sharing held) (count : Int64) :
    Keeps sharing held (shiftN count) w Spares := by
  have hwithin := within_shiftN
    (S := Workspace.Follows (Arena.Evolves sharing (w.owner :: held))) count w
  refine ((ends_shiftN h.body.fits count).and hwithin).mono ?_ fun _ _ hf => hf.1.1.kept h hf.2
  rintro b w' ⟨⟨-, rfl, rfl⟩ | ⟨taken, part, rest, w₁, w₂, htaken, h₁, h₂, rfl, rfl⟩, -⟩
  · exact ⟨Keeps.nothing h, spares_empty⟩
  · have hle : taken ≤ w.body.size := htaken ▸ Nat.min_le_right _ _
    obtain ⟨hk₁, hlater₁⟩ := h₁.kept h
    have hsize : w₁.body.size = w.body.size := h₁.size
    have hkept := h₂.replaced hk₁ (Nat.le_of_eq hsize.symm)
    have hlater := hlater₁.trans hkept.2
    refine ⟨⟨hkept.1, hlater⟩, .of_shows h hlater (h₁.shows _ h.body.fits hle)
      (fun _ => mem_drop_take) fun k hk => ?_⟩
    -- The second part is taken from the store that the first one was taken from.
    have hk₁ := h₁.part.backing ▸ hk
    exact h₂.part.backing.trans (h₂.stays h₁.unowned ▸ hk₁)

/-! ## Other elements -/

theorem TookOver.kept {b : Body} (htook : TookOver b w w') (h : w.Kept sharing held)
    (vs : List Value)
    (hfollows : Workspace.Follows (Arena.Evolves sharing (w.owner :: held))
      (vs.foldl Workspace.offer w) w')
    (hknown : ∀ v ∈ vs, w.arena.Knows v) (hfits : b.Fits True)
    (hmem : ∀ v ∈ b.toList, v ∈ w.body.toList ∨ v ∈ vs ∨ v.arrayId? = none)
    (hbacks : ∀ k, b.store.backing? = some k → w.Backs k) :
    w'.Kept sharing held ∧ w.Later held w' := by
  have hshows := htook.shows ⟨hfits, rfl⟩
  exact h.follow vs hfollows hknown hshows.fits (hshows.toList ▸ hmem) fun k hk =>
    .inl (hbacks k (htook.store ▸ hk))

theorem Halted.kept {f : Fault} (h : w.Kept sharing held) (hhalted : Halted w f w')
    (hfollows : f.Fatal ∨ Workspace.Follows (Arena.Evolves sharing (w.owner :: held)) w w') :
    f.Fatal ∨ w'.Kept sharing held ∧ w.Later held w' :=
  hhalted.elim .inl fun hrefused => hrefused.kept h hfollows

theorem keeps_clearStore (h : w.Kept sharing held) :
    Keeps sharing held (replaceStore .empty 0) w fun _ _ => True := by
  unfold Keeps
  rw [ends_replaceStore (s := .empty) (Nat.le_refl 0)]
  refine ⟨?_, trivial⟩
  have htook : TookOver .empty w (w.replaced .empty 0) := rfl
  exact htook.kept h [] ⟨rfl, Arena.Tally.booked (Arena.Booked.release _ _)⟩ nofun
    Body.fits_empty nofun nofun

theorem keeps_clear (h : w.Kept sharing held) : Keeps sharing held clear w fun _ _ => True :=
  keeps_checkFrozen h (keeps_clearStore h)

theorem keeps_replace (h : w.Kept sharing held) {b : Body} (hb : b.Lends w.arena)
    (hbacks : ∀ k, b.store.backing? = some k → w.Backs k) :
    Keeps sharing held (replace b) w fun _ _ => True := by
  have hput : Within (Workspace.Follows (Arena.Evolves sharing (w.owner :: held)))
      (replaceStore b.store b.size) := follows_replaceStore _ _
  have hoffers := offers_replace hput w
  refine ((ends_replace hb.fits.size_le).and hoffers).mono ?_ ?_
  · exact fun _ w' hw => ⟨hw.1.kept h _ hw.2 hb.known hb.fits (fun v hv => .inr (.inl hv)) hbacks,
      trivial⟩
  · exact fun f w' hf => hf.1.kept h hf.2

theorem keeps_steal (h : w.Kept sharing held) {other : ArrayId} (hother : other ∉ w.owner :: held) :
    Keeps sharing held (steal other) w fun _ _ => True := by
  have hsound : ∀ b, w.arena.body? other = some b →
      b.Fits True ∧ (∀ v ∈ b.toList, w.arena.Knows v) ∧
      ∀ k, b.store.backing? = some k → w.arena.Backs k := by
    intro b hb
    obtain ⟨o, ho, rfl⟩ := Option.map_eq_some_iff.mp hb
    exact ⟨h.arena.fits other o ho, h.arena.known other o ho,
      fun k hk => Arena.backs_of_object? ho hk⟩
  have hoffers := offers_steal (S := Workspace.Follows (Arena.Evolves sharing (w.owner :: held)))
    (follows_robbed fun _ b _ _ => Arena.emptied_evolves hother b) w
  refine ((ends_steal fun b hb => (hsound b hb).1.size_le).and hoffers).mono ?_
    fun f w' hf => hf.1.kept h hf.2
  rintro _ w' ⟨⟨b, hb, htook⟩, hfollows⟩
  rw [hb] at hfollows
  obtain ⟨hfits, hknown, hbacks⟩ := hsound b hb
  exact ⟨htook.kept h _ hfollows hknown hfits (fun v hv => .inr (.inl hv))
    fun k hk => .inl (hbacks k hk), trivial⟩

theorem keeps_sort (h : w.Kept sharing held) : Keeps sharing held sort w fun _ _ => True := by
  have hwithin := within_sort
    (S := Workspace.Follows (Arena.Evolves sharing (w.owner :: held))) w
  refine ((ends_sort h.body.fits).and hwithin).mono ?_ fun f w' hf => hf.1.kept h hf.2
  rintro _ w' ⟨⟨b, ys, hnew, hperm, htook⟩, hfollows⟩
  refine ⟨htook.kept h [] hfollows nofun hnew.shows.fits (fun v hv => .inl ?_)
    fun k hk => ?_, trivial⟩
  · exact hperm.mem_iff.mp (hnew.shows.toList ▸ hv)
  · rw [hnew.backing] at hk
    cases hk

theorem keeps_freeze (h : w.Kept sharing held) : Keeps sharing held freeze w fun _ _ => True :=
  ⟨h.follow [] ⟨rfl, Evolution.refl w.arena⟩ nofun (h.body.fits.with_frozen true)
    (fun _ hv => .inl hv) fun _ hk => .inl (.inr hk), trivial⟩

theorem keeps_becomes {e : Edit Unit} {xs : List Value} {limit : Nat}
    {early : Fault → Workspace → Prop} (h : w.Kept sharing held)
    (hends : Ends e w (fun _ w' => w.body.Becomes True xs limit w'.body) early)
    (hearly : ∀ f w', early f w' → Halted w f w')
    (hwithin : Ends e w
      (fun _ w' => Workspace.Follows (Arena.Evolves sharing (w.owner :: held)) w w')
      fun f w' => f.Fatal ∨ Workspace.Follows (Arena.Evolves sharing (w.owner :: held)) w w')
    (hmem : ∀ v ∈ xs, v ∈ w.body.toList) : Keeps sharing held e w fun _ _ => True := by
  refine (hends.and hwithin).mono ?_ fun f w' hf => (hearly f w' hf.1).kept h hf.2
  rintro _ w' ⟨hbecomes, hfollows⟩
  exact ⟨h.follow [] hfollows nofun hbecomes.fits
    (fun v hv => .inl (hmem v (hbecomes.toList ▸ hv)))
    fun k hk => .inl (Workspace.backs_of_store hbecomes.store hk), trivial⟩

theorem keeps_toNative (h : w.Kept sharing held) :
    Keeps sharing held toNative w fun _ _ => True :=
  keeps_becomes h (ends_toNative h.body.fits) (fun _ _ hf => hf) (within_toNative w) fun _ hv => hv

theorem keeps_rotate (h : w.Kept sharing held) (count : Int64) :
    Keeps sharing held (rotate count) w fun _ _ => True :=
  keeps_becomes h (ends_rotate h.body.fits count (fun _ => .inr ⟨⟨_, rfl⟩, rfl⟩)
      fun _ => .inl Fault.fatal_outOfMemory) (fun _ _ hf => hf) (within_rotate count w)
    fun _ hv => mem_rotated hv

/-! ## Starting afresh -/

theorem keeps_restartFilled (h : w.Kept sharing held) (n : Nat) {v : Value}
    (hknown : w.arena.Knows v) : Keeps sharing held (restartFilled n v) w fun _ _ => True := by
  have hoffers := offers_restartFilled
    (S := Workspace.Follows (Arena.Evolves sharing (w.owner :: held))) n v w
  refine ((ends_restartFilled n v).and hoffers).mono ?_ fun f w' hf => hf.1.kept h hf.2
  rintro _ w' ⟨⟨b, hnew, htook⟩, hfollows⟩
  refine ⟨htook.kept h _ hfollows (fun x hx => ?_) hnew.shows.fits (fun x hx => .inr (.inl ?_))
    fun k hk => ?_, trivial⟩
  · split at hx
    · cases hx
    · exact List.mem_singleton.mp hx ▸ hknown
  · rw [hnew.shows.toList] at hx
    obtain ⟨hn, rfl⟩ := List.mem_replicate.mp hx
    rw [if_neg hn]
    exact List.mem_cons_self
  · rw [hnew.backing] at hk
    cases hk

theorem keeps_sized {e : Nat → Edit α} {post : α → Workspace → Prop} (h : w.Kept sharing held)
    (n : Int64) (he : ∀ n, Keeps sharing held (e n) w post) :
    Keeps sharing held (sizeArgument n >>= e) w post := by
  unfold Keeps
  rw [ends_bind]
  exact ends_sizeArgument (fun n _ => he n) fun _ => .inr (Keeps.nothing h)

theorem keeps_fail (h : w.Kept sharing held) (e : ArrayError) {post : α → Workspace → Prop} :
    Keeps sharing held (liftM (Action.fail e : Action α) : Edit α) w post :=
  .inr (Keeps.nothing h)

theorem keeps_restart (h : w.Kept sharing held) (size? : Option Value) {fill? : Option Value}
    (hknown : ∀ v, fill? = some v → w.arena.Knows v) :
    Keeps sharing held (restart size? fill?) w fun _ _ => True := by
  have hfill : w.arena.Knows (fill?.getD .nil) := by
    cases fill? with
    | none => exact nofun
    | some v => exact hknown v rfl
  have hfilled (n : Int64) : Keeps sharing held
      (do restartFilled (← sizeArgument n) (fill?.getD .nil)) w fun _ _ => True :=
    keeps_sized h n fun n => keeps_restartFilled h n hfill
  refine keeps_checkFrozen h ?_
  split
  · exact keeps_clearStore h
  · rename_i source
    unfold Keeps
    rw [ends_bind, ends_get]
    split
    · exact keeps_pure h trivial
    · split
      · rename_i b hb
        obtain ⟨o, ho, hfree, rfl⟩ := Arena.exists_of_readable? hb
        have hshows := Body.shows_clone (h.arena.fits source o ho)
        refine keeps_replace h ⟨hshows.fits, fun v hv => ?_⟩ fun k hk => ?_
        · exact h.arena.known source o ho v (hshows.toList ▸ hv)
        · exact .inl (Arena.backs_of_object? ho (Store.backing?_of_clone hk))
      · exact keeps_fail h _
  · exact hfilled _
  · split
    · exact keeps_fail h _
    · exact hfilled _
  · exact keeps_fail h _

theorem keeps_restartWith (h : w.Kept sharing held) (n : Int64) {f : Block Value}
    (hf : Behaves sharing (w.owner :: held) w.arena (fun y c => c.Knows y) f.run) :
    Keeps sharing held (restartWith n f) w fun _ _ => True := by
  refine keeps_checkFrozen h (keeps_sized h n fun n => ?_)
  refine Keeps.bind (keeps_clearStore h) fun _ w' h' hlater _ => ?_
  exact keeps_pushFrom n h' (hlater.owner ▸ hf.later hlater.arena)

end AdaptiveArray.Edit
