import AdaptiveArray.Proofs.Concat
import AdaptiveArray.Proofs.Mapping
import AdaptiveArray.Proofs.Removal
import AdaptiveArray.Proofs.Soundness

/-!
# Edits keep the arena sound

However an edit ends, short of a fatal fault, the arena without the body is sound, and
the body can be put back into it.
-/

namespace AdaptiveArray

variable {sharing : Prop} {held : List ArrayId}

namespace Workspace

/-- The arena is sound while its owner is edited, and the body can be put back. -/
structure Kept (sharing : Prop) (held : List ArrayId) (w : Workspace) : Prop where
  arena : w.arena.Sound sharing (w.owner :: held)
  body : w.arena.Suits sharing w.owner w.body

def Backs (w : Workspace) (k : Backing) : Prop :=
  w.arena.Backs k ∨ w.body.store.backing? = some k

structure Later (held : List ArrayId) (w w' : Workspace) : Prop where
  owner : w'.owner = w.owner
  arena : w.arena.Later (w.owner :: held) w'.arena
  traced : ∀ k, w'.body.store.backing? = some k → w.Backs k ∨ w.arena.nextBacking ≤ k.id

variable {w w' w'' : Workspace}

theorem Later.refl (w : Workspace) : w.Later held w :=
  ⟨rfl, .refl _, fun _ hk => .inl (.inr hk)⟩

theorem Later.trans (h : w.Later held w') (h' : w'.Later held w'') : w.Later held w'' where
  owner := h'.owner.trans h.owner
  arena := h.arena.trans (h.owner ▸ h'.arena)
  traced k hk := by
    rcases h'.traced k hk with (hk | hk) | hk
    · exact (h.arena.traced k hk).imp_left .inl
    · exact h.traced k hk
    · exact .inr (Nat.le_trans h.arena.nextBacking hk)

theorem Kept.isSome (h : w.Kept sharing held) : (w.arena.object? w.owner).isSome := by
  obtain ⟨o, ho, -⟩ := h.arena.locked w.owner List.mem_cons_self
  rw [ho]
  rfl

theorem Kept.withArena (h : w.Kept sharing held) {a : Arena}
    (ha : a.Sound sharing (w.owner :: held)) (hlater : w.arena.Later (w.owner :: held) a) :
    (w.withArena a).Kept sharing held ∧ w.Later held (w.withArena a) :=
  ⟨⟨ha, hlater.suits List.mem_cons_self h.isSome h.body⟩, rfl, hlater, fun _ hk => .inl (.inr hk)⟩

theorem safe_offer (ha : w.arena.Sound sharing (w.owner :: held)) {v : Value}
    (hv : w.arena.Knows v) : (w.offer v).arena.Safe sharing w.owner v := by
  have hfollows := Edit.follows_offer
    (S := Workspace.Follows (Arena.Evolves sharing (w.owner :: held))) w v
  refine ⟨(hfollows.2 ha).2.knows hv, fun _ hshared j hj => .inl ?_⟩
  have hv' : v = .array j := by
    cases v with
    | array i => exact congrArg Value.array (Option.some.inj hj)
    | _ => cases hj
  subst hv'
  unfold offer Arena.offer at hshared ⊢
  split at hshared
  case isTrue howner =>
      rw [if_pos howner]
      exact Arena.isShared_shareValue (hv j rfl)
  case isFalse howner => exact absurd hshared howner

theorem safe_foldl_offer (vs : List Value) : ∀ {w : Workspace},
    w.arena.Sound sharing (w.owner :: held) → (w.arena.object? w.owner).isSome →
    (∀ v ∈ vs, w.arena.Knows v) →
    ∀ v ∈ vs, (vs.foldl offer w).arena.Safe sharing w.owner v := by
  induction vs with
  | nil => exact fun _ _ _ _ hv => nomatch hv
  | cons v vs ih =>
      intro w ha hsome hknown x hx
      have hfollows := Edit.follows_offer
        (S := Workspace.Follows (Arena.Evolves sharing (w.owner :: held))) w v
      obtain ⟨ha', hlater⟩ := hfollows.2 ha
      have hsome' := hlater.alive _ hsome
      rw [List.foldl_cons]
      rcases List.mem_cons.mp hx with rfl | hx
      · have hrest := Edit.follows_foldl_offer
          (S := Workspace.Follows (Arena.Evolves sharing (w.owner :: held))) vs
          (w.offer x)
        exact (hrest.2 ha').2.safe List.mem_cons_self hsome'
          (safe_offer ha (hknown x List.mem_cons_self))
      · exact ih (w := w.offer v) ha' hsome'
          (fun y hy => hlater.knows (hknown y (List.mem_cons_of_mem v hy))) x hx

end Workspace

namespace Workspace

variable {w w' : Workspace}

theorem Kept.accepts (h : w.Kept sharing held) {k : Backing} (hk : w.Backs k) :
    w.arena.Accepts k :=
  hk.elim h.arena.accepts (h.body.accepts k)

/-- The elements left are old ones, or known values that were offered, or refer to no array; and the
store left looks at no backing but an old one or a new one. -/
theorem Kept.follow (h : w.Kept sharing held) (vs : List Value)
    (hfollows : Follows (Arena.Evolves sharing (w.owner :: held)) (vs.foldl offer w) w')
    (hknown : ∀ v ∈ vs, w.arena.Knows v) (hfits : w'.body.Fits True)
    (hmem : ∀ v ∈ w'.body.toList, v ∈ w.body.toList ∨ v ∈ vs ∨ v.arrayId? = none)
    (hbacks : ∀ k, w'.body.store.backing? = some k →
      w.Backs k ∨ w.arena.nextBacking ≤ k.id ∧ w'.arena.Accepts k) :
    w'.Kept sharing held ∧ w.Later held w' := by
  have hoffers := Edit.follows_foldl_offer
    (S := Workspace.Follows (Arena.Evolves sharing (w.owner :: held))) vs w
  obtain ⟨ha₁, hlater₁⟩ := hoffers.2 h.arena
  obtain ⟨ha, hlater₂⟩ := hfollows.2 ha₁
  have howner : w'.owner = w.owner := hfollows.1.trans hoffers.1
  have hlater := hlater₁.trans hlater₂
  have hsome := hlater₁.alive _ h.isSome
  refine ⟨⟨howner ▸ ha, hfits, fun v hv => ?_, fun k hk => ?_⟩, howner, hlater, fun k hk => ?_⟩
  · rw [howner]
    rcases hmem v hv with hv | hv | hv
    · exact hlater.safe List.mem_cons_self h.isSome (h.body.safe v hv)
    · exact hlater₂.safe List.mem_cons_self hsome
        (safe_foldl_offer vs h.arena h.isSome hknown v hv)
    · exact Arena.safe_of_arrayId?_eq_none hv
  · rcases hbacks k hk with hk | hk
    · exact hlater.accepts (h.accepts hk)
    · exact hk.2
  · exact (hbacks k hk).imp_right And.left

theorem backs_of_store {k : Backing}
    (hstore : w'.body.store.isMutable ∨ w'.body.store = w.body.store)
    (hk : w'.body.store.backing? = some k) : w.Backs k := by
  rcases hstore with hmut | heq
  · rw [Store.backing?_of_isMutable hmut] at hk
    cases hk
  · exact .inr (heq ▸ hk)

end Workspace

def Action.Keeps {α : Type} (sharing : Prop) (held : List ArrayId) (act : Action α) (a : Arena)
    (post : α → Arena → Prop) : Prop :=
  Ends act a (fun x b => (b.Sound sharing held ∧ a.Later held b) ∧ post x b)
    (fun f b => f.Fatal ∨ b.Sound sharing held ∧ a.Later held b)

structure Body.Lends (a : Arena) (b : Body) : Prop where
  fits : b.Fits True
  known : ∀ v ∈ b.toList, a.Knows v

namespace Edit

variable {α : Type} {w w' : Workspace} {e : Edit α}

def Keeps (sharing : Prop) (held : List ArrayId) (e : Edit α) (w : Workspace)
    (post : α → Workspace → Prop) : Prop :=
  Ends e w (fun x w' => (w'.Kept sharing held ∧ w.Later held w') ∧ post x w')
    (fun f w' => f.Fatal ∨ w'.Kept sharing held ∧ w.Later held w')

theorem Keeps.weaken {post post' : α → Workspace → Prop} (h : Keeps sharing held e w post)
    (hpost : ∀ x w', post x w' → post' x w') : Keeps sharing held e w post' :=
  Ends.weaken h fun _ _ hw => ⟨hw.1, hpost _ _ hw.2⟩

theorem Keeps.nothing (h : w.Kept sharing held) : w.Kept sharing held ∧ w.Later held w :=
  ⟨h, .refl w⟩

theorem keeps_same (h : w.Kept sharing held)
    (hfollows : Workspace.Follows (Arena.Evolves sharing (w.owner :: held)) w w')
    (hbody : w'.body = w.body) : w'.Kept sharing held ∧ w.Later held w' :=
  h.follow [] hfollows nofun (hbody ▸ h.body.fits) (fun _ hv => .inl (hbody ▸ hv))
    fun _ hk => .inl (.inr (hbody ▸ hk))

/-! ## Writing -/

theorem keeps_writes {e : Edit Unit} {vs : List Value} {result? : Option (List Value)}
    (h : w.Kept sharing held) (hwrites : Writes True e w [] result?)
    (hoffers : Offers (Workspace.Follows (Arena.Evolves sharing (w.owner :: held))) vs e w)
    (hknown : ∀ v ∈ vs, w.arena.Knows v)
    (hmem : ∀ xs, result? = some xs →
      ∀ v ∈ xs, v ∈ w.body.toList ∨ v ∈ vs ∨ v.arrayId? = none) :
    Keeps sharing held e w fun _ _ => True := by
  refine (Ends.and hwrites hoffers).mono ?_ fun f w' hf => ?_
  · rintro _ w' ⟨⟨xs, hxs, hbecomes⟩, hfollows⟩
    exact ⟨h.follow _ hfollows hknown hbecomes.fits (hbecomes.toList ▸ hmem xs hxs)
      fun k hk => .inl (Workspace.backs_of_store hbecomes.store hk), trivial⟩
  · cases f with
    | raised e =>
        obtain ⟨⟨-, hleft⟩, hfollows⟩ := hf
        have hfollows := hfollows.resolve_left (Fault.not_fatal_raised e)
        exact .inr (h.follow [] hfollows nofun hleft.fits hleft.mem
          fun k hk => .inl (Workspace.backs_of_store hleft.store hk))
    | _ => exact .inl nofun

theorem keeps_push (h : w.Kept sharing held) {v : Value} (hknown : w.arena.Knows v) :
    Keeps sharing held (push v) w fun _ _ => True := by
  refine keeps_writes h (writes_push h.body.fits v) (offers_push v w)
    (fun x hx => List.mem_singleton.mp hx ▸ hknown) fun xs hxs x hx => ?_
  cases hxs
  exact (List.mem_append.mp hx).imp_right .inl

theorem keeps_forM_push (vs : List Value) : ∀ {w : Workspace}, w.Kept sharing held →
    (∀ v ∈ vs, w.arena.Knows v) → Keeps sharing held (vs.forM push) w fun _ _ => True := by
  induction vs with
  | nil => exact fun h _ => ⟨Keeps.nothing h, trivial⟩
  | cons v vs ih =>
      intro w h hknown
      refine Ends.bind (keeps_push h (hknown v List.mem_cons_self)) ?_
      rintro _ w' ⟨⟨h', hlater⟩, -⟩
      refine (ih h' fun x hx =>
        hlater.arena.knows (hknown x (List.mem_cons_of_mem v hx))).mono ?_ ?_
      · exact fun _ w'' hw => ⟨⟨hw.1.1, hlater.trans hw.1.2⟩, trivial⟩
      · exact fun f w'' hw => hw.imp_right fun hw => ⟨hw.1, hlater.trans hw.2⟩

theorem keeps_checkFrozen {rest : Unit → Edit α} {post : α → Workspace → Prop}
    (h : w.Kept sharing held) (hrest : Keeps sharing held (rest ()) w post) :
    Keeps sharing held (checkFrozen >>= rest) w post := by
  unfold Keeps
  rw [ends_bind, ends_checkFrozen]
  split
  · exact .inr (Keeps.nothing h)
  · exact hrest

theorem keeps_pushAll (h : w.Kept sharing held) {vs : List Value}
    (hknown : ∀ v ∈ vs, w.arena.Knows v) :
    Keeps sharing held (pushAll vs) w fun _ _ => True :=
  keeps_checkFrozen h (keeps_forM_push vs h hknown)

theorem mem_splice {xs vs : List Value} {position : Nat} {v : Value}
    (hv : v ∈ splice xs position vs) : v ∈ xs ∨ v ∈ vs ∨ v.arrayId? = none := by
  unfold splice at hv
  rcases List.mem_append.mp hv with hv | hv
  · rcases List.mem_append.mp hv with hv | hv
    · rcases List.mem_append.mp (List.mem_of_mem_take hv) with hv | hv
      · exact .inl hv
      · exact .inr (.inr (by rw [List.eq_of_mem_replicate hv]; rfl))
    · exact .inr (.inl hv)
  · exact .inl (List.mem_of_mem_drop hv)

theorem mem_overwrite {xs : List Value} {position : Nat} {v x : Value}
    (hx : x ∈ overwrite xs position v) : x ∈ xs ∨ x ∈ [v] ∨ x.arrayId? = none := by
  unfold overwrite at hx
  rcases List.mem_or_eq_of_mem_set hx with hx | rfl
  · rcases List.mem_append.mp hx with hx | hx
    · exact .inl hx
    · exact .inr (.inr (by rw [List.eq_of_mem_replicate hx]; rfl))
  · exact .inr (.inl List.mem_cons_self)

theorem keeps_insert (h : w.Kept sharing held) (index : Int64) {vs : List Value}
    (hknown : ∀ v ∈ vs, w.arena.Knows v) :
    Keeps sharing held (insert index vs) w fun _ _ => True := by
  refine keeps_writes h (writes_insert h.body.fits index vs) (offers_insert index vs w) hknown
    fun xs hxs v hv => ?_
  split at hxs
  · cases hxs
    exact .inl hv
  · obtain ⟨position, -, rfl⟩ := Option.map_eq_some_iff.mp hxs
    exact mem_splice hv

theorem keeps_unshift (h : w.Kept sharing held) {vs : List Value}
    (hknown : ∀ v ∈ vs, w.arena.Knows v) :
    Keeps sharing held (unshift vs) w fun _ _ => True := by
  refine keeps_writes h (writes_unshift h.body.fits vs) (offers_unshift vs w) hknown
    fun xs hxs v hv => ?_
  cases hxs
  exact (List.mem_append.mp hv).elim (fun hv => .inr (.inl hv)) .inl

theorem keeps_set (h : w.Kept sharing held) (index : Int64) {v : Value}
    (hknown : w.arena.Knows v) : Keeps sharing held (set index v) w fun _ _ => True := by
  refine keeps_writes h (writes_set h.body.fits index v) (offers_set index v w)
    (fun x hx => List.mem_singleton.mp hx ▸ hknown) fun xs hxs x hx => ?_
  obtain ⟨position, -, rfl⟩ := Option.map_eq_some_iff.mp hxs
  exact mem_overwrite hx

theorem keeps_fill (h : w.Kept sharing held) {v : Value} (hknown : w.arena.Knows v) :
    Keeps sharing held (fill v) w fun _ _ => True := by
  refine keeps_writes h (writes_fill h.body.fits v) (offers_fill v w) (fun x hx => ?_)
    fun xs hxs x hx => ?_
  · split at hx
    · cases hx
    · exact List.mem_singleton.mp hx ▸ hknown
  · cases hxs
    obtain ⟨y, hy, rfl⟩ := List.mem_map.mp hx
    rw [if_neg fun hsize => by
      rw [Body.toList_of_size_eq_zero h.body.fits hsize] at hy
      cases hy]
    exact .inr (.inl List.mem_cons_self)

theorem keeps_concat (h : w.Kept sharing held) {others : List Body}
    (hothers : ∀ b ∈ others, b.Lends w.arena) :
    Keeps sharing held (concat others) w fun _ _ => True := by
  refine keeps_writes h (writes_concat h.body.fits fun b hb => (hothers b hb).fits)
    (offers_concat others w) (fun v hv => ?_) fun xs hxs v hv => ?_
  · split at hv
    · cases hv
    · obtain ⟨b, hb, hvb⟩ := List.mem_flatMap.mp hv
      exact (hothers b hb).known v hvb
  · cases hxs
    refine (List.mem_append.mp hv).imp_right fun hv => .inl ?_
    rw [if_neg fun hnone => ?_]
    · exact hv
    · rw [foldl_size, Nat.zero_add, ← length_flatMap_toList
        fun b hb => (hothers b hb).fits] at hnone
      rw [List.length_eq_zero_iff.mp hnone] at hv
      cases hv

/-! ## Blocks -/

/-- Run on known values in a sound arena that is later than `a`, the action leaves a sound arena,
and what it answers is as it should be there. -/
def Behaves {β : Type} (sharing : Prop) (held : List ArrayId) (a : Arena)
    (answers : β → Arena → Prop) (act : Value → Action β) : Prop :=
  ∀ v b, a.Later held b → b.Sound sharing held → b.Knows v →
    Action.Keeps sharing held (act v) b answers

theorem Behaves.later {β : Type} {a b : Arena} {answers : β → Arena → Prop} {act : Value → Action β}
    (h : Behaves sharing held a answers act) (hlater : a.Later held b) :
    Behaves sharing held b answers act :=
  fun v c hc => h v c (hlater.trans hc)

theorem keeps_map (h : w.Kept sharing held) {f : Block Value}
    (hf : Behaves sharing (w.owner :: held) w.arena (fun y c => c.Knows y) f.run) :
    Keeps sharing held (map f) w fun _ _ => True := by
  let I (_ : Nat) (w' : Workspace) : Prop :=
    (w'.Kept sharing held ∧ w.Later held w') ∧ w'.body.size = w.body.size
  refine Ends.mono (ends_map (I := I) (fun hI => ⟨hI.1.1.body.fits, hI.2⟩) ?_
    (fun _ _ _ => .inl Fault.fatal_outOfMemory) ⟨Keeps.nothing h, rfl⟩
      fun _ _ => .inr (Keeps.nothing h))
    (fun _ w' hI => ⟨hI.1, trivial⟩) fun _ _ hf => hf
  rintro i w' v ⟨⟨h', hlater⟩, hsize⟩ hv
  have howner := hlater.owner
  have hknown := (h'.body.safe v (List.mem_of_getElem? hv)).known
  refine (hf v w'.arena hlater.arena (howner ▸ h'.arena) hknown).mono ?_ ?_
  · rintro y a ⟨⟨hsound, hlater'⟩, hy⟩ w'' hfollows hbecomes
    rw [← howner] at hsound hlater'
    obtain ⟨h₁, hlater₁⟩ := h'.withArena hsound hlater'
    have h₂ := h₁.follow [y]
      ⟨hfollows.1, Arena.Tally.booked hfollows.2⟩ (fun x hx => List.mem_singleton.mp hx ▸ hy)
      hbecomes.fits (fun x hx => ?_) fun k hk => .inl (Workspace.backs_of_store hbecomes.store hk)
    · refine ⟨⟨h₂.1, (hlater.trans hlater₁).trans h₂.2⟩, ?_⟩
      rw [← Body.length_toList hbecomes.fits, hbecomes.toList, List.length_set,
        Body.length_toList h'.body.fits, hsize]
    · rw [hbecomes.toList] at hx
      rcases List.mem_or_eq_of_mem_set hx with hx | rfl
      · exact .inl hx
      · exact .inr (.inl List.mem_cons_self)
  · rintro f a hf
    refine hf.imp_right fun hf => ?_
    rw [← howner] at hf
    obtain ⟨h₁, hlater₁⟩ := h'.withArena hf.1 hf.2
    exact ⟨h₁, hlater.trans hlater₁⟩

theorem keeps_pushFrom {f : Block Value} (left : Nat) : ∀ {w : Workspace} {i : Nat},
    w.Kept sharing held →
    Behaves sharing (w.owner :: held) w.arena (fun y c => c.Knows y) f.run →
    Keeps sharing held (pushFrom f left i) w fun _ _ => True := by
  induction left with
  | zero => exact fun h _ => ⟨Keeps.nothing h, trivial⟩
  | succ left ih =>
      intro w i h hf
      unfold pushFrom Keeps
      rw [ends_bind, ends_lift]
      refine (hf (.int (Int64.ofNat i)) w.arena (.refl _) h.arena nofun).mono ?_ ?_
      · rintro y a ⟨⟨hsound, hlater⟩, hy⟩
        obtain ⟨h₁, hlater₁⟩ := h.withArena hsound hlater
        refine Ends.bind ((keeps_push h₁ hy).mono_early
          fun _ _ hw => hw.imp_right fun hw => ⟨hw.1, hlater₁.trans hw.2⟩) ?_
        rintro _ w₂ ⟨⟨h₂, hlater₂⟩, -⟩
        have hlater' := hlater₁.trans hlater₂
        refine (ih h₂ (hlater'.owner ▸ hf.later hlater'.arena)).mono ?_ ?_
        · exact fun _ _ hw => ⟨⟨hw.1.1, hlater'.trans hw.1.2⟩, trivial⟩
        · exact fun _ _ hw => hw.imp_right fun hw => ⟨hw.1, hlater'.trans hw.2⟩
      · rintro f a hw
        exact hw.imp_right fun hw => h.withArena hw.1 hw.2

/-! ## Removals -/

def Tests (sharing : Prop) (held : List ArrayId) (w : Workspace) (test : Value → Edit Bool) :
    Prop :=
  ∀ v w', w'.owner = w.owner → w.arena.Later (w.owner :: held) w'.arena →
    w'.arena.Sound sharing (w.owner :: held) → w'.arena.Knows v → Ends (test v) w'
      (fun _ w'' => w''.owner = w.owner ∧ w''.body = w'.body ∧
        w''.arena.Sound sharing (w.owner :: held) ∧ w'.arena.Later (w.owner :: held) w''.arena)
      (fun f w'' => f.Fatal ∨ ∃ e, f = .raised e ∧ w''.owner = w.owner ∧ w''.body = w'.body ∧
        w''.arena.Sound sharing (w.owner :: held) ∧ w'.arena.Later (w.owner :: held) w''.arena)

theorem tests_block {f : Block Bool} (answer : Bool → Bool)
    (hf : Behaves sharing (w.owner :: held) w.arena (fun _ _ => True) f.run) :
    Tests sharing held w fun v => return answer (← f.run v) := by
  intro v w' howner hlater hsound hknown
  rw [ends_bind, ends_lift]
  refine (hf v w'.arena hlater hsound hknown).mono ?_ fun fault a hw => ?_
  · exact fun _ a hw => ⟨howner, rfl, hw.1.1, hw.1.2⟩
  · cases fault with
    | raised e =>
        obtain ⟨hsound', hlater'⟩ := hw.resolve_left (Fault.not_fatal_raised e)
        exact .inr ⟨e, rfl, howner, rfl, hsound', hlater'⟩
    | _ => exact .inl nofun

theorem tests_pure {test : Value → Edit Bool}
    (h : ∀ v w', ∃ answer, test v w' = .ok answer w') : Tests sharing held w test := by
  intro v w' howner _ hsound _
  obtain ⟨answer, htest⟩ := h v w'
  exact (ends_of_ok htest).mpr ⟨howner, rfl, hsound, .refl _⟩

theorem Removed.follow {w' : Workspace} {kept : List Value} {read : Nat} (h : w.Kept sharing held)
    (hremoved : Removed True w.body kept read w'.body) (howner : w'.owner = w.owner)
    (hkept : ∀ v ∈ kept, v ∈ w.body.toList) (hsound : w'.arena.Sound sharing (w.owner :: held))
    (hlater : w.arena.Later (w.owner :: held) w'.arena) :
    w'.Kept sharing held ∧ w.Later held w' := by
  refine h.follow [] ⟨howner, fun _ => ⟨hsound, hlater⟩⟩ nofun hremoved.fits
    (fun v hv => ?_) fun k hk => .inl (Workspace.backs_of_store hremoved.store hk)
  rw [hremoved.toList] at hv
  exact .inl ((List.mem_append.mp hv).elim (hkept v) List.mem_of_mem_drop)

theorem keeps_removeWhere (h : w.Kept sharing held) {test : Value → Edit Bool}
    (htest : Tests sharing held w test) :
    Keeps sharing held (removeWhere test) w fun _ _ => True := by
  let J : Account := fun _ _ kept _ a =>
    (a.Sound sharing (w.owner :: held) ∧ w.arena.Later (w.owner :: held) a) ∧
      ∀ v ∈ kept, v ∈ w.body.toList
  have hcarries : Carries w.owner w.body test J fun _ _ => True := by
    refine ⟨fun hJ hbooked => ?_, fun {w' v _ kept read} howner hv hJ => ?_⟩
    · obtain ⟨hsound, hlater⟩ := Arena.Tally.booked (R := Arena.Evolves sharing (w.owner :: held))
        hbooked hJ.1.1
      exact ⟨⟨hsound, hJ.1.2.trans hlater⟩, hJ.2⟩
    · have hmem := List.mem_of_getElem? hv
      have hknown := hJ.1.2.knows (h.body.safe v hmem).known
      refine (htest v w' howner hJ.1.2 hJ.1.1 hknown).mono ?_ ?_
      · rintro drop w'' ⟨howner', hbody, hsound, hlater⟩
        refine ⟨howner', hbody, ⟨hsound, hJ.1.2.trans hlater⟩, fun x hx => ?_⟩
        split at hx
        · exact hJ.2 x hx
        · rcases List.mem_append.mp hx with hx | hx
          · exact hJ.2 x hx
          · exact List.mem_singleton.mp hx ▸ hmem
      · rintro f w'' hf
        refine hf.imp (fun hfatal => ⟨hfatal, trivial⟩) ?_
        rintro ⟨e, rfl, howner', hbody, hsound, hlater⟩
        exact ⟨e, rfl, howner', hbody, ⟨hsound, hJ.1.2.trans hlater⟩, hJ.2⟩
  refine (ends_removeWhere h.body.fits hcarries ⟨Keeps.nothing h |>.imp Workspace.Kept.arena
    Workspace.Later.arena, nofun⟩).mono ?_ ?_
  · rintro _ w' ⟨kept, howner, hremoved, ⟨hsound, hlater⟩, hkept⟩
    exact ⟨hremoved.follow h howner hkept hsound hlater, trivial⟩
  · rintro f w' (⟨e, _, kept, read, rfl, howner, hremoved, ⟨hsound, hlater⟩, hkept⟩ | hbarred)
    · exact .inr (hremoved.follow h howner hkept hsound hlater)
    · refine hbarred.imp And.left ?_
      rintro ⟨-, -, howner, hbody, _, _, _, ⟨hsound, hlater⟩, -⟩
      exact keeps_same h ⟨howner, fun _ => ⟨hsound, hlater⟩⟩ hbody

theorem keeps_delete? (h : w.Kept sharing held) (v : Value) :
    Keeps sharing held (delete? v) w fun _ _ => True :=
  keeps_removeWhere h (tests_pure fun _ _ => ⟨_, rfl⟩)

theorem Keeps.bind {β : Type} {k : α → Edit β} {mid : α → Workspace → Prop}
    {post : β → Workspace → Prop} (h : Keeps sharing held e w mid)
    (hk : ∀ x w', w'.Kept sharing held → w.Later held w' → mid x w' →
      Keeps sharing held (k x) w' post) : Keeps sharing held (e >>= k) w post :=
  Ends.bind h fun x w' hw => (hk x w' hw.1.1 hw.1.2 hw.2).mono
    (fun _ _ hw' => ⟨⟨hw'.1.1, hw.1.2.trans hw'.1.2⟩, hw'.2⟩)
    fun _ _ hw' => hw'.imp_right fun hw' => ⟨hw'.1, hw.1.2.trans hw'.2⟩

theorem keeps_pure (h : w.Kept sharing held) {x : α} {post : α → Workspace → Prop}
    (hpost : post x w) : Keeps sharing held (pure x) w post :=
  ⟨Keeps.nothing h, hpost⟩

theorem keeps_lift {act : Action α} (h : w.Kept sharing held) (answers : α → Arena → Prop)
    (hact : Action.Keeps sharing (w.owner :: held) act w.arena answers) :
    Keeps sharing held (liftM act : Edit α) w
      fun y w' => answers y w'.arena ∧ w'.body = w.body := by
  unfold Keeps
  rw [ends_lift]
  refine hact.mono ?_ fun _ _ hw => hw.imp_right fun hw => h.withArena hw.1 hw.2
  exact fun _ _ hw => ⟨h.withArena hw.1.1 hw.1.2, hw.2, rfl⟩

theorem keeps_deleteOr (h : w.Kept sharing held) {v : Value} {missing : Value → Action Value}
    (hknown : w.arena.Knows v)
    (hmissing : Behaves sharing (w.owner :: held) w.arena (fun _ _ => True) missing) :
    Keeps sharing held (deleteOr v fun v => missing v) w fun _ _ => True := by
  refine Keeps.bind (keeps_delete? h v) fun found w' h' hlater _ => ?_
  cases found with
  | some found => exact keeps_pure h' trivial
  | none =>
      refine (keeps_lift h' (fun _ _ => True) ?_).weaken fun _ _ _ => trivial
      rw [hlater.owner]
      exact hmissing v w'.arena hlater.arena (hlater.owner ▸ h'.arena) (hlater.arena.knows hknown)

theorem keeps_delete (h : w.Kept sharing held) (v : Value) :
    Keeps sharing held (delete v) w fun _ _ => True := by
  refine Keeps.bind (keeps_delete? h v) fun found w' h' _ _ => ?_
  cases found <;> exact keeps_pure h' trivial

theorem keeps_deleteAt (h : w.Kept sharing held) (index : Int64) :
    Keeps sharing held (deleteAt index) w fun _ _ => True := by
  have hwithin := within_deleteAt
    (S := Workspace.Follows (Arena.Evolves sharing (w.owner :: held))) index w
  refine ((ends_deleteAt h.body.fits index).and hwithin).mono ?_ ?_
  · rintro _ w' ⟨⟨-, -, hsame⟩ | ⟨position, -, -, hremoved⟩, hfollows⟩
    · exact ⟨keeps_same h hfollows hsame, trivial⟩
    · obtain ⟨hsound, hlater⟩ := hfollows.2 h.arena
      exact ⟨hremoved.follow h hfollows.1 (fun v hv => List.mem_of_mem_take hv) hsound hlater,
        trivial⟩
  · rintro f w' ⟨⟨-, -, hbody⟩, hfollows⟩
    exact hfollows.imp_right fun hfollows => keeps_same h hfollows hbody

theorem keeps_compact (h : w.Kept sharing held) :
    Keeps sharing held compact w fun _ _ => True := by
  refine keeps_checkFrozen h ?_
  unfold Keeps
  rw [ends_bind, ends_kind]
  split
  · exact keeps_pure h trivial
  · exact Keeps.bind (keeps_removeWhere h (tests_pure fun _ _ => ⟨_, rfl⟩))
      fun _ _ h' _ _ => keeps_pure h' trivial

theorem keeps_reject (h : w.Kept sharing held) {f : Block Bool}
    (hf : Behaves sharing (w.owner :: held) w.arena (fun _ _ => True) f.run) :
    Keeps sharing held (reject f) w fun _ _ => True := by
  have htest : Tests sharing held w fun v => liftM (f.run v) := by
    have h := tests_block id hf
    simpa using h
  exact keeps_checkFrozen h (Keeps.bind (keeps_removeWhere h htest)
    fun _ _ h' _ _ => keeps_pure h' trivial)

theorem keeps_keepIf (h : w.Kept sharing held) {f : Block Bool}
    (hf : Behaves sharing (w.owner :: held) w.arena (fun _ _ => True) f.run) :
    Keeps sharing held (keepIf f) w fun _ _ => True :=
  keeps_checkFrozen h (Keeps.bind (keeps_removeWhere h (tests_block (!·) hf))
    fun _ _ h' _ _ => keeps_pure h' trivial)

end Edit

end AdaptiveArray
