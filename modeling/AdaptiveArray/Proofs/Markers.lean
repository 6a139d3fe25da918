import AdaptiveArray.Proofs.Registry

/-!
# What a marking pass visits

A marking pass visits the native storage that a marker was attached to.  Growing,
generalizing and moving to native storage attach a marker to what they make.  Storage
that is made on request does not get one, so it is hidden, and it stays hidden as long as
it lives.  Every other native store is visited slot by slot.
-/

namespace AdaptiveArray

variable {hidden : Address → Prop} {a b c : Arena} {held : List ArrayId}

/-! ## Storage without a marker -/

/-- Registrations without a marker are at hidden addresses, or they were there before. -/
def Arena.Hides (hidden : Address → Prop) (a b : Arena) : Prop :=
  ∀ e ∈ b.registry, e.2.marked = false → hidden e.1 ∨ e ∈ a.registry

namespace Arena

theorem hides_of_subset (h : b.registry ⊆ a.registry) : a.Hides hidden b :=
  fun _ he _ => .inr (h he)

theorem hides_of_registry (h : b.registry = a.registry) : a.Hides hidden b :=
  hides_of_subset (h ▸ List.Subset.refl _)

theorem hides_release (a : Arena) (s : Store) : a.Hides hidden (a.release s) := by
  apply hides_of_subset
  cases s with
  | native address slots => exact List.filter_subset_self _
  | _ => exact List.Subset.refl _

theorem hides_enrolled (h : hidden a.nextAddress) (n : Nat) : a.Hides hidden (a.enrolled n) := by
  intro e he _
  rcases List.mem_cons.mp he with rfl | he
  · exact .inl h
  · exact .inr (List.mem_of_mem_filter he)

theorem hides_attachMarker (slots : Array Value) (h : (a.enrolled slots.size).Counted b) :
    a.Hides hidden (b.attachMarker (.native a.nextAddress slots)) := by
  have hregistry : b.registry = (a.nextAddress, ⟨slots.size, false⟩) ::
      a.registry.filter fun e => e.1 ≠ a.nextAddress := h.registry
  have hfound : b.registration? a.nextAddress = some ⟨slots.size, false⟩ :=
    (registration?_enrolled h _).trans (if_pos rfl)
  intro e he hunmarked
  rw [attachMarker, hfound] at he
  rcases List.mem_cons.mp he with rfl | he
  · cases hunmarked
  · obtain ⟨he, hne⟩ := List.mem_filter.mp he
    rw [hregistry] at he
    rcases List.mem_cons.mp he with rfl | he
    · simp at hne
    · exact .inr (List.mem_of_mem_filter he)

instance : Arena.Growth (Hides hidden) where
  refl _ := hides_of_registry rfl
  trans h h' := fun e he hunmarked => (h' e he hunmarked).elim .inl fun he => h e he hunmarked
  counted h := hides_of_registry h.registry
  relocked h := hides_of_registry (by rw [h.rest])
  nextString _ _ := hides_of_registry rfl
  withObject _ _ _ := hides_of_registry rfl

theorem hides_bindStore (a : Arena) (name : String) (s : Store) :
    a.Hides hidden (a.bindStore name s) := by
  unfold bindStore
  cases a.store? name with
  | none => exact hides_of_registry rfl
  | some t => exact hides_release a t

theorem hides_dropStore (a : Arena) (name : String) : a.Hides hidden (a.dropStore name) := by
  cases hs : a.store? name with
  | none =>
      rw [dropStore, hs]
      exact Evolution.refl a
  | some s =>
      rw [dropStore_of_some hs, ← release_unbind]
      exact hides_release a s

theorem hides_drop (a : Arena) (id : ArrayId) : a.Hides hidden (a.drop id) := by
  cases hx : a.body? id with
  | none =>
      rw [drop, hx]
      exact Evolution.refl a
  | some x =>
      rw [drop_of_some hx]
      exact hides_release (a.vacate id) x.store

end Arena

/-! ## Edits -/

theorem Workspace.hides_replaced (w : Workspace) (s : Store) (n : Nat) :
    w.Follows (Arena.Hides hidden) (w.replaced s n) :=
  ⟨rfl, Arena.hides_release w.arena w.body.store⟩

instance : Workspace.Frame (Workspace.Follows (Arena.Hides hidden)) where
  counted _ _ h := ⟨rfl, Arena.Count.counted h⟩
  revised w _ _ _ := ⟨rfl, Evolution.refl w.arena⟩
  replaced w s n _ := w.hides_replaced s n
  rehoused w a slots n h := by
    let moved := Store.native w.arena.nextAddress slots
    have hmoved : w.Follows (Arena.Hides hidden) (w.withArena (a.attachMarker moved)) :=
      ⟨rfl, Arena.hides_attachMarker slots h⟩
    exact Evolution.trans hmoved (Workspace.hides_replaced _ _ n)
  shareValue w v := ⟨rfl, Arena.Growth.relocked (.shareValue w.arena v)⟩

theorem Mutation.hides_editBody (m : Mutation) (id : ArrayId)
    (hcall : ∀ v b answer? c, m.call v b = some (answer?, c) → b.Hides hidden c) :
    Yields (Arena.Hides hidden) Reply.Unclaimed (Action.editBody id m.edit) := by
  have hput (s : Store) (n : Nat) :
      Within (Workspace.Follows (Arena.Hides hidden)) (Edit.replaceStore s n) :=
    .bind (Edit.within_count (Action.within_ensure _)) fun _ =>
      .modify fun w => w.hides_replaced s n
  have hrobbed (w : Workspace) (other : ArrayId) (x : Body) :
      w.Follows (Arena.Hides hidden) (w.robbed other x) :=
    Workspace.hides_replaced (w.withArena _) x.store x.size
  refine Action.yields_editBody (fun a x => Arena.hides_of_registry rfl) ?_
  exact yields_edit (steps_of_call (fun _ _ ha => ⟨rfl, ha⟩) hcall (fun _ _ => hput _ _)
    fun other _ => Edit.within_steal fun w x _ _ => hrobbed w other x)

theorem Mutation.hides_replace (x : Body) (id : ArrayId) :
    Within (Arena.Hides hidden) ((Mutation.replace x).perform id) :=
  (Action.yields_holding
    (Mutation.hides_editBody (.replace x) id fun _ _ _ _ h => nomatch h)).within

/-! ## Courses -/

variable {poking : Prop} {kept : ArrayId → Prop}

def Reply.ComesHidden (hidden : Address → Prop) (a : Arena) (reply : Reply) : Prop :=
  ∀ n, reply.claim? = some (a.nextAddress, n) → hidden a.nextAddress

/-- Clients do as they like, but native storage that comes new with an answer is at a hidden
address. -/
abbrev Rules.hiding (hidden : Address → Prop) : Rules :=
  .tracking True (fun _ => False) fun a reply => reply.ComesHidden hidden a

theorem Reply.comesHidden_of_none {reply : Reply} (hidden : Address → Prop)
    (h : reply.claim? = none) : reply.ComesHidden hidden a := by
  intro n hn
  rw [h] at hn
  cases hn

theorem Reply.Placed.hides {reply : Reply} (h : reply.Placed a b) : a.Hides hidden b := by
  cases h with
  | read => exact Evolution.refl a
  | dropped => exact Arena.hides_release a _
  | object x => exact Arena.hides_of_registry rfl
  | bound s name => exact Arena.hides_bindStore a name s

theorem Chore.Effect.hides {reply : Reply} (h : Chore.Effect a reply b)
    (hreply : reply.ComesHidden hidden a) : a.Hides hidden b := by
  cases h with
  | made _ counted => exact Arena.Count.counted counted
  | enrolled n claim => exact Arena.hides_enrolled (hreply n claim) n
  | changed _ _ counted => exact Arena.hides_of_registry counted.registry
  | taken => exact Arena.hides_of_registry rfl

theorem Request.ends_run_hides {r : Request} (idle : r.Idle held)
    (hblocks : ∀ vs b answer? c, r.call vs b = some (answer?, c) → b.Hides hidden c) :
    Ends r.run a (fun reply b => reply.ComesHidden hidden a → a.Hides hidden b)
      fun f b => f.Fatal ∨ a.Hides hidden b := by
  by_cases hnative : ∃ n, r = derive (.withCapacity .native n)
  · obtain ⟨n, rfl⟩ := hnative
    refine ((Action.ends_allocate_claim .native n).bind fun s b hs =>
      ends_pure _ |>.mpr ?_).mono_early fun _ _ hf => .inl hf
    rcases hs with ⟨-, hb⟩ | ⟨-, hs, rfl⟩
    · exact fun _ => Arena.Count.counted hb
    · exact Chore.Effect.hides (.enrolled n hs)
  · have hrun : Yields (Arena.Hides hidden) (fun _ => True) r.run := by
      refine yields_run (fun _ => Arena.Hides hidden) idle hblocks
        (fun id m hm _ => m.hides_editBody id hm.block) (fun d hd => ?_) fun _ _ => trivial
      subst hd
      have hkind : d.kind? ≠ some .native := by
        intro hkind
        cases d with
        | withCapacity k n => exact hnative ⟨n, by rw [Option.some.inj hkind]⟩
        | _ => cases hkind
      exact .of_within (Derivation.yields_run hkind hblocks).within fun _ => trivial
    exact (hrun a).weaken fun _ _ hb _ => hb.2

theorem Arena.Tracks.hides (h : a.Tracks poking kept (fun a reply => reply.ComesHidden hidden a)
    held b) : a.Hides hidden b := by
  cases h with
  | done run answer placed =>
      have heffect := (Chore.ends_run _).of_ok run
      exact Evolution.trans (heffect.hides answer) placed.hides
  | @moved _ id j x _ _ _ _ _ _ run =>
      have htaken : (a.vacate j).Hides hidden b := (Mutation.hides_replace x id).of_ok run
      exact htaken
  | @refused c id j x _ _ _ _ _ _ run =>
      have hback : (a.vacate j).Hides hidden c := (Mutation.hides_replace x id).of_raised run
      exact Evolution.trans (R := Arena.Hides hidden) hback (Arena.hides_release c x.store)
  | dropped => exact Arena.hides_drop _ _
  | noted _ _ registry => exact Arena.hides_of_registry registry
  | poked _ _ run => exact Action.nativeWrite_of_ok run ▸ Arena.hides_of_registry rfl

/-- Whatever clients do, what is hidden from the markers came with an answer. -/
theorem Course.hides
    (h : Course (.tracking poking kept fun a reply => reply.ComesHidden hidden a) held a b) :
    a.Hides hidden b := by
  refine h.stays (R := fun _ => Arena.Hides hidden) (fun _ => Arena.Growth.relocked)
    (fun _ a name => Arena.hides_dropStore a name) (fun _ a b => Arena.Tracks.hides)
    fun held a r idle hblocks => ?_
  have hcalls vs b answer? c hcall := (hblocks vs b answer? c trivial hcall).2
  exact (Request.ends_run_hides idle hcalls).weaken fun reply b hb answer c placed =>
    Evolution.trans (hb answer) (Reply.Placed.hides placed)

/-! ## A marking pass -/

def Store.references (s : Store) : List Value :=
  s.values.toList.filter Value.isReference

def Arena.isMarked (a : Arena) (address : Address) : Bool :=
  (a.registration? address).any Registration.marked

theorem flatMap_filter {α β : Type} (p : α → Bool) (f : α → List β) (xs : List α) :
    (xs.filter p).flatMap f = xs.flatMap fun x => if p x then f x else [] := by
  induction xs with
  | nil => rfl
  | cons x xs ih =>
      rw [List.filter_cons, List.flatMap_cons, ← ih]
      split <;> rfl

/-- What is registered is alive, and it is at its address only, so a pass visits each slot of each
live store with a marker once. -/
theorem Arena.Accurate.markedReferences_perm (h : a.Accurate 0) : a.markedReferences.Perm
    ((a.liveStores.filter fun s => s.address?.any a.isMarked).flatMap Store.references) := by
  -- what a pass visits for the sake of one claim
  let visits (claim : Address × Nat) : List Value :=
    if a.isMarked claim.1
    then (((a.slotsAt? claim.1).getD #[]).toList.take claim.2).filter Value.isReference else []
  have hregistry : a.markedReferences =
      (a.registry.map fun e => (e.1, e.2.capacity)).flatMap visits := by
    rw [markedReferences, List.flatMap_map]
    apply List.flatMap_congr
    rintro ⟨address, entry⟩ he
    simp [visits, isMarked, registration?, lookup_of_mem h.keys he]
  have hlive : (a.liveStores.filter fun s => s.address?.any a.isMarked).flatMap Store.references =
      (a.liveStores.filterMap Store.claim?).flatMap visits := by
    rw [flatMap_filter, List.filterMap_eq_flatMap_toList, List.flatMap_assoc]
    apply List.flatMap_congr
    intro s hs
    cases s with
    | native address slots =>
        have hslots := h.slotsAt?_eq_some_iff.mpr hs
        have hwhole : slots.toList.take slots.size = slots.toList := List.take_length
        change (if a.isMarked address then slots.toList.filter Value.isReference else []) =
          visits (address, slots.size) ++ []
        simp only [visits, hslots, hwhole, Option.getD_some, List.append_nil]
    | _ => rfl
  have hbooked : (a.liveStores.filterMap Store.claim?).Perm
      (a.registry.map fun e => (e.1, e.2.capacity)) :=
    Multiset.coe_eq_coe.mp ((zero_add _).symm.trans h.booked)
  rw [hregistry, hlive]
  exact hbooked.symm.flatMap_right visits

/-- From an arena without arrays, stores and registrations on, whatever is done, native storage has
a marker unless it came with an answer, and a marking pass visits each slot of what has one. -/
theorem markers_complete (objects : a.objects = #[]) (stores : a.stores = [])
    (registry : a.registry = []) (course : Course (.hiding hidden) [] a b) :
    (∀ address slots, .native address slots ∈ b.liveStores →
      ¬hidden address → b.isMarked address) ∧
    b.markedReferences.Perm
      ((b.liveStores.filter fun s => s.address?.any b.isMarked).flatMap Store.references) := by
  have haccurate : b.Accurate 0 :=
    course.balances 0 (Arena.accurate_of_blank objects stores registry)
  refine ⟨fun address slots hlive hseen => ?_, haccurate.markedReferences_perm⟩
  have hclaim : (address, slots.size) ∈ 0 + b.claims := by
    rw [zero_add, Arena.claims, mem_claimed]
    exact ⟨_, hlive, rfl⟩
  obtain ⟨entry, hentry, -⟩ :=
    Option.map_eq_some_iff.mp (haccurate.registration?_iff _ |>.mpr hclaim)
  rw [Arena.isMarked, hentry, Option.any_some]
  by_contra hunmarked
  have hfrom :=
    course.hides (address, entry) (mem_of_lookup hentry) (Bool.eq_false_iff.mpr hunmarked)
  rw [registry] at hfrom
  exact hfrom.elim hseen List.not_mem_nil

/-- An array with a symbol moves to native storage, and grows to other native storage when it gets
another symbol. -/
theorem markers_complete_grown : ∃ b : Arena,
    Course (.hiding fun _ => False) [] {} b ∧ b.isMarked 1 ∧
      b.markedReferences.Perm [.symbol "x", .symbol "y"] := by
  let start : Body := { store := .owned (.object #[.symbol "x"]), size := 1 }
  let moved : Body := { store := .native 0 #[.symbol "x"], size := 1 }
  let slots : Array Value := #[.symbol "x", .symbol "y"] ++ Array.replicate 14 .nil
  let a : Arena := { objects := #[some { body := start }] }
  let b : Arena :=
    { objects := #[some { body := moved }], registry := [(0, ⟨1, true⟩)], nextAddress := 1,
      options? := some {} }
  let c : Arena :=
    { objects := #[some { body := { store := .native 1 slots, size := 2 } }],
      registry := [(1, ⟨16, true⟩)], nextAddress := 2, options? := some {} }
  have hmake : Course (.hiding fun _ => False) [] {} a :=
    .unblocked (r := .derive (.ofBuffer (.object #[.symbol "x"]))) trivial (fun _ _ => rfl)
      (by with_unfolding_all rfl) (Reply.comesHidden_of_none (fun _ => False) rfl)
      (.object start {})
  have hmove : Course (.hiding fun _ => False) [] a b :=
    .changed .toNative 0 ⟨nofun, rfl, nofun⟩ (fun _ _ => rfl) (by with_unfolding_all rfl)
      (Reply.comesHidden_of_none (fun _ => False) rfl) (.read rfl _ : Reply.Placed .nothing _ _)
  have hpush : Course (.hiding fun _ => False) [] b c :=
    .changed (.push (.symbol "y")) 0 ⟨nofun, rfl, nofun⟩ (fun _ _ => rfl)
      (by with_unfolding_all rfl) (Reply.comesHidden_of_none (fun _ => False) rfl)
      (.read rfl _ : Reply.Placed .nothing _ _)
  have hcourse := hmake.trans (hmove.trans hpush)
  obtain ⟨hmarked, hvisits⟩ := markers_complete rfl rfl rfl hcourse
  exact ⟨c, hcourse, hmarked 1 slots (List.mem_singleton_self _) nofun, hvisits⟩

/-- Native storage that an array is made with has no marker, so the symbol that is pushed into it is
not visited. -/
theorem markers_withCapacity_hidden : ∃ b : Arena, Course (.tracking True fun _ => False) [] {} b ∧
    .native 0 #[.symbol "x", .nil] ∈ b.liveStores ∧ b.markedReferences = [] := by
  let blank : Body := { store := .native 0 #[.nil, .nil] }
  let filled : Body := { store := .native 0 #[.symbol "x", .nil], size := 1 }
  let registered : Arena := { registry := [(0, ⟨2, false⟩)], nextAddress := 1 }
  let b : Arena := { registered with objects := #[some { body := filled }] }
  have hmake : Course (.tracking True fun _ => False) [] {} (registered.withObject blank) :=
    .unblocked (r := .derive (.withCapacity .native 2)) trivial (fun _ _ => rfl)
      (by with_unfolding_all rfl) trivial (.object blank registered)
  have hpush : Course (.tracking True fun _ => False) [] (registered.withObject blank) b :=
    .changed (.push (.symbol "x")) 0 ⟨nofun, rfl, nofun⟩ (fun _ _ => rfl)
      (by with_unfolding_all rfl) trivial (.read rfl _ : Reply.Placed .nothing _ _)
  exact ⟨b, .trans hmake hpush, List.mem_singleton_self _, rfl⟩

end AdaptiveArray
