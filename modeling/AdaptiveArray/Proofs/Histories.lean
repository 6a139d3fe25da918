import AdaptiveArray.Proofs.Courses
import AdaptiveArray.Proofs.Settling

/-!
# Histories

A history is a course of clients who use no array but those that they know, whatever
becomes of native storage.  What histories lead to from an arena without arrays is sound.
-/

namespace AdaptiveArray

inductive Arena.Notes (poking : Prop) : List ArrayId → Arena → Arena → Prop where
  | noted {held : List ArrayId} {a b : Arena} (objects : b.objects = a.objects)
      (stores : b.stores = a.stores) (nextBacking : a.nextBacking ≤ b.nextBacking) :
      Notes poking held a b
  | poked {held : List ArrayId} {a : Arena} {address : Address} {i : Nat} {v : Value}
      (allowed : poking) (known : a.Knows v)
      (inside : ∀ id o, a.object? id = some o → o.body.store.address? = some address →
        id ∉ held ∧ i < o.body.size) : Notes poking held a (a.writeAt address i v)

/-- Blocks that are called with known values answer known values. -/
abbrev Rules.knowing (poking : Prop) : Rules where
  request held a r := r.Fair held a
  called a vs b := (∀ v, a.Knows v → b.Knows v) ∧ ∀ v ∈ vs, b.Knows v
  returned answer? c := ∀ y, answer? = some y → c.Knows y
  answer _ _ := True
  placed := Reply.Kept
  opened held a id m :=
    (∃ o, a.object? id = some o ∧ o.lock ≠ .free) ∧ (Request.mutate id m).Fair held a
  step := Arena.Notes poking

abbrev History (poking : Prop) : List ArrayId → Arena → Arena → Prop :=
  Course (.knowing poking)

variable {poking sharing : Prop} {held : List ArrayId} {a b : Arena}

theorem History.evolves (h : History poking held a b) (hsharing : sharing → ¬poking) :
    a.Evolves sharing held b := by
  induction h with
  | refl held a => exact Evolution.refl a
  | trans _ _ ih ih' => exact Evolution.trans ih ih'
  | @answered held a b c r reply fair _ returned run _ placed ih =>
      intro ha
      have hrun := r.keeps_run ha fair fun vs b answer? c hknows hb hvs hcall =>
        ⟨ih vs b answer? c ⟨hknows, hvs⟩ hcall hb, returned vs b answer? c ⟨hknows, hvs⟩ hcall⟩
      obtain ⟨⟨hb, hlater⟩, hreply⟩ := Ends.of_ok hrun run
      obtain ⟨hc, hlater'⟩ := Reply.Kept.evolves placed hreply hb
      exact ⟨hc, hlater.trans hlater'⟩
  | @failed held a b r e fair _ returned run ih =>
      intro ha
      have hrun := r.keeps_run ha fair fun vs b answer? c hknows hb hvs hcall =>
        ⟨ih vs b answer? c ⟨hknows, hvs⟩ hcall hb, returned vs b answer? c ⟨hknows, hvs⟩ hcall⟩
      exact Ends.of_raised hrun run
  | locked holder free => exact fun ha => Arena.lock_evolves free (ha.not_mem_held free) ha
  | unlocked idle => exact Arena.unlock_evolves idle
  | shared v => exact Arena.Frame.shareValue _ v
  | unnamed name => exact Arena.dropStore_evolves name
  | step allowed =>
      cases allowed with
      | noted objects stores nextBacking => exact Arena.noted_evolves objects stores nextBacking
      | poked allowed known inside =>
          obtain rfl : sharing = False := eq_false fun hs => hsharing hs allowed
          exact Arena.writeAt_evolves known inside

/-- What histories lead to from an arena without arrays. -/
inductive Reached (poking : Prop) : List (ArrayId × Body) → Arena → Prop where
  | start {a : Arena} (objects : a.objects = #[]) (stores : a.stores = []) : Reached poking [] a
  | led {before edited : List (ArrayId × Body)} {a b : Arena} (reached : Reached poking before a)
      (leads : Leads (.knowing poking) before a edited b) : Reached poking edited b
  | settled {a : Arena} (reached : Reached poking [] a) (roots : List ArrayId) :
      Reached poking [] (a.settle roots)

theorem Reached.later {edited : List (ArrayId × Body)} (h : Reached poking edited a)
    (history : History poking (edited.map Prod.fst) a b) : Reached poking edited b :=
  .led h (.later .start history)

def Arena.SoundBeside (sharing : Prop) (edited : List (ArrayId × Body)) (a : Arena) : Prop :=
  a.Sound sharing (edited.map Prod.fst) ∧ ∀ x ∈ edited, a.Suits sharing x.1 x.2

theorem Arena.sound_of_blank (objects : a.objects = #[]) (stores : a.stores = []) :
    a.Sound sharing [] := by
  have hnone : ∀ id, a.object? id = none := fun id => by
    change (a.objects[id]?).join = none
    rw [objects]
    rfl
  have hbacks : ∀ k, ¬a.Backs k := by
    intro k hk
    rcases Arena.backs_iff.mp hk with ⟨id, o, ho, -⟩ | ⟨entry, hentry, -⟩
    · simp [hnone] at ho
    · simp [stores] at hentry
  refine ⟨fun id o ho => ?_, fun id o ho => ?_, fun k hk => absurd hk (hbacks k),
    fun k _ hk => absurd hk (hbacks k), fun _ id o ho => ?_, nofun⟩
  all_goals simp [hnone] at ho

theorem Leads.sound {before edited : List (ArrayId × Body)}
    (h : Leads (.knowing poking) before a edited b) (hsharing : sharing → ¬poking)
    (ha : a.SoundBeside sharing before) : b.SoundBeside sharing edited := by
  induction h with
  | start => exact ha
  | @later edited b c _ history ih =>
      obtain ⟨hb, hsuits⟩ := ih
      obtain ⟨hc, hlater⟩ := History.evolves history hsharing hb
      refine ⟨hc, fun x hx => ?_⟩
      have hmem := List.mem_map_of_mem (f := Prod.fst) hx
      obtain ⟨o, ho, -⟩ := hb.locked x.1 hmem
      exact hlater.suits hmem (by rw [ho]; rfl) (hsuits x hx)
  | @opened edited b id x m w _ body fair blocks returned run ih =>
      obtain ⟨hb, hsuits⟩ := ih
      obtain ⟨⟨o, object, lock⟩, fair⟩ := fair
      obtain rfl : o.body = x := by
        rw [Arena.body?, object] at body
        exact Option.some.inj body
      have hm := Request.granted hb fair fun vs b answer? c hknows hb hvs hcall =>
        ⟨History.evolves (blocks vs b answer? c ⟨hknows, hvs⟩ hcall) hsharing hb,
          returned vs b answer? c ⟨hknows, hvs⟩ hcall⟩
      have hw₀ := hb.opened object lock
      have hkeeps := hm.keeps_edit hw₀ rfl (fun v hv => Arena.knows_setBody.mpr hv)
        fun k hk => (Arena.backs_opened object).mpr hk
      obtain ⟨hkept, hlater⟩ :=
        Ends.of_run (Ends.weaken hkeeps fun _ _ h => h.1) run
      have howner : w.owner = id := hlater.owner
      -- The bodies that were out already are of arrays that the edit had to leave alone.
      refine ⟨howner ▸ hkept.arena, fun x hx => ?_⟩
      rcases List.mem_cons.mp hx with rfl | hx
      · exact howner ▸ hkept.body
      · have hmem := List.mem_map_of_mem (f := Prod.fst) hx
        obtain ⟨o', ho', -⟩ := hb.locked x.1 hmem
        have htaken : b.Later (edited.map Prod.fst) (b.setBody id .empty) :=
          Arena.later_setBody fair.1 fun k hk => by cases hk
        have hall := htaken.trans (hlater.arena.mono fun j hj => List.mem_cons_of_mem _ hj)
        exact hall.suits hmem (by rw [ho']; rfl) (hsuits x hx)

theorem Reached.sound {edited : List (ArrayId × Body)} (h : Reached poking edited a)
    (hsharing : sharing → ¬poking) : a.SoundBeside sharing edited := by
  induction h with
  | start objects stores => exact ⟨Arena.sound_of_blank objects stores, nofun⟩
  | led _ leads ih => exact leads.sound hsharing ih
  | settled _ roots ih => exact ⟨ih.1.settle roots, nofun⟩

/-- Every array reached lies inside its store, a view lies inside its backing, and a store of the
array's own is zero behind the elements. -/
theorem reached_body_tidy {edited : List (ArrayId × Body)} (h : Reached True edited a) {b : Body}
    (hb : (∃ id, a.body? id = some b) ∨ ∃ id, (id, b) ∈ edited) :
    b.size ≤ b.capacity ∧
      (∀ v, b.store = .view v → v.offset + v.length ≤ v.backing.buffer.size) ∧
      (b.store.isMutable → ∀ i, b.size ≤ i → i < b.capacity →
        b.store.get? i = some b.store.zero) := by
  obtain ⟨ha, hsuits⟩ := h.sound False.elim
  have hfits : b.Fits True := by
    rcases hb with ⟨id, hb⟩ | ⟨id, hb⟩
    · exact (ha.belongs hb).fits
    · exact (hsuits (id, b) hb).fits
  refine ⟨hfits.size_le, fun v hv => ?_, hfits.tidy trivial⟩
  have hstore := hfits.store
  rwa [hv] at hstore

/-- Three numbers, the last of which is taken off. -/
theorem reached_body_tidy_pop : ∃ a b, Reached True [] a ∧ a.body? 0 = some b ∧ b.size = 2 ∧
    b.store.get? 2 = some (.int 0) := by
  let numbers : Body := { store := .owned (.int #[1, 2, 3]), size := 3 }
  let rest : Body := { store := .owned (.int #[1, 2, 0]), size := 2 }
  have hnew : History True [] {} (Arena.withObject {} numbers) :=
    .unblocked (r := .derive (.ofBuffer (.int #[1, 2, 3])))
      (by simp [Request.Fair, Derivation.values, Buffer.values, Arena.Knows, Value.arrayId?])
      (fun _ _ => rfl) rfl trivial (.object numbers {})
  have hpop : History True [] (Arena.withObject {} numbers) (Arena.withObject {} rest) :=
    .changed .pop 0 ⟨List.not_mem_nil, rfl, List.forall_mem_nil _, List.forall_mem_nil _⟩
      (fun _ _ => rfl) rfl trivial (.dropped _ _)
  have hreached : Reached True [] (Arena.withObject {} rest) :=
    .later (.start rfl rfl) (.trans hnew hpop)
  obtain ⟨-, -, htidy⟩ := reached_body_tidy hreached (b := rest) (.inl ⟨0, rfl⟩)
  exact ⟨_, rest, hreached, rfl, rfl, htidy rfl 2 (Nat.le_refl 2) (by decide)⟩

/-- What a shared array holds is shared, unless the lock of the array is held and a walk is put off
until it is released.  The same goes for an array that is being edited.  Hence all is shared when no
lock is held. -/
theorem reached_sharing_closed {edited : List (ArrayId × Body)} (h : Reached False edited a) :
    (∀ id o, a.object? id = some o → o.shared → ∀ j, .array j ∈ o.body.toList →
      a.isShared j ∨ o.lock ≠ .free ∧ o.sharePending) ∧
    (∀ id b, (id, b) ∈ edited → ∃ o, a.object? id = some o ∧ o.lock ≠ .free ∧
      (o.shared → ∀ j, .array j ∈ b.toList → a.isShared j ∨ o.sharePending)) ∧
    ((∀ id o, a.object? id = some o → o.lock = .free) → edited = [] ∧
      ∀ id o, a.object? id = some o → o.shared → ∀ j, .array j ∈ o.body.toList → a.isShared j) := by
  obtain ⟨ha, hsuits⟩ : a.Sound True _ ∧ _ := h.sound fun _ => id
  have hedited : ∀ x ∈ edited, ∃ o, a.object? x.1 = some o ∧ o.lock ≠ .free :=
    fun x hx => ha.locked x.1 (List.mem_map_of_mem hx)
  refine ⟨ha.closed trivial, fun id b hb => ?_, fun hfree => ⟨?_, fun id o ho hshared j hj => ?_⟩⟩
  · obtain ⟨o, ho, hlock⟩ := hedited (id, b) hb
    refine ⟨o, ho, hlock, fun hshared j hj => ?_⟩
    have hsafe := ((hsuits (id, b) hb).safe (.array j) hj).covered trivial
      (by rwa [Arena.isShared_of_object? ho]) j rfl
    rwa [Arena.isPending_of_object? ho] at hsafe
  · refine List.eq_nil_iff_forall_not_mem.mpr fun x hx => ?_
    obtain ⟨o, ho, hlock⟩ := hedited x hx
    exact hlock (hfree x.1 o ho)
  · exact (ha.closed trivial id o ho hshared j hj).resolve_right fun hheld =>
      hheld.1 (hfree id o ho)

/-- An array that is not shared is pushed onto one that is. -/
theorem reached_sharing_closed_push : ∃ a, Reached False [] a ∧
    a.body? 0 = some { store := .owned (.object #[.array 1, .nil]), size := 1 } ∧ a.isShared 1 := by
  let room : Body := { store := .owned (.object #[.nil, .nil]) }
  let full : Body := { store := .owned (.object #[.array 1, .nil]), size := 1 }
  let before : Arena :=
    { objects := #[some { body := room, shared := true }, some { body := .empty }] }
  let after : Arena :=
    { objects := #[some { body := full, shared := true }, some { body := .empty, shared := true }] }
  have hfirst : History False [] {} (Arena.withObject {} room) :=
    .unblocked (r := .derive (.withCapacity (.owned .object) 2)) nofun (fun _ _ => rfl) rfl
      trivial (.object room {})
  have hsecond : History False [] (Arena.withObject {} room)
      ((Arena.withObject {} room).withObject .empty) :=
    .unblocked (r := .derive .new) nofun (fun _ _ => rfl) rfl trivial
      (.object .empty _)
  have hshare : History False [] ((Arena.withObject {} room).withObject .empty) before :=
    .shared (.array 0)
  have hrun : (Request.mutate 0 (.push (.array 1))).run before = .ok .nothing after := by
    dsimp only [before, after, room, full]
    rfl
  have hpush : History False [] before after :=
    .changed (.push (.array 1)) 0
      ⟨nofun, rfl, fun v hv id hid => by
        rw [List.mem_singleton.mp hv] at hid
        cases hid
        rfl, nofun⟩
      (fun _ _ => rfl) hrun trivial (.dropped _ _)
  have hreached : Reached False [] after :=
    .later (.start rfl rfl) (.trans hfirst (.trans hsecond (.trans hshare hpush)))
  obtain ⟨hclosed, -⟩ := reached_sharing_closed hreached
  refine ⟨after, hreached, rfl, ?_⟩
  have hfree := hclosed 0 { body := full, shared := true } rfl rfl 1 (by decide)
  exact hfree.resolve_right fun hheld => hheld.1 rfl

end AdaptiveArray
