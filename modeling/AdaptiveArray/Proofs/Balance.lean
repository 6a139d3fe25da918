import AdaptiveArray.Proofs.Accounts

/-!
# Courses keep the accounts

A step of an edit, an edit, a request and with it a whole course leave the accounts as
right as they were.  What comes with an answer is in the accounts until the answer is
placed, and what is being edited is in them under the array that it is to go back to.
-/

namespace AdaptiveArray

variable {a b c : Arena} {held : List ArrayId}

def Arena.Balances (a b : Arena) : Prop :=
  ∀ out, a.Accurate out → b.Accurate out

instance : Arena.Growth Arena.Balances where
  refl _ := fun _ h => h
  trans h h' := fun out ha => h' out (h out ha)
  counted h := fun _ ha => ha.counted h
  relocked h := fun _ ha => ha.relocked h
  nextString _ _ := fun _ ha => ha.transfer rfl rfl rfl ha.names
  withObject _ _ hb := fun out ha => .withObject (by rwa [Store.claims_of_none hb, zero_add])

/-! ## Edits -/

def Workspace.Accurate (out : Claims) (w : Workspace) : Prop :=
  w.arena.Accurate (w.body.store.claims + out)

def Workspace.Balances (w w' : Workspace) : Prop :=
  ∀ out, w.Accurate out → w'.Accurate out

namespace Workspace

variable {w : Workspace} {out : Claims}

theorem Accurate.replaced {s : Store} (h : w.Accurate (s.claims + out)) (n : Nat) :
    (w.replaced s n).Accurate out :=
  Arena.Accurate.release h

theorem Accurate.withArena {a : Arena} (h : w.Accurate out) (ha : w.arena.Balances a) :
    (w.withArena a).Accurate out :=
  ha _ h

instance : Workspace.Frame Balances where
  refl _ := fun _ h => h
  trans h h' := fun out hw => h' out (h out hw)
  counted _ _ h := fun _ hw => hw.withArena (Arena.Count.counted h)
  revised _ _ hb _ := fun out hw => by
    unfold Accurate
    rwa [Store.claims_congr hb]
  replaced _ _ n hs := fun _ hw => by
    refine Accurate.replaced ?_ n
    rwa [Store.claims_of_none hs, zero_add]
  rehoused w a slots n h := fun out hw => by
    let moved := Store.native w.arena.nextAddress slots
    have hnew : (w.withArena (a.attachMarker moved)).Accurate (moved.claims + out) := by
      have hmoved := ((hw.enrolled slots.size).counted h).attachMarker moved
      rwa [← add_assoc, add_comm {_}, add_assoc] at hmoved
    exact hnew.replaced n
  shareValue w v := fun _ hw => hw.withArena (Arena.Growth.relocked (.shareValue _ v))

theorem balances_robbed {other : ArrayId} {b : Body} (hb : w.arena.body? other = some b) :
    w.Balances (w.robbed other b) := by
  intro out hw
  refine Accurate.replaced ?_ b.size
  have hstart : w.arena.Accurate (Store.empty.claims + (w.body.store.claims + out)) :=
    (zero_add (w.body.store.claims + out)).symm ▸ hw
  have hemptied := hstart.setBody (y := { b with store := .empty, size := 0 }) hb
  rwa [← add_assoc, add_comm b.store.claims, add_assoc] at hemptied

end Workspace

theorem Edit.ends_replace_claimed {other : Body} (w : Workspace) :
    Ends (Edit.replace other) w
      (fun _ w' => ∀ out, w.Accurate (other.store.claims + out) → w'.Accurate out)
      fun f w' => f.Fatal ∨ w.Balances w' := by
  unfold Edit.replace
  rw [ends_bind, ends_checkFrozen]
  split
  · exact .inr (Evolution.refl w)
  · rw [ends_bind, ends_propagateAll]
    unfold Edit.replaceStore
    rw [ends_bind, ends_lift, Action.ends_ensure]
    split
    · have hoffered : w.Balances (other.toList.foldl Workspace.offer w) :=
        Edit.follows_foldl_offer other.toList w
      exact fun out hw => (hoffered _ hw).replaced other.size
    · exact .inl Fault.fatal_broken

theorem Arena.Accurate.opened {id : ArrayId} {x : Body} {out : Claims} (h : a.Accurate out)
    (hx : a.body? id = some x) : (a.opened id x).Accurate out :=
  Arena.Accurate.setBody (y := .empty) ((zero_add out).symm ▸ h) hx

theorem Workspace.Accurate.closed {id : ArrayId} {w : Workspace} {out : Claims} (h : w.Accurate out)
    (hplace : w.arena.body? id = some .empty) : (w.arena.setBody id w.body).Accurate out :=
  zero_add out ▸ Arena.Accurate.setBody h hplace

namespace Mutation

variable {m : Mutation} {id : ArrayId} {blocks : Arena → Arena → Prop}

theorem Allowed.yields_balances (hm : m.Allowed blocks held id) (hunclaimed : m.Unclaimed)
    (hbalances : ∀ b c, blocks b c → b.Balances c) :
    Yields Workspace.Balances Reply.Unclaimed m.edit :=
  yields_edit (steps_of_call (fun _ _ ha _ hw => hw.withArena ha)
    (fun v b answer? c hcall => hbalances b c (hm.block v b answer? c hcall))
    (fun other hother => Edit.within_replaceStore (hunclaimed other hother) _)
    fun _ _ => Edit.within_steal fun w _ hb _ => w.balances_robbed hb)

theorem Allowed.balances_editBody (hm : m.Allowed blocks held id) (hunclaimed : m.Unclaimed)
    (hbalances : ∀ b c, blocks b c → b.Balances c)
    (hreserved : ∀ b c, blocks b c → b.Reserved [id] c) :
    Yields Arena.Balances Reply.Unclaimed (Action.editBody id m.edit) := by
  intro a
  cases hx : a.body? id with
  | none => exact (Action.ends_editBody_of_none hx).mpr (.inl Fault.fatal_broken)
  | some x =>
      have hback {w : Workspace} (hw : (a.opened id x).Balances w)
          (hplace : w.arena.body? id = some .empty) : a.Balances (w.arena.setBody id w.body) :=
        fun out ha => (hw out (ha.opened hx)).closed hplace
      have hedit := hm.yields_balances hunclaimed hbalances (a.opened id x)
      refine (Action.ends_editBody hx).mpr ((hedit.and (hm.ends_reserved hreserved hx)).mono ?_ ?_)
      · exact fun reply w ⟨hw, hplace⟩ => ⟨hw.1, hback hw.2 hplace⟩
      · exact fun f w ⟨hw, hplace⟩ => hw.elim .inl fun hw => hplace.imp_right (hback hw)

theorem ends_perform_replace (id : ArrayId) (x : Body) : Ends ((replace x).perform id) a
    (fun _ b => ∀ out, a.Accurate (x.store.claims + out) → b.Accurate out)
    fun f b => f.Fatal ∨ a.Balances b := by
  refine Action.ends_holding_relocked (.inl Fault.fatal_broken) fun b hb => ?_
  cases hy : b.body? id with
  | none => exact (Action.ends_editBody_of_none hy).mpr fun d hd => .inl Fault.fatal_broken
  | some y =>
      have hallowed : (replace x).Allowed (fun _ _ => False) [] id :=
        .of_call_none List.not_mem_nil nofun fun _ _ => rfl
      have hplace := hallowed.ends_reserved (fun _ _ => False.elim) hy
      have htaken : Ends (replace x).edit (b.opened id y)
          (fun _ w => ∀ out, (b.opened id y).Accurate (x.store.claims + out) → w.Accurate out)
          fun f w => f.Fatal ∨ (b.opened id y).Balances w :=
        (Edit.ends_replace_claimed _).bind fun _ _ hw => hw
      refine (Action.ends_editBody hy).mpr ((htaken.and hplace).mono ?_ ?_)
      · rintro _ w ⟨hw, hkept⟩ d hd out ha
        exact ((hw out ((ha.relocked hb).opened hy)).closed hkept).relocked hd
      · rintro f w ⟨hw | hw, hkept⟩ d hd
        · exact .inl hw
        · refine hkept.imp_right fun hkept out ha => ?_
          exact ((hw out ((ha.relocked hb).opened hy)).closed hkept).relocked hd

end Mutation

/-! ## Courses -/

def Reply.claims (reply : Reply) : Claims :=
  reply.claim?.toList

theorem Reply.claims_of_none {reply : Reply} (h : reply.claim? = none) : reply.claims = 0 := by
  rw [claims, h]
  rfl

theorem Reply.claims_of_store? {reply : Reply} {s : Store} (h : reply.store? = some s) :
    reply.claims = s.claims := by
  rw [claims, claim?, h]
  rfl

theorem Reply.Placed.accurate {reply : Reply} {out : Claims} (h : reply.Placed a b)
    (ha : a.Accurate (reply.claims + out)) : b.Accurate out := by
  cases h with
  | read bare =>
      have hnone : reply.claim? = none := by rw [claim?, bare]; rfl
      rwa [claims_of_none hnone, zero_add] at ha
  | dropped store =>
      rw [claims_of_store? store] at ha
      exact ha.release
  | object x => exact ha.withObject
  | bound s name => exact ha.bindStore

theorem Chore.Effect.accurate {reply : Reply} {out : Claims} (h : Chore.Effect a reply b)
    (ha : a.Accurate out) : b.Accurate (reply.claims + out) := by
  cases h with
  | made claim counted =>
      rw [Reply.claims_of_none claim, zero_add]
      exact ha.counted counted
  | enrolled n claim =>
      rw [Reply.claims, claim]
      exact ha.enrolled n
  | @changed name s t b found claim counted =>
      have hfound : b.store? name = some s := by rw [Arena.store?, counted.stores]; exact found
      have hgone := (ha.counted counted).unbind hfound
      rw [← Store.claims_congr claim] at hgone
      exact (zero_add out).symm ▸ hgone.setStore
  | taken found claim =>
      rw [Reply.claims, claim]
      exact ha.unbind found

theorem Request.ends_run_accurate {r : Request} (idle : r.Idle held)
    (hblocks : ∀ vs b answer? c, r.call vs b = some (answer?, c) →
      b.Balances c ∧ b.Reserved (r.inside held) c) :
    Ends r.run a (fun reply b => ∀ out, a.Accurate out → b.Accurate (reply.claims + out))
      fun f b => f.Fatal ∨ a.Balances b := by
  by_cases hnative : ∃ n, r = derive (.withCapacity .native n)
  · obtain ⟨n, rfl⟩ := hnative
    refine ((Action.ends_allocate_claim .native n).bind fun s b hs =>
      ends_pure _ |>.mpr ?_).mono_early fun _ _ hf => .inl hf
    intro out ha
    rcases hs with ⟨hs, hb⟩ | ⟨-, hs, rfl⟩
    · exact Chore.Effect.accurate (.made hs hb) ha
    · exact Chore.Effect.accurate (.enrolled n hs) ha
  · have hrun : Yields Arena.Balances Reply.Unclaimed r.run := by
      refine yields_run (fun held b c => b.Balances c ∧ b.Reserved held c) idle hblocks
        (fun id m hm hunclaimed => ?_) (fun d hd => ?_) fun _ h => h
      · refine hm.balances_editBody hunclaimed (fun b c hbc => hbc.1) fun b c hbc => ?_
        exact hbc.2.mono (List.cons_subset_cons id (List.nil_subset held))
      · subst hd
        refine Derivation.yields_run (fun hkind => ?_) fun vs b answer? c hcall =>
          (hblocks vs b answer? c hcall).1
        cases d with
        | withCapacity k n => exact hnative ⟨n, by rw [Option.some.inj hkind]⟩
        | _ => cases hkind
    refine (hrun a).weaken fun reply b hb out ha => ?_
    rw [Reply.claims_of_none (Reply.unclaimed_iff.mp hb.1), zero_add]
    exact hb.2 out ha

theorem Arena.Tracks.balances {poking : Prop} {kept : ArrayId → Prop}
    {answers : Arena → Reply → Prop} (h : a.Tracks poking kept answers held b) : a.Balances b := by
  cases h with
  | done run _ placed =>
      have heffect := (Chore.ends_run _).of_ok run
      exact fun out ha => placed.accurate (heffect.accurate ha)
  | moved _ _ _ _ body run =>
      exact fun out ha => (Mutation.ends_perform_replace _ _).of_ok run out (ha.vacate body)
  | refused _ _ _ _ body run =>
      have hback := (Mutation.ends_perform_replace _ _).of_raised run
      exact fun out ha => (hback _ (ha.vacate body)).release
  | dropped => exact fun out ha => ha.drop _
  | noted objects stores registry _ nextAddress =>
      intro out ha
      refine ⟨?_, registry ▸ ha.keys, ?_, stores ▸ ha.names⟩
      · rw [Arena.claims_eq, objects, stores, Arena.registered, registry]
        exact Arena.claims_eq _ ▸ ha.booked
      · rw [registry]
        exact nextAddress.elim (fun hle e he => Nat.lt_of_lt_of_le (ha.fresh e he) hle) id
  | poked _ _ run => exact Action.nativeWrite_of_ok run ▸ fun out ha => ha.writeAt _ _ _

/-- Whatever clients do, the accounts stay right. -/
theorem Course.balances {poking : Prop} {kept : ArrayId → Prop} {answers : Arena → Reply → Prop}
    (h : Course (.tracking poking kept answers) held a b) : a.Balances b := by
  refine h.stays (R := fun _ => Arena.Balances) (fun _ => Arena.Growth.relocked)
    (fun _ a name out ha => ha.dropStore name) (fun _ a b => Arena.Tracks.balances)
    fun held a r idle hblocks => ?_
  have hcalls vs b answer? c hcall :=
    (hblocks vs b answer? c trivial hcall).symm.imp_right Course.reserved
  exact (Request.ends_run_accurate idle hcalls).weaken fun reply b hb _ c placed out ha =>
    Reply.Placed.accurate placed (hb out ha)

def outside (edited : List (ArrayId × Body)) : Claims :=
  claimed (edited.map fun e => e.2.store)

theorem Leads.accurate {poking : Prop} {kept : ArrayId → Prop}
    {answers : Arena → Reply → Prop} {before edited : List (ArrayId × Body)}
    (h : Leads (.tracking poking kept answers) before a edited b)
    (ha : a.Accurate (outside before)) : b.Accurate (outside edited) := by
  induction h with
  | start => exact ha
  | later _ course ih => exact course.balances _ ih
  | @opened edited b id x m w leads body fair blocks _ run ih =>
      have hedit := (fair.allowed fun vs b answer? c => blocks vs b answer? c trivial)
        |>.yields_balances fair.unclaimed fun _ _ => Course.balances
      have hw : (b.opened id x).Balances w := (hedit.within (b.opened id x)).of_run run
      have hout := hw _ (ih.opened body)
      rwa [Workspace.Accurate, outside, ← claimed_cons] at hout

end AdaptiveArray
