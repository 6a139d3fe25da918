import AdaptiveArray.Mutation
import AdaptiveArray.Proofs.StepFrame

/-!
# What edits do to the arena

Every edit stays within every frame that its blocks stay within, since its steps do;
only taking over a store from elsewhere needs more.  An edit that stores values offers
them to its owner before it does anything else to the arena.
-/

namespace AdaptiveArray

def Workspace.robbed (w : Workspace) (other : ArrayId) (b : Body) : Workspace :=
  (w.withArena (w.arena.setBody other { b with store := .empty, size := 0 })).replaced
    b.store b.size

namespace Edit

variable {S : Workspace → Workspace → Prop} {α β : Type}

section

variable [Workspace.Frame S]

theorem follows_offer (w : Workspace) (v : Value) : S w (w.offer v) := by
  unfold Workspace.offer Arena.offer
  split
  · exact Workspace.Frame.shareValue w v
  · exact Evolution.refl w

theorem follows_foldl_offer (vs : List Value) (w : Workspace) :
    S w (vs.foldl Workspace.offer w) := by
  induction vs generalizing w with
  | nil => exact Evolution.refl w
  | cons v vs ih => exact Evolution.trans (follows_offer w v) (ih (w.offer v))

theorem within_propagate (v : Value) : Within S (propagate v) := fun w => by
  rw [ends_propagate]
  exact follows_offer w v

/-- The edit offers the values to its owner before it does anything else to the arena. -/
def Offers (S : Workspace → Workspace → Prop) (vs : List Value) (e : Edit α) (w : Workspace) :
    Prop :=
  Ends e w (fun _ w' => S (vs.foldl Workspace.offer w) w')
    fun f w' => f.Fatal ∨ S w w'

namespace Offers

variable {vs : List Value} {e : Edit α} {w : Workspace}

theorem within (h : Offers S vs e w) : Ends e w (fun _ w' => S w w')
    (fun f w' => f.Fatal ∨ S w w') :=
  h.weaken fun _ _ hw => Evolution.trans (follows_foldl_offer vs w) hw

theorem nothing (x : α) : Offers S [] (pure x) w := Evolution.refl (R := S) w

theorem propagate {v : Value} {k : Unit → Edit α} (h : Within S (k ())) :
    Offers S [v] (Edit.propagate v >>= k) w := by
  unfold Offers
  rw [ends_bind, ends_propagate]
  exact (h _).mono_early fun _ _ hw => hw.imp_right (Evolution.trans (follows_offer w v))

theorem propagateAll {k : Unit → Edit α} (h : Within S (k ())) :
    Offers S vs (Edit.propagateAll vs >>= k) w := by
  unfold Offers
  rw [ends_bind, ends_propagateAll]
  exact (h _).mono_early fun _ _ hw =>
    hw.imp_right (Evolution.trans (follows_foldl_offer vs w))

theorem checkFrozen {k : Unit → Edit α} (h : Offers S vs (k ()) w) :
    Offers S vs (Edit.checkFrozen >>= k) w := by
  unfold Offers
  rw [ends_bind, ends_checkFrozen]
  split
  · exact .inr (Evolution.refl w)
  · exact h

end Offers

/-! ### Operations -/

theorem exists_push (v : Value) : ∃ rest : Edit Unit,
    push v = (checkFrozen >>= fun _ => propagate v >>= fun _ => rest) ∧
      ∀ (T : Workspace → Workspace → Prop) [Workspace.Tally T], Within T rest := by
  refine ⟨_, rfl, fun T _ => .bind within_size fun _ => .bind within_kind fun _ =>
    .bind within_capacity fun _ =>
      .ite (.bind (within_count (Action.within_capacityForOneMore _)) fun _ => .ite ?_ ?_) ?_⟩
  · exact .bind (within_count (.throw _)) fun _ => .bind (within_reallocate _ _) fun _ =>
      .bind (within_setSlot _ v) fun _ => within_setSize _
  · exact .bind (within_reallocate _ _) fun _ => .bind (within_setSlot _ v) fun _ =>
      within_setSize _
  · exact .bind (within_ensureStorage _ _ _) fun _ => .bind (within_setSlot _ v) fun _ =>
      within_setSize _

theorem offers_push (v : Value) (w : Workspace) : Offers S [v] (push v) w := by
  obtain ⟨rest, heq, hrest⟩ := exists_push v
  rw [heq]
  exact .checkFrozen (.propagate (hrest S))

theorem ends_push_booked (v : Value) (w : Workspace) :
    Ends (push v) w (fun _ w' => Workspace.Follows Arena.Booked (w.offer v) w')
      fun _ _ => True := by
  obtain ⟨rest, heq, hrest⟩ := exists_push v
  rw [heq, ends_bind, ends_checkFrozen]
  split
  · trivial
  · rw [ends_bind, ends_propagate]
    exact (hrest (Workspace.Follows Arena.Booked) _).mono_early fun _ _ _ => ⟨⟩

theorem within_push (v : Value) : Within S (push v) :=
  fun w => (offers_push v w).within

theorem within_pushAll (vs : List Value) : Within S (pushAll vs) :=
  .bind within_checkFrozen fun _ => .forM within_push vs

theorem offers_concat (others : List Body) (w : Workspace) :
    Offers S (if others.foldl (fun n b => n + b.size) 0 = 0 then [] else others.flatMap Body.toList)
      (concat others) w := by
  have hoffer {k : Unit → Edit Unit} (hk : Within S (k ())) :
      Ends ((others.forM fun b => propagateAll b.toList) >>= k) w
        (fun _ w' => S ((others.flatMap Body.toList).foldl Workspace.offer w) w')
        fun f w' => f.Fatal ∨ S w w' := by
    rw [ends_bind, ends_forM_propagateAll]
    exact (hk _).mono_early fun _ _ hw =>
      hw.imp_right (Evolution.trans (follows_foldl_offer _ w))
  have hrest (target : Kind) (total n : Nat) : Within S (do
      ensureStorage target total (others.map Body.store)
      let grown ← Action.copyAll n others (← takeStore)
      replaceStore grown total) :=
    .bind (within_ensureStorage _ _ _) fun _ => within_append n total others
  refine .checkFrozen ?_
  unfold Offers
  rw [ends_bind, ends_size]
  dsimp only
  by_cases hnone : others.foldl (fun n b => n + b.size) 0 = 0
  · rw [if_pos hnone, if_pos hnone]
    exact Offers.nothing ()
  · rw [if_neg hnone, if_neg hnone]
    split
    · exact .inr (Evolution.refl w)
    · rw [ends_bind, ends_kind]
      exact hoffer (hrest _ _ _)

theorem within_concat (others : List Body) : Within S (concat others) :=
  fun w => (offers_concat others w).within

theorem offers_insertAt (position : Nat) (vs : List Value) (w : Workspace) :
    Offers S vs (insertAt position vs) w := by
  unfold Offers insertAt
  rw [ends_bind, ends_size]
  dsimp only
  split
  · exact .inr (Evolution.refl w)
  · rw [ends_bind, ends_kind]
    exact Offers.propagateAll (.bind (within_ensureStorage _ _ _) fun _ =>
      within_spliceSlots _ _ _)

theorem offers_insert (index : Int64) (vs : List Value) (w : Workspace) :
    Offers S vs (insert index vs) w := by
  refine .checkFrozen ?_
  by_cases hnil : vs = []
  · subst hnil
    exact Offers.nothing ()
  · unfold Offers
    rw [if_neg (by simpa using hnil), ends_bind, ends_size]
    split
    · dsimp only
      split
      · exact .inr (Evolution.refl w)
      · exact offers_insertAt _ vs w
    · exact offers_insertAt _ vs w

theorem within_insert (index : Int64) (vs : List Value) :
    Within S (insert index vs) := fun w => (offers_insert index vs w).within

theorem offers_unshift (vs : List Value) (w : Workspace) : Offers S vs (unshift vs) w := by
  refine .checkFrozen ?_
  by_cases hnil : vs = []
  · subst hnil
    exact Offers.nothing ()
  · rw [if_neg (by simpa using hnil)]
    exact offers_insertAt 0 vs w

theorem within_unshift (vs : List Value) : Within S (unshift vs) :=
  fun w => (offers_unshift vs w).within

theorem offers_set (index : Int64) (v : Value) (w : Workspace) : Offers S [v] (set index v) w := by
  have hgrow (padded : Kind) (n position : Nat) : Within S (do
      ensureStorage padded (position + 1)
      extendSlots n position v) :=
    .bind (within_ensureStorage _ _ _) fun _ => within_extendSlots _ _ _
  refine .checkFrozen ?_
  unfold Offers
  rw [ends_bind, ends_size, ends_bind, ends_get]
  split
  · exact .inr (Evolution.refl w)
  · exact Offers.propagate (.bind within_kind fun _ => .ite
      (.bind (within_ensureStorage _ _ _) fun _ => within_setSlot _ v)
      (.ite (.bind (within_count (.throw _)) fun _ => hgrow _ _ _) (hgrow _ _ _)))

theorem within_set (index : Int64) (v : Value) : Within S (set index v) :=
  fun w => (offers_set index v w).within

theorem offers_fill (v : Value) (w : Workspace) :
    Offers S (if w.body.size = 0 then [] else [v]) (fill v) w := by
  refine .checkFrozen ?_
  unfold Offers
  rw [ends_bind, ends_size]
  split
  · exact Offers.nothing ()
  · exact Offers.propagate (.bind within_kind fun _ => .bind (within_ensureStorage _ _ _) fun _ =>
      .bind (within_count (Action.within_pollOver _)) fun _ => within_setSlots _ _)

theorem within_fill (v : Value) : Within S (fill v) :=
  fun w => (offers_fill v w).within

theorem within_mapFrom {f : Block Value} (hf : ∀ v, Within S (liftM (f.run v) : Edit Value))
    (n left i : Nat) : Within S (mapFrom f n left i) := by
  induction left generalizing i with
  | zero => exact .pure ()
  | succ left ih =>
      exact .bind (within_getSlot i) fun v =>
        .bind (hf v) fun mapped =>
          .bind (within_propagate mapped) fun _ => .bind within_kind fun _ =>
            .bind (within_ensureStorage _ _ _) fun _ => .bind (within_setSlot i mapped) fun _ =>
              ih (i + 1)

theorem within_map {f : Block Value} (hf : ∀ v, Within S (liftM (f.run v) : Edit Value)) :
    Within S (map f) :=
  .bind within_checkFrozen fun _ => .bind within_size fun _ => within_mapFrom hf _ _ _

theorem within_clear : Within S clear :=
  .bind within_checkFrozen fun _ => within_replaceStore rfl _

theorem offers_replace {other : Body} (hput : Within S (replaceStore other.store other.size))
    (w : Workspace) : Offers S other.toList (replace other) w :=
  .checkFrozen (.propagateAll hput)

theorem within_replace {other : Body} (hput : Within S (replaceStore other.store other.size)) :
    Within S (replace other) :=
  fun w => (offers_replace hput w).within

theorem body?_foldl_offer (vs : List Value) (w : Workspace) (id : ArrayId) :
    (vs.foldl Workspace.offer w).arena.body? id = w.arena.body? id := by
  induction vs generalizing w with
  | nil => rfl
  | cons v vs ih =>
      rw [List.foldl_cons, ih]
      unfold Workspace.offer Arena.offer
      split
      · exact (Arena.Remarked.shareValue w.arena v).body? id
      · rfl

theorem offers_steal {other : ArrayId}
    (hrobbed : ∀ (w : Workspace) (b : Body), w.arena.body? other = some b → b.frozen = false →
      S w (w.robbed other b)) (w : Workspace) :
    Offers S (((w.arena.body? other).map Body.toList).getD []) (steal other) w := by
  refine .checkFrozen ?_
  unfold Offers
  rw [ends_bind, ends_get, ends_bind, ends_lift]
  cases hb : w.arena.body? other with
  | none => exact .inl Fault.fatal_broken
  | some b =>
      rw [Action.ends_demand_some, ends_bind, ends_lift]
      unfold Action.checkFrozen
      split
      case isTrue => exact .inr (Evolution.refl w)
      case isFalse hfrozen =>
          rw [ends_pure, ends_bind, ends_propagateAll, ends_bind, ends_modify]
          unfold replaceStore
          rw [ends_bind, ends_lift, Action.ends_ensure]
          split
          · refine hrobbed _ b ?_ (Bool.eq_false_iff.mpr hfrozen)
            exact (body?_foldl_offer _ _ other).trans hb
          · exact .inl Fault.fatal_broken

theorem within_steal {other : ArrayId}
    (hrobbed : ∀ (w : Workspace) (b : Body), w.arena.body? other = some b → b.frozen = false →
      S w (w.robbed other b)) : Within S (steal other) :=
  fun w => (offers_steal hrobbed w).within

theorem follows_robbed {R : Arena → Arena → Prop} [Arena.Frame R] {other : ArrayId}
    (hemptied : ∀ (a : Arena) (b : Body), a.body? other = some b → b.frozen = false →
      R a (a.setBody other { b with store := .empty, size := 0 })) (w : Workspace) (b : Body)
    (hb : w.arena.body? other = some b) (hfrozen : b.frozen = false) :
    w.Follows R (w.robbed other b) := by
  let emptied := w.withArena (w.arena.setBody other { b with store := .empty, size := 0 })
  have hstart : w.Follows R emptied := ⟨rfl, hemptied w.arena b hb hfrozen⟩
  exact Evolution.trans hstart (emptied.follows_replaced b.store b.size)

theorem within_sizeArgument (n : Int64) : Within S (sizeArgument n) := by
  refine .ite (.bind (within_count (.throw _)) fun _ => ?_) ?_
  all_goals exact .ite (.bind (within_count (.throw _)) fun _ => .pure _) (.pure _)

theorem offers_restartFilled (n : Nat) (v : Value) (w : Workspace) :
    Offers S (if n = 0 then [] else [v]) (restartFilled n v) w := by
  unfold Offers restartFilled
  split
  · exact within_replaceStore rfl _ w
  · refine Offers.propagate (Yields.bind_within
      (yields_count (Action.yields_allocate (Kind.ofValue_ne_native v) n)) fun fresh hfresh => ?_)
    have hfilled := (Store.claim?_foldl_set (fun i => (i, v)) (List.range n) fresh).trans hfresh
    exact .ite (within_replaceStore hfresh _)
      (.bind (within_count (Action.within_pollOver _)) fun _ => within_replaceStore hfilled _)

theorem within_restartFilled (n : Nat) (v : Value) :
    Within S (restartFilled n v) :=
  fun w => (offers_restartFilled n v w).within

theorem within_restart (size? fill? : Option Value) :
    Within S (restart size? fill?) := by
  refine .bind within_checkFrozen fun _ => ?_
  split
  · exact within_replaceStore rfl _
  · refine .bind .get fun w => .ite (.pure _) ?_
    split
    · exact within_replace (within_replaceStore (Store.claim?_clone _) _)
    · exact within_count (.throw _)
  · exact .bind (within_sizeArgument _) fun _ => within_restartFilled _ _
  · refine .ite (.bind (within_count (.throw _)) fun _ => ?_) ?_
    all_goals exact .bind (within_sizeArgument _) fun _ => within_restartFilled _ _
  · exact within_count (.throw _)

theorem within_pushFrom {f : Block Value} (hf : ∀ v, Within S (liftM (f.run v) : Edit Value))
    (left i : Nat) : Within S (pushFrom f left i) := by
  induction left generalizing i with
  | zero => exact .pure ()
  | succ left ih =>
      exact .bind (hf _) fun v =>
        .bind (within_push v) fun _ => ih (i + 1)

theorem within_restartWith {f : Block Value} (hf : ∀ v, Within S (liftM (f.run v) : Edit Value))
    (n : Int64) : Within S (restartWith n f) :=
  .bind within_checkFrozen fun _ => .bind (within_sizeArgument n) fun _ =>
    .bind (within_replaceStore rfl _) fun _ => within_pushFrom hf _ _

end

/-! ### Removals -/

section

variable [Workspace.Settled S]

theorem within_removePass {test : Value → Edit Bool}
    (htest : ∀ v, Within S (test v)) (left : Nat) (p : Pass) :
    Within S (removePass test left p) := by
  induction left generalizing p with
  | zero => exact .pure p
  | succ left ih =>
      refine .bind (within_count (Action.within_pollAt _)) fun _ =>
        .bind (within_getSlot _) fun v =>
        .bind (within_attempt (htest v)) fun answer => ?_
      split
      · exact .pure _
      · exact .ite (.bind within_checkFrozen fun _ =>
          .bind Workspace.Settled.ensureMutable fun _ => ih _) (ih _)
      · exact .ite (.bind (within_moveSlots _ _ _) fun _ => ih _) (ih _)

theorem within_removeWhere {test : Value → Edit Bool}
    (htest : ∀ v, Within S (test v)) :
    Within S (removeWhere test) := by
  have hanswer (p : Pass) : Within S (conclude p.error p.found) := by
    unfold conclude
    split
    · exact within_count (.throw _)
    · exact .pure _
  exact .bind within_size fun _ => .bind (within_count Action.within_options) fun _ =>
    .bind (within_removePass htest _ _) fun p => .ite (.bind (within_moveSlots _ _ _) fun _ =>
      .bind (within_clearSlots _ _) fun _ => .bind (within_setSize _) fun _ => hanswer p)
        (hanswer p)

theorem within_delete? (v : Value) : Within S (delete? v) :=
  within_removeWhere fun _ => .bind .get fun _ => .pure _

theorem within_deleteOr {v : Value} {missing : Value → Edit Value}
    (hmissing : ∀ v, Within S (missing v)) :
    Within S (deleteOr v missing) := by
  refine .bind (within_delete? v) fun found => ?_
  split
  · exact .pure _
  · exact hmissing v

theorem within_deleteAt (index : Int64) : Within S (deleteAt index) := by
  refine .bind within_checkFrozen fun _ => .bind within_size fun _ => .bind .get fun w => ?_
  split
  · exact .pure _
  · exact .ite (.pure _) (.bind (within_getSlot _) fun _ =>
      .bind Workspace.Settled.ensureMutable fun _ => .bind (within_moveSlots _ _ _) fun _ =>
        .bind (within_clearSlots _ _) fun _ => .bind (within_setSize _) fun _ => .pure _)

theorem within_compact : Within S compact :=
  .bind within_checkFrozen fun _ => .bind within_kind fun _ => .ite (.pure _)
    (.bind (within_removeWhere fun _ => .pure _) fun _ => .pure _)

theorem within_reject {f : Block Bool} (hf : ∀ v, Within S (liftM (f.run v) : Edit Bool)) :
    Within S (reject f) :=
  .bind within_checkFrozen fun _ => .bind (within_removeWhere fun v =>
    hf v) fun _ => .pure _

theorem within_keepIf {f : Block Bool} (hf : ∀ v, Within S (liftM (f.run v) : Edit Bool)) :
    Within S (keepIf f) :=
  .bind within_checkFrozen fun _ => .bind (within_removeWhere fun v =>
    .bind (hf v) fun _ => .pure _) fun _ => .pure _

/-! ### Parts -/

theorem within_countArgument (n : Int64) : Within S (countArgument n) :=
  .ite (within_count (.throw _)) (.pure _)

theorem yields_ofStore? {part : Store} (h : part.claim? = none) (n : Nat) :
    Yields S (fun b => b.store.claim? = none)
      (liftM (Action.demand (Body.ofStore? part n)) : Edit Body) :=
  yields_count (Action.yields_ofStore? h n)

theorem yields_slice (start length : Int64) :
    Yields S (fun part => ∀ b, part = some b → b.store.claim? = none) (slice start length) := by
  refine .after within_size fun _ => .after .get fun w => ?_
  split
  · exact .pure nofun
  · refine .ite (fun _ => .pure nofun) fun _ => .bind (yields_extractShared _ _) fun part hpart =>
      .bind (yields_ofStore? hpart _) fun b hb => .pure ?_
    rintro _ ⟨⟩
    exact hb

theorem within_slice (start length : Int64) : Within S (slice start length) :=
  (yields_slice start length).within

theorem yields_dup : Yields S (fun b => b.store.claim? = none) dup :=
  .after within_size fun _ => .ite (fun _ => .pure rfl) fun _ =>
    .bind (yields_extractShared _ _) fun _ hpart => yields_ofStore? hpart _

theorem within_dup : Within S dup := yields_dup.within

theorem within_pop : Within S pop :=
  .bind within_checkFrozen fun _ => .bind within_size fun _ => .ite (.pure _)
    (.bind (within_getSlot _) fun _ => .bind within_isMutable fun _ => .ite
      (.bind (within_clearSlots _ _) fun _ => .bind (within_setSize _) fun _ => .pure _)
      (.bind (within_setSize _) fun _ => .pure _))

theorem yields_popN (count : Int64) :
    Yields S (fun b => b.store.claim? = none) (popN count) :=
  .after within_checkFrozen fun _ => .after within_size fun _ =>
    .after (within_countArgument count) fun _ => .ite (fun _ => .pure rfl) fun _ =>
      .after within_store fun _ => .bind (yields_count (Action.yields_extract _ _ _)) fun _ hpart =>
        .after within_isMutable fun _ => .ite
          (fun _ => .after (within_clearSlots _ _) fun _ => .after (within_setSize _) fun _ =>
            yields_ofStore? hpart _)
          fun _ => .after (within_setSize _) fun _ => yields_ofStore? hpart _

theorem within_popN (count : Int64) : Within S (popN count) := (yields_popN count).within

end

section

variable [Workspace.Frame S]

theorem within_shift : Within S shift :=
  .bind within_checkFrozen fun _ => .bind within_size fun _ => .ite (.pure _)
    (.bind (within_getSlot _) fun _ => Yields.bind_within (yields_extractShared _ _) fun _ hrest =>
      .bind (within_replaceStore hrest _) fun _ => .pure _)

theorem yields_shiftN (count : Int64) :
    Yields S (fun b => b.store.claim? = none) (shiftN count) :=
  .after within_checkFrozen fun _ => .after within_size fun _ =>
    .after (within_countArgument count) fun _ => .ite (fun _ => .pure rfl) fun _ =>
      .bind (yields_extractShared _ _) fun _ hpart =>
        .bind (yields_extractShared _ _) fun _ hrest =>
          .after (within_replaceStore hrest _) fun _ => yields_ofStore? hpart _

theorem within_shiftN (count : Int64) : Within S (shiftN count) := (yields_shiftN count).within

/-! ### Order and native storage -/

theorem within_rotateInPlace {S : Workspace → Workspace → Prop} [Workspace.Steady S]
    (rotation n : Nat) : Within S (do
      if n ≤ (← Action.options).maxExplodeSize then rotateByIndex rotation n
      else rotateByReversal rotation n : Edit Unit) := by
  have hreversed : Within S (rotateByReversal rotation n) :=
    .bind (within_reverseSlots _ _) fun _ => .bind (within_reverseSlots _ _) fun _ =>
      within_reverseSlots _ _
  exact .bind (within_count Action.within_options) fun _ =>
    .ite (.bind .get fun _ => within_setSlots _ _) hreversed

theorem within_rotate (count : Int64) : Within S (rotate count) := by
  refine .bind within_checkFrozen fun _ => .bind within_size fun n => .ite (.pure _)
    (.ite (.pure _) fun w => ?_)
  rw [ends_bind, ends_isMutable]
  by_cases hmutable : w.body.store.isMutable
  · rw [if_neg (by simp [hmutable])]
    exact within_rotateInPlace _ n w
  · have hkind : w.body.kind ≠ .native := fun hnative => by
      simp [Store.isMutable, show w.body.store.kind = .native from hnative,
        Kind.isMutable] at hmutable
    rw [if_pos (by simp [hmutable]), ends_bind, ends_kind]
    exact Yields.bind_within
      (yields_count (Action.yields_allocate (Kind.forMutation_ne_native hkind) n))
      (fun _ hfresh => .bind within_store fun _ => Yields.bind_within
        (yields_count (Action.yields_rotateCopy _ _ _ _)) fun _ hrotated =>
          within_replaceStore (hrotated.trans hfresh) _) w

theorem within_sort : Within S sort :=
  .bind within_checkFrozen fun _ => .bind .get fun w =>
    Yields.bind_within (yields_count (Body.yields_sort w.body)) fun _ hsorted =>
      within_replace (within_replaceStore hsorted _)

theorem within_toNative : Within S toNative := fun w => by
  unfold toNative
  rw [ends_bind, ends_store]
  split
  · exact Evolution.refl w
  · rw [ends_bind, ends_size, ends_bind, ends_lift, Action.ends_newNative_ite]
    split
    · have hrehouse := ends_rehouse (S := S) (w := w) w.body.store
        (Array.replicate (max w.body.store.capacity w.body.size) .nil) w.body.size w.body.size
      rwa [Array.size_replicate] at hrehouse
    · exact .inl Fault.fatal_outOfMemory

end

end Edit

def Reply.store? : Reply → Option Store
  | body b => some b.store
  | store s => some s
  | _ => none

def Reply.Unclaimed (reply : Reply) : Prop :=
  ∀ s, reply.store? = some s → s.claim? = none

namespace Mutation

def Steps (S : Workspace → Workspace → Prop) : Mutation → Prop
  | map f | restartWith _ f => ∀ v, Within S (liftM (f.run v) : Edit Value)
  | deleteOr _ missing => ∀ v, Within S (liftM (missing v) : Edit Value)
  | reject f | keepIf f => ∀ v, Within S (liftM (f.run v) : Edit Bool)
  | replace other => Within S (Edit.replaceStore other.store other.size)
  | steal other => Within S (Edit.steal other)
  | _ => True

/-- Every edit stays within every frame, and never answers native storage. -/
theorem yields_edit {S : Workspace → Workspace → Prop} [Workspace.Frame S] {m : Mutation}
    (h : m.Steps S) :
    Yields S Reply.Unclaimed m.edit := by
  have hunit {e : Edit Unit} (he : Within S e) :
      Yields S Reply.Unclaimed (do e; return Reply.nothing) := .after he fun _ => .pure nofun
  have hvalue {e : Edit Value} (he : Within S e) :
      Yields S Reply.Unclaimed (do return Reply.value (← e)) := .after he fun _ => .pure nofun
  have hflag {e : Edit Bool} (he : Within S e) :
      Yields S Reply.Unclaimed (do return Reply.flag (← e)) := .after he fun _ => .pure nofun
  have hbody {e : Edit Body} (he : Yields S (fun b => b.store.claim? = none) e) :
      Yields S Reply.Unclaimed (do return Reply.body (← e)) :=
    .bind he fun b hb => .pure fun s hs => Option.some.inj hs ▸ hb
  cases m with
  | push v => exact hunit (Edit.within_push v)
  | pushAll vs => exact hunit (Edit.within_pushAll vs)
  | insert index vs => exact hunit (Edit.within_insert index vs)
  | unshift vs => exact hunit (Edit.within_unshift vs)
  | set index v => exact hunit (Edit.within_set index v)
  | fill v => exact hunit (Edit.within_fill v)
  | map f => exact hunit (Edit.within_map h)
  | concat others => exact hunit (Edit.within_concat others)
  | delete v => exact hvalue (Edit.within_deleteOr fun _ => .pure _)
  | deleteOr v missing => exact hvalue (Edit.within_deleteOr h)
  | deleteAt index => exact hvalue (Edit.within_deleteAt index)
  | compact => exact hflag Edit.within_compact
  | reject f => exact hflag (Edit.within_reject h)
  | keepIf f => exact hunit (Edit.within_keepIf h)
  | pop => exact hvalue Edit.within_pop
  | popN count => exact hbody (Edit.yields_popN count)
  | shift => exact hvalue Edit.within_shift
  | shiftN count => exact hbody (Edit.yields_shiftN count)
  | slice start length =>
      refine .bind (Edit.yields_slice start length) fun part hpart => ?_
      split
      · exact .pure fun s hs => Option.some.inj hs ▸ hpart _ rfl
      · exact .pure nofun
  | dup => exact hbody Edit.yields_dup
  | extract start stop =>
      exact .bind (Edit.yields_extractShared start stop) fun part hpart =>
        .pure fun s hs => Option.some.inj hs ▸ hpart
  | clear => exact hunit Edit.within_clear
  | replace other => exact hunit (Edit.within_replace h)
  | steal other => exact hunit h
  | restart size? fill? => exact hunit (Edit.within_restart size? fill?)
  | restartWith size f => exact hunit (Edit.within_restartWith h size)
  | rotate count => exact hunit (Edit.within_rotate count)
  | sort => exact hunit Edit.within_sort
  | freeze => exact hunit Edit.within_freeze
  | toNative => exact hunit Edit.within_toNative

def Stays (R : Arena → Arena → Prop) : Mutation → Prop
  | map f => ∀ v, Within R (f.run v)
  | deleteOr _ missing => ∀ v, Within R (missing v)
  | reject f => ∀ v, Within R (f.run v)
  | keepIf f => ∀ v, Within R (f.run v)
  | restartWith _ f => ∀ v, Within R (f.run v)
  | steal other => ∀ (a : Arena) (b : Body), a.body? other = some b → b.frozen = false →
      R a (a.setBody other { b with store := .empty, size := 0 })
  | _ => True

theorem Stays.steps {R : Arena → Arena → Prop} [Arena.Frame R] {m : Mutation} (h : m.Stays R) :
    m.Steps (Workspace.Follows R) := by
  cases m with
  | map f => exact fun v => Edit.within_lift (h v)
  | deleteOr v missing => exact fun v => Edit.within_lift (h v)
  | reject f => exact fun v => Edit.within_lift (h v)
  | keepIf f => exact fun v => Edit.within_lift (h v)
  | restartWith size f => exact fun v => Edit.within_lift (h v)
  | replace other => exact Edit.follows_replaceStore _ _
  | steal other => exact Edit.within_steal (Edit.follows_robbed h)
  | _ => trivial

theorem within_edit {R : Arena → Arena → Prop} [Arena.Frame R] {m : Mutation} (h : m.Stays R) :
    Within (Workspace.Follows R) m.edit :=
  (yields_edit h.steps).within

end Mutation

end AdaptiveArray
