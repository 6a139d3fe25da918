import AdaptiveArray.Proofs.Failing
import AdaptiveArray.Proofs.Requests

/-!
# Frames of new arrays

Making a new array from values, from a text or from other arrays changes counters and
puts rows into array objects of their own.  Nothing that it stores is native, unless an
empty array is made with native storage.
-/

namespace AdaptiveArray

variable {R : Arena → Arena → Prop} {α : Type} {id : ArrayId}

structure Arena.Relocked (a b : Arena) : Prop where
  rest : b = { a with objects := b.objects }
  size : b.objects.size = a.objects.size
  body? : ∀ id, b.body? id = a.body? id

namespace Arena.Relocked

variable {a b c : Arena}

theorem refl (a : Arena) : a.Relocked a :=
  ⟨rfl, rfl, fun _ => rfl⟩

theorem trans (h : a.Relocked b) (h' : b.Relocked c) : a.Relocked c where
  rest := by
    have hc := h'.rest
    rw [h.rest] at hc
    exact hc
  size := h'.size.trans h.size
  body? id := (h'.body? id).trans (h.body? id)

theorem of_remarked (h : a.Remarked b) : a.Relocked b :=
  ⟨h.rest, h.size, h.body?⟩

theorem modifyObject (a : Arena) (id : ArrayId) {change : ArrayObject → ArrayObject}
    (hbody : ∀ o : ArrayObject, (change o).body = o.body)
    (hshared : ∀ o : ArrayObject, (change o).shared = o.shared) :
    a.Relocked (a.modifyObject id change) :=
  ⟨rfl, size_modifyObject a id change, (relabelled_modifyObject a id change hbody hshared).body?⟩

theorem setLock (a : Arena) (id : ArrayId) (lock : Lock) : a.Relocked (a.setLock id lock) :=
  modifyObject a id (fun _ => rfl) fun _ => rfl

theorem shareValue (a : Arena) (v : Value) : a.Relocked (a.shareValue v) :=
  .of_remarked (.shareValue a v)

theorem unlock (a : Arena) (id : ArrayId) : a.Relocked (a.unlock id) := by
  unfold Arena.unlock
  dsimp only
  split
  · have hcleared : (a.setLock id .free).Relocked
        ((a.setLock id .free).modifyObject id fun o => { o with sharePending := false }) :=
      modifyObject _ id (fun _ => rfl) fun _ => rfl
    exact (setLock a id .free).trans (hcleared.trans (.of_remarked (.shareElements _ id)))
  · exact setLock a id .free

end Arena.Relocked

class Arena.Growth (R : Arena → Arena → Prop) : Prop extends Arena.Count R where
  relocked : ∀ {a b : Arena}, a.Relocked b → R a b
  nextString : ∀ (a : Arena) (n : StringId), R a { a with nextString := n }
  withObject : ∀ (a : Arena) {b : Body}, b.store.claim? = none → R a (a.withObject b)

theorem Action.ends_holding_relocked {act : Action α} {a : Arena} {post : α → Arena → Prop}
    {early : Fault → Arena → Prop} (hbroken : early .broken a)
    (h : ∀ b, a.Relocked b → Ends act b (fun x c => ∀ d, c.Relocked d → post x d)
      fun f c => ∀ d, c.Relocked d → early f d) : Ends (holding id act) a post early := by
  unfold holding
  rw [ends_bind, ends_get]
  split
  · rw [ends_bind, ends_modify]
    exact ends_closing.mpr ((h _ (.setLock a id .mine)).mono (fun _ _ hc => hc _ (.unlock _ id))
      fun _ _ hc => hc _ (.unlock _ id))
  · exact (h a (.refl a)).mono (fun _ c hc => hc c (.refl c)) fun _ c hc => hc c (.refl c)
  · exact hbroken

theorem Action.yields_holding [Arena.Growth R] {P : α → Prop} {act : Action α}
    (h : Yields R P act) : Yields R P (holding id act) := by
  intro a
  refine ends_holding_relocked (.inl Fault.fatal_broken) fun b hb => ?_
  have haround {c d : Arena} (hbc : R b c) (hd : c.Relocked d) : R a d :=
    Evolution.trans (Arena.Growth.relocked hb) (Evolution.trans hbc (Arena.Growth.relocked hd))
  exact (h b).mono (fun _ _ hc d hd => ⟨hc.1, haround hc.2 hd⟩)
    fun _ _ hf d hd => hf.imp_right fun hbc => haround hbc hd

theorem within_of_outcome {act : Action α} (answer : α → Option Value)
    (h : ∀ a answer? b, outcome answer (act a) = some (answer?, b) → R a b) : Within R act := by
  refine fun a => .intro (fun x b hrun => h a (answer x) b (by rw [hrun]; rfl)) fun f b hrun => ?_
  cases f with
  | raised e => exact .inr (h a none b (by rw [hrun]; rfl))
  | broken => exact .inl Fault.fatal_broken
  | outOfMemory => exact .inl Fault.fatal_outOfMemory

section

variable [Arena.Growth R]

theorem Action.within_newObject {b : Body} (hb : b.store.claim? = none) : Within R (newObject b) :=
  fun a => Arena.Growth.withObject a hb

namespace Body

variable {b : Body}

theorem yields_add (x y : Body) : Yields R (fun c => c.store.claim? = none) (x.add y) := by
  have hrest : Yields R (fun c => c.store.claim? = none) (do
      if x.size + y.size = 0 then return .empty
      let fresh ← Action.allocate (x.kind.join y.kind).forCopy (x.size + y.size)
      let sum ← Action.copyAll 0 [x, y] fresh
      Action.demand (ofStore? sum (x.size + y.size))) :=
    .ite (fun _ => .pure rfl) fun _ =>
      .bind (Action.yields_allocate (Kind.forCopy_ne_native _) _) fun _ hfresh =>
        .bind (Action.yields_copyAll _ _ _) fun _ hsum =>
          Action.yields_ofStore? (hsum.trans hfresh) _
  exact .ite (fun _ => .after (.throw _) fun _ => hrest) fun _ => hrest

theorem yields_repeatInto (b : Body) (left i : Nat) (dst : Store) :
    Yields R (fun s => s.claim? = dst.claim?) (b.repeatInto left i dst) := by
  induction left generalizing i dst with
  | zero => exact .pure rfl
  | succ left ih =>
      exact .after (Action.within_pollAt i) fun _ => .bind (Action.yields_copyTo _ _ _ _ _)
        fun d hd => (ih (i + 1) d).weaken fun _ hs => hs.trans hd

theorem yields_mul (b : Body) (count : Int64) :
    Yields R (fun c => c.store.claim? = none) (b.mul count) := by
  have hrest (total : Nat) : Yields R (fun c => c.store.claim? = none) (do
      if total = 0 then return .empty
      let fresh ← Action.allocate b.kind.forCopy total
      let product ← b.repeatInto count.toInt.toNat 0 fresh
      Action.demand (ofStore? product total)) :=
    .ite (fun _ => .pure rfl) fun _ =>
      .bind (Action.yields_allocate (Kind.forCopy_ne_native _) _) fun _ hfresh =>
        .bind (b.yields_repeatInto _ _ _) fun _ hs => Action.yields_ofStore? (hs.trans hfresh) _
  have hsized (total : Nat) : Yields R (fun c => c.store.claim? = none) (do
      if maxSize < total then Action.fail .productTooBig
      if total = 0 then return .empty
      let fresh ← Action.allocate b.kind.forCopy total
      let product ← b.repeatInto count.toInt.toNat 0 fresh
      Action.demand (ofStore? product total)) :=
    .ite (fun _ => .after (.throw _) fun _ => hrest _) fun _ => hrest _
  exact .ite (fun _ => .after (.throw _) fun _ => hsized _) fun _ => hsized _

theorem yields_rotate (b : Body) (count : Int64) :
    Yields R (fun c => c.store.claim? = none) (b.rotate count) :=
  .ite (fun _ => .pure rfl) fun _ =>
    .bind (Action.yields_allocate (Kind.forCopy_ne_native _) _) fun _ hfresh =>
      .bind (Action.yields_rotateCopy _ _ _ _) fun _ hs =>
        Action.yields_ofStore? (hs.trans hfresh) _

theorem yields_keepInto {test : Value → Action Bool} (htest : ∀ v, Within R (test v))
    (vs : List Value) (kept : Nat) (dst : Store) :
    Yields R (fun part => part.1.claim? = dst.claim?) (keepInto test vs kept dst) := by
  induction vs generalizing kept dst with
  | nil => exact .pure rfl
  | cons v vs ih =>
      refine .after (htest v) fun _ => .ite (fun _ => ?_) fun _ => ih kept dst
      exact .after (Action.within_ensure _) fun _ =>
        (ih (kept + 1) (dst.set kept v)).weaken fun _ hs => hs.trans (Store.claim?_set _ _ _)

theorem yields_filter {test : Value → Action Bool} (htest : ∀ v, Within R (test v)) (b : Body) :
    Yields R (fun c => c.store.claim? = none) (b.filter test) :=
  .bind (Action.yields_allocate (Kind.forCopy_ne_native _) _) fun _ hfresh =>
    .bind (yields_keepInto htest _ _ _) fun _ hs =>
      .ite (fun _ => .pure rfl) fun _ => Action.yields_ofStore? (hs.trans hfresh) _

theorem yields_compact (b : Body) : Yields R (fun c => c.store.claim? = none) b.compact :=
  .ite (fun _ => yields_filter (fun _ => .pure _) b) fun _ => yields_filter (fun _ => .pure _) b

theorem yields_mapInto {f : Block Value} (hf : ∀ v, Within R (f.run v)) (vs : List Value)
    {rows : Builder} (hrows : rows.store.claim? = none) :
    Yields R (fun b => b.store.claim? = none) (mapInto f vs rows) := by
  induction vs generalizing rows with
  | nil => exact .pure hrows
  | cons v vs ih =>
      exact .after (hf v) fun _ => .bind (Builder.yields_push hrows _) fun _ hb => ih hb

theorem yields_map {f : Block Value} (hf : ∀ v, Within R (f.run v)) (b : Body) :
    Yields R (fun c => c.store.claim? = none) (b.map f) :=
  .bind (yields_mapInto hf _ rfl) fun _ hb => Builder.yields_finish hb

theorem yields_zipInto (others : List Body) (vs : List Value) (i : Nat) {rows : Builder}
    (hrows : rows.store.claim? = none) :
    Yields R (fun b => b.store.claim? = none) (zipInto others vs i rows) := by
  induction vs generalizing i rows with
  | nil => exact .pure hrows
  | cons v vs ih =>
      exact .bind (Action.yields_ofValues _) fun _ hrow =>
        .after (Action.within_newObject hrow) fun _ =>
          .bind (Builder.yields_push hrows _) fun _ hb => ih (i + 1) hb

theorem yields_zip (b : Body) (others : List Body) :
    Yields R (fun c => c.store.claim? = none) (b.zip others) :=
  .bind (yields_zipInto others _ _ rfl) fun _ hb => Builder.yields_finish hb

end Body

/-! ## Texts -/

namespace Json

theorem within_scalar? (e : Event) : Within R e.scalar? := by
  cases e with
  | string text =>
      exact .bind (fun a => Arena.Growth.nextString a (a.nextString + 1)) fun _ => .pure _
  | _ => exact .pure _

def Built.Unclaimed (top : Option Built) : Prop :=
  ∀ b, top = some (.array b) → b.store.claim? = none

theorem yields_build (es : List Event) {builders : List Builder} {top : Option Built}
    (hbuilders : ∀ b ∈ builders, b.store.claim? = none) (htop : Built.Unclaimed top) :
    Yields R Built.Unclaimed (build es builders top) := by
  induction es generalizing builders top with
  | nil => exact .pure htop
  | cons e es ih =>
      unfold build
      split
      · exact ih (List.forall_mem_cons.mpr ⟨rfl, hbuilders⟩) htop
      · exact .throw _
      · refine .bind (Builder.yields_finish (hbuilders _ List.mem_cons_self)) fun body hbody =>
          ih (List.forall_mem_nil _) fun b hb => ?_
        cases hb
        exact hbody
      · obtain ⟨hb, houter, hrest⟩ := by simpa only [List.forall_mem_cons] using hbuilders
        exact .bind (Builder.yields_finish hb) fun body hbody =>
          .after (Action.within_newObject hbody) fun id =>
            .bind (Builder.yields_push houter _) fun _ houter' =>
              ih (List.forall_mem_cons.mpr ⟨houter', hrest⟩) htop
      · refine .after (within_scalar? _) fun found => ?_
        split
        · exact ih (List.forall_mem_nil _) (by rintro _ ⟨⟩)
        · obtain ⟨hb, hrest⟩ := List.forall_mem_cons.mp hbuilders
          exact .bind (Builder.yields_push hb _) fun _ hb' =>
            ih (List.forall_mem_cons.mpr ⟨hb', hrest⟩) htop
        · exact .throw _

end Json

theorem Action.yields_readArray (text : String) :
    Yields R (fun answer => ∀ b, answer = .ok b → b.store.claim? = none) (readArray text) := by
  refine .bind (Json.yields_build _ (List.forall_mem_nil _) (by rintro _ ⟨⟩)) fun built hbuilt => ?_
  split
  · exact .pure (by rintro _ ⟨⟩)
  · refine .pure fun b hb => ?_
    cases hb
    exact hbuilt _ rfl
  · exact .throw _

theorem Action.within_readValue (text : String) : Within R (readValue text) := by
  refine Yields.bind_within (Json.yields_build _ nofun nofun) fun built hbuilt => ?_
  split
  · exact .pure _
  · exact .pure _
  · exact .bind (within_newObject (hbuilt _ rfl)) fun _ => .pure _
  · exact .throw _

end

/-! ## All ways to a new array -/

theorem Action.within_bodiesOf [Arena.Count R] (ids : List ArrayId) : Within R (bodiesOf ids) := by
  induction ids with
  | nil => exact .pure []
  | cons id ids ih => exact .bind (within_bodyOf id) fun _ => .bind ih fun _ => .pure _

theorem Body.claim?_ofBuffer (b : Buffer) : (Body.ofBuffer b).store.claim? = none := by
  unfold Body.ofBuffer
  split <;> rfl

namespace Derivation

def kind? : Derivation → Option Kind
  | withCapacity k _ => some k
  | _ => none

theorem yields_run [Arena.Growth R] {d : Derivation} (hkind : d.kind? ≠ some .native)
    (hblock : ∀ vs b answer? c, d.call vs b = some (answer?, c) → R b c) :
    Yields R Reply.Unclaimed d.run := by
  have hbody {act : Action Body} (h : Yields R (fun c => c.store.claim? = none) act) :
      Yields R Reply.Unclaimed (do return Reply.body (← act)) :=
    .bind h fun b hb => .pure fun s hs => Option.some.inj hs ▸ hb
  have hread (id : ArrayId) {act : Body → Action Body}
      (h : ∀ b, Yields R (fun c => c.store.claim? = none) (act b)) :
      Yields R Reply.Unclaimed (do return Reply.body (← act (← Action.bodyOf id))) :=
    .after (Action.within_bodyOf id) fun b => hbody (h b)
  cases d with
  | new => exact .pure fun s hs => Option.some.inj hs ▸ rfl
  | withCapacity k n =>
      have hk : k ≠ .native := fun heq => hkind (congrArg some heq)
      exact .bind (Action.yields_allocate hk n) fun fresh hfresh =>
        .pure fun s hs => Option.some.inj hs ▸ hfresh
  | ofBuffer b => exact .pure fun s hs => Option.some.inj hs ▸ Body.claim?_ofBuffer b
  | ofValues vs => exact hbody (Action.yields_ofValues vs)
  | readArray text =>
      refine .bind (Action.yields_readArray text) fun answer hanswer => ?_
      split
      · exact .pure fun s hs => Option.some.inj hs ▸ hanswer _ rfl
      · exact .pure nofun
  | readValue text =>
      refine .after (Action.within_readValue text) fun answer => ?_
      split <;> exact .pure nofun
  | clone id =>
      exact .after (Action.within_bodyOf id) fun b =>
        .pure fun s hs => Option.some.inj hs ▸ Store.claim?_clone _
  | add id other =>
      exact .after (Action.within_bodyOf id) fun x => hread other fun y => Body.yields_add x y
  | mul id count => exact hread id fun b => b.yields_mul count
  | rotate id count => exact hread id fun b => b.yields_rotate count
  | sort id => exact hread id fun b => b.yields_sort
  | sortBy id compare =>
      exact hread id fun b => b.yields_sortBy fun x y =>
        within_of_outcome (fun _ => none) fun a => hblock [x, y] a
  | compact id => exact hread id fun b => b.yields_compact
  | select id f =>
      exact hread id fun b => b.yields_filter fun v =>
        within_of_outcome (fun _ => none) fun a => hblock [v] a
  | reject id f =>
      have hf (v : Value) : Within R (f.run v) :=
        within_of_outcome (fun _ => none) fun a => hblock [v] a
      exact hread id fun b => b.yields_filter fun v => .bind (hf v) fun _ => .pure _
  | map id f =>
      exact hread id fun b => b.yields_map fun v => within_of_outcome some fun a => hblock [v] a
  | zip id others =>
      exact .after (Action.within_bodyOf id) fun b =>
        .after (Action.within_bodiesOf others) fun bodies => hbody (b.yields_zip bodies)

end Derivation

theorem Mutation.steps_of_call {S : Workspace → Workspace → Prop} {m : Mutation}
    (hwith : ∀ (w : Workspace) (a : Arena), R w.arena a → S w (w.withArena a))
    (hcall : ∀ v b answer? c, m.call v b = some (answer?, c) → R b c)
    (hreplace : ∀ other, m = .replace other → Within S (Edit.replaceStore other.store other.size))
    (hsteal : ∀ other, m.donor? = some other → Within S (Edit.steal other)) : m.Steps S := by
  have hlift {α : Type} {act : Action α} (h : Within R act) : Within S (liftM act : Edit α) :=
    Edit.within_lift_of hwith h
  cases m with
  | map f => exact fun v => hlift (within_of_outcome some (hcall v))
  | deleteOr x missing => exact fun v => hlift (within_of_outcome (fun _ => none) (hcall v))
  | reject f => exact fun v => hlift (within_of_outcome (fun _ => none) (hcall v))
  | keepIf f => exact fun v => hlift (within_of_outcome (fun _ => none) (hcall v))
  | restartWith size f => exact fun v => hlift (within_of_outcome some (hcall v))
  | replace other => exact hreplace other rfl
  | steal other => exact hsteal other rfl
  | _ => trivial

theorem Mutation.yields_edit_of_call [Arena.Frame R] {m : Mutation}
    (hdonor : ∀ other, m.donor? = some other → ∀ (a : Arena) (b : Body),
      a.body? other = some b → b.frozen = false →
        R a (a.setBody other { b with store := .empty, size := 0 }))
    (hcall : ∀ v b answer? c, m.call v b = some (answer?, c) → R b c) :
    Yields (Workspace.Follows R) Reply.Unclaimed m.edit :=
  yields_edit (steps_of_call (fun _ _ ha => ⟨rfl, ha⟩) hcall
    (fun _ _ => Edit.follows_replaceStore _ _)
    fun other hother => Edit.within_steal (Edit.follows_robbed (hdonor other hother)))

end AdaptiveArray
