import AdaptiveArray.Proofs.Chores
import AdaptiveArray.Proofs.Courses
import AdaptiveArray.Proofs.DeriveFrame
import AdaptiveArray.Proofs.Settling

/-!
# Courses that follow every store

These are the courses of clients who lose no store that is handed out: an answer is
dropped, put into an array object or bound to a name, and what was there before is given
up.  Otherwise they do what they like, but for the arrays that are being edited.
-/

namespace AdaptiveArray

/-! ## Answers -/

def Arena.bindStore (a : Arena) (name : String) (s : Store) : Arena :=
  ((a.store? name).elim a a.release).setStore name s

inductive Reply.Placed : Reply → Arena → Arena → Prop where
  | read {reply : Reply} (bare : reply.store? = none) (a : Arena) : Placed reply a a
  | dropped {reply : Reply} {s : Store} (store : reply.store? = some s) (a : Arena) :
      Placed reply a (a.release s)
  | object (b : Body) (a : Arena) : Placed (.body b) a (a.withObject b)
  | bound (s : Store) (name : String) (a : Arena) : Placed (.store s) a (a.bindStore name s)

/-! ## Requests -/

structure Mutation.Allowed (blocks : Arena → Arena → Prop) (held : List ArrayId) (id : ArrayId)
    (m : Mutation) : Prop where
  owner : id ∉ held
  donor : ∀ other, m.donor? = some other → other ∉ held ∧ other ≠ id
  block : ∀ v b answer? c, m.call v b = some (answer?, c) → blocks b c

theorem Mutation.Allowed.of_call_none {blocks : Arena → Arena → Prop} {held : List ArrayId}
    {id : ArrayId} {m : Mutation} (owner : id ∉ held)
    (donor : ∀ other, m.donor? = some other → other ∉ held ∧ other ≠ id)
    (hcall : ∀ v b, m.call v b = none) : m.Allowed blocks held id :=
  ⟨owner, donor, fun v b _ _ h => absurd ((hcall v b).symm.trans h) (by simp)⟩

def Mutation.Unclaimed (m : Mutation) : Prop :=
  ∀ other, m = .replace other → other.store.claim? = none

structure Mutation.Open (held : List ArrayId) (id : ArrayId) (m : Mutation) : Prop where
  owner : id ∉ held
  donor : ∀ other, m.donor? = some other → other ∉ held ∧ other ≠ id
  unclaimed : m.Unclaimed

theorem Mutation.Open.allowed {blocks : Arena → Arena → Prop} {held : List ArrayId} {id : ArrayId}
    {m : Mutation} (hm : m.Open held id) (hblocks : ∀ vs b answer? c,
      (Request.mutate id m).call vs b = some (answer?, c) → blocks b c) :
    m.Allowed blocks held id :=
  ⟨hm.owner, hm.donor, fun v b => hblocks [v] b⟩

namespace Request

/-- No array that is being edited is edited again, nor read for another one.  A store comes from
another array object by stealing only, and otherwise it is not native. -/
def Idle (held : List ArrayId) : Request → Prop
  | mutate id m | foreign id m => id ∉ held ∧ m.donor? = none ∧ m.Unclaimed
  | concat id others => id ∉ held ∧ ∀ other ∈ others, other ∉ held
  | replace id other => id ∉ held ∧ other ∉ held
  | steal id other => id ∉ held ∧ other ∉ held ∧ other ≠ id
  | derive _ => True

variable {R : Arena → Arena → Prop} [Arena.Growth R] {P : Reply → Prop} {held : List ArrayId}

/-- A request stays within what the changes of single arrays and the ways to new ones stay
within. -/
theorem yields_run {r : Request} (blocks : List ArrayId → Arena → Arena → Prop) (idle : r.Idle held)
    (hblocks : ∀ vs b answer? c, r.call vs b = some (answer?, c) → blocks (r.inside held) b c)
    (hedit : ∀ (id : ArrayId) (m : Mutation), m.Allowed (blocks (id :: held)) held id →
      m.Unclaimed → Yields R Reply.Unclaimed (Action.editBody id m.edit))
    (hderive : ∀ d, r = derive d → Yields R P d.run)
    (hP : ∀ reply : Reply, reply.Unclaimed → P reply) : Yields R P r.run := by
  -- What goes through several arrays is made of edits of one of them, of which all is assumed.
  have hdup {id : ArrayId} (hid : id ∉ held) :
      Yields R (fun b => b.store.claim? = none) (Action.edit id Edit.dup) := by
    refine Action.yields_holding fun a => ?_
    have h := hedit id Mutation.dup (.of_call_none hid nofun fun _ _ => rfl) nofun a
    exact (Action.ends_editBody_answer.mp h).weaken fun b _ hb => ⟨hb.1 _ rfl, hb.2⟩
  have hunit {id : ArrayId} {m : Mutation} {e : Edit Unit}
      (hm : m.Allowed (blocks (id :: held)) held id) (hunclaimed : m.Unclaimed)
      (he : m.edit = do e; return .nothing) : Within R (Action.edit id e) := by
    refine (Action.yields_holding (P := fun _ => True) fun a => ?_).within
    have h := hedit id m hm hunclaimed a
    rw [he] at h
    exact (Action.ends_editBody_answer.mp h).weaken fun _ _ hb => ⟨trivial, hb.2⟩
  have hnothing {act : Action Unit} (h : Within R act) :
      Yields R P (do act; return Reply.nothing) := .after h fun _ => .pure (hP _ nofun)
  cases r with
  | mutate id m =>
      have hm : m.Allowed (blocks (id :: held)) held id :=
        ⟨idle.1, by simp [idle.2.1], fun v b => hblocks [v] b⟩
      exact (Action.yields_holding (hedit id m hm idle.2.2)).weaken hP
  | foreign id m =>
      have hm : m.Allowed (blocks (id :: held)) held id :=
        ⟨idle.1, by simp [idle.2.1], fun v b => hblocks [v] b⟩
      exact .after .get fun _ => .after (Action.within_ensure _) fun _ =>
        (hedit id m hm idle.2.2).weaken hP
  | concat id others =>
      have hsnapshots : Within R (Action.snapshots others) := by
        obtain ⟨-, hothers⟩ := idle
        clear hderive hblocks
        induction others with
        | nil => exact .pure []
        | cons other others ih =>
            obtain ⟨hother, hothers⟩ := List.forall_mem_cons.mp hothers
            exact .bind (hdup hother).within fun _ => .bind (ih hothers) fun _ => .pure _
      exact hnothing (.bind (Action.within_bodyOf id) fun b => .bind (Action.within_checkFrozen b)
        fun _ => .bind hsnapshots fun bodies =>
          hunit (m := .concat bodies) (.of_call_none idle.1 nofun fun _ _ => rfl) nofun rfl)
  | replace id other =>
      refine hnothing (.bind (Action.within_bodyOf id) fun b => .bind (Action.within_checkFrozen b)
        fun _ => .ite (Yields.bind_within (hdup idle.2) fun copy hcopy => ?_) (.pure _))
      refine hunit (m := .replace copy) (.of_call_none idle.1 nofun fun _ _ => rfl)
        (fun other hother => ?_) rfl
      cases hother
      exact hcopy
  | steal id other =>
      have hsteal : Within R (Action.edit id (Edit.steal other)) :=
        hunit (m := .steal other) (.of_call_none idle.1 (fun j hj => Option.some.inj hj ▸ idle.2)
          fun _ _ => rfl) nofun rfl
      exact hnothing (Action.yields_holding (P := fun _ => True) (.of_within hsteal fun _ =>
        trivial)).within
  | derive d => exact hderive d rfl

end Request

/-! ## Courses -/

def Arena.vacate (a : Arena) (id : ArrayId) : Arena :=
  { a with objects := a.objects.setIfInBounds id none }

/-- What clients may do besides, if they do not give up the arrays in `kept`.  `poking` allows slots
to be written by native address. -/
inductive Arena.Tracks (poking : Prop) (kept : ArrayId → Prop) (answers : Arena → Reply → Prop) :
    List ArrayId → Arena → Arena → Prop where
  | done {held : List ArrayId} {a b c : Arena} {chore : Chore} {reply : Reply}
      (run : chore.run a = .ok reply b) (answer : answers a reply) (placed : reply.Placed b c) :
      Tracks poking kept answers held a c
  /-- An array object is moved into another array, which takes over its store. -/
  | moved {held : List ArrayId} {a b : Arena} {id j : ArrayId} {x : Body} {reply : Reply}
      (idle : id ∉ held) (free : j ∉ held) (loose : ¬kept j) (distinct : j ≠ id)
      (body : a.body? j = some x)
      (run : (Mutation.replace x).perform id (a.vacate j) = .ok reply b) :
      Tracks poking kept answers held a b
  | refused {held : List ArrayId} {a b : Arena} {id j : ArrayId} {x : Body} {e : ArrayError}
      (idle : id ∉ held) (free : j ∉ held) (loose : ¬kept j) (distinct : j ≠ id)
      (body : a.body? j = some x)
      (run : (Mutation.replace x).perform id (a.vacate j) = .error (.raised e) b) :
      Tracks poking kept answers held a (b.release x.store)
  | dropped {held : List ArrayId} {a : Arena} {id : ArrayId} (free : id ∉ held)
      (loose : ¬kept id) : Tracks poking kept answers held a (a.drop id)
  /-- The allocator may go back to addresses that are not in use any more. -/
  | noted {held : List ArrayId} {a b : Arena} (objects : b.objects = a.objects)
      (stores : b.stores = a.stores) (registry : b.registry = a.registry)
      (nextBacking : a.nextBacking ≤ b.nextBacking)
      (nextAddress : a.nextAddress ≤ b.nextAddress ∨ ∀ e ∈ a.registry, e.1 < b.nextAddress) :
      Tracks poking kept answers held a b
  | poked {held : List ArrayId} {a b : Arena} {address : Address} {i : Nat} {v : Value}
      (allowed : poking) (live : (a.slotsAt? address).isSome)
      (run : Action.nativeWrite address i v a = .ok () b) : Tracks poking kept answers held a b

/-- Every store that is handed out is followed. -/
abbrev Rules.tracking (poking : Prop) (kept : ArrayId → Prop)
    (answers : Arena → Reply → Prop := fun _ _ => True) : Rules where
  request held _ r := r.Idle held
  called _ _ _ := True
  returned _ _ := True
  answer := answers
  placed := Reply.Placed
  opened held _ id m := m.Open held id
  step := Arena.Tracks poking kept answers

variable {poking : Prop} {kept : ArrayId → Prop} {answers : Arena → Reply → Prop}
  {held : List ArrayId} {a b c : Arena}

/-! ## Array objects -/

namespace Arena

theorem body?_withObject {id : ArrayId} {x y : Body} (h : a.body? id = some x) :
    (a.withObject y).body? id = some x := by
  obtain ⟨o, ho, rfl⟩ := Option.map_eq_some_iff.mp h
  rw [Arena.body?, object?_withObject_of_some ho]
  rfl

theorem body?_drop (a : Arena) (id j : ArrayId) :
    (a.drop id).body? j = if j = id then none else a.body? j := by
  rw [body?, object?_drop]
  split <;> rfl

theorem body?_vacate (a : Arena) (id j : ArrayId) :
    (a.vacate id).body? j = if j = id then none else a.body? j := by
  rw [body?, object?, vacate, Array.getElem?_setIfInBounds]
  by_cases heq : id = j
  · subst heq
    rw [if_pos rfl, if_pos rfl]
    split <;> rfl
  · rw [if_neg heq, if_neg (Ne.symm heq)]
    rfl

theorem body?_writeAt (a : Arena) (address : Address) (i : Nat) (v : Value) (id : ArrayId) :
    (a.writeAt address i v).body? id =
      (a.body? id).map fun b => { b with store := b.store.writeAt address i v } := by
  rw [body?, object?_writeAt, body?, Option.map_map, Option.map_map]
  rfl

@[simp] theorem objects_dropStore (a : Arena) (name : String) :
    (a.dropStore name).objects = a.objects := by
  unfold dropStore
  split
  · exact (Booked.release a _).objects
  · rfl

end Arena

theorem Action.ends_checkSlot {address : Address} {i : Nat} {post : Unit → Arena → Prop}
    {early : Fault → Arena → Prop} : Ends (checkSlot address i) a post early ↔
      match a.registration? address with
      | none => early (.raised .released) a
      | some entry =>
          if entry.capacity ≤ i then early (.raised (.outsideNative i entry.capacity)) a
          else post () a := by
  unfold checkSlot
  rw [ends_bind, ends_get]
  cases a.registration? address with
  | none => rfl
  | some entry =>
      dsimp only
      split <;> rfl

theorem Action.nativeWrite_of_ok {address : Address} {i : Nat} {v : Value}
    (run : nativeWrite address i v a = .ok () b) : b = a.writeAt address i v := by
  have h : Ends (nativeWrite address i v) a (fun _ b => b = a.writeAt address i v)
      fun _ _ => True := by
    rw [nativeWrite, ends_bind, ends_checkSlot]
    split
    · trivial
    · split
      · trivial
      · rfl
  exact h.of_ok run

theorem Reply.Placed.body? {reply : Reply} (h : reply.Placed a b) {id : ArrayId} {x : Body}
    (hx : a.body? id = some x) : b.body? id = some x := by
  cases h with
  | read => exact hx
  | dropped => exact (Arena.body?_of_objects (Arena.Booked.release a _).objects id).trans hx
  | object y => exact Arena.body?_withObject hx
  | bound s name =>
      refine (Arena.body?_of_objects ?_ id).trans hx
      unfold Arena.bindStore
      cases a.store? name with
      | none => rfl
      | some t => exact (Arena.Booked.release a t).objects

theorem Chore.Effect.objects {reply : Reply} (h : Chore.Effect a reply b) :
    b.objects = a.objects := by
  cases h with
  | made claim counted => exact counted.objects
  | enrolled n claim => rfl
  | changed found claim counted => exact counted.objects
  | taken found claim => rfl

theorem Chore.body?_done {chore : Chore} {reply : Reply} (run : chore.run a = .ok reply b)
    (placed : reply.Placed b c) {id : ArrayId} {x : Body} (hx : a.body? id = some x) :
    c.body? id = some x := by
  have heffect := (chore.ends_run (a := a)).of_ok run
  exact placed.body? ((Arena.body?_of_objects heffect.objects id).trans hx)

/-! ## What every course does -/

/-- A relation of arenas that holds wherever every array there was holds what it held. -/
class Arena.Lenient (R : Arena → Arena → Prop) : Prop extends Evolution R where
  bodies : ∀ {a b : Arena}, (∀ id x, a.body? id = some x → b.body? id = some x) → R a b

section

variable {R : Arena → Arena → Prop} [Arena.Lenient R]

theorem Arena.Lenient.of_objects (h : b.objects = a.objects) : R a b :=
  bodies fun id _ hx => (body?_of_objects h id).trans hx

instance : Arena.Frame R where
  booked h := Arena.Lenient.of_objects h.objects
  shareValue a v := Arena.Lenient.bodies fun id _ hx =>
    ((Arena.Remarked.shareValue a v).body? id).trans hx

instance : Arena.Growth R where
  relocked h := Arena.Lenient.bodies fun id _ hx => (h.body? id).trans hx
  nextString _ _ := Arena.Lenient.of_objects rfl
  withObject _ _ _ := Arena.Lenient.bodies fun _ _ => Arena.body?_withObject

theorem Derivation.within_run {d : Derivation}
    (hblock : ∀ vs b answer? c, d.call vs b = some (answer?, c) → R b c) : Within R d.run := by
  by_cases hkind : d.kind? = some .native
  · cases d with
    | withCapacity k n => exact .bind (Action.within_allocate k n) fun _ => .pure _
    | _ => cases hkind
  · exact (yields_run hkind hblock).within

end

/-- What the changes of single arrays stay within, every course does. -/
theorem Course.follows {R : List ArrayId → Arena → Arena → Prop} [∀ held, Arena.Lenient (R held)]
    (hedit : ∀ held id (m : Mutation), m.Allowed (R (id :: held)) held id →
      Yields (R held) Reply.Unclaimed (Action.editBody id m.edit))
    (hvacate : ∀ held id (a : Arena), id ∉ held → ¬kept id → R held a (a.vacate id))
    (hpoke : poking → ∀ held (a : Arena) address i v, R held a (a.writeAt address i v))
    (h : Course (.tracking poking kept answers) held a b) : R held a b := by
  have hreplace {held : List ArrayId} {id : ArrayId} (hid : id ∉ held) (x : Body) :
      Within (R held) ((Mutation.replace x).perform id) :=
    (Action.yields_holding (hedit held id (.replace x)
      (.of_call_none hid nofun fun _ _ => rfl))).within
  refine h.stays (fun _ => Arena.Growth.relocked)
    (fun _ a name => Arena.Lenient.of_objects (Arena.objects_dropStore a name))
    (fun held a b allowed => ?_) fun held a r idle hblocks => ?_
  · cases allowed with
    | done run _ placed => exact Arena.Lenient.bodies fun id x => Chore.body?_done run placed
    | moved idle free loose _ _ run =>
        exact Evolution.trans (hvacate _ _ _ free loose) ((hreplace idle _).of_ok run)
    | @refused b _ _ x _ idle free loose _ _ run =>
        have hrun := (hreplace idle x).of_raised run
        exact Evolution.trans (Evolution.trans (hvacate _ _ _ free loose) hrun)
          (Arena.Lenient.of_objects (Arena.Booked.release b x.store).objects)
    | dropped free loose =>
        refine Evolution.trans (hvacate _ _ _ free loose)
          (Arena.Lenient.bodies fun j x hx => ?_)
        rwa [Arena.body?_drop, ← Arena.body?_vacate]
    | noted objects => exact Arena.Lenient.of_objects objects
    | poked allowed _ run => exact Action.nativeWrite_of_ok run ▸ hpoke allowed _ _ _ _ _
  · have hcalls vs b answer? c hcall := (hblocks vs b answer? c trivial hcall).2
    have hrun : Within (R held) r.run := by
      refine (Request.yields_run (P := fun _ => True) R idle hcalls
        (fun id m hm _ => hedit held id m hm) ?_ fun _ _ => trivial).within
      rintro d rfl
      exact .of_within (Derivation.within_run hcalls) fun _ => trivial
    exact (hrun a).weaken fun reply b hb _ c placed =>
      Evolution.trans hb (Arena.Lenient.bodies fun id x => Reply.Placed.body? placed)

/-! ## The places of arrays being edited -/

def Arena.Reserved (held : List ArrayId) (a b : Arena) : Prop :=
  ∀ id ∈ held, a.body? id = some .empty → b.body? id = some .empty

namespace Arena

instance : Arena.Lenient (Reserved held) where
  refl _ := fun _ _ h => h
  trans h h' := fun id hid hx => h' id hid (h id hid hx)
  bodies h := fun id _ => h id .empty

theorem Reserved.mono {held' : List ArrayId} (h : a.Reserved held b) (hsub : held' ⊆ held) :
    a.Reserved held' b := fun id hid => h id (hsub hid)

theorem reserved_setBody {id : ArrayId} (hid : id ∉ held) (a : Arena) (x : Body) :
    a.Reserved held (a.setBody id x) := by
  intro j hj hx
  have hne : j ≠ id := fun heq => hid (heq ▸ hj)
  rw [body?_setBody, if_neg hne, hx]

theorem reserved_vacate {id : ArrayId} (hid : id ∉ held) (a : Arena) :
    a.Reserved held (a.vacate id) := by
  intro j hj hx
  have hne : j ≠ id := fun heq => hid (heq ▸ hj)
  rw [body?_vacate, if_neg hne, hx]

theorem reserved_writeAt (a : Arena) (address : Address) (i : Nat) (v : Value) :
    a.Reserved held (a.writeAt address i v) := by
  intro id _ hx
  rw [body?_writeAt, hx]
  rfl

end Arena

namespace Mutation

variable {m : Mutation} {id : ArrayId}

theorem Allowed.reserved {blocks : Arena → Arena → Prop} (hm : m.Allowed blocks held id)
    {ids : List ArrayId} (hblocks : ∀ b c, blocks b c → b.Reserved ids c)
    (hdonor : ∀ other, m.donor? = some other → other ∉ ids) :
    Yields (Workspace.Follows (Arena.Reserved ids)) Reply.Unclaimed m.edit :=
  yields_edit_of_call (fun other hother a _ _ _ => Arena.reserved_setBody (hdonor other hother) a _)
    fun v b answer? c hcall => hblocks b c (hm.block v b answer? c hcall)

theorem Allowed.ends_reserved {blocks : Arena → Arena → Prop} (hm : m.Allowed blocks held id)
    (hblocks : ∀ b c, blocks b c → b.Reserved [id] c) {x : Body} (hx : a.body? id = some x) :
    Ends m.edit (a.opened id x) (fun _ w => w.arena.body? id = some .empty)
      fun f w => f.Fatal ∨ w.arena.body? id = some .empty := by
  have hopened : (a.opened id x).arena.body? id = some .empty := by
    rw [Arena.opened, Arena.body?_setBody, if_pos rfl, hx]
    rfl
  have hkept := (hm.reserved hblocks fun other hother => by
    simpa using (hm.donor other hother).2).within (a.opened id x)
  exact hkept.mono (fun _ w hw => hw.2 id List.mem_cons_self hopened)
    fun _ w hf => hf.imp_right fun hw => hw.2 id List.mem_cons_self hopened

end Mutation

theorem Mutation.Allowed.reserved_editBody {m : Mutation} {id : ArrayId}
    {blocks : Arena → Arena → Prop} (hm : m.Allowed blocks held id)
    (hblocks : ∀ b c, blocks b c → b.Reserved (id :: held) c) :
    Yields (Arena.Reserved held) Reply.Unclaimed (Action.editBody id m.edit) :=
  Action.yields_editBody (Arena.reserved_setBody hm.owner)
    (hm.reserved (fun b c hbc => (hblocks b c hbc).mono (List.subset_cons_self id held))
      fun other hother => (hm.donor other hother).1)

theorem Course.reserved (h : Course (.tracking poking kept answers) held a b) : a.Reserved held b :=
  h.follows (fun _ _ _ hm => hm.reserved_editBody fun _ _ hbc => hbc)
    (fun _ _ a free _ => Arena.reserved_vacate free a) fun _ _ => Arena.reserved_writeAt

end AdaptiveArray
