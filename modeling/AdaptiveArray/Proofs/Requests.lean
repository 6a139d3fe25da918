import AdaptiveArray.Proofs.Deriving

/-!
# What clients ask

Every request that changes arrays or makes new ones, what a client answers for when it
makes it, and what it can do with the answer.
-/

namespace AdaptiveArray

/-! ## New arrays -/

inductive Derivation where
  | new
  | withCapacity (k : Kind) (n : Nat)
  | ofBuffer (b : Buffer)
  | ofValues (vs : List Value)
  | readArray (text : String)
  | readValue (text : String)
  | clone (id : ArrayId)
  | add (id other : ArrayId)
  | mul (id : ArrayId) (count : Int64)
  | rotate (id : ArrayId) (count : Int64)
  | sort (id : ArrayId)
  | sortBy (id : ArrayId) (compare : Sorting.Comparison)
  | compact (id : ArrayId)
  | select (id : ArrayId) (f : Block Bool)
  | reject (id : ArrayId) (f : Block Bool)
  | map (id : ArrayId) (f : Block Value)
  | zip (id : ArrayId) (others : List ArrayId)

def Action.bodiesOf : List ArrayId → Action (List Body)
  | [] => return []
  | id :: ids => do
      let b ← bodyOf id
      return b :: (← bodiesOf ids)

namespace Derivation

def run : Derivation → Action Reply
  | new => return .body .empty
  | withCapacity k n => return .body { store := ← Action.allocate k n }
  | ofBuffer b => return .body (.ofBuffer b)
  | ofValues vs => return .body (← Action.ofValues vs)
  | readArray text => do
      match ← Action.readArray text with
      | .ok b => return .body b
      | .error _ => return .nothing
  | readValue text => do
      match ← Action.readValue text with
      | .ok v => return .value v
      | .error _ => return .nothing
  | clone id => return .body (← Action.bodyOf id).clone
  | add id other => do return .body (← (← Action.bodyOf id).add (← Action.bodyOf other))
  | mul id count => do return .body (← (← Action.bodyOf id).mul count)
  | rotate id count => do return .body (← (← Action.bodyOf id).rotate count)
  | sort id => do return .body (← (← Action.bodyOf id).sort)
  | sortBy id compare => do return .body (← (← Action.bodyOf id).sortBy compare)
  | compact id => do return .body (← (← Action.bodyOf id).compact)
  | select id f => do return .body (← (← Action.bodyOf id).select f)
  | reject id f => do return .body (← (← Action.bodyOf id).reject f)
  | map id f => do return .body (← (← Action.bodyOf id).map f)
  | zip id others => do return .body (← (← Action.bodyOf id).zip (← Action.bodiesOf others))

def values : Derivation → List Value
  | ofBuffer b => b.values.toList
  | ofValues vs => vs
  | _ => []

def call : Derivation → List Value → Arena → Option (Option Value × Arena)
  | sortBy _ compare, [x, y], a => outcome (fun _ => none) (compare x y a)
  | select _ f, [v], a | reject _ f, [v], a => outcome (fun _ => none) (f.run v a)
  | map _ f, [v], a => outcome some (f.run v a)
  | _, _, _ => none

end Derivation

/-! ## Requests -/

/-- What can be asked of the arena as a whole.  `foreign` is a change by the other thread that holds
the lock of the array. -/
inductive Request where
  | mutate (id : ArrayId) (m : Mutation)
  | foreign (id : ArrayId) (m : Mutation)
  | concat (id : ArrayId) (others : List ArrayId)
  | replace (id other : ArrayId)
  | steal (id other : ArrayId)
  | derive (d : Derivation)

namespace Request

def run : Request → Action Reply
  | mutate id m => m.perform id
  | foreign id m => do
      Action.ensure ((← get).lockOf id = some .elsewhere)
      Action.editBody id m.edit
  | concat id others => do Action.concat id others; return .nothing
  | replace id other => do Action.replace id other; return .nothing
  | steal id other => do Action.steal id other; return .nothing
  | derive d => d.run

/-- What the client answers for: no array that is being edited is edited again, and every value
given is one that it has. -/
def Fair (held : List ArrayId) (a : Arena) : Request → Prop
  | mutate id m | foreign id m => id ∉ held ∧ m.donor? = none ∧ (∀ v ∈ m.values, a.Knows v) ∧
      ∀ b ∈ m.operands, ∃ j, a.body? j = some b
  | concat id others => id ∉ held ∧ ∀ other ∈ others, other ∉ held
  | replace id other => id ∉ held ∧ other ∉ held
  | steal id other => id ∉ held ∧ other ∉ held ∧ other ≠ id
  | derive d => ∀ v ∈ d.values, a.Knows v

def inside (held : List ArrayId) : Request → List ArrayId
  | mutate id _ | foreign id _ => id :: held
  | _ => held

def call : Request → List Value → Arena → Option (Option Value × Arena)
  | mutate _ m, [v], a | foreign _ m, [v], a => m.call v a
  | derive d, vs, a => d.call vs a
  | _, _, _ => none

end Request

inductive Reply.Kept : Reply → Arena → Arena → Prop where
  | dropped (reply : Reply) (a : Arena) : Kept reply a a
  | object (b : Body) (a : Arena) : Kept (.body b) a (a.withObject b)
  | store (s : Store) (name : String) (a : Arena) : Kept (.store s) a (a.setStore name s)

/-! ## Soundness -/

variable {sharing : Prop} {held : List ArrayId} {a : Arena}

theorem Reply.Kept.evolves {reply : Reply} {b : Arena} (h : reply.Kept a b)
    (hreply : reply.Belongs a) : a.Evolves sharing held b := by
  cases h with
  | dropped => exact Evolution.refl a
  | object body => exact Arena.withObject_evolves hreply.fits hreply.known hreply.backs
  | store s name => exact Arena.setStore_evolves name hreply

theorem Action.keeps_bodiesOf (h : a.Sound sharing held) (ids : List ArrayId) :
    (bodiesOf ids).Keeps sharing held a fun bodies c => (∀ b ∈ bodies, b.Belongs a) ∧ c = a := by
  induction ids with
  | nil => exact ⟨⟨h, .refl a⟩, nofun, rfl⟩
  | cons id ids ih =>
      refine (keeps_bodyOf h id).bind ?_
      rintro b _ - - ⟨hb, rfl⟩
      refine ih.bind ?_
      rintro bodies _ - - ⟨hbodies, rfl⟩
      exact ⟨⟨h, .refl _⟩, List.forall_mem_cons.mpr ⟨h.belongs hb, hbodies⟩, rfl⟩

namespace Derivation

def Behaves (sharing : Prop) (held : List ArrayId) (a : Arena) (d : Derivation) : Prop :=
  ∀ vs b answer? c, a.Later held b → b.Sound sharing held → (∀ v ∈ vs, b.Knows v) →
    d.call vs b = some (answer?, c) →
      (c.Sound sharing held ∧ b.Later held c) ∧ ∀ y, answer? = some y → c.Knows y

theorem keeps_run (d : Derivation) (h : a.Sound sharing held) (hvalues : ∀ v ∈ d.values, a.Knows v)
    (hblock : d.Behaves sharing held a) :
    d.run.Keeps sharing held a fun reply c => reply.Belongs c := by
  have hbody {act : Action Body} (hact : act.Keeps sharing held a fun b c => b.Belongs c) :
      Action.Keeps sharing held (do return Reply.body (← act)) a
        fun reply c => reply.Belongs c :=
    hact.bind fun b c hc _ hb => ⟨⟨hc, .refl c⟩, hb⟩
  have hread {act : Body → Action Body} (id : ArrayId)
      (hact : ∀ b : Body, b.Belongs a → (act b).Keeps sharing held a fun b c => b.Belongs c) :
      Action.Keeps sharing held (do return Reply.body (← act (← Action.bodyOf id))) a
        fun reply c => reply.Belongs c := by
    refine (Action.keeps_bodyOf h id).bind ?_
    rintro b _ - - ⟨hb, rfl⟩
    exact hbody (hact b (h.belongs hb))
  have hblock₁ {f : Value → Action Bool}
      (hf : ∀ v b, d.call [v] b = outcome (fun _ => none) (f v b)) :
      Edit.Behaves sharing held a (fun _ _ => True) f := by
    intro v b hlater hb hv
    refine (keeps_of_outcome (fun _ => none) fun answer? c hcall => ?_).weaken
      fun _ _ _ => trivial
    exact hblock [v] b answer? c hlater hb (List.forall_mem_singleton.mpr hv) (hf v b ▸ hcall)
  cases d with
  | new => exact ⟨⟨h, .refl a⟩, Body.belongs_empty⟩
  | withCapacity k n =>
      refine Action.Keeps.bind (Action.keeps_allocate h k n) fun s c hc _ hs => ?_
      exact ⟨⟨hc, .refl c⟩, hs⟩
  | ofBuffer b => exact ⟨⟨h, .refl a⟩, Body.belongs_ofBuffer hvalues⟩
  | ofValues vs => exact hbody (Action.keeps_ofValues h hvalues)
  | readArray text =>
      refine (Action.keeps_readArray h text).bind fun answer c hc _ hanswer => ?_
      split
      · exact ⟨⟨hc, .refl c⟩, hanswer _ rfl⟩
      · exact ⟨⟨hc, .refl c⟩, trivial⟩
  | readValue text =>
      refine (Action.keeps_readValue h text).bind fun answer c hc _ _ => ?_
      split <;> exact ⟨⟨hc, .refl c⟩, trivial⟩
  | clone id =>
      refine (Action.keeps_bodyOf h id).bind ?_
      rintro b _ - - ⟨hb, rfl⟩
      exact ⟨⟨h, .refl _⟩, (h.belongs hb).clone⟩
  | add id other =>
      refine (Action.keeps_bodyOf h id).bind ?_
      rintro x _ - - ⟨hx, rfl⟩
      exact hread other fun y hy => Body.keeps_add h (h.belongs hx) hy
  | mul id count => exact hread id fun b hb => Body.keeps_mul h hb count
  | rotate id count => exact hread id fun b hb => Body.keeps_rotate h hb count
  | sort id => exact hread id fun b hb => Body.keeps_sort h hb
  | sortBy id compare =>
      refine hread id fun b hb => Body.keeps_sortBy h hb fun x y c hlater hc hx hy => ?_
      refine (keeps_of_outcome (fun _ => none) fun answer? d hcall => ?_).weaken
        fun _ _ _ => trivial
      exact hblock [x, y] c answer? d hlater hc (by simp [hx, hy]) hcall
  | compact id => exact hread id fun b hb => Body.keeps_compact h hb
  | select id f => exact hread id fun b hb => Body.keeps_filter h hb (hblock₁ fun _ _ => rfl)
  | reject id f => exact hread id fun b hb => Body.keeps_reject h hb (hblock₁ fun _ _ => rfl)
  | map id f =>
      refine hread id fun b hb => Body.keeps_map h hb fun v c hlater hc hv => ?_
      refine (keeps_of_outcome _ fun answer? d hcall => ?_).weaken fun y d hy => hy y rfl
      exact hblock [v] c answer? d hlater hc (List.forall_mem_singleton.mpr hv) hcall
  | zip id others =>
      refine (Action.keeps_bodyOf h id).bind ?_
      rintro b _ - - ⟨hb, rfl⟩
      refine (Action.keeps_bodiesOf h others).bind ?_
      rintro bodies _ - - ⟨hbodies, rfl⟩
      exact hbody (Body.keeps_zip h (h.belongs hb) hbodies)

end Derivation

namespace Request

def Behaves (sharing : Prop) (held : List ArrayId) (a : Arena) (r : Request) : Prop :=
  ∀ vs b answer? c, (∀ v, a.Knows v → b.Knows v) → b.Sound sharing (r.inside held) →
    (∀ v ∈ vs, b.Knows v) → r.call vs b = some (answer?, c) →
      (c.Sound sharing (r.inside held) ∧ b.Later (r.inside held) c) ∧
        ∀ y, answer? = some y → c.Knows y

theorem granted {m : Mutation} {id : ArrayId} (h : a.Sound sharing held)
    (hfair : (mutate id m).Fair held a) (hblock : (mutate id m).Behaves sharing held a) :
    m.Granted sharing held a id where
  owner := hfair.1
  donor := hfair.2.1
  values := hfair.2.2.1
  operands b hb := by
    obtain ⟨j, hj⟩ := hfair.2.2.2 b hb
    exact h.belongs hj
  block b hknows v c answer? d hlater hc hv hcall :=
    hblock [v] c answer? d (fun x hx => hlater.knows (hknows x hx)) hc
      (List.forall_mem_singleton.mpr hv) hcall

theorem keeps_run (r : Request) (h : a.Sound sharing held) (hfair : r.Fair held a)
    (hblock : r.Behaves sharing held a) :
    r.run.Keeps sharing held a fun reply c => reply.Belongs c := by
  have hnothing {act : Action Unit} (hact : act.Keeps sharing held a fun _ _ => True) :
      Action.Keeps sharing held (do act; return Reply.nothing) a
        fun reply c => reply.Belongs c :=
    hact.bind fun _ c hc _ _ => ⟨⟨hc, .refl c⟩, trivial⟩
  cases r with
  | mutate id m => exact Mutation.keeps_perform h (granted h hfair hblock)
  | foreign id m =>
      have hcalls (vs : List Value) (b : Arena) :
          (foreign id m).call vs b = (mutate id m).call vs b := by
        rcases vs with _ | ⟨v, _ | ⟨_, _⟩⟩ <;> rfl
      have hm := granted (m := m) h hfair fun vs b answer? c hknows hb hvs hcall =>
        hblock vs b answer? c hknows hb hvs (hcalls vs b ▸ hcall)
      unfold Action.Keeps run
      rw [ends_bind, ends_get, ends_bind, Action.ends_ensure]
      split
      case isFalse => exact .inl Fault.fatal_broken
      case isTrue hlocked =>
          obtain ⟨o, ho, hlock⟩ := Option.map_eq_some_iff.mp (of_decide_eq_true hlocked)
          exact Mutation.keeps_editBody h ho (hlock ▸ nofun) hm
  | concat id others => exact hnothing (Action.keeps_concat h hfair.1 hfair.2)
  | replace id other => exact hnothing (Action.keeps_replace h hfair.1 hfair.2)
  | steal id other => exact hnothing (Action.keeps_steal h hfair.1 hfair.2.1 hfair.2.2)
  | derive d =>
      refine d.keeps_run h hfair fun vs b answer? c hlater hb hvs hcall => ?_
      exact hblock vs b answer? c (fun x hx => hlater.knows hx) hb hvs hcall

end Request

end AdaptiveArray
