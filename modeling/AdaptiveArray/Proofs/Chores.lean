import AdaptiveArray.Proofs.EditFrame
import AdaptiveArray.Stores

/-!
# What can be done with bare stores

A chore makes a store, changes one that has a name, or takes it away from its name.  It
touches no array.  Native storage is taken on only where a store is made, and at most
once; a change in place leaves the claim that the store has.
-/

namespace AdaptiveArray

inductive Chore where
  | create (k : Kind) (n : Nat)
  | fill (k : Kind) (slots : List Value)
  | window (e : Element) (slots : List Value) (offset length : Nat)
  | extract (name : String) (start stop : Nat)
  | clone (name : String)
  | set (name : String) (i : Nat) (v : Value)
  | copy (name dst : String) (srcStart dstStart len : Nat)
  | move (name : String) (src dst len : Nat)
  | reverse (name : String) (start stop : Nat)
  | clear (name : String) (start stop : Nat)
  | sort (name : String) (size : Nat)
  | unshare (name : String)
  | backing (name : String)
  | array (name : String) (size : Nat)

namespace Chore

def run : Chore → Action Reply
  | create k n => return .store (← Action.allocate k n)
  | fill k slots => return .store (← Action.filledStore k slots)
  | window e slots offset length => return .store (← Action.viewStore e slots offset length)
  | extract name start stop => do
      return .store (← Action.extract (← Action.storeNamed name) start stop)
  | clone name => return .store (← Action.storeNamed name).clone
  | set name i v => do Action.storeSet name i v; return .nothing
  | copy name dst srcStart dstStart len => do
      Action.storeCopy name dst srcStart dstStart len
      return .nothing
  | move name src dst len => do Action.storeMove name src dst len; return .nothing
  | reverse name start stop => do Action.storeReverse name start stop; return .nothing
  | clear name start stop => do Action.storeClear name start stop; return .nothing
  | sort name size => do Action.storeSort name size; return .nothing
  | unshare name => do Action.storeUnshare name; return .nothing
  | backing name => do let _ ← Action.storeBacking name; return .nothing
  | array name size => do
      return .body (← Action.demand (Body.ofStore? (← Action.takeStore name) size))

end Chore

def Reply.claim? (reply : Reply) : Option (Address × Nat) :=
  reply.store?.bind Store.claim?

theorem Reply.unclaimed_iff {reply : Reply} : reply.Unclaimed ↔ reply.claim? = none := by
  rw [Unclaimed, claim?, Option.bind_eq_none_iff]

def Arena.unbind (a : Arena) (name : String) : Arena :=
  { a with stores := a.stores.filter fun entry => entry.1 ≠ name }

inductive Chore.Effect (a : Arena) : Reply → Arena → Prop where
  | made {reply : Reply} {b : Arena} (claim : reply.claim? = none) (counted : a.Counted b) :
      Effect a reply b
  | enrolled {reply : Reply} (n : Nat) (claim : reply.claim? = some (a.nextAddress, n)) :
      Effect a reply (a.enrolled n)
  | changed {name : String} {s t : Store} {b : Arena} (found : a.store? name = some s)
      (claim : t.claim? = s.claim?) (counted : a.Counted b) : Effect a .nothing (b.setStore name t)
  | taken {name : String} {s : Store} {reply : Reply} (found : a.store? name = some s)
      (claim : reply.claim? = s.claim?) : Effect a reply (a.unbind name)

namespace Action

variable {a : Arena}

theorem ends_allocate_claim (k : Kind) (n : Nat) :
    Ends (allocate k n) a (fun s b => s.claim? = none ∧ a.Counted b ∨
      k = .native ∧ s.claim? = some (a.nextAddress, n) ∧ b = a.enrolled n) fun f _ => f.Fatal := by
  by_cases hk : k = .native
  · subst hk
    refine (ends_newNative_ite n).mpr ?_
    split
    · exact .inr ⟨rfl, by simp [Store.claim?], rfl⟩
    · exact Fault.fatal_outOfMemory
  · exact ((unfailing_allocate k n).yields (yields_allocate (R := Arena.Counted) hk n) a).mono
      (fun _ _ => .inl) fun _ _ hf => hf

theorem ends_foldlM_set (slots : List (Value × Nat)) (s : Store) :
    Ends (slots.foldlM (fun s (v, i) => do
      ensure (s.admits i v)
      return s.set i v) s) a (fun t b => t.claim? = s.claim? ∧ b = a) fun f _ => f.Fatal := by
  induction slots generalizing s with
  | nil => exact ⟨rfl, rfl⟩
  | cons slot slots ih =>
      rw [List.foldlM_cons, ends_bind, ends_bind, ends_ensure]
      split
      · exact (ih _).weaken fun t b ht => ⟨ht.1.trans (Store.claim?_set _ _ _), ht.2⟩
      · exact Fault.fatal_broken

theorem ends_filledStore (k : Kind) (slots : List Value) :
    Ends (filledStore k slots) a (fun s b => s.claim? = none ∧ a.Counted b ∨
      k = .native ∧ s.claim? = some (a.nextAddress, slots.length) ∧ b = a.enrolled slots.length)
      fun f _ => f.Fatal := by
  refine (ends_allocate_claim k slots.length).bind fun s b hs => ?_
  refine (ends_foldlM_set _ s).weaken ?_
  rintro t _ ⟨ht, rfl⟩
  rwa [ht]

theorem ends_viewStore (e : Element) (slots : List Value) (offset length : Nat) :
    Ends (viewStore e slots offset length) a (fun s b => s.claim? = none ∧ a.Counted b)
      fun f _ => f.Fatal := by
  refine (ends_filledStore (.owned e) slots).bind ?_
  rintro filled b (⟨-, hb⟩ | ⟨hk, -⟩)
  · have hview : Yields Arena.Counted (fun s => s.claim? = none) (do
        let backing ← newBacking filled.buffer
        return .view (← demand (View.make? backing offset length)) : Action Store) :=
      .after (within_newBacking _) fun _ => .after (within_demand _) fun _ => .pure rfl
    have hsteady : Unfailing (do
        let backing ← newBacking filled.buffer
        return .view (← demand (View.make? backing offset length)) : Action Store) :=
      .bind (fun _ => trivial) fun _ => .bind (unfailing_demand _) fun _ => .pure _
    exact (hsteady.yields hview b).weaken fun s c hs => ⟨hs.1, hb.trans hs.2⟩
  · cases hk

theorem ends_storeNamed {name : String} {post : Store → Arena → Prop}
    {early : Fault → Arena → Prop} (hpost : ∀ s, a.store? name = some s → post s a)
    (hearly : early .broken a) : Ends (storeNamed name) a post early := by
  unfold storeNamed
  rw [ends_bind, ends_get]
  cases hs : a.store? name with
  | none => exact hearly
  | some s => exact hpost s hs

theorem ends_takeStore {name : String} {post : Store → Arena → Prop}
    {early : Fault → Arena → Prop}
    (hpost : ∀ s, a.store? name = some s → post s (a.unbind name)) (hearly : early .broken a) :
    Ends (takeStore name) a post early := by
  unfold takeStore
  rw [ends_bind]
  exact ends_storeNamed hpost hearly

theorem ends_changeStore {name : String} {change : Store → Action Store}
    (hsteady : ∀ s, Unfailing (change s))
    (hclaim : ∀ s, Yields Arena.Counted (fun t => t.claim? = s.claim?) (change s)) :
    Ends (changeStore name change) a (fun _ => Chore.Effect a .nothing) fun f _ => f.Fatal := by
  rw [changeStore, ends_bind]
  refine ends_storeNamed (fun s hs => ?_) Fault.fatal_broken
  rw [ends_bind]
  exact ((hsteady s).yields (hclaim s) a).weaken fun t b ht => .changed hs ht.1 ht.2

theorem ends_storeCopy (name dst : String) (srcStart dstStart len : Nat) :
    Ends (storeCopy name dst srcStart dstStart len) a (fun _ => Chore.Effect a .nothing)
      fun f _ => f.Fatal := by
  rw [storeCopy, ends_bind]
  refine ends_storeNamed (fun src _ => ?_) Fault.fatal_broken
  exact ends_changeStore (fun d => unfailing_copyTo src _ d _ _) fun d => yields_copyTo src _ d _ _

theorem ends_storeSort (name : String) (size : Nat) :
    Ends (storeSort name size) a (fun _ => Chore.Effect a .nothing) fun f _ => f.Fatal := by
  refine ends_changeStore (fun s => ?_) fun s => .after (within_ensure _) fun _ => ?_
  · exact .bind (unfailing_ensure _) fun _ => .bind (unfailing_demand _) fun _ => .pure _
  · refine .bind (P := fun _ => s.claim? = none) (yields_demand fun b hb => ?_) fun _ hs =>
      .pure hs.symm
    cases s with
    | native address slots => cases hb
    | _ => rfl

theorem ends_storeUnshare (name : String) :
    Ends (storeUnshare name) a (fun _ => Chore.Effect a .nothing) fun f _ => f.Fatal := by
  refine ends_changeStore (fun s => ?_) fun s => ?_
  · cases s with
    | view v => exact .bind .get fun _ => unfailing_own _ _
    | _ => exact .pure _
  · cases s with
    | view v => exact .after .get fun _ => yields_own _ _
    | _ => exact .pure rfl

theorem ends_storeBacking (name : String) :
    Ends (storeBacking name) a (fun _ => Chore.Effect a .nothing) fun f _ => f.Fatal := by
  rw [storeBacking, ends_bind]
  refine ends_storeNamed (fun s hs => ?_) Fault.fatal_broken
  split
  case h_1 b hb =>
      rw [ends_bind]
      refine ends_takeStore (fun t ht => .taken ht ?_) Fault.fatal_broken
      obtain rfl : s = t := Option.some.inj (hs.symm.trans ht)
      cases s with
      | owned b => rfl
      | _ => cases hb
  case h_2 => exact .made rfl (.refl a)

end Action

namespace Chore

variable {a : Arena}

theorem effect_of_new {k : Kind} {s : Store} {b : Arena} {n : Nat}
    (h : s.claim? = none ∧ a.Counted b ∨
      k = .native ∧ s.claim? = some (a.nextAddress, n) ∧ b = a.enrolled n) :
    Effect a (.store s) b := by
  rcases h with ⟨hs, hb⟩ | ⟨-, hs, rfl⟩
  · exact .made hs hb
  · exact .enrolled n hs

theorem ends_run (chore : Chore) : Ends chore.run a (Effect a) fun f _ => f.Fatal := by
  have hensure {holds : Bool} {s t : Store} (ht : t.claim? = s.claim?) :
      Yields Arena.Counted (fun t => t.claim? = s.claim?) (do
        Action.ensure holds
        return t) := .after (Action.within_ensure _) fun _ => .pure ht
  have hsteady (holds : Bool) (t : Store) : Unfailing (do
      Action.ensure holds
      return t : Action Store) := .bind (Action.unfailing_ensure _) fun _ => .pure _
  have hnothing {act : Action Unit}
      (h : Ends act a (fun _ => Effect a .nothing) fun f _ => f.Fatal) :
      Ends (do act; return Reply.nothing) a (Effect a) fun f _ => f.Fatal :=
    h.bind fun _ _ hb => hb
  -- Storage is made, or changed under its name, or handed over to an array.
  cases chore with
  | create k n => exact (Action.ends_allocate_claim k n).bind fun s b => effect_of_new
  | fill k slots => exact (Action.ends_filledStore k slots).bind fun s b => effect_of_new
  | window e slots offset length =>
      exact (Action.ends_viewStore e slots offset length).bind fun s b hs => .made hs.1 hs.2
  | extract name start stop =>
      unfold run
      rw [ends_bind]
      refine Action.ends_storeNamed (fun s _ => ?_) Fault.fatal_broken
      have hextract := (Action.unfailing_extract s start stop).yields
        (Action.yields_extract (R := Arena.Counted) s start stop)
      exact (hextract a).bind fun t b ht => .made ht.1 ht.2
  | clone name =>
      unfold run
      rw [ends_bind]
      exact Action.ends_storeNamed (fun s _ => .made s.claim?_clone (.refl a)) Fault.fatal_broken
  | set name i v =>
      exact hnothing (Action.ends_changeStore (fun s => hsteady _ _) fun s =>
        hensure (s.claim?_set i v))
  | copy name dst srcStart dstStart len => exact hnothing (Action.ends_storeCopy _ _ _ _ _)
  | move name src dst len =>
      exact hnothing (Action.ends_changeStore (fun s => hsteady _ _) fun s =>
        hensure (s.claim?_move src dst len))
  | reverse name start stop =>
      exact hnothing (Action.ends_changeStore (fun s => hsteady _ _) fun s =>
        hensure (s.claim?_reverse start stop))
  | clear name start stop =>
      exact hnothing (Action.ends_changeStore (fun s => Action.unfailing_clearRange s start stop)
        fun s => Action.yields_clearRange s start stop)
  | sort name size => exact hnothing (Action.ends_storeSort name size)
  | unshare name => exact hnothing (Action.ends_storeUnshare name)
  | backing name => exact (Action.ends_storeBacking name).bind fun _ _ hb => hb
  | array name size =>
      unfold run
      rw [ends_bind]
      refine Action.ends_takeStore (fun s hs => ?_) Fault.fatal_broken
      rw [ends_bind]
      cases hbody : Body.ofStore? s size with
      | none => exact Fault.fatal_broken
      | some b =>
          obtain ⟨-, heq⟩ := Option.ite_none_right_eq_some.mp hbody
          exact .taken hs (Option.some.inj heq ▸ rfl)

end Chore

end AdaptiveArray
