import AdaptiveArray.Mutation
import AdaptiveArray.Proofs.Marking
import AdaptiveArray.Proofs.Ordering

/-!
# Frames

What an operation does to the arena, whatever array it works on.  A frame is a relation
of arenas that bookkeeping and sharing keep.  Reading, copying, sorting and building stay
within every relation that counting keeps; only native storage has to be written into
the books.
-/

namespace AdaptiveArray

class Evolution {σ : Type} (R : σ → σ → Prop) : Prop where
  refl : ∀ s, R s s
  trans : ∀ {s t u}, R s t → R t u → R s u

/-- Unless the computation ends with a fatal fault, the state it leaves is related to the one it
started in. -/
def Within {σ α : Type} (R : σ → σ → Prop) (c : EStateM Fault σ α) : Prop :=
  ∀ s, Ends c s (fun _ s' => R s s') (fun f s' => f.Fatal ∨ R s s')

def Yields {σ α : Type} (R : σ → σ → Prop) (P : α → Prop) (c : EStateM Fault σ α) : Prop :=
  ∀ s, Ends c s (fun x s' => P x ∧ R s s') (fun f s' => f.Fatal ∨ R s s')

namespace Within

variable {σ α β : Type} {R : σ → σ → Prop}

theorem of_ok {c : EStateM Fault σ α} {x : α} {s s' : σ} (h : Within R c) (run : c s = .ok x s') :
    R s s' := (h s).of_ok run

theorem of_raised {c : EStateM Fault σ α} {e : ArrayError} {s s' : σ} (h : Within R c)
    (run : c s = .error (.raised e) s') : R s s' := (h s).of_raised run

protected theorem modify {change : σ → σ} (h : ∀ s, R s (change s)) :
    Within R (modify change : EStateM Fault σ Unit) := h

protected theorem ite {p : Prop} [Decidable p] {c d : EStateM Fault σ α} (hc : Within R c)
    (hd : Within R d) : Within R (if p then c else d) := by
  split
  · exact hc
  · exact hd

variable [Evolution R]

protected theorem pure (x : α) : Within R (pure x) := fun s => Evolution.refl s

protected theorem throw (f : Fault) : Within R (throw f : EStateM Fault σ α) :=
  fun s => .inr (Evolution.refl s)

protected theorem get : Within R (get : EStateM Fault σ σ) := fun s => Evolution.refl s

protected theorem bind {c : EStateM Fault σ α} {k : α → EStateM Fault σ β} (h : Within R c)
    (hk : ∀ x, Within R (k x)) : Within R (c >>= k) := fun s =>
  Ends.bind (h s) fun x s' hs => (hk x s').mono (fun _ _ hs' => Evolution.trans hs hs')
    fun _ _ hs' => hs'.imp_right (Evolution.trans hs)

protected theorem forM {f : β → EStateM Fault σ Unit} (h : ∀ x, Within R (f x)) (xs : List β) :
    Within R (xs.forM f) := by
  induction xs with
  | nil => exact .pure ()
  | cons x xs ih => exact .bind (h x) fun _ => ih

end Within

namespace Yields

variable {σ α β : Type} {R : σ → σ → Prop} {P : α → Prop} {Q : β → Prop}

theorem within {c : EStateM Fault σ α} (h : Yields R P c) : Within R c := fun s =>
  (h s).weaken fun _ _ hs => hs.2

theorem of_within {c : EStateM Fault σ α} (h : Within R c) (hP : ∀ x, P x) : Yields R P c :=
  fun s => (h s).weaken fun x _ hs => ⟨hP x, hs⟩

theorem weaken {P' : α → Prop} {c : EStateM Fault σ α} (h : Yields R P c)
    (hP : ∀ x, P x → P' x) : Yields R P' c := fun s =>
  (h s).weaken fun x _ hs => ⟨hP x hs.1, hs.2⟩

protected theorem ite {p : Prop} [Decidable p] {c d : EStateM Fault σ α} (hc : p → Yields R P c)
    (hd : ¬p → Yields R P d) : Yields R P (if p then c else d) := by
  split
  · exact hc ‹_›
  · exact hd ‹_›

variable [Evolution R]

protected theorem pure {x : α} (h : P x) : Yields R P (pure x) := fun s => ⟨h, Evolution.refl s⟩

protected theorem throw (f : Fault) : Yields R P (throw f : EStateM Fault σ α) :=
  fun s => .inr (Evolution.refl s)

protected theorem bind {c : EStateM Fault σ α} {k : α → EStateM Fault σ β} (h : Yields R P c)
    (hk : ∀ x, P x → Yields R Q (k x)) : Yields R Q (c >>= k) := fun s =>
  Ends.bind (h s) fun x s' hs => (hk x hs.1 s').mono
    (fun _ _ hs' => ⟨hs'.1, Evolution.trans hs.2 hs'.2⟩)
    fun _ _ hs' => hs'.imp_right (Evolution.trans hs.2)

protected theorem after {c : EStateM Fault σ α} {k : α → EStateM Fault σ β} (h : Within R c)
    (hk : ∀ x, Yields R Q (k x)) : Yields R Q (c >>= k) :=
  (of_within h fun _ => trivial : Yields R (fun _ => True) c).bind fun x _ => hk x

theorem bind_within {c : EStateM Fault σ α} {k : α → EStateM Fault σ β} (h : Yields R P c)
    (hk : ∀ x, P x → Within R (k x)) : Within R (c >>= k) :=
  (h.bind fun x hx => of_within (P := fun _ => True) (hk x hx) fun _ => trivial).within

end Yields

class Arena.Count (R : Arena → Arena → Prop) : Prop extends Evolution R where
  counted : ∀ {a b : Arena}, a.Counted b → R a b

class Arena.Tally (R : Arena → Arena → Prop) : Prop extends Arena.Count R where
  booked : ∀ {a b : Arena}, a.Booked b → R a b
  counted h := booked h.toBooked

class Arena.Frame (R : Arena → Arena → Prop) : Prop extends Arena.Tally R where
  shareValue : ∀ (a : Arena) (v : Value), R a (a.shareValue v)

instance : Arena.Count Arena.Counted where
  refl := Arena.Counted.refl
  trans h h' := h.trans h'
  counted h := h

instance : Arena.Tally Arena.Booked where
  refl := Arena.Booked.refl
  trans h h' := h.trans h'
  booked h := h

namespace Action

variable {R : Arena → Arena → Prop} [Arena.Count R] {α : Type}

theorem within_ensure (holds : Bool) : Within R (ensure holds) := by
  cases holds
  · exact .throw .broken
  · exact .pure ()

theorem yields_demand {P : α → Prop} {found : Option α} (h : ∀ x, found = some x → P x) :
    Yields R P (demand found) := by
  cases found
  · exact .throw .broken
  · exact .pure (h _ rfl)

theorem within_demand (found : Option α) : Within R (demand found) :=
  (yields_demand (P := fun _ => True) fun _ _ => trivial).within

theorem within_bodyOf (id : ArrayId) : Within R (bodyOf id) :=
  .bind .get fun _ => within_demand _

theorem within_options : Within R options := fun a => by
  rw [ends_options]
  exact Arena.Count.counted (Arena.Counted.withSettings a)

theorem within_polls (add : Nat) :
    Within R (modify fun a => { a with polls := a.polls + add } : Action Unit) :=
  .modify fun a => Arena.Count.counted (Arena.Counted.with_polls a _)

theorem within_pollAt (i : Nat) : Within R (pollAt i) :=
  .bind within_options fun _ => .ite (within_polls 1) (.pure _)

theorem within_pollOver (n : Nat) : Within R (pollOver n) :=
  .bind within_options fun _ => within_polls _

theorem within_pollForCopy (e : Element) (n : Nat) : Within R (pollForCopy e n) :=
  .bind within_options fun _ => .ite (within_polls _) (.pure _)

theorem within_newBacking (b : Buffer) : Within R (newBacking b) := fun _ =>
  Arena.Count.counted ⟨⟨rfl, rfl, rfl, rfl, rfl, rfl, Nat.le_succ _⟩, rfl, rfl⟩

theorem within_newBuffer (e : Element) (n : Nat) : Within R (newBuffer e n) :=
  .ite (.pure _) (.throw _)

theorem yields_allocate {k : Kind} (hk : k ≠ .native) (n : Nat) :
    Yields R (fun s => s.claim? = none) (allocate k n) := by
  unfold allocate
  split
  · exact .ite (fun _ => .pure rfl) fun _ => .after (within_newBuffer _ _) fun _ => .pure rfl
  · exact .after (within_newBuffer _ _) fun _ => .pure rfl
  · exact .after (within_newBuffer _ _) fun _ => .pure rfl
  · rename_i hmut
    exact absurd hmut (Kind.forMutation_ne_native hk)

theorem yields_copyTo (src : Store) (srcStart : Nat) (dst : Store) (dstStart len : Nat) :
    Yields R (fun s => s.claim? = dst.claim?) (copyTo src srcStart dst dstStart len) := by
  refine .after (within_ensure _) fun _ => .after (within_ensure _) fun _ =>
    .ite (fun _ => .pure rfl) fun _ => ?_
  refine .after (within_demand _) fun part => .after (within_pollForCopy _ _) fun _ => .pure ?_
  exact dst.claim?_modify (fun b => Buffer.element_overwrite b _ _)
    fun b => Buffer.size_overwrite b _ _

theorem yields_copyAll (bodies : List Body) (start : Nat) (dst : Store) :
    Yields R (fun s => s.claim? = dst.claim?) (copyAll start bodies dst) := by
  induction bodies generalizing start dst with
  | nil => exact .pure rfl
  | cons b rest ih =>
      exact .bind (yields_copyTo _ _ _ _ _) fun d hd => (ih _ d).weaken fun _ hs => hs.trans hd

theorem yields_copyBuffer (b : Buffer) :
    Yields R (fun s => s.claim? = none) (copyBuffer b) :=
  .ite (fun _ => .after (within_pollOver _) fun _ => .pure rfl) fun _ => .pure rfl

theorem yields_extract (s : Store) (start stop : Nat) :
    Yields R (fun part => part.claim? = none) (extract s start stop) := by
  refine .after (within_ensure _) fun _ => ?_
  split
  · exact yields_copyBuffer _
  · exact yields_copyBuffer _
  · exact .pure (Store.claim?_extract _ _ _)

theorem yields_own (v : View) (sole : Bool) : Yields R (fun s => s.claim? = none) (own v sole) :=
  .ite (fun _ => .pure rfl) fun _ => yields_copyBuffer _

theorem yields_clearRange (s : Store) (start stop : Nat) :
    Yields R (fun t => t.claim? = s.claim?) (clearRange s start stop) :=
  .ite (fun _ => .after (within_ensure _) fun _ => .pure (s.claim?_clear _ _)) fun _ => .pure rfl

theorem within_grownCapacity (current needed : Nat) : Within R (grownCapacity current needed) :=
  .ite (.pure _) (.bind (within_ensure _) fun _ => .bind within_options fun _ => .pure _)

theorem within_capacityForOneMore (current : Nat) : Within R (capacityForOneMore current) :=
  .bind within_options fun _ => .pure _

theorem within_checkFrozen (b : Body) : Within R (checkFrozen b) :=
  .ite (.bind .get fun _ => .throw _) (.pure _)

theorem yields_rotateCopy (src : Store) (rotation size : Nat) (dst : Store) :
    Yields R (fun s => s.claim? = dst.claim?) (rotateCopy src rotation size dst) :=
  .bind (yields_copyTo _ _ _ _ _) fun _ hd =>
    (yields_copyTo _ _ _ _ _).weaken fun _ hs => hs.trans hd

theorem within_compare (x y : Value) : Within R (compare x y) := by
  refine .bind .get fun a => ?_
  split
  · exact .pure _
  · exact .throw _

theorem yields_ofStore? {s : Store} (hs : s.claim? = none) (n : Nat) :
    Yields R (fun b => b.store.claim? = none) (demand (Body.ofStore? s n)) := by
  refine yields_demand fun b hb => ?_
  obtain ⟨-, heq⟩ := Option.ite_none_right_eq_some.mp hb
  exact Option.some.inj heq ▸ hs

end Action

theorem Action.within_newNative {R : Arena → Arena → Prop} [Arena.Tally R] (n : Nat) :
    Within R (newNative n) := fun a => by
  rw [ends_newNative_ite]
  split
  · exact Arena.Tally.booked (a.booked_enrolled n)
  · exact .inl Fault.fatal_outOfMemory

theorem Action.within_allocate {R : Arena → Arena → Prop} [Arena.Tally R] (k : Kind) (n : Nat) :
    Within R (allocate k n) := by
  by_cases hk : k = .native
  · subst hk
    exact within_newNative n
  · exact (yields_allocate hk n).within

/-! ## Building and sorting -/

section

variable {R : Arena → Arena → Prop} [Arena.Count R]

namespace Builder

variable {b : Builder}

theorem within_nextCapacity (b : Builder) : Within R b.nextCapacity :=
  .ite (.pure _) (.ite (.pure _) (Action.within_capacityForOneMore _))

theorem yields_makeRoom (hb : b.store.claim? = none) (v : Value) :
    Yields R (fun b => b.store.claim? = none) (b.makeRoom v) := by
  have hkind : b.kind ≠ .native := Store.claim?_eq_none.mp hb
  refine .ite (fun _ => .pure hb) fun _ => .after b.within_nextCapacity fun _ => ?_
  refine .bind (Action.yields_allocate (Kind.forValue_ne_native hkind v) _) fun fresh hfresh => ?_
  exact .bind (Action.yields_copyTo _ _ _ _ _) fun grown hgrown => .pure (hgrown.trans hfresh)

theorem yields_push (hb : b.store.claim? = none) (v : Value) :
    Yields R (fun b => b.store.claim? = none) (b.push v) :=
  .bind (yields_makeRoom hb v) fun _ hb' => .after (Action.within_ensure _) fun _ =>
    .pure ((Store.claim?_set _ _ _).trans hb')

theorem yields_pushAll (vs : List Value) {b : Builder} (hb : b.store.claim? = none) :
    Yields R (fun b => b.store.claim? = none) (b.pushAll vs) := by
  induction vs generalizing b with
  | nil => exact .pure hb
  | cons v vs ih => exact .bind (yields_push hb v) fun _ hb' => ih hb'

theorem yields_finish (hb : b.store.claim? = none) :
    Yields R (fun body => body.store.claim? = none) b.finish :=
  .ite (fun _ => .pure rfl) fun _ => Action.yields_ofStore? hb _

end Builder

theorem Action.yields_ofValues (vs : List Value) :
    Yields R (fun body => body.store.claim? = none) (ofValues vs) :=
  .bind (Builder.yields_pushAll vs rfl) fun _ hb => Builder.yields_finish hb

namespace Sorting

variable {compare : Comparison} (hcompare : ∀ x y, Within R (compare x y))

include hcompare

theorem within_selectLeast (x : Value) (ys : List Value) :
    Within R (selectLeast compare x ys) := by
  induction ys generalizing x with
  | nil => exact .pure _
  | cons y ys ih =>
      exact .bind (hcompare y x) fun _ => .ite (.bind (ih y) fun _ => .pure _)
        (.bind (ih x) fun _ => .pure _)

theorem within_bySelection (n : Nat) (xs : List Value) : Within R (bySelection compare n xs) := by
  induction n generalizing xs with
  | zero => exact .pure xs
  | succ n ih =>
      cases xs with
      | nil => exact .pure []
      | cons x xs =>
          exact .bind (within_selectLeast hcompare x xs) fun answer =>
            .bind (ih answer.2) fun _ => .pure _

theorem within_merge (out : Nat) (done xs ys : List Value) :
    Within R (merge compare out done xs ys) := by
  fun_induction merge compare out done xs ys with
  | case1 => exact .pure _
  | case2 => exact .pure _
  | case3 out done x xs y ys ihRight ihLeft =>
      exact .bind (Action.within_pollAt out) fun _ => .bind (hcompare x y) fun _ =>
        .ite ihRight ihLeft

theorem within_byMerging (depth : Nat) (xs : List Value) :
    Within R (byMerging compare depth xs) := by
  induction depth generalizing xs with
  | zero => exact .pure xs
  | succ depth ih =>
      exact .ite (.pure xs) (.bind (ih _) fun _ => .bind (ih _) fun _ =>
        within_merge hcompare _ _ _ _)

end Sorting

namespace Body

theorem yields_sortBy {compare : Sorting.Comparison} (hcompare : ∀ x y, Within R (compare x y))
    (b : Body) : Yields R (fun c => c.store.claim? = none) (b.sortBy compare) :=
  .after Action.within_options fun _ => .after (Sorting.within_byMerging hcompare _ _) fun _ =>
    Action.yields_ofValues _

theorem yields_copyForSort (b : Body) :
    Yields R (fun s => s.claim? = none) b.copyForSort :=
  .bind (Action.yields_allocate (Kind.forCopy_ne_native _) _) fun _ hfresh =>
    (Action.yields_copyTo _ _ _ _ _).weaken fun _ hs => hs.trans hfresh

theorem yields_sort (b : Body) : Yields R (fun c => c.store.claim? = none) b.sort := by
  refine .ite (fun _ => .pure rfl) fun _ => .after Action.within_options fun _ =>
    .ite (fun _ => ?_) fun _ => .after .get fun _ => .ite (fun _ => ?_) fun _ => ?_
  · refine .bind b.yields_copyForSort fun copy hcopy => .after
      (Sorting.within_bySelection Action.within_compare _ _) fun sorted => ?_
    exact Action.yields_ofStore? ((Store.claim?_foldl_set Prod.swap _ copy).trans hcopy) _
  · exact .after b.yields_copyForSort.within fun _ => .after (Action.within_demand _) fun _ =>
      Action.yields_ofStore? rfl _
  · exact yields_sortBy Action.within_compare b

end Body

end

end AdaptiveArray
