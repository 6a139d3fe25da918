import AdaptiveArray.Proofs.Nesting
import AdaptiveArray.Proofs.Visiting
import AdaptiveArray.Proofs.Walking

/-!
# Walks come to an end

A walk enters an array only from outside of it, so each array that it is inside of leaves
one fewer to enter.  This is told of any way of going down in an arena, with the visits
nested deeper than some number left open: when no more arrays are there than that number,
no visit gets so deep, and it makes no difference what would be done there.  Equality,
order, hashing and text are four such ways.
-/

namespace AdaptiveArray

namespace Arena

variable {a : Arena} {s : List ArrayId} {id : ArrayId}

def present (a : Arena) : Finset ArrayId :=
  (Finset.range a.objects.size).filter fun id => (a.object? id).isSome

def unentered (a : Arena) (s : List ArrayId) : Finset ArrayId :=
  a.present.filter fun id => id ∉ s

theorem mem_present : id ∈ a.present ↔ (a.object? id).isSome := by
  unfold present
  rw [Finset.mem_filter, Finset.mem_range, and_iff_right_iff_imp]
  intro h
  by_contra hle
  simp [object?, Array.getElem?_eq_none (Nat.le_of_not_lt hle)] at h

theorem mem_unentered : id ∈ a.unentered s ↔ (a.object? id).isSome ∧ id ∉ s := by
  rw [unentered, Finset.mem_filter, mem_present]

theorem card_present_le (a : Arena) : a.present.card ≤ a.objects.size := by
  have h := Finset.card_filter_le (Finset.range a.objects.size) fun id => (a.object? id).isSome
  rwa [Finset.card_range] at h

theorem card_unentered_le (a : Arena) (s : List ArrayId) : (a.unentered s).card ≤ a.present.card :=
  Finset.card_filter_le _ _

theorem card_unentered_cons (hid : (a.object? id).isSome) (hs : id ∉ s) :
    (a.unentered (id :: s)).card < (a.unentered s).card := by
  refine Finset.card_lt_card ((Finset.ssubset_iff_of_subset fun j hj => ?_).mpr ⟨id, ?_, ?_⟩)
  · obtain ⟨hj, hout⟩ := mem_unentered.mp hj
    exact mem_unentered.mpr ⟨hj, fun hmem => hout (List.mem_cons_of_mem _ hmem)⟩
  · exact mem_unentered.mpr ⟨hid, hs⟩
  · exact fun hmem => (mem_unentered.mp hmem).2 List.mem_cons_self

theorem isSome_of_holds {i j : ArrayId}
    (hknown : ∀ id o, a.object? id = some o → ∀ v ∈ o.body.toList, a.Knows v) (h : a.Holds i j) :
    (a.object? j).isSome := by
  obtain ⟨b, hb, hj⟩ := h
  obtain ⟨o, ho, -, rfl⟩ := exists_of_readable? hb
  exact hknown i o ho _ hj j rfl

end Arena

/-! ## Ways of going down -/

open Traversal in
/-- A way of going down in an arena: what it comes to, an array or a pair of them, which array is in
progress meanwhile, what stands for it if it is so already, and what is done with it otherwise.
What is visited next is held by the array in progress. -/
structure Descent (a : Arena) (ι α : Type) where
  entered : ι → ArrayId
  again : α
  visit : (ι → Traversal α) → ι → Traversal α
  held : ∀ s nested nested' x,
    (∀ y, a.Holds (entered x) (entered y) → Same s (nested y) (nested' y)) →
      Same s (visit nested x) (visit nested' x)

namespace Descent

open Traversal

variable {a : Arena} {ι α : Type}

def limited (d : Descent a ι α) (beyond : ι → Traversal α) : Nat → ι → Traversal α
  | 0, x => guarded (d.entered x) d.again (beyond x)
  | n + 1, x => guarded (d.entered x) d.again (d.visit (d.limited beyond n) x)

/-- Inside any arrays, `walk` answers what `through` does when it goes down in this way, whatever
would be done in place of visits nested deeper than there are array objects.  Both leave the arrays
in progress as they found them. -/
def Settles (d : Descent a ι α) (walk : Traversal α)
    (through : (ι → Traversal α) → Traversal α) : Prop :=
  ∀ s beyond, Same s walk (through (d.limited beyond a.present.card))

variable {d : Descent a ι α} {s : List ArrayId}

/-- Going down level by level, as far as a number says, is going down through at most so many visits
and a last one from which nothing goes down any more. -/
theorem limited_of_levels {levels : Nat → ι → Traversal α}
    (h : ∀ n x, levels (n + 1) x = guarded (d.entered x) d.again (d.visit (levels n) x)) (n : Nat) :
    levels (n + 1) = d.limited (d.visit (levels 0)) n := by
  induction n with
  | zero => exact funext (h 0)
  | succ n ih =>
      funext x
      rw [h, ih, limited]

theorem same_limited_of_mem (d : Descent a ι α) {x : ι} (hx : d.entered x ∈ s)
    (beyond beyond' : ι → Traversal α) (n m : Nat) :
    Same s (d.limited beyond n x) (d.limited beyond' m x) := by
  cases n <;> cases m <;> exact .guarded fun hout => absurd hx hout

theorem same_limited (hheld : ∀ i j, a.Holds i j → (a.object? j).isSome)
    {beyond beyond' : ι → Traversal α} {n m : Nat} {x : ι} (hx : (a.object? (d.entered x)).isSome)
    (hn : (a.unentered s).card ≤ n) (hm : (a.unentered s).card ≤ m) :
    Same s (d.limited beyond n x) (d.limited beyond' m x) := by
  -- On the visits that one walk has room for: each takes one more array out of those left to enter.
  induction n generalizing s m x with
  | zero =>
      refine same_limited_of_mem d ?_ beyond beyond' 0 m
      by_contra hout
      exact Nat.not_lt_of_le (hn.trans (Nat.zero_le _)) (Arena.card_unentered_cons hx hout)
  | succ n ih =>
      by_cases hs : d.entered x ∈ s
      · exact same_limited_of_mem d hs beyond beyond' (n + 1) m
      · have hfewer := Arena.card_unentered_cons hx hs
        obtain ⟨m, rfl⟩ := Nat.exists_eq_add_one_of_ne_zero (Nat.ne_zero_of_lt (hfewer.trans_le hm))
        refine .guarded fun _ => d.held _ _ _ x fun y hy => ?_
        exact ih (hheld _ _ hy) (Nat.le_of_lt_succ (hfewer.trans_le hn))
          (Nat.le_of_lt_succ (hfewer.trans_le hm))

theorem same_levels (d : Descent a ι α) (levels : Nat → ι → Traversal α)
    (hlevels : ∀ n x, levels (n + 1) x = guarded (d.entered x) d.again (d.visit (levels n) x))
    (hheld : ∀ i j, a.Holds i j → (a.object? j).isSome) (s : List ArrayId)
    (beyond : ι → Traversal α) (x : ι) (hx : (a.object? (d.entered x)).isSome) :
    Same s (levels a.depth x) (d.limited beyond a.present.card x) := by
  have hleft := Arena.card_unentered_le a s
  rw [Arena.depth, limited_of_levels hlevels]
  exact same_limited hheld hx (hleft.trans (Arena.card_present_le a)) hleft

end Descent

/-! ## The four walks -/

namespace Traversal

def equality (a : Arena) (how : Equality) : Descent a (ArrayId × ArrayId) Bool where
  entered := Prod.fst
  again := true
  visit nested pair :=
    match a.readable? pair.1, a.readable? pair.2 with
    | some b, some c => equalBodies how (Function.curry nested) b c
    | _, _ => return false
  held s nested nested' pair h := by
    split
    case h_1 b c hb hc => exact same_equalBodies fun i j hi _ => h (i, j) ⟨b, hb, hi⟩
    case h_2 => exact .pure false s

def ordering (a : Arena) : Descent a (ArrayId × ArrayId) (Option Ordering) where
  entered := Prod.fst
  again := none
  visit nested pair :=
    match a.readable? pair.1, a.readable? pair.2 with
    | some b, some c => orderBodies (Function.curry nested) b c
    | _, _ => return none
  held s nested nested' pair h := by
    split
    case h_1 b c hb hc => exact same_orderBodies fun i j hi _ => h (i, j) ⟨b, hb, hi⟩
    case h_2 => exact .pure none s

def hashing (a : Arena) : Descent a ArrayId (List UInt8) where
  entered := id
  again := []
  visit nested id :=
    match a.readable? id with
    | some b => hashBody nested b
    | none => return []
  held s nested nested' id h := by
    split
    case h_1 b hb => exact same_hashBody fun j hj => h j ⟨b, hb, hj⟩
    case h_2 => exact .pure [] s

def printing (a : Arena) : Descent a ArrayId String where
  entered := id
  again := elided
  visit nested id :=
    match a.readable? id with
    | some b => inspectItems nested b.toList
    | none => return elided
  held s nested nested' id h := by
    split
    case h_1 b hb => exact same_inspectItems fun j hj => h j ⟨b, hb, hj⟩
    case h_2 => exact .pure elided s

variable {a : Arena}

/-- Equality, order, hashing and text of values and of arrays outside the arena come to an end
within as many nested visits as there are array objects, circles or not, whichever arrays are locked
and whichever the walk starts inside of; and they leave the arrays in progress as they found
them. -/
theorem walks_settle
    (hknown : ∀ id o, a.object? id = some o → ∀ v ∈ o.body.toList, a.Knows v) :
    (∀ x y, a.Knows x →
      (∀ how, (equality a how).Settles (equalValues how (equalArrays a how a.depth) x y)
        fun nested => equalValues how (Function.curry nested) x y) ∧
      ((ordering a).Settles (orderValues (orderNested a a.depth) x y)
        fun nested => orderValues (Function.curry nested) x y) ∧
      ((hashing a).Settles (hashValue (hashArray a a.depth) x)
        fun nested => hashValue nested x) ∧
      ((printing a).Settles (inspectValue (inspectArray a a.depth) x)
        fun nested => inspectValue nested x)) ∧
    ∀ b c : Body, (∀ v ∈ b.toList, a.Knows v) →
      (∀ how, (equality a how).Settles (equalBodies how (equalArrays a how a.depth) b c)
        fun nested => equalBodies how (Function.curry nested) b c) ∧
      ((ordering a).Settles (orderBodies (orderNested a a.depth) b c)
        fun nested => orderBodies (Function.curry nested) b c) ∧
      ((hashing a).Settles (hashBody (hashArray a a.depth) b)
        fun nested => hashBody nested b) ∧
      ((printing a).Settles (inspectItems (inspectArray a a.depth) b.toList)
        fun nested => inspectItems nested b.toList) := by
  have hheld : ∀ i j, a.Holds i j → (a.object? j).isSome := fun _ _ =>
    Arena.isSome_of_holds hknown
  have hequality := fun how => (equality a how).same_levels
    (fun n => Function.uncurry (equalArrays a how n)) (fun _ _ => rfl) hheld
  have hordering := (ordering a).same_levels (fun n => Function.uncurry (orderNested a n))
    (fun _ _ => rfl) hheld
  have hhashing := (hashing a).same_levels (hashArray a) (fun _ _ => rfl) hheld
  have hprinting := (printing a).same_levels (inspectArray a) (fun _ _ => rfl) hheld
  constructor
  · intro x y hx
    have hthere : ∀ i, x = .array i → (a.object? i).isSome := fun i hi => hx i (hi ▸ rfl)
    refine ⟨fun how s beyond => same_equalValues fun i j hi _ => ?_,
      fun s beyond => same_orderValues fun i j hi _ => ?_,
      fun s beyond => same_hashValue fun i hi => ?_,
      fun s beyond => same_inspectValue fun i hi => ?_⟩
    · exact hequality how s beyond (i, j) (hthere i hi)
    · exact hordering s beyond (i, j) (hthere i hi)
    · exact hhashing s beyond i (hthere i hi)
    · exact hprinting s beyond i (hthere i hi)
  · intro b c hb
    have hthere : ∀ i, .array i ∈ b.toList → (a.object? i).isSome := fun i hi => hb _ hi i rfl
    refine ⟨fun how s beyond => same_equalBodies fun i j hi _ => ?_,
      fun s beyond => same_orderBodies fun i j hi _ => ?_,
      fun s beyond => same_hashBody fun i hi => ?_,
      fun s beyond => same_inspectItems fun i hi => ?_⟩
    · exact hequality how s beyond (i, j) (hthere i hi)
    · exact hordering s beyond (i, j) (hthere i hi)
    · exact hhashing s beyond i (hthere i hi)
    · exact hprinting s beyond i (hthere i hi)

/-- Two arrays that hold themselves and a third one, which is locked and holds the first.  Comparing
the two and printing the first, from inside another array, takes no more than three nested
visits. -/
theorem walks_settle_circle :
    let holding (vs : Array Value) (lock : Lock) : ArrayObject :=
      { body := { store := .owned (.object vs), size := vs.size }, lock }
    let a : Arena := { objects := #[some (holding #[.array 0, .array 2] .free),
      some (holding #[.array 1, .array 2] .free), some (holding #[.array 0] .mine)] }
    (∀ beyond,
      StateT.run (equalValues .strict (Function.curry ((equality a .strict).limited beyond 3))
      (.array 0) (.array 1)) [1] = (true, [1])) ∧
    ∀ beyond, StateT.run (inspectValue ((printing a).limited beyond 3) (.array 0)) [1] =
      ("[[...], [...]]", [1]) := by
  intro holding a
  have hknows : ∀ j : ArrayId, j < 3 → a.Knows (.array j) := by
    rintro j hj _ ⟨⟩
    match j, hj with
    | 0, _ | 1, _ | 2, _ => rfl
  have hknown : ∀ id o, a.object? id = some o → ∀ v ∈ o.body.toList, a.Knows v := by
    intro id o ho v hv
    match id, ho with
    | 0, ho =>
        obtain rfl := Option.some.inj ho
        rcases List.mem_pair.mp hv with rfl | rfl
        · exact hknows 0 (by decide)
        · exact hknows 2 (by decide)
    | 1, ho =>
        obtain rfl := Option.some.inj ho
        rcases List.mem_pair.mp hv with rfl | rfl
        · exact hknows 1 (by decide)
        · exact hknows 2 (by decide)
    | 2, ho =>
        obtain rfl := Option.some.inj ho
        exact List.mem_singleton.mp hv ▸ hknows 0 (by decide)
    | _ + 3, ho => cases ho
  obtain ⟨hequality, -, -, hprinting⟩ := (walks_settle hknown).1 (.array 0) (.array 1)
    (hknows 0 (by decide))
  have hcard : a.present.card = 3 := by decide
  have hequal : answer (equalValues .strict (equalArrays a .strict a.depth) (.array 0) (.array 1))
      [1] = true := rfl
  have hprint :
      answer (inspectValue (inspectArray a a.depth) (.array 0)) [1] = "[[...], [...]]" := by
    rfl
  rw [← hcard]
  constructor
  · intro beyond
    rw [(hequality .strict [1] beyond).run_eq, hequal]
  · intro beyond
    rw [(hprinting [1] beyond).run_eq, hprint]

end Traversal

end AdaptiveArray
