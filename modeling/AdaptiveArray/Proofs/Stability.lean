import AdaptiveArray.Value
import Mathlib.Data.List.Basic
import Mathlib.Order.Compare
import Mathlib.Order.Lattice

/-!
# Sorted lists

An order that has an answer for some pairs only still says what it is for a list to be
sorted.  Sorting a list stably puts it in order and leaves equal values as they stood,
and there is one way to do that.
-/

namespace AdaptiveArray.Sorting

abbrev Order := Value → Value → Option Ordering

def AtMost (ord : Order) (x y : Value) : Prop :=
  ord x y = some .lt ∨ ord x y = some .eq

def Comparable (ord : Order) (x y : Value) : Prop :=
  ord x y ≠ none

def tied (ord : Order) (x y : Value) : Bool :=
  ord x y = some .eq

/-- Among the values of `S` the order is antisymmetric, and being at most is transitive. -/
structure Consistent (ord : Order) (S : Value → Prop) : Prop where
  swap : ∀ {x y}, S x → S y → ord y x = (ord x y).map Ordering.swap
  trans : ∀ {x y z}, S x → S y → S z → AtMost ord x y → AtMost ord y z → AtMost ord x z

structure Sorts (ord : Order) (xs ys : List Value) : Prop where
  perm : ys.Perm xs
  ordered : ys.Pairwise (AtMost ord)

/-- Of the values in `S`, those that are equal to one of them stand in `ys` as in `xs`. -/
structure StablySorts (ord : Order) (S : Value → Prop) (xs ys : List Value) : Prop extends
    Sorts ord xs ys where
  ties : ∀ z, S z → ys.filter (tied ord z) = xs.filter (tied ord z)

variable {ord : Order} {S : Value → Prop} {x y z v : Value} {xs ys zs : List Value}

instance (ord : Order) (x y : Value) : Decidable (AtMost ord x y) :=
  inferInstanceAs (Decidable (_ ∨ _))

instance (ord : Order) (x y : Value) : Decidable (Comparable ord x y) :=
  inferInstanceAs (Decidable (_ ≠ _))

theorem tied_iff : tied ord x y = true ↔ ord x y = some .eq :=
  decide_eq_true_iff

theorem AtMost.comparable (h : AtMost ord x y) : Comparable ord x y := by
  rcases h with h | h <;> simp [Comparable, h]

namespace Consistent

theorem mono {T : Value → Prop} (h : Consistent ord S) (hT : ∀ v, T v → S v) : Consistent ord T :=
  ⟨fun hx hy => h.swap (hT _ hx) (hT _ hy),
    fun hx hy hz => h.trans (hT _ hx) (hT _ hy) (hT _ hz)⟩

theorem iff_forall_mem : Consistent ord (fun v => v ∈ xs) ↔
    (∀ x ∈ xs, ∀ y ∈ xs, ord y x = (ord x y).map Ordering.swap) ∧
      ∀ x ∈ xs, ∀ y ∈ xs, ∀ z ∈ xs, AtMost ord x y → AtMost ord y z → AtMost ord x z := by
  constructor
  · intro h
    exact ⟨fun x hx y hy => h.swap hx hy, fun x hx y hy z hz => h.trans hx hy hz⟩
  · rintro ⟨hswap, htrans⟩
    exact ⟨fun hx hy => hswap _ hx _ hy, fun hx hy hz => htrans _ hx _ hy _ hz⟩

instance (ord : Order) (xs : List Value) : Decidable (Consistent ord fun v => v ∈ xs) :=
  decidable_of_iff' _ iff_forall_mem

theorem lt_of_gt (h : Consistent ord S) (hx : S x) (hy : S y) (hgt : ord x y = some .gt) :
    ord y x = some .lt := by
  rw [h.swap hx hy, hgt]
  rfl

theorem atMost_of_not_lt (h : Consistent ord S) (hx : S x) (hy : S y) {o : Ordering}
    (ho : ord y x = some o) (hlt : o ≠ .lt) : AtMost ord x y := by
  rw [AtMost, h.swap hy hx, ho]
  cases o with
  | lt => exact absurd rfl hlt
  | eq => exact .inr rfl
  | gt => exact .inl rfl

theorem not_atMost_of_lt (h : Consistent ord S) (hx : S x) (hy : S y) (hlt : ord x y = some .lt) :
    ¬AtMost ord y x := by
  rw [AtMost, h.swap hx hy, hlt]
  rintro (heq | heq) <;> cases heq

theorem lt_of_lt_of_atMost (h : Consistent ord S) (hx : S x) (hy : S y) (hz : S z)
    (hxy : ord x y = some .lt) (hyz : AtMost ord y z) : ord x z = some .lt := by
  rcases h.trans hx hy hz (.inl hxy) hyz with hlt | heq
  · exact hlt
  · -- otherwise `z` is at most `x`, and so is `y`
    have hzx : AtMost ord z x := .inr (by rw [h.swap hx hz, heq]; rfl)
    exact absurd (h.trans hy hz hx hyz hzx) (h.not_atMost_of_lt hx hy hxy)

theorem comparable_comm (h : Consistent ord S) (hx : S x) (hy : S y) :
    Comparable ord x y ↔ Comparable ord y x := by
  rw [Comparable, Comparable, h.swap hx hy]
  cases ord x y <;> simp

theorem eq_of_atMost (h : Consistent ord S) (hx : S x) (hy : S y) (hxy : AtMost ord x y)
    (hyx : AtMost ord y x) : ord x y = some .eq := by
  rcases hxy with hlt | heq
  · exact absurd hyx (h.not_atMost_of_lt hx hy hlt)
  · exact heq

theorem pairwise_comparable_perm (h : Consistent ord S) (hS : ∀ v ∈ xs, S v) (hperm : ys.Perm xs) :
    ys.Pairwise (Comparable ord) ↔ xs.Pairwise (Comparable ord) := by
  have hmember {zs : List Value} (hzs : ∀ v ∈ zs, S v) : zs.Pairwise (Comparable ord) ↔
      zs.Pairwise fun x y => S x ∧ S y → Comparable ord x y :=
    List.Pairwise.iff_of_mem fun hx hy => ⟨fun hxy _ => hxy, fun hxy => hxy ⟨hzs _ hx, hzs _ hy⟩⟩
  rw [hmember hS, hmember fun v hv => hS v (hperm.mem_iff.mp hv)]
  exact hperm.pairwise_iff fun hxy hS => (h.comparable_comm hS.2 hS.1).mp (hxy hS.symm)

end Consistent

section Key

variable {α : Type} [LinearOrder α] {key : Value → Option α}

def byKey (key : Value → Option α) (x y : Value) : Option Ordering := do
  let r ← key x
  let s ← key y
  return compare r s

theorem atMost_byKey : AtMost (byKey key) x y ↔
    ∃ r s, key x = some r ∧ key y = some s ∧ r ≤ s := by
  rw [AtMost, byKey]
  constructor
  · intro h
    cases hx : key x with
    | none => simp [hx] at h
    | some r =>
        cases hy : key y with
        | none => simp [hx, hy] at h
        | some s =>
            rw [hx, hy] at h
            refine ⟨r, s, rfl, rfl, le_iff_lt_or_eq.mpr (h.imp ?_ ?_)⟩
            · exact fun hlt => compare_lt_iff_lt.mp (Option.some.inj hlt)
            · exact fun heq => compare_eq_iff_eq.mp (Option.some.inj heq)
  · rintro ⟨r, s, hx, hy, hle⟩
    rw [hx, hy]
    refine (le_iff_lt_or_eq.mp hle).imp ?_ ?_
    · exact fun hlt => congrArg some (compare_lt_iff_lt.mpr hlt)
    · exact fun heq => congrArg some (compare_eq_iff_eq.mpr heq)

theorem consistent_byKey (key : Value → Option α) : Consistent (byKey key) fun _ => True where
  swap := by
    intro x y _ _
    rw [byKey, byKey]
    cases key x with
    | none => cases key y <;> rfl
    | some r =>
        cases key y with
        | none => rfl
        | some s => exact congrArg some Std.OrientedCmp.eq_swap
  trans := by
    intro x y z _ _ _ hxy hyz
    obtain ⟨r, s, hr, hs, hrs⟩ := atMost_byKey.mp hxy
    obtain ⟨s', t, hs', ht, hst⟩ := atMost_byKey.mp hyz
    obtain rfl : s = s' := Option.some.inj (hs.symm.trans hs')
    exact atMost_byKey.mpr ⟨r, t, hr, ht, hrs.trans hst⟩

theorem Consistent.congr {ord' : Order} (h : Consistent ord S)
    (hsame : ∀ {x y}, S x → S y → ord' x y = ord x y) : Consistent ord' S where
  swap hx hy := by rw [hsame hx hy, hsame hy hx, h.swap hx hy]
  trans hx hy hz := by
    rw [AtMost, AtMost, AtMost, hsame hx hy, hsame hy hz, hsame hx hz]
    exact h.trans hx hy hz

end Key

/-! ## Putting a list in order -/

theorem Sorts.comparable (h : Sorts ord xs ys) (hord : Consistent ord S) (hS : ∀ v ∈ xs, S v) :
    xs.Pairwise (Comparable ord) :=
  (hord.pairwise_comparable_perm hS h.perm).mp (h.ordered.imp AtMost.comparable)

theorem Sorts.congr {ord' : Order} (h : Sorts ord xs ys)
    (hagree : ∀ x ∈ xs, ∀ y ∈ xs, ord' x y = ord x y) : Sorts ord' xs ys := by
  refine ⟨h.perm, h.ordered.imp_of_mem fun hx hy hxy => ?_⟩
  rwa [AtMost, hagree _ (h.perm.mem_iff.mp hx) _ (h.perm.mem_iff.mp hy)]

theorem Sorts.cons (h : Sorts ord xs ys) (hleast : ∀ u ∈ xs, AtMost ord v u) :
    Sorts ord (v :: xs) (v :: ys) :=
  ⟨h.perm.cons v, h.ordered.cons fun u hu => hleast u (h.perm.mem_iff.mp hu)⟩

namespace StablySorts

theorem of_ordered (h : xs.Pairwise (AtMost ord)) : StablySorts ord S xs xs :=
  ⟨⟨.refl xs, h⟩, fun _ _ => rfl⟩

theorem middle (hord : Consistent ord S) (hS : ∀ u ∈ xs ++ v :: ys, S u)
    (h : StablySorts ord S (xs ++ ys) zs) (hpassed : ∀ u ∈ xs, ord v u = some .lt)
    (hleast : ∀ u ∈ ys, AtMost ord v u) : StablySorts ord S (xs ++ v :: ys) (v :: zs) := by
  have hmiddle : (v :: (xs ++ ys)).Perm (xs ++ v :: ys) := List.perm_middle.symm
  have hcons : Sorts ord (v :: (xs ++ ys)) (v :: zs) := by
    refine h.toSorts.cons fun u hu => ?_
    exact (List.mem_append.mp hu).elim (fun hu => .inl (hpassed u hu)) (hleast u)
  refine ⟨⟨hcons.perm.trans hmiddle, hcons.ordered⟩, fun z hz => ?_⟩
  have hv : S v := hS v (hmiddle.mem_iff.mp List.mem_cons_self)
  have hties := h.ties z hz
  rw [List.filter_append] at hties ⊢
  rw [List.filter_cons, List.filter_cons]
  split
  case isFalse => exact hties
  case isTrue htie =>
      -- a value that is passed is not equal to `z`, for then `v` would be equal to it
      have hnone : xs.filter (tied ord z) = [] := by
        refine List.filter_eq_nil_iff.mpr fun u hu hzu => ?_
        have hu' : S u := hS u (List.mem_append_left _ hu)
        have huz : AtMost ord u z := .inr (by rw [hord.swap hz hu', tied_iff.mp hzu]; rfl)
        have huv := hord.trans hu' hz hv huz (.inr (tied_iff.mp htie))
        exact hord.not_atMost_of_lt hv hu' (hpassed u hu) huv
      rw [hnone, List.nil_append] at hties ⊢
      rw [hties]

theorem trans_append {left right : List Value} (h : StablySorts ord S (left ++ right) zs)
    (hleft : StablySorts ord S xs left) (hright : StablySorts ord S ys right) :
    StablySorts ord S (xs ++ ys) zs := by
  refine ⟨⟨h.perm.trans (hleft.perm.append hright.perm), h.ordered⟩, fun z hz => ?_⟩
  rw [h.ties z hz, List.filter_append, List.filter_append, hleft.ties z hz, hright.ties z hz]

theorem unique (hord : Consistent ord S) (hS : ∀ v ∈ xs, S v) (h : StablySorts ord S xs ys)
    (h' : StablySorts ord S xs zs) : ys = zs := by
  -- only the order of both, and the ties between them, count
  suffices hgoal : ∀ ys zs : List Value, (∀ v ∈ ys, S v) → ys.Perm zs →
      ys.Pairwise (AtMost ord) → zs.Pairwise (AtMost ord) →
      (∀ z, S z → ys.filter (tied ord z) = zs.filter (tied ord z)) → ys = zs from
    hgoal ys zs (fun v hv => hS v (h.perm.mem_iff.mp hv)) (h.perm.trans h'.perm.symm) h.ordered
      h'.ordered fun z hz => (h.ties z hz).trans (h'.ties z hz).symm
  intro ys
  induction ys with
  | nil => exact fun zs _ hperm _ _ _ => hperm.nil_eq
  | cons y ys ih =>
      intro zs hS hperm hys hzs hties
      cases zs with
      | nil => exact absurd hperm.eq_nil (List.cons_ne_nil y ys)
      | cons z zs =>
          have hy : S y := hS y List.mem_cons_self
          have hz : S z := hS z (hperm.mem_iff.mpr List.mem_cons_self)
          have hheads : y = z := by
            by_contra hne
            have hmem : z ∈ ys :=
              (List.mem_cons.mp (hperm.mem_iff.mpr List.mem_cons_self)).resolve_left (Ne.symm hne)
            have hmem' : y ∈ zs :=
              (List.mem_cons.mp (hperm.mem_iff.mp List.mem_cons_self)).resolve_left hne
            have hyz := List.rel_of_pairwise_cons hys hmem
            have hzy := List.rel_of_pairwise_cons hzs hmem'
            -- both heads are equal to `y`, so each is the first of its ties
            have hyy : tied ord y y := tied_iff.mpr (hord.eq_of_atMost hy hy
              (hord.trans hy hz hy hyz hzy) (hord.trans hy hz hy hyz hzy))
            have hyz' : tied ord y z := tied_iff.mpr (hord.eq_of_atMost hy hz hyz hzy)
            have hfirst := hties y hy
            rw [List.filter_cons_of_pos hyy, List.filter_cons_of_pos hyz'] at hfirst
            exact hne (List.cons.inj hfirst).1
          subst hheads
          refine congrArg _ (ih zs (fun v hv => hS v (List.mem_cons_of_mem y hv))
            hperm.cons_inv hys.of_cons hzs.of_cons fun z hz => ?_)
          have htail := hties z hz
          rw [List.filter_cons, List.filter_cons] at htail
          split at htail
          · exact (List.cons.inj htail).2
          · exact htail

theorem mergeSort {le : Value → Value → Bool} (hord : Consistent ord S) (hS : ∀ v ∈ xs, S v)
    (htrans : ∀ x y z, le x y → le y z → le x z) (htotal : ∀ x y, le x y || le y x)
    (hle : ∀ x y, S x → S y → (le x y ↔ AtMost ord x y)) :
    StablySorts ord S xs (xs.mergeSort le) := by
  have hperm := List.mergeSort_perm xs le
  refine ⟨⟨hperm, ?_⟩, fun z hz => ?_⟩
  · refine (List.pairwise_mergeSort htrans htotal xs).imp_of_mem fun hx hy hxy => ?_
    exact (hle _ _ (hS _ (hperm.mem_iff.mp hx)) (hS _ (hperm.mem_iff.mp hy))).mp hxy
  · -- the ties of `z` are in order already, so they stay a sublist, and none is added
    have htied : (xs.filter (tied ord z)).Pairwise fun x y => le x y := by
      refine List.pairwise_of_forall_mem_list fun x hx y hy => ?_
      rw [List.mem_filter, tied_iff] at hx hy
      have hxz : AtMost ord x z := .inr (by rw [hord.swap hz (hS x hx.1), hx.2]; rfl)
      exact (hle x y (hS x hx.1) (hS y hy.1)).mpr
        (hord.trans (hS x hx.1) hz (hS y hy.1) hxz (.inr hy.2))
    have hsublist := (List.sublist_mergeSort htrans htotal htied List.filter_sublist).filter
      (tied ord z)
    rw [List.filter_filter] at hsublist
    simp only [Bool.and_self] at hsublist
    exact (hsublist.eq_of_length (hperm.filter _).length_eq.symm).symm

end StablySorts

end AdaptiveArray.Sorting
