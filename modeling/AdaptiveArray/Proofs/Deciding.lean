import AdaptiveArray.Proofs.Ordering
import AdaptiveArray.Proofs.Stability

/-!
# The sorting algorithms under an order

None of them compares all pairs.  Still, if the comparison follows a consistent order,
one that ends has put the values in order, so all pairs are comparable; and one that
fails has met a pair that is not.  Merging keeps equal values as they stood.
-/

namespace AdaptiveArray.Sorting

/-- Comparing two values of `S` answers what the order says, keeping `I`, and fails where the order
says nothing. -/
structure Follows (compare : Comparison) (ord : Order) (S : Value → Prop) (I : Arena → Prop)
    (early : Fault → Arena → Prop) : Prop where
  compare : ∀ {x y : Value} {a : Arena}, S x → S y → I a →
    Ends (compare x y) a (fun o b => ord x y = some o ∧ I b) fun f b => early f b ∧ ord x y = none
  booked : ∀ {a b : Arena}, I a → a.Booked b → I b

variable {compare : Comparison} {ord : Order} {S : Value → Prop} {I : Arena → Prop}
  {early : Fault → Arena → Prop}

private theorem ends_of_sublist {α : Type} {act : Action α} {a : Arena} {post : α → Arena → Prop}
    {xs ys : List Value} (hsublist : xs.Sublist ys)
    (h : Ends act a post fun f b => early f b ∧ ¬xs.Pairwise (Comparable ord)) :
    Ends act a post fun f b => early f b ∧ ¬ys.Pairwise (Comparable ord) :=
  h.mono_early fun _ _ hf => hf.imp_right fun hpairs hall => hpairs (hall.sublist hsublist)

/-! ## Selection -/

theorem ends_selectLeast_ordered (h : Follows compare ord S I early) (hord : Consistent ord S)
    (xs : List Value) : ∀ {a : Arena} (x : Value), (∀ v ∈ x :: xs, S v) → I a →
      Ends (selectLeast compare x xs) a
        (fun answer b => (answer.1 :: answer.2).Perm (x :: xs) ∧
          (∀ v ∈ answer.2, AtMost ord answer.1 v) ∧ I b)
        fun f b => early f b ∧ ¬(x :: xs).Pairwise (Comparable ord) := by
  induction xs with
  | nil => exact fun x _ hI => ⟨.refl _, nofun, hI⟩
  | cons y ys ih =>
      intro a x hS hI
      have hx : S x := hS x List.mem_cons_self
      have hy : S y := hS y (List.mem_cons_of_mem x List.mem_cons_self)
      have hys : ∀ v ∈ ys, S v := fun v hv =>
        hS v (List.mem_cons_of_mem x (List.mem_cons_of_mem y hv))
      -- what is at most all of `u` and the rest is at most all that `u` is at most
      have hlead : ∀ {u w : Value} {answer : Value × List Value}, S u → S w →
          (answer.1 :: answer.2).Perm (u :: ys) → (∀ v ∈ answer.2, AtMost ord answer.1 v) →
          AtMost ord u w → ∀ v ∈ w :: answer.2, AtMost ord answer.1 v := by
        intro u w answer hu hw hperm hleast huw v hv
        rcases List.mem_cons.mp hv with rfl | hv
        · rcases List.mem_cons.mp (hperm.mem_iff.mpr List.mem_cons_self) with heq | hmem
          · exact heq ▸ huw
          · have hanswer : S answer.1 := (List.forall_mem_cons.mpr ⟨hu, hys⟩) answer.1
              (hperm.mem_iff.mp List.mem_cons_self)
            exact hord.trans hanswer hu hw (hleast u hmem) huw
        · exact hleast v hv
      unfold selectLeast
      refine Ends.bind ((h.compare hy hx hI).mono_early ?_) ?_
      · rintro f b ⟨hf, hnone⟩
        refine ⟨hf, fun hpairs => ?_⟩
        have hxy := List.rel_of_pairwise_cons hpairs (List.mem_cons_self (a := y))
        exact (hord.comparable_comm hx hy).mp hxy hnone
      · rintro o a' ⟨ho, hI'⟩
        split
        case isTrue hlt =>
            refine Ends.bind (ends_of_sublist (List.sublist_cons_self x _)
              (ih y (List.forall_mem_cons.mpr ⟨hy, hys⟩) hI')) ?_
            rintro answer a'' ⟨hperm, hleast, hI''⟩
            refine ⟨(List.Perm.swap _ _ _).trans (hperm.cons x), ?_, hI''⟩
            exact hlead hy hx hperm hleast (.inl (hlt ▸ ho))
        case isFalse hlt =>
            refine Ends.bind (ends_of_sublist ((List.sublist_cons_self y ys).cons_cons x)
              (ih x (List.forall_mem_cons.mpr ⟨hx, hys⟩) hI')) ?_
            rintro answer a'' ⟨hperm, hleast, hI''⟩
            refine ⟨(List.Perm.swap _ _ _).trans ((hperm.cons y).trans (List.Perm.swap _ _ _)),
              ?_, hI''⟩
            exact hlead hx hy hperm hleast (hord.atMost_of_not_lt hx hy ho hlt)

theorem ends_bySelection_ordered (h : Follows compare ord S I early) (hord : Consistent ord S)
    (n : Nat) : ∀ {a : Arena} (xs : List Value), xs.length ≤ n → (∀ v ∈ xs, S v) → I a →
      Ends (bySelection compare n xs) a (fun ys b => Sorts ord xs ys ∧ I b)
        fun f b => early f b ∧ ¬xs.Pairwise (Comparable ord) := by
  induction n with
  | zero =>
      intro a xs hlen _ hI
      rw [List.eq_nil_of_length_eq_zero (Nat.le_zero.mp hlen)]
      exact ⟨⟨.refl [], .nil⟩, hI⟩
  | succ n ih =>
      intro a xs hlen hS hI
      cases xs with
      | nil => exact ⟨⟨.refl [], .nil⟩, hI⟩
      | cons x xs =>
          unfold bySelection
          refine Ends.bind (ends_selectLeast_ordered h hord xs x hS hI) ?_
          rintro answer a' ⟨hperm, hleast, hI'⟩
          have hrest : ∀ v ∈ answer.2, S v := fun v hv =>
            hS v (hperm.mem_iff.mp (List.mem_cons_of_mem answer.1 hv))
          have hlen' : answer.2.length ≤ n := by
            have hlength := hperm.length_eq
            simp only [List.length_cons] at hlength hlen
            omega
          refine Ends.bind ((ih answer.2 hlen' hrest hI').mono_early ?_) ?_
          · rintro f b ⟨hf, hpairs⟩
            refine ⟨hf, fun hall => ?_⟩
            exact hpairs ((hord.pairwise_comparable_perm hS hperm).mpr hall).of_cons
          · rintro ys a'' ⟨hys, hI''⟩
            have hsorts := hys.cons hleast
            exact ⟨⟨hsorts.perm.trans hperm, hsorts.ordered⟩, hI''⟩

/-! ## Merging -/

theorem ends_merge_ordered (h : Follows compare ord S I early) (hord : Consistent ord S) (out : Nat)
    (done xs ys : List Value) : ∀ {a : Arena}, (∀ v ∈ xs ++ ys, S v) → xs.Pairwise (AtMost ord) →
      ys.Pairwise (AtMost ord) → I a →
      Ends (merge compare out done xs ys) a
        (fun zs b => (∃ rest, zs = done.reverse ++ rest ∧ StablySorts ord S (xs ++ ys) rest) ∧ I b)
        fun f b => early f b ∧ ¬(xs ++ ys).Pairwise (Comparable ord) := by
  fun_induction merge compare out done xs ys with
  | case1 _ done ys =>
      intro a _ _ hys hI
      exact ⟨⟨ys, List.reverseAux_eq, .of_ordered hys⟩, hI⟩
  | case2 _ done xs _ =>
      intro a _ hxs _ hI
      rw [List.append_nil]
      exact ⟨⟨xs, List.reverseAux_eq, .of_ordered hxs⟩, hI⟩
  | case3 out done x xs y ys ihRight ihLeft =>
      intro a hS hxs hys hI
      have hx : S x := hS x (List.mem_append_left _ List.mem_cons_self)
      have hy : S y := hS y (List.mem_append_right _ List.mem_cons_self)
      have hxs' : ∀ v ∈ xs, S v := fun v hv =>
        hS v (List.mem_append_left _ (List.mem_cons_of_mem x hv))
      have hys' : ∀ v ∈ ys, S v := fun v hv =>
        hS v (List.mem_append_right _ (List.mem_cons_of_mem y hv))
      refine Ends.bind (Action.ends_pollAt out) fun _ a₁ hbooked => ?_
      refine Ends.bind ((h.compare hx hy (h.booked hI hbooked)).mono_early ?_) ?_
      · rintro f b ⟨hf, hnone⟩
        refine ⟨hf, fun hpairs => ?_⟩
        exact (List.pairwise_append.mp hpairs).2.2 x List.mem_cons_self y List.mem_cons_self hnone
      rintro o a₂ ⟨ho, hI₂⟩
      split
      case isTrue hgt =>
          -- the right value passes all values on the left
          have hyx : ord y x = some .lt := hord.lt_of_gt hx hy (hgt ▸ ho)
          have hpassed : ∀ u ∈ x :: xs, ord y u = some .lt := by
            refine List.forall_mem_cons.mpr ⟨hyx, fun u hu => ?_⟩
            exact hord.lt_of_lt_of_atMost hy hx (hxs' u hu) hyx (List.rel_of_pairwise_cons hxs hu)
          have hsublist := (List.sublist_cons_self y ys).append_left (x :: xs)
          refine (ends_of_sublist hsublist
            (ihRight (fun v hv => hS v (hsublist.subset hv)) hxs hys.of_cons hI₂)).weaken ?_
          rintro zs b ⟨⟨rest, rfl, hrest⟩, hb⟩
          refine ⟨⟨y :: rest, by simp, ?_⟩, hb⟩
          exact .middle hord hS hrest hpassed fun u hu => List.rel_of_pairwise_cons hys hu
      case isFalse hgt =>
          have hxy : AtMost ord x y := by
            cases o with
            | lt => exact .inl ho
            | eq => exact .inr ho
            | gt => exact absurd rfl hgt
          have hleast : ∀ u ∈ xs ++ y :: ys, AtMost ord x u := by
            intro u hu
            rcases List.mem_append.mp hu with hu | hu
            · exact List.rel_of_pairwise_cons hxs hu
            rcases List.mem_cons.mp hu with rfl | hu
            · exact hxy
            · exact hord.trans hx hy (hys' u hu) hxy (List.rel_of_pairwise_cons hys hu)
          refine (ends_of_sublist (List.sublist_cons_self x _)
            (ihLeft (fun v hv => hS v (List.mem_cons_of_mem x hv)) hxs.of_cons hys hI₂)).weaken ?_
          rintro zs b ⟨⟨rest, rfl, hrest⟩, hb⟩
          have hsorts : StablySorts ord S ([] ++ x :: (xs ++ y :: ys)) (x :: rest) :=
            .middle hord hS hrest (List.forall_mem_nil _) hleast
          exact ⟨⟨x :: rest, by simp, hsorts⟩, hb⟩

theorem ends_byMerging_ordered (h : Follows compare ord S I early) (hord : Consistent ord S)
    (depth : Nat) : ∀ {a : Arena} (xs : List Value), xs.length ≤ depth → (∀ v ∈ xs, S v) → I a →
      Ends (byMerging compare depth xs) a (fun ys b => StablySorts ord S xs ys ∧ I b)
        fun f b => early f b ∧ ¬xs.Pairwise (Comparable ord) := by
  induction depth with
  | zero =>
      intro a xs hlen _ hI
      rw [List.eq_nil_of_length_eq_zero (Nat.le_zero.mp hlen)]
      exact ⟨.of_ordered .nil, hI⟩
  | succ depth ih =>
      intro a xs hlen hS hI
      unfold byMerging
      split
      case isTrue hshort =>
          rcases xs with _ | ⟨x, _ | ⟨y, xs⟩⟩
          · exact ⟨.of_ordered .nil, hI⟩
          · exact ⟨.of_ordered (List.pairwise_singleton _ x), hI⟩
          · simp at hshort
      case isFalse hlong =>
          have htake : (xs.take (xs.length / 2)).length ≤ depth := by
            rw [List.length_take]
            omega
          have hdrop : (xs.drop (xs.length / 2)).length ≤ depth := by
            rw [List.length_drop]
            omega
          refine Ends.bind (ends_of_sublist (List.take_sublist _ _)
            (ih _ htake (fun v hv => hS v (List.mem_of_mem_take hv)) hI)) ?_
          rintro left a₁ ⟨hleft, hI₁⟩
          refine Ends.bind (ends_of_sublist (List.drop_sublist _ _)
            (ih _ hdrop (fun v hv => hS v (List.mem_of_mem_drop hv)) hI₁)) ?_
          rintro right a₂ ⟨hright, hI₂⟩
          have hboth := hleft.perm.append hright.perm
          rw [List.take_append_drop] at hboth
          refine (ends_merge_ordered h hord 0 [] left right
            (fun v hv => hS v (hboth.mem_iff.mp hv)) hleft.ordered hright.ordered hI₂).mono ?_ ?_
          · rintro zs b ⟨⟨rest, rfl, hrest⟩, hb⟩
            have hall := hrest.trans_append hleft hright
            rw [List.take_append_drop] at hall
            exact ⟨hall, hb⟩
          · rintro f b ⟨hf, hpairs⟩
            exact ⟨hf, fun hall => hpairs ((hord.pairwise_comparable_perm hS hboth).mpr hall)⟩

end AdaptiveArray.Sorting
