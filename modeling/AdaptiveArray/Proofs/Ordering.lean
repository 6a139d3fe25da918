import AdaptiveArray.Derive.Sorting
import AdaptiveArray.Proofs.Storage

/-!
# The sorting algorithms

Whatever the comparison says, sorting permutes the values.  Whatever it does meanwhile,
a property of the arena that it keeps is kept by the whole.
-/

namespace AdaptiveArray.Sorting

structure Carries (compare : Comparison) (S : Value → Prop) (I : Arena → Prop)
    (early : Fault → Arena → Prop) : Prop where
  compare : ∀ {x y : Value} {a : Arena}, S x → S y → I a →
    Ends (compare x y) a (fun _ b => I b) early
  booked : ∀ {a b : Arena}, I a → a.Booked b → I b

theorem Carries.trivial (compare : Comparison) :
    Carries compare (fun _ => True) (fun _ => True) fun _ _ => True :=
  ⟨fun _ _ _ => Ends.trivial _ _, fun _ _ => True.intro⟩

variable {compare : Comparison} {S : Value → Prop} {I : Arena → Prop}
  {early : Fault → Arena → Prop}

theorem ends_selectLeast (h : Carries compare S I early) (xs : List Value) :
    ∀ {a : Arena} (x : Value), (∀ v ∈ x :: xs, S v) → I a →
      Ends (selectLeast compare x xs) a
        (fun answer b => (answer.1 :: answer.2).Perm (x :: xs) ∧ I b) early := by
  induction xs with
  | nil => exact fun x _ hI => ⟨.refl _, hI⟩
  | cons y ys ih =>
      intro a x hS hI
      have hx := hS x List.mem_cons_self
      have hy := hS y (List.mem_cons_of_mem x List.mem_cons_self)
      have hys : ∀ v ∈ ys, S v := fun v hv =>
        hS v (List.mem_cons_of_mem x (List.mem_cons_of_mem y hv))
      unfold selectLeast
      refine Ends.bind (h.compare hy hx hI) fun o a' hI' => ?_
      split
      · refine Ends.bind (ih y (List.forall_mem_cons.mpr ⟨hy, hys⟩) hI') ?_
        rintro answer a'' ⟨hperm, hI''⟩
        exact ⟨(List.Perm.swap _ _ _).trans (hperm.cons x), hI''⟩
      · refine Ends.bind (ih x (List.forall_mem_cons.mpr ⟨hx, hys⟩) hI') ?_
        rintro answer a'' ⟨hperm, hI''⟩
        exact ⟨(List.Perm.swap _ _ _).trans ((hperm.cons y).trans (List.Perm.swap _ _ _)), hI''⟩

theorem ends_bySelection (h : Carries compare S I early) (n : Nat) :
    ∀ {a : Arena} (xs : List Value), (∀ v ∈ xs, S v) → I a →
      Ends (bySelection compare n xs) a (fun ys b => ys.Perm xs ∧ I b) early := by
  induction n with
  | zero => exact fun xs _ hI => ⟨.refl xs, hI⟩
  | succ n ih =>
      intro a xs hS hI
      cases xs with
      | nil => exact ⟨.refl [], hI⟩
      | cons x xs =>
          unfold bySelection
          refine Ends.bind (ends_selectLeast h xs x hS hI) ?_
          rintro answer a' ⟨hleast, hI'⟩
          have hrest : ∀ v ∈ answer.2, S v := fun v hv =>
            hS v (hleast.mem_iff.mp (List.mem_cons_of_mem answer.1 hv))
          refine Ends.bind (ih answer.2 hrest hI') ?_
          rintro ys a'' ⟨hperm, hI''⟩
          exact ⟨(hperm.cons answer.1).trans hleast, hI''⟩

theorem ends_merge (h : Carries compare S I early) (out : Nat) (done xs ys : List Value) :
    ∀ {a : Arena}, (∀ v ∈ xs ++ ys, S v) → I a → Ends (merge compare out done xs ys) a
      (fun zs b => zs.Perm (done ++ (xs ++ ys)) ∧ I b) early := by
  fun_induction merge compare out done xs ys with
  | case1 _ done ys =>
      intro a _ hI
      rw [List.reverseAux_eq, List.nil_append]
      exact ⟨(List.reverse_perm done).append_right ys, hI⟩
  | case2 _ done xs _ =>
      intro a _ hI
      rw [List.reverseAux_eq, List.append_nil]
      exact ⟨(List.reverse_perm done).append_right xs, hI⟩
  | case3 out done x xs y ys ihRight ihLeft =>
      intro a hS hI
      refine Ends.bind (Action.ends_pollAt out) fun _ a₁ hbooked => ?_
      have hx := hS x (List.mem_append_left _ List.mem_cons_self)
      have hy := hS y (List.mem_append_right _ List.mem_cons_self)
      refine Ends.bind (h.compare hx hy (h.booked hI hbooked)) fun o a₂ hI₂ => ?_
      split
      · refine (ihRight (fun v hv => hS v ?_) hI₂).weaken fun zs _ hz => ⟨hz.1.trans ?_, hz.2⟩
        · exact (List.mem_append.mp hv).elim (fun hv => List.mem_append_left _ hv)
            fun hv => List.mem_append_right _ (List.mem_cons_of_mem y hv)
        · rw [List.cons_append]
          refine List.perm_middle.symm.trans (List.Perm.append_left done ?_)
          exact List.perm_middle.symm
      · refine (ihLeft (fun v hv => hS v ?_) hI₂).weaken fun zs _ hz => ⟨hz.1.trans ?_, hz.2⟩
        · exact List.mem_cons_of_mem x hv
        · exact List.perm_middle.symm

theorem ends_byMerging (h : Carries compare S I early) (depth : Nat) :
    ∀ {a : Arena} (xs : List Value), (∀ v ∈ xs, S v) → I a →
      Ends (byMerging compare depth xs) a (fun ys b => ys.Perm xs ∧ I b) early := by
  induction depth with
  | zero => exact fun xs _ hI => ⟨.refl xs, hI⟩
  | succ depth ih =>
      intro a xs hS hI
      unfold byMerging
      split
      · exact ⟨.refl xs, hI⟩
      · refine Ends.bind (ih _ (fun v hv => hS v (List.mem_of_mem_take hv)) hI) ?_
        rintro left a₁ ⟨hleft, hI₁⟩
        refine Ends.bind (ih _ (fun v hv => hS v (List.mem_of_mem_drop hv)) hI₁) ?_
        rintro right a₂ ⟨hright, hI₂⟩
        have hboth := hleft.append hright
        rw [List.take_append_drop] at hboth
        refine (ends_merge h 0 [] left right (fun v hv => hS v (hboth.mem_iff.mp hv)) hI₂).weaken ?_
        exact fun zs _ hz => ⟨hz.1.trans hboth, hz.2⟩

end AdaptiveArray.Sorting
