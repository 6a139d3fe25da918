import AdaptiveArray.Proofs.Sorted

/-!
# Sorting by a comparison of the caller's

The comparison may depend on anything in the arena and change it.  If its answers are
those of an order all the same, the elements end in that order, equal ones as they stood.
Whatever it does, the sort goes by its answers alone, and ends with the first call that
fails.
-/

namespace AdaptiveArray

namespace Sorting

/-! ## What a sort asks -/

/-- The sorted values, or a pair to be compared and how to go on with each answer.  No answer stands
for a comparison that failed. -/
inductive Inquiry where
  | sorted (ys : List Value)
  | ask (x y : Value) (rest : Ordering → Inquiry)

namespace Inquiry

def Of (xs : List Value) : Inquiry → Prop
  | sorted ys => ys.Perm xs
  | ask x y rest => x ∈ xs ∧ y ∈ xs ∧ ∀ o, (rest o).Of xs

/-- The comparison was called with each pair in turn and answered, and in between nothing was done
but keep the books. -/
inductive Reaches (compare : Comparison) : Inquiry → Arena → Inquiry → Arena → Prop
  | here (q : Inquiry) (a : Arena) : Reaches compare q a q a
  | booked {q r : Inquiry} {a b c : Arena} :
      a.Booked b → Reaches compare q b r c → Reaches compare q a r c
  | answered {x y : Value} {rest : Ordering → Inquiry} {o : Ordering} {r : Inquiry}
      {a b c : Arena} :
      compare x y a = .ok o b → Reaches compare (rest o) b r c →
        Reaches compare (ask x y rest) a r c

/-- After some calls that were answered one failed, and nothing was done any more. -/
def FirstFailure (compare : Comparison) (q : Inquiry) (a : Arena) (f : Fault) (c : Arena) : Prop :=
  ∃ x y rest b, q.Reaches compare a (ask x y rest) b ∧ compare x y b = .error f c

/-- The action asks what the inquiry asks, whatever the comparison is and does, and goes on only
while there are answers. -/
def Conducts (q : Inquiry) (act : Comparison → Action (List Value)) : Prop :=
  ∀ compare a, Ends (act compare) a (fun ys c => q.Reaches compare a (sorted ys) c)
    fun f c => q.FirstFailure compare a f c

def bind : Inquiry → (List Value → Inquiry) → Inquiry
  | sorted ys, k => k ys
  | ask x y rest, k => ask x y fun o => (rest o).bind k

variable {compare : Comparison} {q r s : Inquiry} {k : List Value → Inquiry} {a b c : Arena}
  {xs ys zs : List Value}

theorem Reaches.trans (h : q.Reaches compare a r b) (h' : r.Reaches compare b s c) :
    q.Reaches compare a s c := by
  induction h with
  | here => exact h'
  | booked hbooked _ ih => exact .booked hbooked (ih h')
  | answered run _ ih => exact .answered run (ih h')

theorem Reaches.bind (h : q.Reaches compare a r b) (k : List Value → Inquiry) :
    (q.bind k).Reaches compare a (r.bind k) b := by
  induction h with
  | here => exact .here _ _
  | booked hbooked _ ih => exact .booked hbooked ih
  | answered run _ ih => exact .answered run ih

theorem Reaches.of (h : q.Reaches compare a r b) (hq : q.Of xs) : r.Of xs := by
  induction h with
  | here => exact hq
  | booked _ _ ih => exact ih hq
  | answered _ _ ih => exact ih (hq.2.2 _)

theorem Reaches.failure {f : Fault} (h : q.Reaches compare a r b)
    (h' : r.FirstFailure compare b f c) : q.FirstFailure compare a f c := by
  obtain ⟨x, y, rest, d, hreaches, run⟩ := h'
  exact ⟨x, y, rest, d, h.trans hreaches, run⟩

theorem FirstFailure.bind {f : Fault} (h : q.FirstFailure compare a f c)
    (k : List Value → Inquiry) : (q.bind k).FirstFailure compare a f c := by
  obtain ⟨x, y, rest, b, hreaches, run⟩ := h
  exact ⟨x, y, _, b, hreaches.bind k, run⟩

theorem Of.bind (h : q.Of xs) (hsub : xs ⊆ zs) (hk : ∀ ys, ys.Perm xs → (k ys).Of zs) :
    (q.bind k).Of zs := by
  induction q with
  | sorted ys => exact hk ys h
  | ask x y rest ih => exact ⟨hsub h.1, hsub h.2.1, fun o => ih o (h.2.2 o)⟩

theorem Of.perm (h : q.Of xs) (hperm : xs.Perm ys) : q.Of ys := by
  induction q with
  | sorted zs => exact List.Perm.trans h hperm
  | ask x y rest ih =>
      exact ⟨hperm.mem_iff.mp h.1, hperm.mem_iff.mp h.2.1, fun o => ih o (h.2.2 o)⟩

theorem Conducts.pure (ys : List Value) : (sorted ys).Conducts fun _ => Pure.pure ys :=
  fun _ a => Reaches.here (sorted ys) a

theorem Conducts.bind {act : Comparison → Action (List Value)}
    {next : Comparison → List Value → Action (List Value)} (h : q.Conducts act)
    (hk : ∀ ys, (k ys).Conducts fun compare => next compare ys) :
    (q.bind k).Conducts fun compare => act compare >>= next compare := by
  intro compare a
  refine Ends.bind ((h compare a).mono_early fun f c hf => hf.bind k) fun ys b hys => ?_
  have hleads : (q.bind k).Reaches compare a (k ys) b := hys.bind k
  exact (hk ys compare b).mono (fun _ _ h => hleads.trans h) fun _ _ hf => hleads.failure hf

theorem Conducts.merge {x y : Value} {xs ys done : List Value} {right left : Inquiry} (out : Nat)
    (hright : right.Conducts fun compare =>
      Sorting.merge compare (out + 1) (y :: done) (x :: xs) ys)
    (hleft : left.Conducts fun compare =>
      Sorting.merge compare (out + 1) (x :: done) xs (y :: ys)) :
    (ask x y fun o => if o = .gt then right else left).Conducts fun compare =>
      Sorting.merge compare out done (x :: xs) (y :: ys) := by
  intro compare a
  unfold Sorting.merge
  refine Ends.bind (Action.ends_pollAt out) fun _ b hbooked => ?_
  refine Ends.bind (?_ : Ends (compare x y) b (fun o c => compare x y b = .ok o c) _)
    fun o c run => ?_
  · refine Ends.intro (fun _ _ run => run) fun f c run => ?_
    exact ⟨x, y, _, b, .booked hbooked (.here _ _), run⟩
  · have hleads {r : Inquiry} (hr : r = if o = .gt then right else left) :
        (ask x y fun o => if o = .gt then right else left).Reaches compare a r c :=
      .booked hbooked (.answered run (hr ▸ .here _ _))
    split
    case isTrue hgt =>
        have hright' := hleads (if_pos hgt).symm
        exact (hright compare c).mono (fun _ _ h => hright'.trans h) fun _ _ hf =>
          hright'.failure hf
    case isFalse hgt =>
        have hleft' := hleads (if_neg hgt).symm
        exact (hleft compare c).mono (fun _ _ h => hleft'.trans h) fun _ _ hf => hleft'.failure hf

end Inquiry

theorem exists_inquiry_merge (xs : List Value) : ∀ (out : Nat) (done ys : List Value),
    ∃ q : Inquiry, q.Of (done ++ xs ++ ys) ∧
      q.Conducts fun compare => merge compare out done xs ys := by
  induction xs with
  | nil =>
      intro out done ys
      refine ⟨.sorted (done.reverseAux ys), ?_, fun compare a => ?_⟩
      · rw [Inquiry.Of, List.reverseAux_eq, List.append_nil]
        exact (List.reverse_perm done).append_right ys
      · unfold merge
        exact .here _ _
  | cons x xs ihx =>
      intro out done ys
      induction ys generalizing out done with
      | nil =>
          refine ⟨.sorted (done.reverseAux (x :: xs)), ?_, fun compare a => ?_⟩
          · rw [Inquiry.Of, List.reverseAux_eq, List.append_nil]
            exact (List.reverse_perm done).append_right (x :: xs)
          · unfold merge
            exact .here _ _
      | cons y ys ihy =>
          obtain ⟨right, hright, hrights⟩ := ihy (out + 1) (y :: done)
          obtain ⟨left, hleft, hlefts⟩ := ihx (out + 1) (x :: done) (y :: ys)
          refine ⟨.ask x y fun o => if o = .gt then right else left,
            ⟨by simp, by simp, fun o => ?_⟩, .merge out hrights hlefts⟩
          dsimp only
          split
          · refine hright.perm ?_
            rw [List.append_assoc, List.append_assoc]
            simpa using (@List.perm_middle _ y (done ++ x :: xs) ys).symm
          · refine hleft.perm ?_
            simpa using (@List.perm_middle _ x done (xs ++ y :: ys)).symm

theorem exists_inquiry_byMerging (depth : Nat) : ∀ xs : List Value,
    ∃ q : Inquiry, q.Of xs ∧ q.Conducts fun compare => byMerging compare depth xs := by
  induction depth with
  | zero => exact fun xs => ⟨.sorted xs, .refl xs, .pure xs⟩
  | succ depth ih =>
      intro xs
      by_cases hshort : xs.length ≤ 1
      · refine ⟨.sorted xs, .refl xs, ?_⟩
        simp only [byMerging, if_pos hshort]
        exact .pure xs
      · obtain ⟨first, hfirst, hfirsts⟩ := ih (xs.take (xs.length / 2))
        obtain ⟨second, hsecond, hseconds⟩ := ih (xs.drop (xs.length / 2))
        choose third hthird hthirds using fun left right => exists_inquiry_merge left 0 [] right
        refine ⟨first.bind fun left => second.bind (third left), ?_, ?_⟩
        · refine hfirst.bind (List.take_subset _ _) fun left hleft => ?_
          refine hsecond.bind (List.drop_subset _ _) fun right hright => ?_
          refine (hthird left right).perm ?_
          have hboth := hleft.append hright
          rwa [List.take_append_drop] at hboth
        · simp only [byMerging, if_neg hshort]
          exact .bind hfirsts fun left => .bind hseconds (hthirds left)

end Sorting

namespace Body

open Sorting

/-- A sort by a comparison of the caller's.  Where the comparison always answers as an order does,
the elements come out in that order, equal ones as they stood, and there is no other list of them of
which this is true.  Whatever the comparison is, the elements alone tell which pairs are asked after
which answers.  An answer comes of answered calls that lead to its elements, an error is that of the
first call that failed, with nothing done after it, or else the memory has run out. -/
theorem sortBy_stable_or_first_failure {b : Body} (hfits : b.Fits False) :
    (∀ compare ord I a, Consistent ord (fun v => v ∈ b.toList) →
      Follows compare ord (fun v => v ∈ b.toList) I (fun _ _ => False) → I a →
      Ends (b.sortBy compare) a
        (fun sorted c => (∃ ys, sorted.New ys ∧
          StablySorts ord (fun v => v ∈ b.toList) b.toList ys ∧
          ∀ zs, StablySorts ord (fun v => v ∈ b.toList) b.toList zs → zs = ys) ∧ I c)
        fun f _ => f.Fatal ∧ ¬Element.object.allocatable b.size) ∧
    ∃ inquiry : Inquiry, inquiry.Of b.toList ∧ ∀ compare a,
      Ends (b.sortBy compare) a
        (fun sorted c => ∃ ys, inquiry.Reaches compare a (.sorted ys) c ∧ sorted.New ys)
        fun f c => inquiry.FirstFailure compare a f c ∨
          f.Fatal ∧ ¬Element.object.allocatable b.size := by
  constructor
  · intro compare ord I a hord hfollows hI
    refine (ends_sortBy_ordered hfits hfollows hord hI).mono ?_ ?_
    · rintro sorted c ⟨⟨ys, hnew, hys⟩, hc⟩
      exact ⟨⟨ys, hnew, hys, fun zs hzs => hzs.unique hord (fun _ hv => hv) hys⟩, hc⟩
    · exact fun f c hf => hf.resolve_left fun hfailed => hfailed.1
  · obtain ⟨inquiry, hof, hconducts⟩ := exists_inquiry_byMerging b.size b.toList
    refine ⟨inquiry, hof, fun compare a => ?_⟩
    have hasked {r : Inquiry} {f : Fault} {c : Arena}
        (h : r.FirstFailure compare a.withSettings f c) : r.FirstFailure compare a f c :=
      Inquiry.Reaches.failure (.booked (.withSettings a) (.here _ _)) h
    refine (ends_sortBy_of_merging b (P := fun ys c => inquiry.Reaches compare a (.sorted ys) c)
      ((hconducts compare a.withSettings).mono ?_ fun f c hf => .inl (hasked hf)) ?_ ?_).weaken ?_
    · intro ys c hys
      exact ⟨hys.of hof, .booked (.withSettings a) hys⟩
    · exact fun hys hbooked => hys.trans (.booked hbooked (.here _ _))
    · exact fun hfull f c hf => .inr ⟨hf, length_toList hfits ▸ hfull⟩
    · rintro sorted c ⟨ys, hnew, -, hys⟩
      exact ⟨ys, hys, hnew⟩

/-- Even numbers before odd ones, and a comparison that finds a nil. -/
theorem sortBy_stable_or_first_failure_parity :
    let numbers : Body := { store := .owned (.int #[3, 2, 1, 4]), size := 4 }
    let others : Body := { store := .owned (.object #[.int 2, .nil, .int 1]), size := 3 }
    let parity (v : Value) : Nat := match v with
      | .int i => i.toInt.toNat % 2
      | _ => 2
    let byParity : Comparison := fun x y => return Ord.compare (parity x) (parity y)
    let a : Arena := {}
    (∃ sorted c, numbers.sortBy byParity a = .ok sorted c ∧
      sorted.toList = [.int 2, .int 4, .int 3, .int 1]) ∧
    ∃ (inquiry : Inquiry) (f : Fault) (c : Arena), inquiry.Of others.toList ∧
      others.sortBy Action.compare a = .error f c ∧
      inquiry.FirstFailure Action.compare a f c := by
  intro numbers others parity byParity a
  have hnumbers : numbers.Fits False := .intro_full rfl trivial
  have hothers : others.Fits False := .intro_full rfl trivial
  obtain ⟨hsorted, -⟩ := sortBy_stable_or_first_failure hnumbers
  obtain ⟨-, inquiry, hof, hconducted⟩ := sortBy_stable_or_first_failure hothers
  let ord : Order := fun x y => some (Ord.compare (parity x) (parity y))
  have hord : Consistent ord (fun v => v ∈ numbers.toList) := by decide +kernel
  have hfollows : Follows byParity ord (fun v => v ∈ numbers.toList) a.Booked (fun _ _ => False) :=
    ⟨fun _ _ hI => ⟨rfl, hI⟩, Arena.Booked.trans⟩
  constructor
  · obtain ⟨sorted, c, hrun, ⟨ys, hnew, hys, hunique⟩, -⟩ :=
      (hsorted byParity ord a.Booked a hord hfollows (.refl a)).exists_ok
        fun _ _ hf => hf.2 (by decide)
    refine ⟨sorted, c, hrun, ?_⟩
    rw [hnew.shows.toList]
    exact (hunique _ ⟨⟨by decide +kernel, by decide +kernel⟩, by decide +kernel⟩).symm
  · have herror : (match others.sortBy Action.compare a with
        | .ok _ _ => false
        | .error _ _ => true) = true := by decide +kernel
    cases hrun : others.sortBy Action.compare a with
    | ok sorted c => simp [hrun] at herror
    | error f c =>
        have hfailed := (hconducted Action.compare a).of_error hrun
        exact ⟨inquiry, f, c, hof, rfl, hfailed.resolve_right fun hfull => hfull.2 (by decide)⟩

end Body

end AdaptiveArray
