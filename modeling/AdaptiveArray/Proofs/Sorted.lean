import AdaptiveArray.Proofs.Deciding
import AdaptiveArray.Proofs.Numbers
import AdaptiveArray.Proofs.Replacing

/-!
# Sorted arrays

Whichever way an array is sorted, it ends in order or fails for a pair of elements that
are not comparable.  The ways of larger arrays are stable, so unboxed numbers come out
the same by their natural order and by comparison.
-/

namespace AdaptiveArray

theorem Traversal.orderNested_of_readable {a b : Arena} (h : b.readable? = a.readable?)
    (depth : Nat) : orderNested b depth = orderNested a depth := by
  induction depth with
  | zero => rfl
  | succ depth ih =>
      funext x y
      rw [orderNested, orderNested, h, ih]

theorem Arena.order_of_readable {a b : Arena} (hsize : b.objects.size = a.objects.size)
    (h : b.readable? = a.readable?) : b.order = a.order := by
  funext x y
  rw [Arena.order, Arena.order, depth, depth, hsize, Traversal.orderNested_of_readable h]

theorem Arena.order_of_objects {a b : Arena} (h : b.objects = a.objects) : b.order = a.order :=
  order_of_readable (congrArg Array.size h) (readable?_of_objects h)

def Fault.Refusal (f : Fault) : Prop :=
  ∃ e, f = .raised e ∧ e.family = .argument

def Arena.Refused (a : Arena) (f : Fault) (b : Arena) : Prop :=
  a.Booked b ∧ f.Refusal

theorem Action.follows_compare (a : Arena) (S : Value → Prop) :
    Sorting.Follows compare a.order S a.Booked a.Refused where
  compare := by
    intro x y c _ _ hbooked
    unfold Action.compare
    rw [ends_bind, ends_get, ← Arena.order_of_objects hbooked.objects]
    cases c.order x y with
    | none => exact ⟨⟨hbooked, _, rfl, rfl⟩, rfl⟩
    | some o => exact ⟨rfl, hbooked⟩
  booked := Arena.Booked.trans

namespace Body

open Sorting

variable {strict : Prop} {b : Body} {a : Arena}

theorem ends_sortBy_ordered {compare : Comparison} {ord : Order} {I : Arena → Prop}
    {early : Fault → Arena → Prop} (hfits : b.Fits strict)
    (h : Follows compare ord (fun v => v ∈ b.toList) I early)
    (hord : Consistent ord fun v => v ∈ b.toList) (hI : I a) :
    Ends (b.sortBy compare) a
      (fun sorted c => (∃ ys, sorted.New ys ∧
        StablySorts ord (fun v => v ∈ b.toList) b.toList ys) ∧ I c)
      fun f c => early f c ∧ ¬b.toList.Pairwise (Comparable ord) ∨
        f.Fatal ∧ ¬Element.object.allocatable b.size := by
  have hlen := length_toList hfits
  have hmerge := ends_byMerging_ordered h hord b.size b.toList (Nat.le_of_eq hlen) (fun _ hv => hv)
    (h.booked hI (Arena.Booked.withSettings a))
  refine (ends_sortBy_of_merging b
    (P := fun ys c => StablySorts ord (fun v => v ∈ b.toList) b.toList ys ∧ I c)
    (hmerge.mono ?_ fun _ _ hf => .inl hf) (fun h' hbooked => h'.imp_right (h.booked · hbooked))
    ?_).weaken ?_
  · exact fun ys c hys => ⟨hys.1.perm, hys⟩
  · exact fun hfull f c hf => .inr ⟨hf, hlen ▸ hfull⟩
  · rintro sorted c ⟨ys, hnew, -, hys, hc⟩
    exact ⟨⟨ys, hnew, hys⟩, hc⟩

theorem ends_sortSmall_ordered (hfits : b.Fits strict) (hsize : b.size ≠ 0)
    (hroom : Element.object.allocatable b.size)
    (hord : Consistent a.order fun v => v ∈ b.toList) {a₀ : Arena} (h₀ : a.Booked a₀) :
    Ends b.sortSmall a₀
      (fun sorted c => ∃ ys, sorted.New ys ∧ Sorts a.order b.toList ys ∧ a.Booked c)
      fun f c => a.Refused f c ∧ ¬b.toList.Pairwise (Comparable a.order) := by
  have hselect {a₁ : Arena} (h₁ : a₀.Booked a₁) := ends_bySelection_ordered
    (Action.follows_compare a fun v => v ∈ b.toList) hord b.size b.toList
    (Nat.le_of_eq (length_toList hfits)) (fun _ hv => hv) (h₀.trans h₁)
  refine (ends_sortSmall_of_selection hfits hsize (fun hfull => absurd hroom hfull)
    fun h₁ => (hselect h₁).weaken fun ys c hys => ⟨hys.1.perm, hys⟩).weaken ?_
  rintro sorted c ⟨ys, hnew, -, hys⟩
  exact ⟨ys, hnew, hys⟩

theorem ends_sortNumbers_ordered (hfits : b.Fits strict) (hsize : b.size ≠ 0)
    (hroom : Element.object.allocatable b.size) (hkind : b.kind.isPrimitive)
    (hnan : b.hasNaN = false) {a₀ : Arena} (h₀ : a.Booked a₀) {early : Fault → Arena → Prop} :
    Ends b.sortNumbers a₀ (fun sorted c => (∃ ys, sorted.New ys ∧
      StablySorts byRank (fun v => v ∈ b.toList) b.toList ys) ∧ a.Booked c) early := by
  have hranks : ∀ v ∈ b.toList, v.rank? ≠ none := by
    intro v hv hrank
    have htrue := (hasNaN_iff hkind).mpr ⟨v, hv, hrank⟩
    rw [hnan] at htrue
    cases htrue
  unfold sortNumbers
  refine Ends.bind (ends_copyForSort hfits hsize fun hfull => absurd hroom hfull) ?_
  rintro copy a₁ ⟨hbooked, hcopy⟩
  have hvalues := hcopy.toList_values hfits
  have hnumbers : copy.buffer.element ≠ .object := by
    refine Store.element_ne_object ?_
    rwa [hcopy.kind, Kind.isPrimitive_forCopy]
  obtain ⟨numbers, hsort, hsorted⟩ := Buffer.sort?_ranked hnumbers (hvalues ▸ hranks)
  rw [hcopy.size_buffer] at hsort
  obtain ⟨sorted, harray, hnew⟩ := hcopy.sorted hsort
  rw [hsort, ends_bind, Action.ends_demand_some, harray]
  rw [hsorted, hvalues] at hnew
  exact ⟨⟨_, hnew, stablySorts_ranked hranks⟩, h₀.trans hbooked⟩

/-- Unboxed numbers beyond the small sizes: whichever way is taken, the sort is stable. -/
theorem ends_sort_stable (hfits : b.Fits strict) (hroom : Element.object.allocatable b.size)
    (hkind : b.kind.isPrimitive) (hlarge : a.settings.smallSize < b.size) :
    Ends b.sort a
      (fun sorted c => (∃ ys, sorted.New ys ∧
        StablySorts byRank (fun v => v ∈ b.toList) b.toList ys) ∧ a.Booked c)
      fun f c => a.Refused f c ∧ ¬b.toList.Pairwise (Comparable byRank) := by
  have hfollows : Follows Action.compare byRank (fun v => v ∈ b.toList) a.Booked a.Refused := by
    refine ⟨fun hx hy hI => ?_, Arena.Booked.trans⟩
    rw [← Arena.order_of_uniform (uniform_of_isPrimitive hkind) a hx hy]
    exact (Action.follows_compare a fun v => v ∈ b.toList).compare hx hy hI
  unfold sort
  rw [if_neg (by omega), ends_bind, Action.ends_options, if_neg (by omega), ends_bind, ends_get]
  split
  case isTrue hfast =>
      simp only [Bool.and_eq_true, Bool.not_eq_true'] at hfast
      exact ends_sortNumbers_ordered hfits (by omega) hroom hkind hfast.2 (.withSettings a)
  case isFalse =>
      exact (ends_sortBy_ordered hfits hfollows (consistent_byRank.mono fun _ _ => trivial)
        (Arena.Booked.withSettings a)).mono_early
          fun _ _ hf => hf.resolve_right fun hfull => hfull.2 hroom

theorem ends_sort_ordered (hfits : b.Fits strict) (hroom : Element.object.allocatable b.size)
    (hord : Consistent a.order fun v => v ∈ b.toList) :
    Ends b.sort a
      (fun sorted c => ∃ ys, sorted.New ys ∧ Sorts a.order b.toList ys ∧ a.Booked c)
      fun f c => a.Refused f c ∧ ¬b.toList.Pairwise (Comparable a.order) := by
  by_cases hsize : b.size = 0
  · unfold sort
    rw [if_pos hsize, toList_of_size_eq_zero hfits hsize]
    exact ⟨[], new_empty, ⟨.refl [], .nil⟩, .refl a⟩
  unfold sort
  rw [if_neg hsize, ends_bind, Action.ends_options]
  split
  case isTrue => exact ends_sortSmall_ordered hfits hsize hroom hord (.withSettings a)
  case isFalse =>
      rw [ends_bind, ends_get]
      split
      case isTrue hfast =>
          simp only [Bool.and_eq_true, Bool.not_eq_true'] at hfast
          refine (ends_sortNumbers_ordered hfits hsize hroom hfast.1.1 hfast.2
            (.withSettings a)).weaken ?_
          rintro sorted c ⟨⟨ys, hnew, hys⟩, hbooked⟩
          refine ⟨ys, hnew, hys.toSorts.congr fun x hx y hy => ?_, hbooked⟩
          exact a.order_of_uniform (uniform_of_isPrimitive hfast.1.1) hx hy
      case isFalse =>
          refine (ends_sortBy_ordered hfits (Action.follows_compare a _) hord
            (Arena.Booked.withSettings a)).mono ?_
              fun _ _ hf => hf.resolve_right fun hfull => hfull.2 hroom
          rintro sorted c ⟨⟨ys, hnew, hys⟩, hbooked⟩
          exact ⟨ys, hnew, hys.toSorts, hbooked⟩

theorem sort_cases (hfits : b.Fits strict) (hroom : Element.object.allocatable b.size)
    (hord : Consistent a.order fun v => v ∈ b.toList) :
    (b.toList.Pairwise (Comparable a.order) → ∃ sorted c, b.sort a = .ok sorted c ∧
      a.Booked c ∧ sorted.New sorted.toList ∧ Sorts a.order b.toList sorted.toList) ∧
    (¬b.toList.Pairwise (Comparable a.order) → ∃ e c, b.sort a = .error (.raised e) c ∧
      a.Booked c ∧ e.family = .argument) := by
  have hsort := ends_sort_ordered hfits hroom hord
  constructor
  · intro hpairs
    obtain ⟨sorted, c, hrun, ys, hnew, hys, hbooked⟩ :=
      hsort.exists_ok fun f c hf => hf.2 hpairs
    rw [← hnew.shows.toList] at hys hnew
    exact ⟨sorted, c, hrun, hbooked, hnew, hys⟩
  · intro hpairs
    obtain ⟨f, c, hrun, ⟨hbooked, e, rfl, he⟩, -⟩ := hsort.exists_error fun sorted c => by
      rintro ⟨ys, -, hys, -⟩
      exact hpairs (hys.comparable hord fun _ hv => hv)
    exact ⟨e, c, hrun, hbooked, he⟩

/-- Numbers that are not boxed, beyond the small sizes, come out the same whatever the options are
and whether or not they may be sorted by their natural order: with a NaN among several the sort
fails, and otherwise the elements are the same one by one. -/
theorem sort_paths_agree {strict : Prop} {b : Body} (hfits : b.Fits strict)
    (hkind : b.kind.isPrimitive) (hroom : Element.object.allocatable b.size) {a c : Arena}
    (ha : a.settings.smallSize < b.size) (hc : c.settings.smallSize < b.size) :
    (b.hasNaN ∧ 2 ≤ b.size →
      (∃ e a', b.sort a = .error (.raised e) a' ∧ e.family = .argument) ∧
      ∃ e c', b.sort c = .error (.raised e) c' ∧ e.family = .argument) ∧
    (¬(b.hasNaN ∧ 2 ≤ b.size) → ∃ x a' y c', b.sort a = .ok x a' ∧ b.sort c = .ok y c' ∧
      x.toList = y.toList ∧ x.toList.Perm b.toList) := by
  have hfast := ends_sort_stable hfits hroom hkind ha
  have hslow := ends_sort_stable hfits hroom hkind hc
  have hpairs := pairwise_comparable_iff hfits hkind
  have hord : Consistent byRank fun v => v ∈ b.toList := consistent_byRank.mono fun _ _ => trivial
  constructor
  · intro hnan
    have hrefuses {d : Arena} (h : Ends b.sort d
        (fun sorted c => (∃ ys, sorted.New ys ∧
          StablySorts byRank (fun v => v ∈ b.toList) b.toList ys) ∧ d.Booked c)
        fun f c => d.Refused f c ∧ ¬b.toList.Pairwise (Comparable byRank)) :
        ∃ e d', b.sort d = .error (.raised e) d' ∧ e.family = .argument := by
      obtain ⟨f, d', hrun, ⟨-, e, rfl, he⟩, -⟩ := h.exists_error fun sorted d' => by
        rintro ⟨⟨ys, -, hys⟩, -⟩
        exact hpairs.mp (hys.toSorts.comparable hord fun _ hv => hv) hnan
      exact ⟨e, d', hrun, he⟩
    exact ⟨hrefuses hfast, hrefuses hslow⟩
  · intro hnan
    have hcomparable := hpairs.mpr hnan
    obtain ⟨x, a', hrun, ⟨xs, hx, hxs⟩, -⟩ := hfast.exists_ok fun f _ hf => hf.2 hcomparable
    obtain ⟨y, c', hrun', ⟨ys, hy, hys⟩, -⟩ := hslow.exists_ok fun f _ hf => hf.2 hcomparable
    refine ⟨x, a', y, c', hrun, hrun', ?_, ?_⟩
    · rw [hx.shows.toList, hy.shows.toList]
      exact hxs.unique hord (fun _ hv => hv) hys
    · rw [hx.shows.toList]
      exact hxs.perm

/-- Zeros of both signs, one half and one, as a view: they are sorted by comparison and by natural
order.  With a NaN neither works. -/
theorem sort_paths_agree_zeros :
    let window : View := ⟨⟨0, .double #[⟨0x3ff0000000000000⟩, ⟨0⟩, ⟨0x8000000000000000⟩,
      ⟨0x3fe0000000000000⟩, ⟨0⟩]⟩, 0, 5⟩
    let zeros : Body := { store := .view window, size := 5 }
    let holed : Body := { store := .owned (.double #[⟨0⟩, ⟨0⟩, ⟨0⟩, .nan]), size := 4 }
    let genuine : Arena := {}
    let redefined : Arena := { redefined := [.intOrder] }
    genuine.numericSortAllowed = true ∧ redefined.numericSortAllowed = false ∧
    (∃ x a' y c', zeros.sort genuine = .ok x a' ∧ zeros.sort redefined = .ok y c' ∧
      x.toList = y.toList ∧ x.toList.Perm zeros.toList) ∧
    (∃ e a', holed.sort genuine = .error (.raised e) a' ∧ e.family = .argument) ∧
    ∃ e c', holed.sort redefined = .error (.raised e) c' ∧ e.family = .argument := by
  intro window zeros holed genuine redefined
  have hzeros : zeros.Fits False := .intro_view (by decide) (by change 0 + 5 ≤ 5; decide) rfl
  have hholed : holed.Fits False := ⟨by decide, trivial, nofun⟩
  have hsorted := (sort_paths_agree hzeros rfl rfl (a := genuine) (c := redefined) (by decide)
    (by decide)).2 (by decide +kernel)
  have hrefused := (sort_paths_agree hholed rfl rfl (a := genuine) (c := redefined) (by decide)
    (by decide)).1 (by decide +kernel)
  exact ⟨by decide, by decide, hsorted, hrefused⟩

end Body

namespace Edit

variable {w : Workspace}

theorem ends_replace_of_open {b : Body} (hopen : w.body.frozen = false)
    (hsize : b.size ≤ b.capacity)
    {early : Fault → Workspace → Prop} :
    Ends (replace b) w (fun _ w' => TookOver b w w') early := by
  unfold replace
  rw [ends_bind, ends_checkFrozen, hopen, if_neg Bool.false_ne_true, ends_bind, ends_propagateAll,
    ends_replaceStore hsize]
  simp [TookOver, Workspace.replaced]

theorem ends_sort_of_ok {sorted : Body} {a : Arena} (hopen : w.body.frozen = false)
    (hrun : w.body.sort w.arena = .ok sorted a) (hsize : sorted.size ≤ sorted.capacity)
    {early : Fault → Workspace → Prop} :
    Ends sort w (fun _ w' => TookOver sorted w w') early := by
  unfold sort
  rw [ends_bind, ends_checkFrozen, hopen, if_neg Bool.false_ne_true, ends_bind, ends_get, ends_bind,
    ends_lift, Ends, hrun]
  exact ends_replace_of_open (w := w.withArena a) hopen hsize

theorem ends_sort_of_error {f : Fault} {a : Arena} (hopen : w.body.frozen = false)
    (hrun : w.body.sort w.arena = .error f a) {post : Unit → Workspace → Prop} :
    Ends sort w post fun f' w' => f' = f ∧ w'.body = w.body := by
  unfold sort
  rw [ends_bind, ends_checkFrozen, hopen, if_neg Bool.false_ne_true, ends_bind, ends_get, ends_bind,
    ends_lift, Ends, hrun]
  exact ⟨rfl, rfl⟩

/-- Sorting is correct whichever way is taken, if `<=>` is antisymmetric on the elements and being
at most is transitive.  It answers exactly if all pairs are comparable, then with the elements in
order, and otherwise it fails with an argument error; the arena keeps all it held.  In place, it
leaves an array that is not frozen with what sorting answers, or else as it was. -/
theorem sort_correct {strict : Prop} {w : Workspace} (hfits : w.body.Fits strict)
    (hroom : Element.object.allocatable w.body.size)
    (hord : Sorting.Consistent w.arena.order fun v => v ∈ w.body.toList) :
    (w.body.toList.Pairwise (Sorting.Comparable w.arena.order) →
      ∃ sorted a, w.body.sort w.arena = .ok sorted a ∧ w.arena.Booked a ∧
        Sorting.Sorts w.arena.order w.body.toList sorted.toList ∧
        (w.body.frozen = false →
          ∃ w', sort w = .ok () w' ∧ w'.body.toList = sorted.toList)) ∧
    (¬w.body.toList.Pairwise (Sorting.Comparable w.arena.order) →
      ∃ e a, w.body.sort w.arena = .error (.raised e) a ∧ w.arena.Booked a ∧
        e.family = .argument ∧
        (w.body.frozen = false → ∃ w', sort w = .error (.raised e) w' ∧ w'.body = w.body)) ∧
    (w.body.frozen → sort w = .error (.raised (.frozen (w.arena.inspectBody w.body))) w) := by
  obtain ⟨hcomparable, hincomparable⟩ := Body.sort_cases hfits hroom hord
  refine ⟨?_, ?_, ?_⟩
  · intro hpairs
    obtain ⟨sorted, a, hrun, hbooked, hnew, hsorts⟩ := hcomparable hpairs
    refine ⟨sorted, a, hrun, hbooked, hsorts, fun hopen => ?_⟩
    obtain ⟨_, w', hrun', htook⟩ := (ends_sort_of_ok hopen hrun hnew.shows.fits.size_le).exists_ok
      (fun _ _ => id)
    exact ⟨w', hrun', (htook.shows hnew.shows).toList⟩
  · intro hpairs
    obtain ⟨e, a, hrun, hbooked, he⟩ := hincomparable hpairs
    refine ⟨e, a, hrun, hbooked, he, fun hopen => ?_⟩
    obtain ⟨f, w', hrun', rfl, hbody⟩ := (ends_sort_of_error hopen hrun).exists_error
      (fun _ _ => id)
    exact ⟨w', hrun', hbody⟩
  · intro hfrozen
    exact run_bind_of_error (checkFrozen_eq hfrozen)

/-- An integer and a float are put in order, an integer and nil are not comparable, and frozen
arrays stay as they are. -/
theorem sort_correct_mixed :
    let numbers : Body :=
      { store := .owned (.object #[.int 2, .float ⟨0x3ff8000000000000⟩]), size := 2 }
    let others : Body := { store := .owned (.object #[.int 2, .nil]), size := 2 }
    let sealed : Body := { others with frozen := true }
    let a : Arena := {}
    (∃ sorted c, numbers.sort a = .ok sorted c ∧ a.Booked c ∧
      Sorting.Sorts a.order numbers.toList sorted.toList ∧
      ∃ w', sort ⟨0, numbers, a⟩ = .ok () w' ∧ w'.body.toList = sorted.toList) ∧
    (∃ e c, others.sort a = .error (.raised e) c ∧ a.Booked c ∧ e.family = .argument ∧
      ∃ w', sort ⟨0, others, a⟩ = .error (.raised e) w' ∧ w'.body = others) ∧
    sort ⟨0, sealed, a⟩ = .error (.raised (.frozen (a.inspectBody sealed))) ⟨0, sealed, a⟩ := by
  intro numbers others sealed a
  have hfits {store : Store} {frozen : Bool} (h : store.Fits) (hcap : 2 = store.capacity) :
      ({ store, size := 2, frozen } : Body).Fits False := .intro_full hcap h
  have hnumbers := sort_correct (w := ⟨0, numbers, a⟩) (hfits trivial rfl) rfl (by decide +kernel)
  have hothers := sort_correct (w := ⟨0, others, a⟩) (hfits trivial rfl) rfl (by decide +kernel)
  have hsealed := sort_correct (w := ⟨0, sealed, a⟩) (hfits trivial rfl) rfl (by decide +kernel)
  obtain ⟨sorted, c, hrun, hbooked, hsorts, hplace⟩ := hnumbers.1 (by decide +kernel)
  obtain ⟨e, c', hrun', hbooked', hfamily, hplace'⟩ := hothers.2.1 (by decide +kernel)
  exact ⟨⟨sorted, c, hrun, hbooked, hsorts, hplace rfl⟩,
    ⟨e, c', hrun', hbooked', hfamily, hplace' rfl⟩, hsealed.2.2 rfl⟩

end Edit

end AdaptiveArray
