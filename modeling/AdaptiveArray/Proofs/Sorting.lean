import AdaptiveArray.Proofs.Building
import AdaptiveArray.Proofs.Ordering

/-!
# Sorted copies

Sorting permutes the elements, and the copy is a new array.
-/

namespace AdaptiveArray

namespace Buffer

theorem insertFloat_perm (x : Binary64) (xs : List Binary64) :
    (insertFloat x xs).Perm (x :: xs) := by
  induction xs with
  | nil => exact .refl _
  | cons y ys ih =>
      unfold insertFloat
      split
      · exact (ih.cons y).trans (.swap _ _ _)
      · exact .refl _

theorem orderedFloats_perm (xs : List Binary64) : (orderedFloats xs).Perm xs := by
  have hfold (ys : List Binary64) :
      (xs.foldl (fun before x => insertFloat x before) ys).Perm (xs ++ ys) := by
    induction xs generalizing ys with
    | nil => exact .refl _
    | cons x xs ih => exact (ih _).trans ((insertFloat_perm x ys).append_left xs |>.trans
        List.perm_middle)
  unfold orderedFloats
  split
  · refine (List.reverse_perm _).trans ((hfold []).trans ?_)
    rw [List.append_nil]
  · exact List.mergeSort_perm _ _

theorem overwrite_all {α : Type} {xs : Array α} {ys : List α} (h : ys.length = xs.size) :
    Span.overwrite xs 0 ys.toArray = ys.toArray := by
  apply Array.ext_getElem?
  intro i
  rw [Span.getElem?_overwrite, List.size_toArray, h, Nat.zero_add, Nat.sub_zero]
  by_cases hi : i < xs.size
  · rw [if_pos ⟨Nat.zero_le i, hi, hi⟩]
  · rw [if_neg (by omega), Array.getElem?_eq_none (by omega),
      Array.getElem?_eq_none (by rw [List.size_toArray]; omega)]

theorem take_toList {α : Type} (xs : Array α) : xs.toList.take xs.size = xs.toList := by
  rw [← Array.length_toList, List.take_length]

theorem sort?_spec {b c : Buffer} {n : Nat} (h : b.sort? n = some c) (hn : n = b.size) :
    c.element = b.element ∧ c.size = b.size ∧ c.values.toList.Perm b.values.toList := by
  subst hn
  have hsorted : ∀ {α : Type} (xs : Array α) (ys : List α) (f : α → Value), ys.Perm xs.toList →
      (Span.overwrite xs 0 ys.toArray).size = xs.size ∧
        ((Span.overwrite xs 0 ys.toArray).map f).toList.Perm (xs.map f).toList := by
    intro α xs ys f hperm
    have hsize : ys.length = xs.size := by rw [hperm.length_eq, Array.length_toList]
    rw [overwrite_all hsize, Array.toList_map, Array.toList_map]
    exact ⟨hsize, hperm.map f⟩
  cases b with
  | int xs =>
      obtain rfl := Option.some.inj h
      simp only [size, take_toList]
      exact ⟨rfl, hsorted xs _ _ (List.mergeSort_perm _ _)⟩
  | long xs =>
      obtain rfl := Option.some.inj h
      simp only [size, take_toList]
      exact ⟨rfl, hsorted xs _ _ (List.mergeSort_perm _ _)⟩
  | double xs =>
      obtain rfl := Option.some.inj h
      simp only [size, take_toList]
      exact ⟨rfl, hsorted xs _ _ (orderedFloats_perm _)⟩
  | object xs => cases h

end Buffer

namespace Body

theorem foldl_set_written {s : Store} {vs : List Value} (hmut : s.isMutable)
    (hholds : ∀ v ∈ vs, s.kind.holds v) : ∀ {start : Nat}, start + vs.length ≤ s.capacity →
    ((vs.zipIdx start).foldl (fun s (v, i) => s.set i v) s).Written s start vs := by
  induction vs generalizing s with
  | nil => exact fun _ => Store.written_nil s _
  | cons v vs ih =>
      intro start hlen
      rw [List.length_cons] at hlen
      rw [List.zipIdx_cons, List.foldl_cons]
      have hadmits : s.admits start v :=
        Store.admits_of_holds hmut (hholds v List.mem_cons_self) (by omega)
      refine Store.Written.cons hadmits (ih ?_ ?_ ?_)
      · exact Store.isMutable_of_kind (Store.kind_set s start v) hmut
      · intro x hx
        rw [Store.kind_set]
        exact hholds x (List.mem_cons_of_mem v hx)
      · rw [Store.capacity_set]
        omega

theorem new_of_full {s : Store} {vs : List Value} (hfits : s.Fits) (hbacking : s.backing? = none)
    (hcapacity : s.capacity = vs.length) (hslot : ∀ i, i < vs.length → s.get? i = vs[i]?) :
    ({ store := s, size := vs.length } : Body).New vs := by
  have hfits' : ({ store := s, size := vs.length } : Body).Fits True :=
    Fits.intro_full hcapacity.symm hfits
  exact ⟨⟨hfits', toList_eq hfits' rfl hslot⟩, hbacking, rfl⟩

variable {b : Body} {a : Arena}

theorem ends_sortBy_of_merging {compare : Sorting.Comparison} {P : List Value → Arena → Prop}
    {early : Fault → Arena → Prop} (b : Body)
    (hmerge : Ends (Sorting.byMerging compare b.size b.toList) a.withSettings
      (fun ys c => ys.Perm b.toList ∧ P ys c) early)
    (hbooked : ∀ {ys : List Value} {c d : Arena}, P ys c → c.Booked d → P ys d)
    (hfatal : ¬Element.object.allocatable b.toList.length → ∀ f c, f.Fatal → early f c) :
    Ends (b.sortBy compare) a
      (fun sorted c => ∃ ys, sorted.New ys ∧ ys.Perm b.toList ∧ P ys c) early := by
  unfold sortBy
  rw [ends_bind, Action.ends_options]
  refine Ends.bind hmerge ?_
  rintro ys a₂ ⟨hperm, hP⟩
  refine (Action.ends_ofValues ys fun hfull a' =>
    hfatal (hperm.length_eq ▸ hfull) _ a' Fault.fatal_outOfMemory).weaken ?_
  rintro sorted c ⟨hbook, hgathered⟩
  exact ⟨ys, hgathered.new, hperm, hbooked hP hbook⟩

theorem ends_sortBy {compare : Sorting.Comparison} {I : Arena → Prop}
    {early : Fault → Arena → Prop} (b : Body)
    (h : Sorting.Carries compare (fun v => v ∈ b.toList) I early)
    (hfatal : ¬Element.object.allocatable b.toList.length → ∀ f c, f.Fatal → early f c)
    (hI : I a) :
    Ends (b.sortBy compare) a
      (fun sorted c => (∃ ys, sorted.New ys ∧ ys.Perm b.toList) ∧ I c) early := by
  have hmerge := Sorting.ends_byMerging h b.size b.toList (fun _ hv => hv)
    (h.booked hI (Arena.Booked.withSettings a))
  refine (ends_sortBy_of_merging (P := fun _ => I) b hmerge h.booked hfatal).weaken ?_
  rintro sorted c ⟨ys, hnew, hperm, hc⟩
  exact ⟨⟨ys, hnew, hperm⟩, hc⟩

structure Copied (b : Body) (copy : Store) : Prop where
  kind : copy.kind = b.kind.forCopy
  isMutable : copy.isMutable
  widens : b.kind.widens copy.kind
  capacity : copy.capacity = b.size
  slot : ∀ i, i < b.size → copy.get? i = b.store.get? i

theorem ends_copyForSort {strict : Prop} {early : Fault → Arena → Prop} (hfits : b.Fits strict)
    (hsize : b.size ≠ 0) (hmemory : ¬Element.object.allocatable b.size → early .outOfMemory a) :
    Ends b.copyForSort a (fun copy c => a.Booked c ∧ b.Copied copy) early := by
  obtain ⟨hmut, hwide⟩ := Kind.forCopy_spec (kind_ne_empty hfits hsize)
  have hne : b.kind.forCopy ≠ .empty := Kind.ne_empty_of_isMutable hmut
  unfold copyForSort
  refine Ends.bind (Action.ends_allocate _ b.size hmemory) ?_
  rintro fresh a₁ ⟨h₁, hblank⟩
  have hfresh := hblank.isMutable hne
  have hkind : fresh.kind = b.kind.forCopy := by
    rw [hblank.kind hne, Kind.forMutation_forCopy]
  refine (Action.ends_copyTo hfits.store (by rw [Nat.zero_add]; exact hfits.size_le) hfresh
    (Nat.le_of_eq (by rw [Nat.zero_add, hblank.capacity])) fun _ => hkind ▸ hwide).weaken ?_
  rintro copy a₂ ⟨h₂, hover⟩
  have hcopyKind : copy.kind = b.kind.forCopy := hover.kind.trans hkind
  refine ⟨h₁.trans h₂, hcopyKind, hover.isMutable hfresh, hcopyKind ▸ hwide,
    hover.capacity.trans hblank.capacity, fun i hi => ?_⟩
  rw [hover.slot, if_pos (by omega), Nat.zero_add, Nat.sub_zero]

theorem Copied.refilled {strict : Prop} {copy : Store} {ys : List Value} (h : b.Copied copy)
    (hfits : b.Fits strict) (hperm : ys.Perm b.toList) :
    ∃ sorted, ofStore? (ys.zipIdx.foldl (fun s (v, i) => s.set i v) copy) b.size = some sorted ∧
      sorted.New ys := by
  have hlen : ys.length = b.size := by rw [hperm.length_eq, length_toList hfits]
  have hwritten := foldl_set_written h.isMutable
    (fun v hv => Kind.holds_of_widens h.isMutable h.widens
      (holds_of_mem hfits (hperm.mem_iff.mp hv)))
    (Nat.le_of_eq (by rw [Nat.zero_add, hlen, h.capacity]))
  have hcapacity := hwritten.capacity.trans h.capacity
  have hmut := Store.isMutable_of_kind hwritten.kind h.isMutable
  refine ⟨_, ofStore?_eq (Nat.le_of_eq hcapacity.symm), ?_⟩
  rw [← hlen]
  refine new_of_full (Store.fits_of_isMutable hmut) (Store.backing?_of_isMutable hmut)
    (hcapacity.trans hlen.symm) fun i hi => ?_
  rw [hwritten.slot, if_pos (by omega), Nat.sub_zero]

theorem ends_sortSmall_of_selection {strict : Prop} {P : List Value → Arena → Prop}
    {early : Fault → Arena → Prop} (hfits : b.Fits strict) (hsize : b.size ≠ 0)
    (hmemory : ¬Element.object.allocatable b.size → early .outOfMemory a)
    (hselect : ∀ {a₁ : Arena}, a.Booked a₁ →
      Ends (Sorting.bySelection Action.compare b.size b.toList)
      a₁ (fun ys c => ys.Perm b.toList ∧ P ys c) early) :
    Ends b.sortSmall a (fun sorted c => ∃ ys, sorted.New ys ∧ ys.Perm b.toList ∧ P ys c) early := by
  unfold sortSmall
  refine Ends.bind (ends_copyForSort hfits hsize hmemory) ?_
  rintro copy a₁ ⟨h₁, hcopy⟩
  refine Ends.bind (hselect h₁) ?_
  rintro ys a₂ ⟨hperm, hP⟩
  obtain ⟨sorted, hsorted, hnew⟩ := hcopy.refilled hfits hperm
  dsimp only
  rw [hsorted]
  exact ⟨ys, hnew, hperm, hP⟩

theorem ends_sortSmall {strict : Prop} (hfits : b.Fits strict) (hsize : b.size ≠ 0) :
    Ends b.sortSmall a (fun sorted _ => ∃ ys, sorted.New ys ∧ ys.Perm b.toList)
      (fun _ _ => True) := by
  refine (ends_sortSmall_of_selection hfits hsize (P := fun _ _ => True) (fun _ => True.intro)
    fun _ => Sorting.ends_bySelection (.trivial Action.compare) _ _
      (fun _ _ => True.intro) True.intro).weaken ?_
  rintro sorted c ⟨ys, hnew, hperm, -⟩
  exact ⟨ys, hnew, hperm⟩

theorem Copied.toList_values {strict : Prop} {copy : Store} (h : b.Copied copy)
    (hfits : b.Fits strict) : copy.buffer.values.toList = b.toList := by
  apply List.ext_getElem?
  intro i
  rw [Array.getElem?_toList, Buffer.getElem?_values, getElem?_toList hfits,
    Store.get?_buffer_of_isMutable h.isMutable]
  by_cases hi : i < b.size
  · rw [if_pos hi, h.slot i hi]
  · rw [if_neg hi, Store.get?_eq_none (by rw [h.capacity]; omega)]

theorem Copied.size_buffer {copy : Store} (h : b.Copied copy) : copy.buffer.size = b.size :=
  (Store.size_buffer_of_isMutable h.isMutable).trans h.capacity

theorem Copied.sorted {copy : Store} {numbers : Buffer} (h : b.Copied copy)
    (hsort : copy.buffer.sort? b.size = some numbers) :
    ∃ sorted, ofStore? (.owned numbers) b.size = some sorted ∧
      sorted.New numbers.values.toList := by
  obtain ⟨-, hsize, -⟩ := Buffer.sort?_spec hsort h.size_buffer.symm
  have hcapacity : numbers.size = b.size := hsize.trans h.size_buffer
  refine ⟨_, ofStore?_eq (Nat.le_of_eq hcapacity.symm), ?_⟩
  have hlen : numbers.values.toList.length = b.size := by
    rw [Array.length_toList, Buffer.size_values, hcapacity]
  rw [← hlen]
  refine new_of_full True.intro rfl (hcapacity.trans hlen.symm) fun i _ => ?_
  rw [Array.getElem?_toList, Buffer.getElem?_values]
  rfl

theorem ends_sortNumbers {strict : Prop} (hfits : b.Fits strict) (hsize : b.size ≠ 0) :
    Ends b.sortNumbers a (fun sorted _ => ∃ ys, sorted.New ys ∧ ys.Perm b.toList)
      (fun _ _ => True) := by
  unfold sortNumbers
  refine Ends.bind (ends_copyForSort hfits hsize fun _ => True.intro) ?_
  rintro copy a₁ ⟨-, hcopy⟩
  cases hsort : copy.buffer.sort? b.size with
  | none => exact True.intro
  | some numbers =>
      obtain ⟨-, -, hperm⟩ := Buffer.sort?_spec hsort hcopy.size_buffer.symm
      obtain ⟨sorted, hsorted, hnew⟩ := hcopy.sorted hsort
      rw [ends_bind, Action.ends_demand_some, hsorted]
      exact ⟨_, hnew, hcopy.toList_values hfits ▸ hperm⟩

theorem ends_sort {strict : Prop} (hfits : b.Fits strict) :
    Ends b.sort a (fun sorted _ => ∃ ys, sorted.New ys ∧ ys.Perm b.toList) (fun _ _ => True) := by
  unfold sort
  split
  case isTrue hsize =>
      refine ⟨[], new_empty, ?_⟩
      rw [toList_of_size_eq_zero hfits hsize]
  case isFalse hsize =>
      refine Ends.bind (Ends.trivial _ a) fun o a₁ _ => ?_
      split
      · exact ends_sortSmall hfits hsize
      · rw [ends_bind, ends_get]
        split
        · exact ends_sortNumbers hfits hsize
        · refine (ends_sortBy b ⟨fun _ _ _ => Ends.trivial _ _, fun _ _ => True.intro⟩
            (fun _ _ _ _ => True.intro) (I := fun _ => True) True.intro).weaken ?_
          exact fun _ _ hsorted => hsorted.1

end Body

end AdaptiveArray
