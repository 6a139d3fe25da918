import Mathlib.Data.Finset.Card
import AdaptiveArray.Proofs.Marking

/-!
# The share walk

The walk keeps a list of arrays that were marked and not looked into yet.  Whatever is
marked and not on the list holds marked arrays only, or is locked and has its walk put
off.  An array is put on the list when it is marked and never again, so the steps that
the walk is given are enough for the list to run empty.
-/

namespace AdaptiveArray

namespace Arena

def Knows (a : Arena) (v : Value) : Prop :=
  ∀ id, v.arrayId? = some id → (a.object? id).isSome

/-- If the object is shared, so is every array it holds, or else its lock is held and a walk of its
elements is put off until it is released. -/
def Closed (a : Arena) (o : ArrayObject) : Prop :=
  o.shared → ∀ id, .array id ∈ o.body.toList → a.isShared id ∨ o.lock ≠ .free ∧ o.sharePending

theorem isShared_of_object? {a : Arena} {id : ArrayId} {o : ArrayObject}
    (h : a.object? id = some o) :
    a.isShared id = o.shared := by
  rw [isShared, h]
  rfl

theorem exists_of_isShared {a : Arena} {id : ArrayId} (h : a.isShared id) :
    ∃ o, a.object? id = some o ∧ o.shared := by
  unfold isShared at h
  cases ho : a.object? id with
  | none => simp [ho] at h
  | some o => exact ⟨o, rfl, by simpa [ho] using h⟩

namespace Remarked

variable {a b : Arena}

theorem isShared (h : a.Remarked b) {id : ArrayId} (hid : a.isShared id) : b.isShared id := by
  obtain ⟨o, ho, hshared⟩ := exists_of_isShared hid
  obtain ⟨o', ho', hm⟩ := h.some id o ho
  rw [isShared_of_object? ho']
  exact hm.shared hshared

theorem isSome (h : a.Remarked b) {id : ArrayId} (hid : (a.object? id).isSome) :
    (b.object? id).isSome := by
  obtain ⟨o, ho⟩ := Option.isSome_iff_exists.mp hid
  obtain ⟨o', ho', -⟩ := h.some id o ho
  rw [ho']
  rfl

theorem knows (h : a.Remarked b) {v : Value} (hv : a.Knows v) : b.Knows v :=
  fun id hid => h.isSome (hv id hid)

theorem origin (h : a.Remarked b) {id : ArrayId} {o' : ArrayObject}
    (ho' : b.object? id = Option.some o') :
    ∃ o, a.object? id = Option.some o ∧ o.Remarked o' := by
  cases ho : a.object? id with
  | none => simp [h.none id ho] at ho'
  | some o =>
      obtain ⟨o'', ho'', hm⟩ := h.some id o ho
      rw [ho'] at ho''
      exact ⟨o, rfl, Option.some.inj ho'' ▸ hm⟩

theorem closed (h : a.Remarked b) {o : ArrayObject} (ho : a.Closed o) : b.Closed o :=
  fun hshared id hid => (ho hshared id hid).imp_left h.isShared

end Remarked

/-! ## Marking one array -/

theorem object?_shareArray (a : Arena) (id j : ArrayId) : (a.shareArray id).1.object? j =
    if j = id then (a.object? j).map fun o => { o with shared := true } else a.object? j := by
  unfold shareArray
  split
  case isTrue hshared =>
      split
      case isTrue heq =>
          subst heq
          obtain ⟨o, ho, hmark⟩ := exists_of_isShared hshared
          rw [ho, Option.map_some, ← hmark]
      case isFalse => rfl
  case isFalse => exact object?_modifyObject _ _ _ _

theorem isShared_shareArray {a : Arena} {id : ArrayId} (h : (a.object? id).isSome) :
    (a.shareArray id).1.isShared id := by
  obtain ⟨o, ho⟩ := Option.isSome_iff_exists.mp h
  rw [isShared, object?_shareArray, if_pos rfl, ho]
  rfl

theorem eq_none_of_shareArray_false {a b : Arena} {id : ArrayId}
    (h : a.shareArray id = (b, false)) :
    a.isShared id ∨ a.object? id = none := by
  unfold shareArray at h
  split at h
  · exact .inl ‹_›
  · exact .inr (by simpa using congrArg Prod.snd h)

theorem object?_of_shareArray_false {a b : Arena} {id : ArrayId} (h : a.shareArray id = (b, false))
    (j : ArrayId) : b.object? j = a.object? j := by
  have hobject := object?_shareArray a id j
  rw [h] at hobject
  rw [hobject]
  split
  case isFalse => rfl
  case isTrue heq =>
      subst heq
      rcases eq_none_of_shareArray_false h with hshared | hnone
      · obtain ⟨o, ho, hmark⟩ := exists_of_isShared hshared
        rw [ho, Option.map_some, ← hmark]
      · rw [hnone]
        rfl

def unmarked (a : Arena) : Finset ArrayId :=
  (Finset.range a.objects.size).filter fun id => (a.object? id).any fun o => !o.shared

theorem mem_unmarked {a : Arena} {id : ArrayId} :
    id ∈ a.unmarked ↔ ∃ o, a.object? id = some o ∧ o.shared = false := by
  unfold unmarked
  rw [Finset.mem_filter, Finset.mem_range, Option.any_eq_true]
  constructor
  · rintro ⟨-, o, ho, hshared⟩
    exact ⟨o, ho, by simpa using hshared⟩
  · rintro ⟨o, ho, hshared⟩
    refine ⟨?_, o, ho, by simpa using hshared⟩
    by_contra hle
    simp [object?, Array.getElem?_eq_none (Nat.le_of_not_lt hle)] at ho

theorem card_unmarked_le (a : Arena) : a.unmarked.card ≤ a.objects.size := by
  have h := Finset.card_filter_le (Finset.range a.objects.size) fun id =>
    (a.object? id).any fun o => !o.shared
  rwa [Finset.card_range] at h

theorem Remarked.unmarked {a b : Arena} (h : a.Remarked b) : b.unmarked ⊆ a.unmarked := by
  intro id hid
  obtain ⟨o', ho', hshared⟩ := mem_unmarked.mp hid
  obtain ⟨o, ho, hm⟩ := h.origin ho'
  refine mem_unmarked.mpr ⟨o, ho, ?_⟩
  by_contra hne
  rw [hm.shared (by simpa using hne)] at hshared
  cases hshared

theorem card_unmarked_shareArray {a b : Arena} {id : ArrayId} (h : a.shareArray id = (b, true)) :
    b.unmarked.card + 1 ≤ a.unmarked.card := by
  have hremarked := Remarked.shareArray a id
  have hobject := object?_shareArray a id id
  have hnew : ¬a.isShared id ∧ (a.object? id).isSome := by
    unfold shareArray at h
    split at h
    · cases h
    · exact ⟨‹_›, by simpa using congrArg Prod.snd h⟩
  rw [h] at hremarked hobject
  refine Finset.card_lt_card ((Finset.ssubset_iff_of_subset hremarked.unmarked).mpr ⟨id, ?_, ?_⟩)
  · obtain ⟨o, ho⟩ := Option.isSome_iff_exists.mp hnew.2
    refine mem_unmarked.mpr ⟨o, ho, ?_⟩
    rw [← isShared_of_object? ho]
    simpa using hnew.1
  · intro hmem
    obtain ⟨o', ho', hshared⟩ := mem_unmarked.mp hmem
    rw [if_pos rfl] at hobject
    rw [hobject] at ho'
    obtain ⟨o, -, rfl⟩ := Option.map_eq_some_iff.mp ho'
    cases hshared

/-! ## Marking what an array holds -/

structure ItemsShared (a : Arena) (pending : List ArrayId) (vs : List Value) (b : Arena)
    (pending' : List ArrayId) : Prop where
  remarked : a.Remarked b
  sub : ∀ id ∈ pending, id ∈ pending'
  object : ∀ id o, a.object? id = some o → ∃ o', b.object? id = some o' ∧
    (o' = o ∨ id ∈ pending' ∧ o' = { o with shared := true })
  reached : ∀ id, .array id ∈ vs → (a.object? id).isSome → b.isShared id
  measure : pending'.length + b.unmarked.card ≤ pending.length + a.unmarked.card

theorem itemsShared_nil (a : Arena) (pending : List ArrayId) :
    ItemsShared a pending [] a pending where
  remarked := .refl a
  sub _ h := h
  object _ o ho := ⟨o, ho, .inl rfl⟩
  reached _ h := nomatch h
  measure := Nat.le_refl _

theorem ItemsShared.cons {a b : Arena} {id : ArrayId} {pending pending₁ pending' : List ArrayId}
    {vs : List Value} (h : ItemsShared (a.shareArray id).1 pending₁ vs b pending')
    (hsub : ∀ j ∈ pending, j ∈ pending₁)
    (hmem : id ∈ pending₁ ∨ a.isShared id ∨ a.object? id = none)
    (hmeasure : pending₁.length + (a.shareArray id).1.unmarked.card ≤
      pending.length + a.unmarked.card) :
    ItemsShared a pending (.array id :: vs) b pending' where
  remarked := (Remarked.shareArray a id).trans h.remarked
  sub j hj := h.sub j (hsub j hj)
  object j o ho := by
    have hobject := object?_shareArray a id j
    rw [ho] at hobject
    by_cases heq : j = id
    · subst heq
      rw [if_pos rfl, Option.map_some] at hobject
      obtain ⟨o', ho', hcase⟩ := h.object j _ hobject
      have ho'' : o' = { o with shared := true } := by
        rcases hcase with rfl | ⟨-, rfl⟩ <;> rfl
      refine ⟨o', ho', ?_⟩
      rcases hmem with hmem | hshared | hnone
      · exact .inr ⟨h.sub j hmem, ho''⟩
      · rw [isShared_of_object? ho] at hshared
        exact .inl (by rw [ho'', ← hshared])
      · simp [hnone] at ho
    · rw [if_neg heq] at hobject
      exact h.object j o hobject
  reached j hj hsome := by
    rcases List.mem_cons.mp hj with heq | hj
    · cases heq
      exact h.remarked.isShared (isShared_shareArray hsome)
    · exact h.reached j hj ((Remarked.shareArray a id).isSome hsome)
  measure := Nat.le_trans h.measure hmeasure

theorem itemsShared_shareItems (a : Arena) (pending : List ArrayId) (vs : List Value) :
    ItemsShared a pending vs (a.shareItems pending vs).1 (a.shareItems pending vs).2 := by
  fun_induction Arena.shareItems a pending vs with
  | case1 a pending => exact itemsShared_nil a pending
  | case2 a pending id rest a' heq ih =>
      have hfst : (a.shareArray id).1 = a' := by rw [heq]
      rw [← hfst] at ih ⊢
      refine ih.cons (fun j hj => List.mem_cons_of_mem id hj) (.inl List.mem_cons_self) ?_
      have hcard := card_unmarked_shareArray heq
      rw [hfst, List.length_cons]
      omega
  | case3 a pending id rest a' heq ih =>
      have hfst : (a.shareArray id).1 = a' := by rw [heq]
      rw [← hfst] at ih ⊢
      refine ih.cons (fun j hj => hj) (.inr (eq_none_of_shareArray_false heq)) ?_
      exact Nat.add_le_add_left (Finset.card_le_card (Remarked.shareArray a id).unmarked) _
  | case4 a pending v rest hv ih =>
      refine { ih with reached := fun id hid => ?_ }
      rcases List.mem_cons.mp hid with heq | hid
      · exact absurd heq.symm (hv id)
      · exact ih.reached id hid

/-! ## The walk -/

/-- A walk stands at the list `pending`; `before` tells what was marked when it began. -/
structure Walking (sharing : Prop) (before : ArrayId → Prop) (pending : List ArrayId) (a : Arena) :
    Prop where
  known : ∀ id o, a.object? id = some o → ∀ v ∈ o.body.toList, a.Knows v
  closed : sharing → ∀ id o, a.object? id = some o → a.Closed o ∨ id ∈ pending
  owed : ∀ id o, a.object? id = some o → o.lock ≠ .free → o.shared →
    before id ∨ o.sharePending ∨ id ∈ pending

variable {sharing : Prop} {before : ArrayId → Prop} {id : ArrayId} {pending : List ArrayId}
  {a : Arena}

theorem known_of_remarked {b : Arena} (h : a.Remarked b)
    (hknown : ∀ id o, a.object? id = some o → ∀ v ∈ o.body.toList, a.Knows v) :
    ∀ id o, b.object? id = some o → ∀ v ∈ o.body.toList, b.Knows v := by
  intro id o' ho' v hv
  obtain ⟨o, ho, hm⟩ := h.origin ho'
  exact h.knows (hknown id o ho v (hm.body ▸ hv))

theorem exists_of_readable? {id : ArrayId} {b : Body} (h : a.readable? id = some b) :
    ∃ o, a.object? id = some o ∧ o.lock = .free ∧ o.body = b := by
  unfold readable? at h
  split at h
  · split at h
    · exact ⟨_, ‹_›, ‹_›, Option.some.inj h⟩
    · cases h
  · cases h

theorem isSome_of_readable {id : ArrayId} (h : (a.readable? id).isSome) :
    (a.object? id).isSome := by
  obtain ⟨b, hb⟩ := Option.isSome_iff_exists.mp h
  obtain ⟨o, ho, -⟩ := exists_of_readable? hb
  rw [ho]
  rfl

theorem Walking.request (h : Walking sharing before (id :: pending) a)
    (hread : a.readable? id = none) : Walking sharing before pending (a.requestShareWalk id) := by
  have hremarked := Remarked.requestShareWalk a id
  have hobject : ∀ j, (a.requestShareWalk id).object? j = if j = id
      then (a.object? j).map fun o => { o with sharePending := true } else a.object? j :=
    object?_modifyObject a id _
  have hlocked : ∀ o, a.object? id = some o → o.lock ≠ .free := by
    intro o ho hfree
    simp [readable?, ho, hfree] at hread
  -- The array taken off the list owes a walk from now on; any other one is as it was.
  refine ⟨known_of_remarked hremarked h.known, fun hsharing j o' ho' => ?_,
    fun j o' ho' hlock hshared => ?_⟩
  · rw [hobject] at ho'
    by_cases heq : j = id
    · subst heq
      rw [if_pos rfl] at ho'
      obtain ⟨o, ho, rfl⟩ := Option.map_eq_some_iff.mp ho'
      exact .inl fun _ _ _ => .inr ⟨hlocked o ho, rfl⟩
    · rw [if_neg heq] at ho'
      refine (h.closed hsharing j o' ho').imp hremarked.closed fun hj => ?_
      exact (List.mem_cons.mp hj).resolve_left heq
  · rw [hobject] at ho'
    by_cases heq : j = id
    · subst heq
      rw [if_pos rfl] at ho'
      obtain ⟨o, ho, rfl⟩ := Option.map_eq_some_iff.mp ho'
      exact .inr (.inl rfl)
    · rw [if_neg heq] at ho'
      exact (h.owed j o' ho' hlock hshared).imp_right fun hj =>
        hj.imp_right fun hj => (List.mem_cons.mp hj).resolve_left heq

theorem Walking.look (h : Walking sharing before (id :: pending) a) {b : Body}
    (hread : a.readable? id = some b) :
    Walking sharing before (a.shareItems pending b.toList).2 (a.shareItems pending b.toList).1 := by
  have hitems := itemsShared_shareItems a pending b.toList
  obtain ⟨o₀, ho₀, hfree, rfl⟩ := exists_of_readable? hread
  refine ⟨known_of_remarked hitems.remarked h.known, fun hsharing j o' ho' => ?_,
    fun j o' ho' hlock hshared => ?_⟩
  · obtain ⟨o, ho, hm⟩ := hitems.remarked.origin ho'
    by_cases heq : j = id
    · subst heq
      rw [ho₀] at ho
      cases ho
      refine .inl fun _ id' hid' => .inl ?_
      rw [hm.body] at hid'
      exact hitems.reached id' hid' (h.known j o₀ ho₀ _ hid' id' rfl)
    · obtain ⟨o'', ho'', hcase⟩ := hitems.object j o ho
      rw [ho'] at ho''
      cases ho''
      rcases hcase with rfl | ⟨hmem, -⟩
      · refine (h.closed hsharing j o' ho).imp hitems.remarked.closed fun hj => ?_
        exact hitems.sub j ((List.mem_cons.mp hj).resolve_left heq)
      · exact .inr hmem
  · obtain ⟨o, ho, hm⟩ := hitems.remarked.origin ho'
    have heq : j ≠ id := by
      rintro rfl
      rw [ho₀] at ho
      cases ho
      exact hlock (hm.lock.trans hfree)
    obtain ⟨o'', ho'', hcase⟩ := hitems.object j o ho
    rw [ho'] at ho''
    cases ho''
    rcases hcase with rfl | ⟨hmem, -⟩
    · refine (h.owed j o' ho hlock hshared).imp_right fun hj => hj.imp_right fun hj => ?_
      exact hitems.sub j ((List.mem_cons.mp hj).resolve_left heq)
    · exact .inr (.inr hmem)

theorem Walking.run (steps : Nat) (hsteps : pending.length + a.unmarked.card ≤ steps)
    (h : Walking sharing before pending a) :
    Walking sharing before [] (shareWalk steps pending a) := by
  fun_induction shareWalk steps pending a with
  | case1 pending a =>
      rwa [List.length_eq_zero_iff.mp (by omega : pending.length = 0)] at h
  | case2 => exact h
  | case3 steps id pending a hread ih =>
      refine ih ?_ (h.request hread)
      have := Finset.card_le_card (Remarked.requestShareWalk a id).unmarked
      rw [List.length_cons] at hsteps
      omega
  | case4 steps id pending a b hread a' pending' heq ih =>
      have hitems := itemsShared_shareItems a pending b.toList
      have hlook := h.look hread
      rw [heq] at hitems hlook
      refine ih ?_ hlook
      have hmeasure : pending'.length + a'.unmarked.card ≤ pending.length + a.unmarked.card :=
        hitems.measure
      rw [List.length_cons] at hsteps
      omega

theorem Walking.shareElements (h : Walking sharing before [id] a) :
    Walking sharing before [] (a.shareElements id) := by
  refine h.run _ ?_
  have := card_unmarked_le a
  rw [List.length_singleton]
  omega

theorem Walking.start (hknown : ∀ id o, a.object? id = some o → ∀ v ∈ o.body.toList, a.Knows v)
    (hclosed : sharing → ∀ id o, a.object? id = some o → a.Closed o) (id : ArrayId) :
    Walking sharing (fun j => a.isShared j) [id] (a.shareArray id).1 := by
  have hremarked := Remarked.shareArray a id
  refine ⟨known_of_remarked hremarked hknown, fun hsharing j o' ho' => ?_,
    fun j o' ho' _ hshared => ?_⟩
  all_goals
    rw [object?_shareArray] at ho'
    by_cases heq : j = id
  · exact .inr (List.mem_singleton.mpr heq)
  · rw [if_neg heq] at ho'
    exact .inl (hremarked.closed (hclosed hsharing j o' ho'))
  · exact .inr (.inr (List.mem_singleton.mpr heq))
  · rw [if_neg heq] at ho'
    exact .inl (by rwa [isShared_of_object? ho'])

/-- After a value was shared no object is left that holds an unmarked array for no reason. -/
theorem Walking.shareValue (hknown : ∀ id o, a.object? id = some o → ∀ v ∈ o.body.toList, a.Knows v)
    (hclosed : sharing → ∀ id o, a.object? id = some o → a.Closed o) (v : Value) :
    Walking sharing (fun j => a.isShared j) [] (a.shareValue v) := by
  have hnone : Walking sharing (fun j => a.isShared j) [] a :=
    ⟨hknown, fun hsharing id o ho => .inl (hclosed hsharing id o ho),
      fun id o ho _ hshared => .inl (by rwa [isShared_of_object? ho])⟩
  cases v with
  | array id =>
      have hstart := Walking.start hknown hclosed id
      simp only [Arena.shareValue]
      split
      case h_1 a' heq =>
          rw [heq] at hstart
          exact hstart.shareElements
      case h_2 a' heq =>
          have hobject := object?_of_shareArray_false heq
          have hremarked := Remarked.shareArray a id
          rw [heq] at hremarked
          refine ⟨known_of_remarked hremarked hknown, fun hsharing j o ho => ?_,
            fun j o ho _ hshared => ?_⟩
          · rw [hobject] at ho
            exact .inl (hremarked.closed (hclosed hsharing j o ho))
          · rw [hobject] at ho
            exact .inl (by rwa [isShared_of_object? ho])
  | _ => exact hnone

theorem isShared_shareValue (h : (a.object? id).isSome) :
    (a.shareValue (.array id)).isShared id := by
  have hmarked := isShared_shareArray h
  simp only [Arena.shareValue]
  split
  case h_1 a' heq =>
      rw [heq] at hmarked
      exact (Remarked.shareElements a' id).isShared hmarked
  case h_2 a' heq =>
      rw [heq] at hmarked
      exact hmarked

end Arena

end AdaptiveArray
