import AdaptiveArray.Lifetime
import AdaptiveArray.Objects
import AdaptiveArray.Proofs.Soundness

/-!
# Changing the objects of a sound arena

Taking the body of an array out of the arena and putting one back, making a new object,
taking and releasing a lock, and keeping a bare store.
-/

namespace AdaptiveArray

namespace Arena

variable {sharing : Prop} {held : List ArrayId} {a : Arena} {id : ArrayId}

/-! ## Bodies -/

theorem object?_setBody (a : Arena) (id : ArrayId) (b : Body) (j : ArrayId) :
    (a.setBody id b).object? j =
      if j = id then (a.object? j).map fun o => { o with body := b } else a.object? j :=
  object?_modifyObject a id _ j

theorem isShared_setBody (a : Arena) (id : ArrayId) (b : Body) (j : ArrayId) :
    (a.setBody id b).isShared j = a.isShared j := by
  rw [isShared, isShared, object?_setBody]
  split
  · cases a.object? j <;> rfl
  · rfl

theorem isPending_setBody (a : Arena) (id : ArrayId) (b : Body) (j : ArrayId) :
    (a.setBody id b).isPending j = a.isPending j := by
  rw [isPending, isPending, object?_setBody]
  split
  · cases a.object? j <;> rfl
  · rfl

theorem isSome_setBody (a : Arena) (id : ArrayId) (b : Body) (j : ArrayId) :
    ((a.setBody id b).object? j).isSome = (a.object? j).isSome := by
  rw [object?_setBody]
  split
  · rw [Option.isSome_map]
  · rfl

theorem knows_setBody {b : Body} {v : Value} : (a.setBody id b).Knows v ↔ a.Knows v := by
  simp only [Knows, isSome_setBody]

theorem backs_setBody {b : Body} {k : Backing} (h : (a.setBody id b).Backs k) :
    a.Backs k ∨ b.store.backing? = some k := by
  rcases backs_iff.mp h with ⟨j, o, ho, hk⟩ | hbare
  · rw [object?_setBody] at ho
    split at ho
    · obtain ⟨o', -, rfl⟩ := Option.map_eq_some_iff.mp ho
      exact .inr hk
    · exact .inl (backs_of_object? ho hk)
  · exact .inl (backs_iff.mpr (.inr hbare))

theorem Sound.setBody {b : Body} (h : a.Sound sharing held)
    (hlock : b.toList ≠ [] → ∀ o, a.object? id = some o → o.lock ≠ .free)
    (hsuits : a.Suits sharing id b) :
    (a.setBody id b).Sound sharing held where
  fits j o ho := by
    rw [object?_setBody] at ho
    split at ho
    · obtain ⟨o', -, rfl⟩ := Option.map_eq_some_iff.mp ho
      exact hsuits.fits
    · exact h.fits j o ho
  known j o ho v hv := by
    rw [object?_setBody] at ho
    rw [knows_setBody]
    split at ho
    · obtain ⟨o', -, rfl⟩ := Option.map_eq_some_iff.mp ho
      exact (hsuits.safe v hv).known
    · exact h.known j o ho v hv
  fresh k hk := (backs_setBody hk).elim (h.fresh k) fun hk => (hsuits.accepts k hk).1
  coherent k k' hk hk' heq := by
    rcases backs_setBody hk with hk | hk
    · rcases backs_setBody hk' with hk' | hk'
      · exact h.coherent k k' hk hk' heq
      · exact (hsuits.accepts k' hk').2 k hk heq
    · rcases backs_setBody hk' with hk' | hk'
      · exact ((hsuits.accepts k hk).2 k' hk' heq.symm).symm
      · exact Option.some.inj (hk.symm.trans hk')
  closed hsharing j o ho hshared i hi := by
    rw [isShared_setBody]
    have hsh : a.isShared j := by
      rw [← isShared_setBody a id b, isShared_of_object? ho]
      exact hshared
    rw [object?_setBody] at ho
    split at ho
    · subst j
      obtain ⟨o', ho', rfl⟩ := Option.map_eq_some_iff.mp ho
      refine ((hsuits.safe _ hi).covered hsharing hsh i rfl).imp_right fun hpending =>
        ⟨hlock (List.ne_nil_of_mem hi) o' ho', ?_⟩
      rwa [isPending_of_object? ho'] at hpending
    · exact h.closed hsharing j o ho hshared i hi
  locked j hj := by
    obtain ⟨o, ho, hfree⟩ := h.locked j hj
    by_cases heq : j = id
    · exact ⟨{ o with body := b }, by rw [object?_setBody, if_pos heq, ho]; rfl, hfree⟩
    · exact ⟨o, by rw [object?_setBody, if_neg heq, ho], hfree⟩

theorem later_setBody (hid : id ∉ held) {b : Body}
    (hbacks : ∀ k, b.store.backing? = some k → a.Backs k ∨ a.nextBacking ≤ k.id) :
    a.Later held (a.setBody id b) where
  alive j hj := by rwa [isSome_setBody]
  shared j hj := by rwa [isShared_setBody]
  nextBacking := Nat.le_refl _
  traced k hk := (backs_setBody hk).elim .inl (hbacks k)
  held j hj o ho := by
    have hne : j ≠ id := fun heq => hid (heq ▸ hj)
    exact ⟨o, by rw [object?_setBody, if_neg hne, ho], .refl o⟩

theorem suits_empty (frozen : Bool) : a.Suits sharing id { Body.empty with frozen } where
  fits := Body.fits_empty.with_frozen frozen
  safe _ hv := nomatch hv
  accepts _ hk := nomatch hk

theorem Sound.suits {o : ArrayObject} (h : a.Sound sharing held) (ho : a.object? id = some o) :
    (a.setBody id .empty).Suits sharing id o.body where
  fits := h.fits id o ho
  safe v hv := by
    refine ⟨knows_setBody.mpr (h.known id o ho v hv), fun hsharing hshared j hj => ?_⟩
    rw [isShared_setBody, isShared_of_object? ho] at hshared
    rw [isShared_setBody, isPending_setBody, isPending_of_object? ho]
    have hv' : v = .array j := by
      cases v with
      | array i => exact congrArg Value.array (Option.some.inj hj)
      | _ => cases hj
    subst hv'
    exact (h.closed hsharing id o ho hshared j hv).imp_right And.right
  accepts k hk := by
    obtain ⟨hlt, hunique⟩ := h.accepts (backs_of_object? ho hk)
    refine ⟨hlt, fun k' hk' heq => hunique k' ?_ heq⟩
    exact (backs_setBody hk').resolve_right nofun

theorem Sound.takeBody {o : ArrayObject} (h : a.Sound sharing held) (ho : a.object? id = some o)
    (hlock : o.lock ≠ .free) : (a.setBody id .empty).Sound sharing (id :: held) := by
  have hsound := h.setBody (b := .empty) (fun _ o' ho' => by
    rw [ho] at ho'
    exact Option.some.inj ho' ▸ hlock) (suits_empty false)
  refine { hsound with locked := fun j hj => ?_ }
  rcases List.mem_cons.mp hj with rfl | hj
  · exact ⟨{ o with body := .empty }, by rw [object?_setBody, if_pos rfl, ho]; rfl, hlock⟩
  · exact hsound.locked j hj

theorem emptied_evolves (hid : id ∉ held) (b : Body) :
    a.Evolves sharing held (a.setBody id { b with store := .empty, size := 0 }) := fun h =>
  ⟨h.setBody (fun hne => absurd rfl hne) (suits_empty b.frozen), later_setBody hid nofun⟩

theorem Sound.mono {held' : List ArrayId} (h : a.Sound sharing held)
    (hsub : ∀ id ∈ held', id ∈ held) : a.Sound sharing held' :=
  { h with locked := fun id hid => h.locked id (hsub id hid) }

/-! ## New objects and bare stores -/

def withObject (a : Arena) (b : Body) : Arena :=
  { a with objects := a.objects.push (some { body := b }) }

theorem object?_withObject (a : Arena) (b : Body) (j : ArrayId) : (a.withObject b).object? j =
    if j = a.objects.size then some { body := b } else a.object? j := by
  unfold object? withObject
  rw [Array.getElem?_push]
  split <;> rfl

theorem object?_size (a : Arena) : a.object? a.objects.size = none := by
  rw [object?, Array.getElem?_eq_none (Nat.le_refl _)]
  rfl

theorem object?_withObject_of_some {b : Body} {o : ArrayObject} (ho : a.object? id = some o) :
    (a.withObject b).object? id = some o := by
  rw [object?_withObject, if_neg]
  · exact ho
  · rintro rfl
    rw [object?_size] at ho
    cases ho

theorem knows_withObject (a : Arena) (b : Body) :
    (a.withObject b).Knows (.array a.objects.size) := by
  intro j hj
  rw [← Option.some.inj hj, object?_withObject, if_pos rfl]
  rfl

theorem withObject_evolves {b : Body} (hfits : b.Fits True) (hknown : ∀ v ∈ b.toList, a.Knows v)
    (hbacks : ∀ k, b.store.backing? = some k → a.Backs k) :
    a.Evolves sharing held (a.withObject b) := by
  intro h
  have hold : ∀ {j o}, a.object? j = some o → (a.withObject b).object? j = some o :=
    object?_withObject_of_some
  have halive : ∀ j, (a.object? j).isSome → ((a.withObject b).object? j).isSome := by
    intro j hj
    obtain ⟨o, ho⟩ := Option.isSome_iff_exists.mp hj
    rw [hold ho]
    rfl
  have hshared : ∀ j, a.isShared j → (a.withObject b).isShared j := by
    intro j hj
    obtain ⟨o, ho, hs⟩ := exists_of_isShared hj
    rwa [isShared_of_object? (hold ho)]
  have hbacked : ∀ k, (a.withObject b).Backs k → a.Backs k := by
    intro k hk
    rcases backs_iff.mp hk with ⟨j, o, ho, hk⟩ | hbare
    · rw [object?_withObject] at ho
      split at ho
      · cases ho
        exact hbacks k hk
      · exact backs_of_object? ho hk
    · exact backs_iff.mpr (.inr hbare)
  -- The new object may hold anything known, since it is not shared; the old ones stay as they were.
  refine ⟨⟨fun j o ho => ?_, fun j o ho v hv id hid => ?_, fun k hk => h.fresh k (hbacked k hk),
    fun k k' hk hk' => h.coherent k k' (hbacked k hk) (hbacked k' hk'), fun hsharing j o ho => ?_,
    fun j hj => ?_⟩, ⟨halive, hshared, Nat.le_refl _, fun k hk => .inl (hbacked k hk),
      fun j _ o ho => ⟨o, hold ho, .refl o⟩⟩⟩
  · rw [object?_withObject] at ho
    split at ho
    · cases ho
      exact hfits
    · exact h.fits j o ho
  · refine halive id ?_
    rw [object?_withObject] at ho
    split at ho
    · cases ho
      exact hknown v hv id hid
    · exact h.known j o ho v hv id hid
  · rw [object?_withObject] at ho
    split at ho
    · cases ho
      exact nofun
    · exact fun hs i hi => (h.closed hsharing j o ho hs i hi).imp_left (hshared i)
  · obtain ⟨o, ho, hlock⟩ := h.locked j hj
    exact ⟨o, hold ho, hlock⟩

theorem setStore_evolves (name : String) {s : Store}
    (hbacks : ∀ k, s.backing? = some k → a.Backs k) :
    a.Evolves sharing held (a.setStore name s) := by
  refine stores_evolves rfl (Nat.le_refl _) fun entry hentry k hk => ?_
  rcases List.mem_cons.mp hentry with rfl | hentry
  · exact hbacks k hk
  · exact backs_iff.mpr (.inr ⟨entry, (List.mem_filter.mp hentry).1, hk⟩)

theorem dropStore_evolves (name : String) : a.Evolves sharing held (a.dropStore name) := by
  unfold dropStore
  split
  · refine stores_evolves (Booked.release a _).objects (Booked.release a _).nextBacking
      fun entry hentry k hk => ?_
    exact backs_iff.mpr (.inr ⟨entry, (List.mem_filter.mp hentry).1, hk⟩)
  · exact Evolution.refl a

/-! ## Locks -/

structure Relabelled (id : ArrayId) (a b : Arena) : Prop where
  object : ∀ j, b.object? j = if j = id then b.object? id else a.object? j
  some : ∀ o, a.object? id = some o →
    ∃ o', b.object? id = some o' ∧ o'.body = o.body ∧ o'.shared = o.shared
  none : a.object? id = none → b.object? id = none
  stores : b.stores = a.stores
  nextBacking : b.nextBacking = a.nextBacking

theorem relabelled_modifyObject (a : Arena) (id : ArrayId) (change : ArrayObject → ArrayObject)
    (hbody : ∀ o : ArrayObject, (change o).body = o.body)
    (hshared : ∀ o : ArrayObject, (change o).shared = o.shared) :
    a.Relabelled id (a.modifyObject id change) where
  object j := by
    rw [object?_modifyObject]
    split
    · subst j
      rw [object?_modifyObject, if_pos rfl]
    · rfl
  some o ho := ⟨change o, by rw [object?_modifyObject, if_pos rfl, ho]; rfl, hbody o, hshared o⟩
  none h := by
    rw [object?_modifyObject, if_pos rfl, h]
    rfl
  stores := rfl
  nextBacking := rfl

namespace Relabelled

variable {b : Arena}

theorem origin (h : a.Relabelled id b) {j : ArrayId} {o' : ArrayObject}
    (ho' : b.object? j = Option.some o') :
    ∃ o, a.object? j = Option.some o ∧ o'.body = o.body ∧ o'.shared = o.shared ∧
      (j ≠ id → o' = o) := by
  by_cases heq : j = id
  · subst heq
    cases ho : a.object? j with
    | none => simp [h.none ho] at ho'
    | some o =>
        obtain ⟨o'', ho'', hbody, hshared⟩ := h.some o ho
        rw [ho'] at ho''
        cases ho''
        exact ⟨o, rfl, hbody, hshared, fun hne => absurd rfl hne⟩
  · rw [h.object, if_neg heq] at ho'
    exact ⟨o', ho', rfl, rfl, fun _ => rfl⟩

theorem target (h : a.Relabelled id b) {j : ArrayId} {o : ArrayObject}
    (ho : a.object? j = Option.some o) :
    ∃ o', b.object? j = Option.some o' ∧ o'.body = o.body ∧ o'.shared = o.shared ∧
      (j ≠ id → o' = o) := by
  by_cases heq : j = id
  · subst heq
    obtain ⟨o', ho', hbody, hshared⟩ := h.some o ho
    exact ⟨o', ho', hbody, hshared, fun hne => absurd rfl hne⟩
  · exact ⟨o, by rw [h.object, if_neg heq, ho], rfl, rfl, fun _ => rfl⟩

theorem isShared (h : a.Relabelled id b) {j : ArrayId} (hj : a.isShared j) : b.isShared j := by
  obtain ⟨o, ho, hs⟩ := exists_of_isShared hj
  obtain ⟨o', ho', -, hshared, -⟩ := h.target ho
  rw [isShared_of_object? ho', hshared]
  exact hs

theorem isSome (h : a.Relabelled id b) {j : ArrayId} (hj : (a.object? j).isSome) :
    (b.object? j).isSome := by
  obtain ⟨o, ho⟩ := Option.isSome_iff_exists.mp hj
  obtain ⟨o', ho', -⟩ := h.target ho
  rw [ho']
  rfl

theorem body? (h : a.Relabelled id b) (j : ArrayId) : b.body? j = a.body? j := by
  unfold Arena.body?
  cases ho : a.object? j with
  | none =>
      have hnone : b.object? j = Option.none := by
        rw [h.object]
        split
        · subst j
          exact h.none ho
        · exact ho
      rw [hnone]
  | some o =>
      obtain ⟨o', ho', hbody, -⟩ := h.target ho
      simp [ho', hbody]

theorem backs (h : a.Relabelled id b) {k : Backing} : b.Backs k ↔ a.Backs k :=
  backs_congr h.body? h.stores k

theorem refl (a : Arena) (id : ArrayId) : a.Relabelled id a where
  object j := by
    split
    · subst j
      rfl
    · rfl
  some o ho := ⟨o, ho, rfl, rfl⟩
  none h := h
  stores := rfl
  nextBacking := rfl

theorem evolves (h : a.Relabelled id b) (hid : id ∉ held)
    (hclosed : sharing → ∀ o o', a.object? id = Option.some o → b.object? id = Option.some o' →
      a.Closed o → b.Closed o') : a.Evolves sharing held b := by
  intro hs
  have hbacks := backs_congr h.body? h.stores
  refine ⟨⟨fun j o' ho' => ?_, fun j o' ho' v hv i hi => ?_, fun k hk => ?_, fun k k' hk hk' => ?_,
    fun hsharing j o' ho' => ?_, fun j hj => ?_⟩, ⟨fun j => h.isSome, fun j => h.isShared,
    Nat.le_of_eq h.nextBacking.symm, fun k hk => .inl ((hbacks k).mp hk), fun j hj o ho => ?_⟩⟩
  · obtain ⟨o, ho, hbody, -⟩ := h.origin ho'
    rw [hbody]
    exact hs.fits j o ho
  · obtain ⟨o, ho, hbody, -⟩ := h.origin ho'
    exact h.isSome (hs.known j o ho v (hbody ▸ hv) i hi)
  · rw [h.nextBacking]
    exact hs.fresh k ((hbacks k).mp hk)
  · exact hs.coherent k k' ((hbacks k).mp hk) ((hbacks k').mp hk')
  · obtain ⟨o, ho, -, -, hsame⟩ := h.origin ho'
    by_cases heq : j = id
    · subst heq
      exact hclosed hsharing o o' ho ho' (hs.closed hsharing j o ho)
    · rw [hsame heq]
      exact fun hshared i hi => (hs.closed hsharing j o ho hshared i hi).imp_left h.isShared
  · obtain ⟨o, ho, hlock⟩ := hs.locked j hj
    obtain ⟨o', ho', -, -, hsame⟩ := h.target ho
    exact ⟨o', ho', by rw [hsame fun heq => hid (heq ▸ hj)]; exact hlock⟩
  · obtain ⟨o', ho', -, -, hsame⟩ := h.target ho
    exact ⟨o', ho', hsame (fun heq => hid (heq ▸ hj)) ▸ .refl o⟩

theorem trans {c : Arena} (h : a.Relabelled id b) (h' : b.Relabelled id c) : a.Relabelled id c where
  object j := by
    rw [h'.object]
    split
    · rfl
    · rw [h.object, if_neg ‹_›]
  some o ho := by
    obtain ⟨o', ho', hbody, hshared⟩ := h.some o ho
    obtain ⟨o'', ho'', hbody', hshared'⟩ := h'.some o' ho'
    exact ⟨o'', ho'', hbody'.trans hbody, hshared'.trans hshared⟩
  none hnone := h'.none (h.none hnone)
  stores := h'.stores.trans h.stores
  nextBacking := h'.nextBacking.trans h.nextBacking

theorem walking (h : a.Relabelled id b) (hs : a.Sound sharing held) :
    Walking sharing (fun j => b.isShared j) [id] b where
  known j o' ho' v hv i hi := by
    obtain ⟨o, ho, hbody, -⟩ := h.origin ho'
    exact h.isSome (hs.known j o ho v (hbody ▸ hv) i hi)
  closed hsharing j o' ho' := by
    by_cases heq : j = id
    · exact .inr (List.mem_singleton.mpr heq)
    · obtain ⟨o, ho, -, -, hsame⟩ := h.origin ho'
      rw [hsame heq]
      exact .inl fun hshared i hi => (hs.closed hsharing j o ho hshared i hi).imp_left h.isShared
  owed j o' ho' _ hshared := .inl (by rwa [isShared_of_object? ho'])

end Relabelled

theorem relabelled_setLock (a : Arena) (id : ArrayId) (lock : Lock) :
    a.Relabelled id (a.setLock id lock) :=
  relabelled_modifyObject a id _ (fun _ => rfl) fun _ => rfl

theorem object?_setLock (a : Arena) (id : ArrayId) (lock : Lock) (j : ArrayId) :
    (a.setLock id lock).object? j =
      if j = id then (a.object? j).map fun o => { o with lock } else a.object? j :=
  object?_modifyObject a id _ j

theorem lock_evolves {holder : Lock} (hfree : a.lockOf id = some .free) (hid : id ∉ held) :
    a.Evolves sharing held (a.setLock id holder) := by
  refine (relabelled_setLock a id holder).evolves hid fun _ o o' ho ho' hclosed hshared j hj => ?_
  rw [object?_setLock, if_pos rfl, ho] at ho'
  cases ho'
  rw [lockOf, ho] at hfree
  rcases hclosed hshared j hj with hj | ⟨hlock, -⟩
  · exact .inl ((relabelled_setLock a id holder).isShared hj)
  · exact absurd (Option.some.inj hfree) hlock

theorem Sound.not_mem_held (h : a.Sound sharing held) (hfree : a.lockOf id = some .free) :
    id ∉ held := by
  intro hid
  obtain ⟨o, ho, hlock⟩ := h.locked id hid
  rw [lockOf, ho] at hfree
  exact hlock (Option.some.inj hfree)

theorem backs_unlock {k : Backing} : (a.unlock id).Backs k ↔ a.Backs k := by
  have hlock := relabelled_setLock a id .free
  unfold unlock
  dsimp only
  split
  · have hrelabelled := hlock.trans (relabelled_modifyObject (a.setLock id .free) id
      (fun o => { o with sharePending := false }) (fun _ => rfl) fun _ => rfl)
    have hremarked := Remarked.shareElements ((a.setLock id .free).modifyObject id
      fun o => { o with sharePending := false }) id
    exact (backs_congr hremarked.body? (by rw [hremarked.rest]) k).trans hrelabelled.backs
  · exact hlock.backs

theorem unlock_evolves (hid : id ∉ held) : a.Evolves sharing held (a.unlock id) := by
  intro h
  unfold unlock
  dsimp only
  split
  case isTrue hpending =>
      have hrelabelled := (relabelled_setLock a id .free).trans
        (relabelled_modifyObject (a.setLock id .free) id
          (fun o => { o with sharePending := false }) (fun _ => rfl) fun _ => rfl)
      obtain ⟨hsound, hlater⟩ := hrelabelled.evolves hid False.elim h.loose
      have hwalk := Walking.shareElements (hrelabelled.walking h)
      obtain ⟨hsound', hlater'⟩ := hsound.walked (.shareElements _ id) hwalk fun _ hj => hj
      exact ⟨hsound', hlater.trans hlater'⟩
  case isFalse hpending =>
      refine (relabelled_setLock a id .free).evolves hid
        (fun _ o o' ho ho' hclosed hshared j hj => ?_) h
      rw [object?_setLock, if_pos rfl, ho] at ho'
      cases ho'
      rcases hclosed hshared j hj with hj | ⟨-, hp⟩
      · exact .inl ((relabelled_setLock a id .free).isShared hj)
      · rw [object?_setLock, if_pos rfl, ho] at hpending
        exact absurd hp hpending

end Arena

end AdaptiveArray
