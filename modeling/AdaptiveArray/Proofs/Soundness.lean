import AdaptiveArray.Proofs.Body
import AdaptiveArray.Proofs.Frame
import AdaptiveArray.Proofs.Walking

/-!
# Sound arenas

What holds of the arena between any two operations: every body is tidy, every handle is
good, views of one backing agree about it, and what a shared array holds is shared unless
a lock keeps the walk from it.  While an edit runs, the body it works on is out of the
arena, and the arena is sound without it; what the body must satisfy to be put back is
said by `Suits`.
-/

namespace AdaptiveArray

namespace Arena

theorem mem_liveStores {a : Arena} {s : Store} : s ∈ a.liveStores ↔
    (∃ id o, a.object? id = some o ∧ o.body.store = s) ∨ ∃ name, (name, s) ∈ a.stores := by
  rw [liveStores, List.mem_append]
  constructor
  · rintro (hs | hs)
    · obtain ⟨x, hx, hxs⟩ := List.mem_filterMap.mp hs
      obtain ⟨o, rfl, rfl⟩ := Option.map_eq_some_iff.mp hxs
      obtain ⟨id, hid⟩ := List.mem_iff_getElem?.mp hx
      rw [Array.getElem?_toList] at hid
      exact .inl ⟨id, o, by rw [object?, hid]; rfl, rfl⟩
    · obtain ⟨entry, hentry, rfl⟩ := List.mem_map.mp hs
      exact .inr ⟨entry.1, hentry⟩
  · rintro (⟨id, o, ho, rfl⟩ | ⟨name, hentry⟩)
    · refine .inl (List.mem_filterMap.mpr ⟨some o, ?_, rfl⟩)
      rw [object?, Option.join_eq_some_iff] at ho
      exact List.mem_iff_getElem?.mpr ⟨id, by rwa [Array.getElem?_toList]⟩
    · exact .inr (List.mem_map_of_mem hentry)

def Backs (a : Arena) (k : Backing) : Prop :=
  ∃ s ∈ a.liveStores, s.backing? = some k

theorem backs_iff {a : Arena} {k : Backing} : a.Backs k ↔
    (∃ id o, a.object? id = some o ∧ o.body.store.backing? = some k) ∨
      ∃ entry ∈ a.stores, entry.2.backing? = some k := by
  unfold Backs
  constructor
  · rintro ⟨s, hs, hk⟩
    obtain ⟨id, o, ho, rfl⟩ | ⟨name, hentry⟩ := mem_liveStores.mp hs
    · exact .inl ⟨id, o, ho, hk⟩
    · exact .inr ⟨(name, s), hentry, hk⟩
  · rintro (⟨id, o, ho, hk⟩ | ⟨entry, hentry, hk⟩)
    · exact ⟨o.body.store, mem_liveStores.mpr (.inl ⟨id, o, ho, rfl⟩), hk⟩
    · exact ⟨entry.2, mem_liveStores.mpr (.inr ⟨entry.1, hentry⟩), hk⟩

theorem backs_of_object? {a : Arena} {id : ArrayId} {o : ArrayObject} {k : Backing}
    (ho : a.object? id = some o) (hk : o.body.store.backing? = some k) : a.Backs k :=
  backs_iff.mpr (.inl ⟨id, o, ho, hk⟩)

def Accepts (a : Arena) (k : Backing) : Prop :=
  k.id < a.nextBacking ∧ ∀ k', a.Backs k' → k'.id = k.id → k' = k

def isPending (a : Arena) (id : ArrayId) : Bool :=
  (a.object? id).any ArrayObject.sharePending

theorem isPending_of_object? {a : Arena} {id : ArrayId} {o : ArrayObject}
    (h : a.object? id = some o) : a.isPending id = o.sharePending := by
  rw [isPending, h]
  rfl

/-- The arena between two steps, while the arrays `held` are being edited.  Sharing is looked at
only if `sharing` holds. -/
structure Sound (sharing : Prop) (held : List ArrayId) (a : Arena) : Prop where
  fits : ∀ id o, a.object? id = some o → o.body.Fits True
  known : ∀ id o, a.object? id = some o → ∀ v ∈ o.body.toList, a.Knows v
  fresh : ∀ k, a.Backs k → k.id < a.nextBacking
  coherent : ∀ k k', a.Backs k → a.Backs k' → k.id = k'.id → k = k'
  closed : sharing → ∀ id o, a.object? id = some o → a.Closed o
  locked : ∀ id ∈ held, ∃ o, a.object? id = some o ∧ o.lock ≠ .free

structure Safe (sharing : Prop) (a : Arena) (id : ArrayId) (v : Value) : Prop where
  known : a.Knows v
  covered : sharing → a.isShared id → ∀ j, v.arrayId? = some j → a.isShared j ∨ a.isPending id

structure Suits (sharing : Prop) (a : Arena) (id : ArrayId) (b : Body) : Prop where
  fits : b.Fits True
  safe : ∀ v ∈ b.toList, a.Safe sharing id v
  accepts : ∀ k, b.store.backing? = some k → a.Accepts k

theorem safe_of_arrayId?_eq_none {sharing : Prop} {a : Arena} {id : ArrayId} {v : Value}
    (h : v.arrayId? = none) : a.Safe sharing id v :=
  ⟨fun _ hid => by simp [h] at hid, fun _ _ _ hj => by simp [h] at hj⟩

end Arena

/-- What may become of an object whose lock is held: marks are added, and the mark that it is shared
only with the mark that its walk is put off. -/
structure ArrayObject.Guarded (o o' : ArrayObject) : Prop where
  body : o'.body = o.body
  lock : o'.lock = o.lock
  sharePending : o.sharePending → o'.sharePending
  shared : o'.shared → o.shared ∨ o'.sharePending

theorem ArrayObject.Guarded.refl (o : ArrayObject) : o.Guarded o :=
  ⟨rfl, rfl, id, .inl⟩

theorem ArrayObject.Guarded.trans {o o' o'' : ArrayObject} (h : o.Guarded o')
    (h' : o'.Guarded o'') : o.Guarded o'' where
  body := h'.body.trans h.body
  lock := h'.lock.trans h.lock
  sharePending := h'.sharePending ∘ h.sharePending
  shared hshared := by
    rcases h'.shared hshared with hshared | hpending
    · exact (h.shared hshared).imp_right h'.sharePending
    · exact .inr hpending

namespace Arena

/-- The second arena comes after the first, and the arrays `held` have been edited all the time. -/
structure Later (held : List ArrayId) (a b : Arena) : Prop where
  alive : ∀ id, (a.object? id).isSome → (b.object? id).isSome
  shared : ∀ id, a.isShared id → b.isShared id
  nextBacking : a.nextBacking ≤ b.nextBacking
  traced : ∀ k, b.Backs k → a.Backs k ∨ a.nextBacking ≤ k.id
  held : ∀ id ∈ held, ∀ o, a.object? id = some o → ∃ o', b.object? id = some o' ∧ o.Guarded o'

namespace Later

variable {held held' : List ArrayId} {a b c : Arena}

theorem refl (a : Arena) : a.Later held a :=
  ⟨fun _ h => h, fun _ h => h, Nat.le_refl _, fun _ h => .inl h, fun _ _ o ho => ⟨o, ho, .refl o⟩⟩

theorem trans (h : a.Later held b) (h' : b.Later held c) : a.Later held c where
  alive id hid := h'.alive id (h.alive id hid)
  shared id hid := h'.shared id (h.shared id hid)
  nextBacking := Nat.le_trans h.nextBacking h'.nextBacking
  traced k hk := by
    rcases h'.traced k hk with hk | hk
    · exact h.traced k hk
    · exact .inr (Nat.le_trans h.nextBacking hk)
  held id hid o ho := by
    obtain ⟨o', ho', hg⟩ := h.held id hid o ho
    obtain ⟨o'', ho'', hg'⟩ := h'.held id hid o' ho'
    exact ⟨o'', ho'', hg.trans hg'⟩

theorem mono (h : a.Later held b) (hsub : ∀ id ∈ held', id ∈ held) : a.Later held' b :=
  { h with held := fun id hid => h.held id (hsub id hid) }

theorem knows (h : a.Later held b) {v : Value} (hv : a.Knows v) : b.Knows v :=
  fun id hid => h.alive id (hv id hid)

theorem accepts (h : a.Later held b) {k : Backing} (hk : a.Accepts k) : b.Accepts k := by
  refine ⟨Nat.lt_of_lt_of_le hk.1 h.nextBacking, fun k' hk' heq => ?_⟩
  rcases h.traced k' hk' with hk' | hle
  · exact hk.2 k' hk' heq
  · exact absurd (Nat.lt_of_lt_of_le hk.1 (heq ▸ hle)) (Nat.lt_irrefl _)

theorem safe {sharing : Prop} {id : ArrayId} {v : Value} (h : a.Later held b) (hid : id ∈ held)
    (hsome : (a.object? id).isSome) (hv : a.Safe sharing id v) : b.Safe sharing id v where
  known := h.knows hv.known
  covered hsharing hshared j hj := by
    obtain ⟨o, ho⟩ := Option.isSome_iff_exists.mp hsome
    obtain ⟨o', ho', hg⟩ := h.held id hid o ho
    rw [isShared_of_object? ho'] at hshared
    rw [isPending_of_object? ho']
    rcases hg.shared hshared with hold | hpending
    · refine (hv.covered hsharing (by rwa [isShared_of_object? ho]) j hj).imp (h.shared j) ?_
      rw [isPending_of_object? ho]
      exact hg.sharePending
    · exact .inr hpending

theorem suits {sharing : Prop} {id : ArrayId} {body : Body} (h : a.Later held b) (hid : id ∈ held)
    (hsome : (a.object? id).isSome) (hsuits : a.Suits sharing id body) :
    b.Suits sharing id body where
  fits := hsuits.fits
  safe v hv := h.safe hid hsome (hsuits.safe v hv)
  accepts k hk := h.accepts (hsuits.accepts k hk)

end Later

def Evolves (sharing : Prop) (held : List ArrayId) (a b : Arena) : Prop :=
  a.Sound sharing held → b.Sound sharing held ∧ a.Later held b

theorem backs_congr {a b : Arena} (hobject : ∀ id, b.body? id = a.body? id)
    (hstores : b.stores = a.stores) (k : Backing) : b.Backs k ↔ a.Backs k := by
  have hbody (c : Arena) : (∃ id o, c.object? id = some o ∧ o.body.store.backing? = some k) ↔
      ∃ id b, c.body? id = some b ∧ b.store.backing? = some k := by
    simp only [body?, Option.map_eq_some_iff]
    constructor
    · rintro ⟨id, o, ho, hk⟩
      exact ⟨id, o.body, ⟨o, ho, rfl⟩, hk⟩
    · rintro ⟨id, _, ⟨o, ho, rfl⟩, hk⟩
      exact ⟨id, o, ho, hk⟩
  rw [backs_iff, backs_iff, hbody, hbody, hstores]
  simp only [hobject]

theorem stores_evolves {sharing : Prop} {held : List ArrayId} {a b : Arena}
    (hobjects : b.objects = a.objects) (hnext : a.nextBacking ≤ b.nextBacking)
    (hstores : ∀ entry ∈ b.stores, ∀ k, entry.2.backing? = some k → a.Backs k) :
    a.Evolves sharing held b := by
  intro h
  have hobject : ∀ j, b.object? j = a.object? j := fun j => by rw [object?, object?, hobjects]
  have hshared : ∀ j, b.isShared j = a.isShared j := fun j => by rw [isShared, isShared, hobject]
  have hbacked : ∀ k, b.Backs k → a.Backs k := by
    intro k hk
    rcases backs_iff.mp hk with ⟨j, o, ho, hk⟩ | ⟨entry, hentry, hk⟩
    · exact backs_of_object? (hobject j ▸ ho) hk
    · exact hstores entry hentry k hk
  refine ⟨⟨fun j o ho => h.fits j o (hobject j ▸ ho), fun j o ho v hv i hi => ?_,
    fun k hk => Nat.lt_of_lt_of_le (h.fresh k (hbacked k hk)) hnext,
    fun k k' hk hk' => h.coherent k k' (hbacked k hk) (hbacked k' hk'),
    fun hsharing j o ho hs i hi => ?_, fun j hj => ?_⟩,
    ⟨fun j hj => by rwa [hobject], fun j hj => by rwa [hshared], hnext,
      fun k hk => .inl (hbacked k hk), fun j _ o ho => ⟨o, (hobject j).trans ho, .refl o⟩⟩⟩
  · rw [hobject]
    exact h.known j o (hobject j ▸ ho) v hv i hi
  · rw [hshared]
    exact h.closed hsharing j o (hobject j ▸ ho) hs i hi
  · obtain ⟨o, ho, hlock⟩ := h.locked j hj
    exact ⟨o, (hobject j).trans ho, hlock⟩

theorem Sound.accepts {sharing : Prop} {held : List ArrayId} {a : Arena} (h : a.Sound sharing held)
    {k : Backing} (hk : a.Backs k) : a.Accepts k :=
  ⟨h.fresh k hk, fun k' hk' heq => h.coherent k' k hk' hk heq⟩

theorem Sound.loose {sharing : Prop} {held : List ArrayId} {a : Arena} (h : a.Sound sharing held) :
    a.Sound False held :=
  { h with closed := False.elim }

theorem noted_evolves {sharing : Prop} {held : List ArrayId} {a b : Arena}
    (hobjects : b.objects = a.objects) (hstores : b.stores = a.stores)
    (hnext : a.nextBacking ≤ b.nextBacking) : a.Evolves sharing held b :=
  stores_evolves hobjects hnext fun entry hentry _ hk =>
    backs_iff.mpr (.inr ⟨entry, hstores ▸ hentry, hk⟩)

theorem Sound.walked {sharing : Prop} {held : List ArrayId} {before : ArrayId → Prop} {a b : Arena}
    (h : a.Sound False held) (hremarked : a.Remarked b) (hwalk : Walking sharing before [] b)
    (hbefore : ∀ id, before id → a.isShared id) : b.Sound sharing held ∧ a.Later held b := by
  have hstores : b.stores = a.stores := by rw [hremarked.rest]
  have hnext : b.nextBacking = a.nextBacking := by rw [hremarked.rest]
  have hbacks := backs_congr hremarked.body? hstores
  refine ⟨⟨fun id o' ho' => ?_, hwalk.known, fun k hk => ?_, fun k k' hk hk' => ?_,
    fun hsharing id o' ho' => ?_, fun id hid => ?_⟩, ⟨fun id => hremarked.isSome,
    fun id => hremarked.isShared, Nat.le_of_eq hnext.symm, fun k hk => .inl ((hbacks k).mp hk),
    fun id hid o ho => ?_⟩⟩
  · obtain ⟨o, ho, hm⟩ := hremarked.origin ho'
    rw [hm.body]
    exact h.fits id o ho
  · rw [hnext]
    exact h.fresh k ((hbacks k).mp hk)
  · exact h.coherent k k' ((hbacks k).mp hk) ((hbacks k').mp hk')
  · exact (hwalk.closed hsharing id o' ho').resolve_right List.not_mem_nil
  · obtain ⟨o, ho, hlock⟩ := h.locked id hid
    obtain ⟨o', ho', hm⟩ := hremarked.some id o ho
    exact ⟨o', ho', hm.lock ▸ hlock⟩
  · obtain ⟨o', ho', hm⟩ := hremarked.some id o ho
    refine ⟨o', ho', hm.body, hm.lock, hm.sharePending, fun hshared => ?_⟩
    obtain ⟨o₁, ho₁, hlock⟩ := h.locked id hid
    rw [ho] at ho₁
    cases ho₁
    rcases hwalk.owed id o' ho' (hm.lock ▸ hlock) hshared with hold | hpending | hmem
    · exact .inl (by rw [← isShared_of_object? ho]; exact hbefore id hold)
    · exact .inr hpending
    · exact absurd hmem List.not_mem_nil

instance (sharing : Prop) (held : List ArrayId) : Arena.Frame (Evolves sharing held) where
  refl _ h := ⟨h, .refl _⟩
  trans h h' hs := by
    obtain ⟨hsound, hlater⟩ := h hs
    obtain ⟨hsound', hlater'⟩ := h' hsound
    exact ⟨hsound', hlater.trans hlater'⟩
  booked h := noted_evolves h.objects h.stores h.nextBacking
  shareValue a v h :=
    h.loose.walked (.shareValue a v) (.shareValue h.known h.closed v) fun _ hid => hid

end Arena

end AdaptiveArray
