import AdaptiveArray.Proofs.StepFrame
import AdaptiveArray.Proofs.Likeness
import AdaptiveArray.Proofs.Sorting
import AdaptiveArray.Proofs.Unfailing

/-!
# Twin arenas

Twin arenas have the same elements in every array, in whatever stores, and agree in all
that a guest program can ask for: options, operators, the number of calls, the next
string.  They may differ in who looks at which backing.  An action is blind if it cannot
tell twins apart.  Sorting and building are blind, and so are all actions that only
count polls or copy elements between stores given to them.
-/

namespace AdaptiveArray

variable {σ α β : Type}

/-! ## Two runs side by side -/

/-- The runs both answer, or both end in a fault; a run that ends in an excused fault is not
compared with the other. -/
def Beside (excused : Fault → σ → Prop) (c d : EStateM Fault σ α) (s t : σ)
    (post : α → α → σ → σ → Prop) (early : σ → σ → Prop) : Prop :=
  match c s, d t with
  | .ok x s', .ok y t' => post x y s' t'
  | .error f s', .error g t' => excused f s' ∨ excused g t' ∨ early s' t'
  | .error f s', .ok _ _ => excused f s'
  | .ok _ _, .error g t' => excused g t'

namespace Beside

variable {excused excused' : Fault → σ → Prop} {c d : EStateM Fault σ α} {s t : σ}
  {post post' : α → α → σ → σ → Prop} {early early' : σ → σ → Prop}

theorem mono (h : Beside excused c d s t post early)
    (hexcused : ∀ f s, excused f s → excused' f s)
    (hpost : ∀ x y s' t', post x y s' t' → post' x y s' t')
    (hearly : ∀ s' t', early s' t' → early' s' t') :
    Beside excused' c d s t post' early' := by
  unfold Beside at h ⊢
  split at h
  · exact hpost _ _ _ _ h
  · exact h.imp (hexcused _ _) fun h => h.imp (hexcused _ _) (hearly _ _)
  · exact hexcused _ _ h
  · exact hexcused _ _ h

theorem weaken (h : Beside excused c d s t post early)
    (hpost : ∀ x y s' t', post x y s' t' → post' x y s' t') :
    Beside excused c d s t post' early :=
  h.mono (fun _ _ hf => hf) hpost fun _ _ h => h

theorem bind {k l : α → EStateM Fault σ β} {mid : α → α → σ → σ → Prop}
    {post : β → β → σ → σ → Prop} (h : Beside excused c d s t mid early)
    (hk : ∀ x y s' t', mid x y s' t' → Beside excused (k x) (l y) s' t' post early) :
    Beside excused (c >>= k) (d >>= l) s t post early := by
  unfold Beside at h
  cases hc : c s <;> cases hd : d t <;> simp only [hc, hd] at h
  case ok.ok x s' y t' =>
      have := hk x y s' t' h
      simpa [Beside, Bind.bind, EStateM.bind, hc, hd] using this
  case error.error => simpa [Beside, Bind.bind, EStateM.bind, hc, hd] using h
  case error.ok f s' y t' =>
      simp only [Beside, Bind.bind, EStateM.bind, hc, hd]
      cases l y t' <;> simp [h]
  case ok.error x s' g t' =>
      simp only [Beside, Bind.bind, EStateM.bind, hc, hd]
      cases k x s' <;> simp [h]

theorem of_ends {p q : α → σ → Prop} (hc : Ends c s p excused) (hd : Ends d t q excused)
    (h : ∀ x y s' t', p x s' → q y t' → post x y s' t') :
    Beside excused c d s t post early := by
  unfold Ends at hc hd
  unfold Beside
  cases hc' : c s <;> cases hd' : d t <;> simp only [hc', hd'] at hc hd ⊢
  · exact h _ _ _ _ hc hd
  · exact hd
  · exact hc
  · exact .inl hc

theorem of_unfailing (h : Beside excused c d s t post early)
    (hc : Ends c s (fun _ _ => True) excused) : Beside excused c d s t post early' := by
  unfold Ends at hc
  unfold Beside at h ⊢
  cases hc' : c s <;> cases hd' : d t <;> simp only [hc', hd'] at h hc ⊢
  · exact h
  · exact h
  · exact h
  · exact .inl hc

theorem get {k l : σ → EStateM Fault σ α} (h : Beside excused (k s) (l t) s t post early) :
    Beside excused (get >>= k) (get >>= l) s t post early := h

theorem modify {f g : σ → σ} {k l : Unit → EStateM Fault σ α}
    (h : Beside excused (k ()) (l ()) (f s) (g t) post early) :
    Beside excused (modify f >>= k) (modify g >>= l) s t post early := h

theorem throw {f g : Fault} (h : early s t) :
    Beside excused (throw f) (throw g) s t post early :=
  .inr (.inr h)

theorem forM {I : σ → σ → Prop} {body : β → EStateM Fault σ Unit}
    (hbody : ∀ x s t, I s t → Beside excused (body x) (body x) s t (fun _ _ => I) early)
    (xs : List β) : ∀ {s t : σ}, I s t →
      Beside excused (xs.forM body) (xs.forM body) s t (fun _ _ => I) early := by
  induction xs with
  | nil => exact fun h => h
  | cons x xs ih => exact fun h => (hbody x _ _ h).bind fun _ _ _ _ h' => ih h'

theorem ends (h : Beside excused c d s t post early) {p q : α → σ → Prop} {e e' : σ → Prop}
    (hc : Ends c s p fun f s' => excused f s' ∨ e s')
    (hd : Ends d t q fun f t' => excused f t' ∨ e' t') :
    Beside excused c d s t (fun x y s' t' => post x y s' t' ∧ p x s' ∧ q y t')
      fun s' t' => early s' t' ∧ e s' ∧ e' t' := by
  unfold Ends at hc hd
  unfold Beside at h ⊢
  cases hc' : c s <;> cases hd' : d t <;> simp only [hc', hd'] at h hc hd ⊢
  · exact ⟨h, hc, hd⟩
  · exact h
  · exact h
  · rcases hc with hc | hc
    · exact .inl hc
    rcases hd with hd | hd
    · exact .inr (.inl hd)
    exact h.imp_right fun h => h.imp_right fun h => ⟨h, hc, hd⟩

end Beside

/-! ## Arenas side by side -/

structure Body.Twin (b c : Body) : Prop extends Body.Alike b c where
  frozen : b.frozen = c.frozen

theorem Body.Twin.refl {b : Body} (h : b.Fits False) : b.Twin b := ⟨.refl h, rfl⟩

def ArrayObject.Twin (o p : ArrayObject) : Prop :=
  o.body.Twin p.body ∧ o.lock = p.lock

def ArrayObject.Still (o p : ArrayObject) : Prop :=
  p.body = o.body ∧ p.lock = o.lock

namespace Arena

/-- The arrays are related one by one, and the rest that a guest program can ask for is the same. -/
structure Resembles (r : ArrayObject → ArrayObject → Prop) (a c : Arena) : Prop where
  size : a.objects.size = c.objects.size
  object : ∀ id, Option.Rel r (a.object? id) (c.object? id)
  settings : a.settings = c.settings
  redefined : a.redefined = c.redefined
  calls : a.calls = c.calls
  nextString : a.nextString = c.nextString

def Twin : Arena → Arena → Prop := Resembles ArrayObject.Twin

def Still : Arena → Arena → Prop := Resembles ArrayObject.Still

variable {r r' r'' : ArrayObject → ArrayObject → Prop} {a b c : Arena} {id : ArrayId}

theorem Resembles.comp (hr : ∀ {o p q}, r o p → r' p q → r'' o q) (h : a.Resembles r b)
    (h' : b.Resembles r' c) : a.Resembles r'' c where
  size := h.size.trans h'.size
  object id := by
    have ho := h.object id
    have ho' := h'.object id
    revert ho ho'
    cases a.object? id <;> cases b.object? id <;> cases c.object? id <;> simp
    exact hr
  settings := h.settings.trans h'.settings
  redefined := h.redefined.trans h'.redefined
  calls := h.calls.trans h'.calls
  nextString := h.nextString.trans h'.nextString

theorem Resembles.flip (h : a.Resembles r b) : b.Resembles (fun o p => r p o) a where
  size := h.size.symm
  object id := by
    have ho := h.object id
    revert ho
    cases a.object? id <;> cases b.object? id <;> simp
  settings := h.settings.symm
  redefined := h.redefined.symm
  calls := h.calls.symm
  nextString := h.nextString.symm

theorem Twin.still {a' c' : Arena} (h : a.Twin c) (ha : a.Still a') (hc : c.Still c') :
    a'.Twin c' := by
  have hleft : a'.Twin c :=
    ha.flip.comp (fun {o p q} (hop : ArrayObject.Still p o) hpq => by
      rw [ArrayObject.Twin, hop.1, hop.2]
      exact hpq) h
  exact hleft.comp (fun {o p q} hop (hpq : ArrayObject.Still p q) => by
    rw [ArrayObject.Twin, hpq.1, hpq.2]
    exact hop) hc

theorem Booked.still (h : a.Booked b) : a.Still b where
  size := by rw [h.objects]
  object id := by
    rw [object?, object?, h.objects]
    cases (a.objects[id]?).join <;> simp [ArrayObject.Still]
  settings := h.settings.symm
  redefined := h.redefined.symm
  calls := h.calls.symm
  nextString := h.nextString.symm

theorem Remarked.still (h : a.Remarked b) : a.Still b where
  size := h.size.symm
  object id := by
    cases ho : a.object? id with
    | none => simp [h.none id ho]
    | some o =>
        obtain ⟨o', ho', hm⟩ := h.some id o ho
        simp [ho', ArrayObject.Still, hm.body, hm.lock]
  settings := h.settings.symm
  redefined := by rw [h.rest]
  calls := by rw [h.rest]
  nextString := by rw [h.rest]

instance : Arena.Frame Arena.Still where
  refl a := (Booked.refl a).still
  trans h h' := h.comp (fun hop hpq => ⟨hpq.1.trans hop.1, hpq.2.trans hop.2⟩) h'
  booked h := h.still
  shareValue a v := (Remarked.shareValue a v).still

theorem Twin.alike (h : a.Twin c) : a.Alike c where
  size := h.size
  readable id := by
    have ho := h.object id
    revert ho
    simp only [readable?]
    cases a.object? id <;> cases c.object? id <;> simp
    rename_i o p
    rintro ⟨hbody, hlock⟩
    by_cases hfree : o.lock = .free
    · simp [hfree, hlock ▸ hfree, hbody.toAlike]
    · simp [hfree, hlock ▸ hfree]

theorem Twin.body? (h : a.Twin c) (id : ArrayId) :
    Option.Rel Body.Twin (a.body? id) (c.body? id) := by
  have ho := h.object id
  revert ho
  simp only [Arena.body?]
  cases a.object? id <;> cases c.object? id <;> simp
  exact And.left

theorem Twin.lockOf (h : a.Twin c) (id : ArrayId) : a.lockOf id = c.lockOf id := by
  have ho := h.object id
  revert ho
  simp only [Arena.lockOf]
  cases a.object? id <;> cases c.object? id <;> simp
  exact And.right

theorem Twin.modifyObject {change change' : ArrayObject → ArrayObject} (h : a.Twin c)
    (hchange : ∀ o p, o.Twin p → (change o).Twin (change' p)) :
    (a.modifyObject id change).Twin (c.modifyObject id change') where
  size := by rw [size_modifyObject, size_modifyObject, h.size]
  object j := by
    have ho := h.object j
    revert ho
    rw [object?_modifyObject, object?_modifyObject]
    split
    · cases a.object? j <;> cases c.object? j <;> simp
      exact hchange _ _
    · exact fun ho => ho
  settings := h.settings
  redefined := h.redefined
  calls := h.calls
  nextString := h.nextString

theorem Twin.setBody (h : a.Twin c) {x y : Body} (hbody : x.Twin y) :
    (a.setBody id x).Twin (c.setBody id y) :=
  h.modifyObject fun _ _ ho => ⟨hbody, ho.2⟩

theorem Twin.setLock (h : a.Twin c) (lock : Lock) :
    (a.setLock id lock).Twin (c.setLock id lock) :=
  h.modifyObject fun _ _ ho => ⟨ho.1, rfl⟩

theorem still_unlock (a : Arena) (id : ArrayId) : (a.setLock id .free).Still (a.unlock id) := by
  unfold unlock
  dsimp only
  split
  · refine Evolution.trans (R := Still) (t := (a.setLock id .free).modifyObject id
      fun o => { o with sharePending := false }) ?_ (Remarked.shareElements _ id).still
    constructor
    · rw [size_modifyObject]
    · intro j
      rw [object?_modifyObject]
      split <;> cases (a.setLock id .free).object? j <;> simp [ArrayObject.Still]
    all_goals rfl
  · exact Evolution.refl _

theorem Twin.unlock (h : a.Twin c) (id : ArrayId) : (a.unlock id).Twin (c.unlock id) :=
  (h.setLock .free).still (still_unlock a id) (still_unlock c id)

end Arena

/-! ## Blind actions -/

def Blind (act : Action α) : Prop :=
  ∀ a c : Arena, a.Twin c → Beside (fun f _ => f.Fatal) act act a c
    (fun x y a' c' => x = y ∧ a'.Twin c') Arena.Twin

namespace Blind

protected theorem pure (x : α) : Blind (pure x) := fun _ _ h => ⟨rfl, h⟩

protected theorem throw (f : Fault) : Blind (throw f : Action α) := fun _ _ h => Beside.throw h

protected theorem bind {act : Action α} {k : α → Action β} (h : Blind act)
    (hk : ∀ x, Blind (k x)) : Blind (act >>= k) := by
  intro a c hac
  apply Beside.bind (h a c hac)
  rintro x _ a' c' ⟨rfl, hac'⟩
  exact hk x a' c' hac'

protected theorem ite {p : Prop} [Decidable p] {act act' : Action α} (h : Blind act)
    (h' : Blind act') : Blind (if p then act else act') := by
  split
  · exact h
  · exact h'

theorem look (view : Arena → β) {k : β → Action α}
    (hview : ∀ a c : Arena, a.Twin c → view a = view c) (hk : ∀ v, Blind (k v)) :
    Blind (get >>= fun a => k (view a)) := by
  intro a c hac
  have h := hk (view a) a c hac
  unfold Beside at h ⊢
  rw [show (get >>= fun a => k (view a)) a = k (view a) a from rfl,
    show (get >>= fun a => k (view a)) c = k (view a) c by rw [hview a c hac]; rfl]
  exact h

theorem of_still {act : Action α} (answer : Arena → α)
    (h : ∀ a, Ends act a (fun x a' => x = answer a ∧ a.Still a') fun f _ => f.Fatal)
    (hanswer : ∀ a c : Arena, a.Twin c → answer a = answer c) : Blind act := by
  intro a c hac
  apply Beside.of_ends (h a) (h c)
  rintro x y a' c' ⟨rfl, ha⟩ ⟨rfl, hc⟩
  exact ⟨hanswer a c hac, hac.still ha hc⟩

theorem of_unfailing {act : Action Unit} (h : Unfailing act) (hwithin : Within Arena.Still act) :
    Blind act :=
  of_still (fun _ => ()) (fun a => (h.within hwithin a).weaken fun _ _ ha => ⟨rfl, ha⟩)
    fun _ _ _ => rfl

theorem call {block : Nat → Action α} (h : ∀ n, Blind (block n)) : Blind (Action.call block) := by
  have hcalls : ∀ a c : Arena, a.Twin c → a.calls = c.calls := fun _ _ hac => hac.calls
  refine look Arena.calls (k := fun n => do
    modify fun a => { a with calls := n + 1 }
    block n) hcalls fun n => ?_
  apply Blind.bind
  · intro a c hac
    exact ⟨rfl, { hac with calls := rfl }⟩
  · exact fun _ => h n

end Blind

namespace Action

theorem blind_ensure (holds : Bool) : Blind (ensure holds) := by
  cases holds
  · exact Blind.throw _
  · exact Blind.pure ()

theorem blind_demand (found : Option α) : Blind (demand found) := by
  cases found
  · exact Blind.throw _
  · exact Blind.pure _

theorem blind_options : Blind options := by
  apply Blind.of_still Arena.settings
  · intro a
    rw [ends_options]
    exact ⟨rfl, (Arena.Booked.withSettings a).still⟩
  · exact fun _ _ h => h.settings

theorem blind_pollAt (i : Nat) : Blind (pollAt i) :=
  .of_unfailing (unfailing_pollAt i) (within_pollAt i)

theorem blind_pollForCopy (e : Element) (n : Nat) : Blind (pollForCopy e n) :=
  .of_unfailing (unfailing_pollForCopy e n) (within_pollForCopy e n)

theorem blind_newBuffer (e : Element) (n : Nat) : Blind (newBuffer e n) :=
  .ite (.pure _) (.throw _)

/-- Native storage is allocated at an address that differs from arena to arena. -/
theorem blind_allocate {k : Kind} (h : k.forMutation ≠ .native) (n : Nat) :
    Blind (allocate k n) := by
  unfold allocate
  split
  · exact .ite (.pure _) (.bind (blind_newBuffer _ _) fun _ => .pure _)
  · exact .bind (blind_newBuffer _ _) fun _ => .pure _
  · exact .bind (blind_newBuffer _ _) fun _ => .pure _
  · contradiction

theorem blind_copyTo (src : Store) (srcStart : Nat) (dst : Store) (dstStart len : Nat) :
    Blind (copyTo src srcStart dst dstStart len) :=
  .bind (blind_ensure _) fun _ => .bind (blind_ensure _) fun _ => .ite (.pure _)
    (.bind (blind_demand _) fun _ => .bind (blind_pollForCopy _ _) fun _ => .pure _)

theorem blind_compare (x y : Value) : Blind (compare x y) := by
  have hcompare : compare x y = get >>= fun a =>
      (a.order x y).elim (fail (.incomparable x.className (a.comparand y))) pure := by
    unfold compare
    congr
    funext a
    cases a.order x y <;> rfl
  rw [hcompare]
  refine Blind.look (fun a => (a.order x y, a.comparand y))
    (k := fun p => p.1.elim (fail (.incomparable x.className p.2)) pure) ?_ ?_
  · intro a c hac
    have hinspect := (observations_ignore_stores hac.alike (.refl Body.fits_empty)
      (.refl Body.fits_empty) y y).2.2.2.2.2.2.2.2.2.2.1
    simp only [hac.alike.order]
    cases y <;> simp_all [Arena.comparand]
  · rintro ⟨o, text⟩
    cases o
    · exact Blind.throw _
    · exact Blind.pure _

end Action

/-! ## Sorting -/

namespace Sorting

variable {compare : Comparison} (h : ∀ x y, Blind (compare x y))

include h

theorem blind_selectLeast (xs : List Value) : ∀ x, Blind (selectLeast compare x xs) := by
  induction xs with
  | nil => exact fun x => .pure _
  | cons y ys ih =>
      intro x
      apply Blind.bind (h y x)
      intro o
      apply Blind.ite
      · exact .bind (ih y) fun _ => .pure _
      · exact .bind (ih x) fun _ => .pure _

theorem blind_bySelection (n : Nat) : ∀ xs, Blind (bySelection compare n xs) := by
  induction n with
  | zero => exact fun xs => .pure xs
  | succ n ih =>
      intro xs
      cases xs with
      | nil => exact .pure []
      | cons x xs =>
          apply Blind.bind (blind_selectLeast h xs x)
          exact fun _ => .bind (ih _) fun _ => .pure _

theorem blind_merge (out : Nat) (done xs ys : List Value) :
    Blind (merge compare out done xs ys) := by
  fun_induction merge compare out done xs ys with
  | case1 => exact .pure _
  | case2 => exact .pure _
  | case3 out done x xs y ys ih₁ ih₂ =>
      apply Blind.bind (Action.blind_pollAt out)
      intro _
      apply Blind.bind (h x y)
      exact fun _ => .ite ih₁ ih₂

theorem blind_byMerging (depth : Nat) : ∀ xs, Blind (byMerging compare depth xs) := by
  induction depth with
  | zero => exact fun xs => .pure xs
  | succ depth ih =>
      intro xs
      apply Blind.ite (.pure xs)
      exact .bind (ih _) fun _ => .bind (ih _) fun _ => blind_merge h _ _ _ _

end Sorting

namespace Body

theorem blind_copyForSort (b : Body) : Blind b.copyForSort := by
  have hnative : b.kind.forCopy.forMutation ≠ .native := by
    cases b.kind <;> simp [Kind.forCopy, Kind.forMutation]
  exact .bind (Action.blind_allocate hnative _) fun _ => Action.blind_copyTo _ _ _ _ _

theorem beside_of_blind {act : Action Body} (h : Blind act)
    (hnew : ∀ a, Ends act a (fun x _ => ∃ ys, x.New ys) fun _ _ => True) {a c : Arena}
    (hac : a.Twin c) : Beside (fun f _ => f.Fatal) act act a c
      (fun x y a' c' => x.Alike y ∧ a'.Twin c') Arena.Twin := by
  have hnew' (a : Arena) := (hnew a).mono_early
    fun f _ _ => Or.inr (a := f.Fatal) trivial
  apply ((h a c hac).ends (hnew' a) (hnew' c)).mono (fun _ _ hf => hf) ?_ fun _ _ h => h.1
  rintro x _ a' c' ⟨⟨rfl, hac'⟩, ⟨ys, hnew⟩, -⟩
  exact ⟨.refl hnew.shows.fits.loose, hac'⟩

theorem beside_sortBy {compare : Sorting.Comparison} (h : ∀ x y, Blind (compare x y)) (b : Body)
    {a c : Arena} (hac : a.Twin c) : Beside (fun f _ => f.Fatal) (b.sortBy compare)
      (b.sortBy compare) a c (fun x y a' c' => x.Alike y ∧ a'.Twin c') Arena.Twin := by
  have hsorted : Blind (do
      let _ ← Action.options
      Sorting.byMerging compare b.size b.toList) :=
    .bind Action.blind_options fun _ => Sorting.blind_byMerging h _ _
  unfold sortBy
  rw [← bind_assoc]
  apply Beside.bind (hsorted a c hac)
  rintro ys _ a c ⟨rfl, hac⟩
  have hnew (a : Arena) : Ends (Action.ofValues ys) a (fun x a' => a.Booked a' ∧ x.New ys)
      fun f _ => f.Fatal :=
    (Action.ends_ofValues ys fun _ _ => Fault.fatal_outOfMemory).weaken
      fun _ _ h => h.imp_right Body.Gathered.new
  apply Beside.of_ends (hnew a) (hnew c)
  rintro x y a' c' ⟨ha, hx⟩ ⟨hc, hy⟩
  refine ⟨⟨hx.shows.fits.loose, hy.shows.fits.loose, ?_⟩, hac.still ha.still hc.still⟩
  rw [hx.shows.toList, hy.shows.toList]

/-- Sorting gives the same elements in twin arenas.  Which way it goes is plain from the array, the
options and the operators. -/
theorem beside_sort {b : Body} (hfits : b.Fits False) {a c : Arena} (hac : a.Twin c) :
    Beside (fun f _ => f.Fatal) b.sort b.sort a c
      (fun x y a' c' => x.Alike y ∧ a'.Twin c') Arena.Twin := by
  unfold sort
  split
  · exact ⟨.refl fits_empty, hac⟩
  · rename_i hsize
    apply Beside.bind (Action.blind_options a c hac)
    rintro o _ a c ⟨rfl, hac⟩
    split
    · apply beside_of_blind _ _ hac
      · exact .bind b.blind_copyForSort fun _ => .bind
          (Sorting.blind_bySelection Action.blind_compare _ _) fun _ => Action.blind_demand _
      · exact fun a => (ends_sortSmall hfits hsize).weaken fun _ _ h => h.imp fun _ h => h.1
    · apply Beside.get
      have hallowed : a.numericSortAllowed = c.numericSortAllowed := by
        simp only [Arena.numericSortAllowed, Arena.isGenuine, hac.redefined]
      rw [hallowed]
      split
      · apply beside_of_blind _ _ hac
        · exact .bind b.blind_copyForSort fun _ => .bind (Action.blind_demand _)
            fun _ => Action.blind_demand _
        · exact fun a => (ends_sortNumbers hfits hsize).weaken fun _ _ h => h.imp fun _ h => h.1
      · exact beside_sortBy Action.blind_compare b hac

end Body

end AdaptiveArray
