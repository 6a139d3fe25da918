import AdaptiveArray.Proofs.Writing

/-!
# Appending whole arrays

The elements of the operands are laid one after the other behind those of the array, in a
store that is widened for all of them and grown once.
-/

namespace AdaptiveArray

theorem Store.Overlaid.written {strict : Prop} {d dst : Store} {b : Body} {start : Nat}
    (h : d.Overlaid b.store 0 dst start b.size) (hfits : b.Fits strict) :
    d.Written dst start b.toList := by
  refine ⟨h.kind, h.capacity, fun i => ?_⟩
  rw [h.slot, Body.length_toList hfits]
  by_cases hi : start ≤ i ∧ i < start + b.size
  · rw [if_pos hi, if_pos hi, Body.getElem?_toList_of_lt hfits (by omega), Nat.zero_add]
  · rw [if_neg hi, if_neg hi]

def totalSize : List Body → Nat
  | [] => 0
  | b :: rest => b.size + totalSize rest

theorem foldl_size (bodies : List Body) (n : Nat) :
    bodies.foldl (fun n b => n + b.size) n = n + totalSize bodies := by
  induction bodies generalizing n with
  | nil => rfl
  | cons b rest ih => rw [List.foldl_cons, ih, totalSize, Nat.add_assoc]

theorem totalSize_eq_zero {bodies : List Body} :
    totalSize bodies = 0 ↔ ∀ b ∈ bodies, b.size = 0 := by
  induction bodies with
  | nil => simp [totalSize]
  | cons b rest ih => rw [totalSize, List.forall_mem_cons, ← ih, Nat.add_eq_zero_iff]

theorem length_flatMap_toList {strict : Prop} {bodies : List Body}
    (hfits : ∀ b ∈ bodies, b.Fits strict) :
    (bodies.flatMap Body.toList).length = totalSize bodies := by
  induction bodies with
  | nil => rfl
  | cons b rest ih =>
      rw [List.flatMap_cons, List.length_append, Body.length_toList (hfits b List.mem_cons_self),
        ih fun x hx => hfits x (List.mem_cons_of_mem b hx), totalSize]

def Body.Narrow (b : Body) : Prop :=
  b.size ≠ 0 → b.kind.forMutation = Kind.narrowest (b.toList.map Kind.ofValue)

theorem Action.ends_copyAll {strict : Prop} {early : Fault → Arena → Prop} {bodies : List Body} :
    ∀ {a : Arena} {start : Nat} {dst : Store}, (∀ b ∈ bodies, b.Fits strict) → dst.isMutable →
      start + totalSize bodies ≤ dst.capacity →
      (∀ b ∈ bodies, b.size ≠ 0 → b.kind.widens dst.kind) →
      Ends (copyAll start bodies dst) a (fun d a' => a.Booked a' ∧
        d.Written dst start (bodies.flatMap Body.toList)) early := by
  induction bodies with
  | nil => exact fun _ _ _ _ => ⟨Arena.Booked.refl _, Store.written_nil _ _⟩
  | cons b rest ih =>
      intro a start dst hfits hmut hroom hwide
      have hb := hfits b List.mem_cons_self
      rw [totalSize] at hroom
      unfold copyAll
      refine Ends.bind (ends_copyTo hb.store
        (by rw [Nat.zero_add]; exact hb.size_le) hmut (by omega)
        (hwide b List.mem_cons_self)) ?_
      rintro d a' ⟨hbooked, hover⟩
      refine (ih (fun x hx => hfits x (List.mem_cons_of_mem b hx)) (hover.isMutable hmut)
        (by rw [hover.capacity]; omega) fun x hx hne => ?_).weaken ?_
      · rw [hover.kind]
        exact hwide x (List.mem_cons_of_mem b hx) hne
      · rintro d' a'' ⟨hbooked', hwritten⟩
        refine ⟨hbooked.trans hbooked', (hover.written hb).append ?_⟩
        rwa [Body.length_toList hb]

namespace Edit

variable {strict : Prop} {w : Workspace}

def appendedKind (k : Kind) (others : List Body) : Kind :=
  (others.filter fun b => !b.isEmpty).foldl (fun k b => k.forStore b.kind) k

private theorem widens_appendedKind {strict' : Prop} {others : List Body} (k : Kind)
    (hfits : ∀ b ∈ others, b.Fits strict') (hsome : totalSize others ≠ 0) :
    (appendedKind k others).isMutable ∧ k.widens (appendedKind k others) ∧
      ∀ b ∈ others, b.size ≠ 0 → b.kind.widens (appendedKind k others) := by
  have htarget : appendedKind k others =
      ((others.filter fun b => !b.isEmpty).map Body.kind).foldl Kind.forStore k := by
    rw [appendedKind, List.foldl_map]
  have hmem : ∀ b, b ∈ others.filter (fun b => !b.isEmpty) ↔ b ∈ others ∧ b.size ≠ 0 := by
    intro b
    simp [Body.isEmpty]
  have hne : ∀ l ∈ (others.filter fun b => !b.isEmpty).map Body.kind, l ≠ .empty := by
    intro l hl
    obtain ⟨b, hb, rfl⟩ := List.mem_map.mp hl
    exact Body.kind_ne_empty (hfits b ((hmem b).mp hb).1) ((hmem b).mp hb).2
  have hcons : (others.filter fun b => !b.isEmpty).map Body.kind ≠ [] := by
    intro hnil
    refine hsome (totalSize_eq_zero.mpr fun b hb => ?_)
    refine Decidable.byContradiction fun hb0 => ?_
    have hin := (hmem b).mpr ⟨hb, hb0⟩
    rw [List.map_eq_nil_iff.mp hnil] at hin
    cases hin
  obtain ⟨hmut, hwide, hall⟩ := Kind.foldl_forStore (k := k) hne fun h => absurd h hcons
  rw [htarget]
  exact ⟨hmut, hwide, fun b hb hb0 => hall _ (List.mem_map_of_mem ((hmem b).mpr ⟨hb, hb0⟩))⟩

private theorem ends_layBehind {strict' : Prop} {b : Body} {others : List Body} {target : Kind}
    {limit : Nat} {early : Fault → Workspace → Prop} (hfits : b.Fits strict)
    (hothers : ∀ c ∈ others, c.Fits strict')
    (hready : b.Ready strict target (b.size + totalSize others) limit w.body)
    (hmut : target.isMutable) (hwide : ∀ c ∈ others, c.size ≠ 0 → c.kind.widens target) :
    Ends (do
      let grown ← Action.copyAll b.size others (← takeStore)
      replaceStore grown (b.size + totalSize others) : Edit Unit) w
      (fun _ w' => b.Becomes strict (b.toList ++ others.flatMap Body.toList) limit w'.body ∧
        w'.body.kind = target) early := by
  have hsum := length_flatMap_toList hothers
  have hlen := Body.length_toList hfits
  have hroom : b.size + totalSize others ≤ w.body.store.capacity := hready.room
  have hkind : w.body.store.kind = target := hready.kind
  rw [ends_bind, ends_takeStore, ends_bind, ends_lift]
  refine (Action.ends_copyAll hothers (hready.isMutable hmut) hroom fun c hc hc0 => ?_).weaken ?_
  · rw [hkind]
    exact hwide c hc hc0
  · rintro grown a ⟨-, hwritten⟩
    rw [ends_replaceStore (by rw [hwritten.capacity]; exact hroom)]
    refine ⟨?_, hwritten.kind.trans hkind⟩
    refine hready.becomes (s := grown) hmut hwritten.kind hwritten.capacity
      (by rw [List.length_append, hlen, hsum]) (Nat.le_refl _) (Nat.le_add_right _ _)
      (fun i hi => ?_) fun i hi => ?_
    · rw [hwritten.slot, hsum, List.getElem?_append, hlen]
      by_cases hlow : i < b.size
      · rw [if_neg (by omega), if_pos hlow, hready.slot i hlow,
          Body.getElem?_toList_of_lt hfits hlow]
      · rw [if_pos (by omega), if_neg hlow]
    · rw [hwritten.slot, hsum, if_neg (by omega)]

/-- Appending widens the store once, for all operands that have elements. -/
theorem ends_concat {strict' : Prop} (hfits : w.body.Fits strict) {others : List Body}
    (hothers : ∀ b ∈ others, b.Fits strict') :
    Ends (concat others) w
      (fun _ w' => w.body.Becomes strict (w.body.toList ++ others.flatMap Body.toList)
          (reach w (w.body.size + totalSize others)) w'.body ∧
        w'.body.kind = appendedKind w.body.kind others)
      fun f w' => match f with
        | .raised _ => (w.body.frozen ∨ maxSize < w.body.size + totalSize others) ∧
            w'.body = w.body
        | .broken => False
        | .outOfMemory =>
            ¬Element.object.allocatable (reach w (w.body.size + totalSize others)) := by
  unfold concat
  rw [ends_bind, ends_checkFrozen]
  split
  case isTrue hfrozen => exact ⟨.inl hfrozen, rfl⟩
  case isFalse =>
      rw [ends_bind, ends_size, foldl_size, Nat.zero_add]
      dsimp only
      split
      case isTrue hnone =>
          have hempty := totalSize_eq_zero.mp hnone
          have hnil : others.flatMap Body.toList = [] :=
            List.length_eq_zero_iff.mp (by rw [length_flatMap_toList hothers, hnone])
          rw [hnil, List.append_nil, appendedKind, List.filter_eq_nil_iff.mpr fun b hb => by
            simp [Body.isEmpty, hempty b hb]]
          exact ⟨Body.Becomes.refl hfits (by unfold reach; omega), rfl⟩
      case isFalse hsome =>
          obtain ⟨hmut, hwide, hall⟩ := widens_appendedKind w.body.kind hothers hsome
          split
          case isTrue hbig => exact ⟨.inr hbig, rfl⟩
          case isFalse =>
              rw [ends_bind, ends_kind, ends_bind, ends_forM_propagateAll]
              refine Ends.bind (ends_ensureStorage (by simpa using hfits)
                (by rw [Workspace.body_foldl_offer]; exact hwide) hmut (by simp)
                fun h _ => by simpa using h) fun _ w' hready => ?_
              simp only [Workspace.body_foldl_offer, reach_foldl_offer] at hready
              exact ends_layBehind hfits hothers hready hmut hall

theorem writes_concat {strict' : Prop} (hfits : w.body.Fits strict) {others : List Body}
    (hothers : ∀ b ∈ others, b.Fits strict') :
    Writes strict (concat others) w []
      (some (w.body.toList ++ others.flatMap Body.toList)) := by
  unfold Writes
  simp only [Option.some.injEq, exists_eq_left', forall_eq', List.length_append,
    Body.length_toList hfits, length_flatMap_toList hothers]
  refine (ends_concat hfits hothers).mono (fun _ _ h => h.1) fun f w' h => ?_
  cases f with
  | raised e =>
      rw [h.2]
      exact ⟨h.1, .refl hfits⟩
  | broken => exact h.elim
  | outOfMemory => exact h

theorem foldl_forValue_flatMap {strict' : Prop} {others : List Body} (k : Kind)
    (hothers : ∀ b ∈ others, b.Fits strict') (hnarrow : ∀ b ∈ others, b.Narrow) :
    (others.flatMap Body.toList).foldl Kind.forValue k = appendedKind k others := by
  induction others generalizing k with
  | nil => rfl
  | cons b rest ih =>
      have hb := hothers b List.mem_cons_self
      have hrest := fun k => ih k (fun c hc => hothers c (List.mem_cons_of_mem b hc))
        fun c hc => hnarrow c (List.mem_cons_of_mem b hc)
      rw [List.flatMap_cons, List.foldl_append, hrest]
      by_cases hempty : b.size = 0
      case pos =>
          rw [Body.toList_of_size_eq_zero hb hempty, List.foldl_nil, appendedKind, appendedKind,
            List.filter_cons_of_neg (by simp [Body.isEmpty, hempty])]
      case neg =>
          have hne : b.toList ≠ [] := fun h => hempty (by rw [← Body.length_toList hb, h]; rfl)
          rw [Kind.foldl_forValue_eq k hne, ← hnarrow b List.mem_cons_self hempty,
            Kind.forStore_forMutation, appendedKind, appendedKind,
            List.filter_cons_of_pos (by simp [Body.isEmpty, hempty]), List.foldl_cons]

theorem Writes.ends_of_le {e : Edit Unit} {values xs : List Value}
    (h : Writes strict e w values (some xs)) (hopen : w.body.frozen = false)
    (hstart : w.arena.settings.uninitializedSize ≠ 0) (hle : xs.length ≤ maxSize) :
    Ends e w (fun _ w' => w'.body.toList = xs)
      fun f _ => f = .outOfMemory ∧ ¬Element.object.allocatable (reach w xs.length) := by
  refine h.mono ?_ fun f w' hf => ?_
  · rintro _ w' ⟨_, ⟨⟩, hbecomes⟩
    exact hbecomes.toList
  · cases f with
    | raised e =>
        rcases hf.1 with hfrozen | hbig
        · rw [hopen] at hfrozen
          cases hfrozen
        · exact absurd (hbig xs rfl) (Nat.not_lt_of_le hle)
    | broken => exact absurd hf hstart
    | outOfMemory =>
        obtain ⟨_, ⟨⟩, hroom⟩ := hf
        exact ⟨rfl, hroom⟩

/-- Appending whole arrays leaves the elements that pushing all of theirs one after the other
leaves, whatever the kinds.  Where the operands are narrow, which a native one with elements is not,
it also leaves the same kind.  If there is anything to append and the elements would be too many, it
answers with a range error. -/
theorem concat_matches_push {strict' : Prop} {others : List Body} (hfits : w.body.Fits strict)
    (hopen : w.body.frozen = false) (hothers : ∀ b ∈ others, b.Fits strict')
    (hstart : 1 ≤ w.arena.settings.uninitializedSize) :
    let vs := others.flatMap Body.toList
    (w.body.size + vs.length ≤ maxSize → ∀ e ∈ [concat others, pushAll vs],
      Ends e w (fun _ w' => w'.body.toList = w.body.toList ++ vs)
        fun f _ => f = .outOfMemory ∧
          ¬Element.object.allocatable (reach w (w.body.size + vs.length))) ∧
    ((∀ b ∈ others, b.Narrow) → ∀ w₁ w₂, concat others w = .ok () w₁ → pushAll vs w = .ok () w₂ →
      w₁.body.kind = w₂.body.kind) ∧
    (maxSize < w.body.size + vs.length → vs ≠ [] →
      ∃ e, concat others w = .error (.raised e) w ∧ e.family = .range) := by
  intro vs
  have hlen : (w.body.toList ++ vs).length = w.body.size + vs.length := by
    rw [List.length_append, Body.length_toList hfits]
  have hsum : vs.length = totalSize others := length_flatMap_toList hothers
  refine ⟨fun hle e he => ?_, fun hnarrow w₁ w₂ hrun₁ hrun₂ => ?_, fun hbig hsome => ?_⟩
  · rw [← hlen] at hle ⊢
    have hwrites : ∃ values, Writes strict e w values (some (w.body.toList ++ vs)) := by
      obtain rfl | rfl : e = concat others ∨ e = pushAll vs := by simpa using he
      · exact ⟨[], writes_concat hfits hothers⟩
      · exact ⟨vs, writes_pushAll hfits vs⟩
    obtain ⟨values, hwrites⟩ := hwrites
    exact hwrites.ends_of_le hopen (Nat.ne_of_gt hstart) hle
  · rw [((ends_concat hfits hothers).of_ok hrun₁).2, (ends_pushAll_widened hfits vs).of_ok hrun₂,
      foldl_forValue_flatMap w.body.kind hothers hnarrow]
  · have hne : totalSize others ≠ 0 := fun h =>
      hsome (List.length_eq_zero_iff.mp (hsum.trans h))
    have hends : Ends (concat others) w (fun _ _ => False)
        fun f w' => f = .raised .combinedSizeTooBig ∧ w' = w := by
      unfold concat
      rw [ends_bind, ends_checkFrozen, hopen, if_neg Bool.false_ne_true, ends_bind, ends_size,
        foldl_size, Nat.zero_add]
      dsimp only
      rw [if_neg hne, if_pos (hsum ▸ hbig)]
      exact ⟨rfl, rfl⟩
    obtain ⟨f, w', hrun, rfl, rfl⟩ := hends.exists_error fun _ _ => id
    exact ⟨.combinedSizeTooBig, hrun, rfl⟩

/-- Behind an integer come an array with no elements, a view of large integers and one of small
ones; either way the store is widened for the large ones. -/
theorem concat_matches_push_view :
    let empty : Body := { store := .owned (.double #[⟨0⟩]), size := 0 }
    let window : View := ⟨⟨0, .long #[0, 4294967296, 0]⟩, 1, 1⟩
    let others : List Body :=
      [empty, { store := .view window, size := 1 }, { store := .owned (.int #[2]), size := 1 }]
    let w : Workspace := ⟨0, { store := .owned (.int #[1]), size := 1 }, {}⟩
    ∃ w₁ w₂, concat others w = .ok () w₁ ∧
      pushAll [.int 4294967296, .int 2] w = .ok () w₂ ∧
      w₁.body.toList = [.int 1, .int 4294967296, .int 2] ∧ w₂.body.toList = w₁.body.toList ∧
      w₁.body.kind = w₂.body.kind := by
  intro empty window others w
  have hfits : w.body.Fits False := ⟨by decide, trivial, False.elim⟩
  have hothers : ∀ b ∈ others, b.Fits False := by
    have hview : Store.Fits (.view window) := by change 1 + 1 ≤ 3; decide
    simp only [others, List.forall_mem_cons]
    exact ⟨⟨by decide, trivial, False.elim⟩, ⟨by decide, hview, False.elim⟩,
      ⟨by decide, trivial, False.elim⟩, List.forall_mem_nil _⟩
  have hnarrow : ∀ b ∈ others, b.Narrow := by
    simp only [others, List.forall_mem_cons]
    exact ⟨fun h => absurd rfl h, fun _ => by decide +kernel, fun _ => by decide +kernel,
      List.forall_mem_nil _⟩
  have hroom : Element.object.allocatable (reach w (w.body.size + 2)) := by decide
  have hopen : w.body.frozen = false := rfl
  have hstart : 1 ≤ w.arena.settings.uninitializedSize := by decide
  have hlist : w.body.toList = [.int 1] := by decide +kernel
  have hsize : w.body.size + 2 ≤ maxSize := by decide
  have hvalues : others.flatMap Body.toList = [.int 4294967296, .int 2] := by decide +kernel
  clear_value w others
  have hmatches := concat_matches_push hfits hopen hothers hstart
  rw [hvalues, hlist] at hmatches
  obtain ⟨hends, hkind, -⟩ := hmatches
  obtain ⟨_, w₁, hrun₁, hlist₁⟩ := (hends hsize _ List.mem_cons_self).exists_ok
    fun _ _ hf => hf.2 hroom
  obtain ⟨_, w₂, hrun₂, hlist₂⟩ :=
    (hends hsize _ (List.mem_cons_of_mem _ List.mem_cons_self)).exists_ok fun _ _ hf => hf.2 hroom
  exact ⟨w₁, w₂, hrun₁, hrun₂, hlist₁, hlist₂.trans hlist₁.symm, hkind hnarrow w₁ w₂ hrun₁ hrun₂⟩

end Edit

end AdaptiveArray
