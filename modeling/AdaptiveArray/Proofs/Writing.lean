import AdaptiveArray.Proofs.EditFrame
import AdaptiveArray.Proofs.Readiness

/-!
# Writing elements

What pushing, inserting, overwriting and filling leave in an array, as operations on the
list of its elements.
-/

namespace AdaptiveArray

/-! ## The operations on lists -/

def splice (xs : List Value) (position : Nat) (vs : List Value) : List Value :=
  (xs.rightpad position .nil).take position ++ vs ++ xs.drop position

def overwrite (xs : List Value) (position : Nat) (v : Value) : List Value :=
  (xs.rightpad (position + 1) .nil).set position v

def positionOf? (n : Nat) (index : Int64) : Option Nat :=
  if 0 ≤ index.toInt then some index.toInt.toNat
  else if index.toInt.natAbs ≤ n then some (n - index.toInt.natAbs) else none

theorem Body.position?_eq (b : Body) (index : Int64) :
    b.position? index = positionOf? b.size index := by
  unfold Body.position? positionOf?
  by_cases h : index.toInt < 0
  · rw [if_pos h, if_neg (show ¬0 ≤ index.toInt by omega)]
  · rw [if_neg h, if_pos (show 0 ≤ index.toInt by omega)]

private theorem getElem?_rightpad (xs : List Value) (n i : Nat) :
    (xs.rightpad n .nil)[i]? = if i < xs.length then xs[i]? else
      if i < n then some .nil else none := by
  rw [List.rightpad, List.getElem?_append]
  by_cases hi : i < xs.length
  · rw [if_pos hi, if_pos hi]
  · rw [if_neg hi, if_neg hi, List.getElem?_replicate]
    by_cases hn : i < n
    · rw [if_pos (by omega), if_pos hn]
    · rw [if_neg (by omega), if_neg hn]

private theorem length_rightpad (xs : List Value) (n : Nat) :
    (xs.rightpad n .nil).length = max n xs.length := by
  simp only [List.rightpad, List.length_append, List.length_replicate]
  omega

theorem length_splice (xs : List Value) (position : Nat) (vs : List Value) :
    (splice xs position vs).length = max position xs.length + vs.length := by
  simp only [splice, List.length_append, List.length_take, List.length_drop, length_rightpad]
  omega

theorem getElem?_splice (xs : List Value) (position : Nat) (vs : List Value) (i : Nat) :
    (splice xs position vs)[i]? =
      if i < position then (if i < xs.length then xs[i]? else some .nil)
      else if i < position + vs.length then vs[i - position]? else xs[i - vs.length]? := by
  have hlen : ((xs.rightpad position .nil).take position).length = position := by
    rw [List.length_take, length_rightpad]
    omega
  rw [splice, List.append_assoc, List.getElem?_append, hlen]
  by_cases hi : i < position
  · rw [if_pos hi, if_pos hi, List.getElem?_take, if_pos hi, getElem?_rightpad, if_pos hi]
  · rw [if_neg hi, if_neg hi, List.getElem?_append]
    by_cases hv : i < position + vs.length
    · rw [if_pos (by omega), if_pos hv]
    · rw [if_neg (by omega), if_neg hv, List.getElem?_drop]
      congr 1
      omega

theorem length_overwrite (xs : List Value) (position : Nat) (v : Value) :
    (overwrite xs position v).length = max (position + 1) xs.length := by
  rw [overwrite, List.length_set, length_rightpad]

theorem getElem?_overwrite (xs : List Value) (position : Nat) (v : Value) (i : Nat) :
    (overwrite xs position v)[i]? =
      if i = position then some v else
      if i < xs.length then xs[i]? else if i < position then some .nil else none := by
  rw [overwrite, List.getElem?_set, length_rightpad]
  by_cases hi : i = position
  · subst hi
    rw [if_pos rfl, if_pos (by omega), if_pos rfl]
  · rw [if_neg (Ne.symm hi), if_neg hi, getElem?_rightpad]
    by_cases hlen : i < xs.length
    · rw [if_pos hlen, if_pos hlen]
    · rw [if_neg hlen, if_neg hlen]
      by_cases hp : i < position
      · rw [if_pos (by omega), if_pos hp]
      · rw [if_neg (by omega), if_neg hp]

theorem overwrite_of_lt {xs : List Value} {position : Nat} (h : position < xs.length) (v : Value) :
    overwrite xs position v = xs.set position v := by
  rw [overwrite, List.rightpad, Nat.sub_eq_zero_of_le h, List.replicate_zero, List.append_nil]

def Arena.Unset (a b : Arena) : Prop := b.settings = a.settings

instance : Arena.Frame Arena.Unset where
  refl _ := rfl
  trans h h' := Eq.trans h' h
  booked h := h.settings
  shareValue := Arena.settings_shareValue

/-- `s` is `t` with a gap for `count` values at a position among the elements `xs`.  What stood
behind it was moved up, and a position behind the last element is reached through nils. -/
structure Store.Opened (s t : Store) (xs : List Value) (position count : Nat) : Prop where
  kind : s.kind = t.kind
  capacity : s.capacity = t.capacity
  old : ∀ i, i < xs.length → s.get? (if i < position then i else i + count) = xs[i]?
  pad : ∀ i, xs.length ≤ i → i < position → s.get? i = some .nil
  rest : ∀ i, max position xs.length + count ≤ i → s.get? i = t.get? i

theorem Store.Opened.get?_of_written {s t u : Store} {xs vs : List Value} {position i : Nat}
    (h : s.Opened t xs position vs.length) (hu : u.Written s position vs)
    (hi : i < max position xs.length + vs.length) : u.get? i = (splice xs position vs)[i]? := by
  rw [hu.slot, getElem?_splice]
  by_cases hlow : i < position
  · rw [if_neg (by omega), if_pos hlow]
    by_cases hx : i < xs.length
    · rw [if_pos hx, ← h.old i hx, if_pos hlow]
    · rw [if_neg hx, h.pad i (by omega) hlow]
  · rw [if_neg hlow]
    by_cases hmid : i < position + vs.length
    · rw [if_pos ⟨by omega, hmid⟩, if_pos hmid]
    · rw [if_neg (by omega), if_neg hmid, ← h.old (i - vs.length) (by omega), if_neg (by omega),
        Nat.sub_add_cancel (by omega)]

namespace Edit

/-- The edit makes the elements `result?`.  It fails on a frozen array, if there is no result, and
if that is too large; then only elements among the `values` have been added.  It breaks only if
arrays may start with no room at all. -/
def Writes (strict : Prop) (e : Edit Unit) (w : Workspace) (values : List Value)
    (result? : Option (List Value)) : Prop :=
  Ends e w
    (fun _ w' => ∃ xs, result? = some xs ∧
      w.body.Becomes strict xs (reach w xs.length) w'.body)
    fun f w' => match f with
      | .raised _ => (w.body.frozen ∨ ∀ xs, result? = some xs → maxSize < xs.length) ∧
          w.body.Left strict values w'.body
      | .broken => w.arena.settings.uninitializedSize = 0
      | .outOfMemory => ∃ xs, result? = some xs ∧ ¬Element.object.allocatable (reach w xs.length)

variable {strict : Prop} {w : Workspace} {early : Fault → Workspace → Prop}

@[simp] theorem settings_offer (w : Workspace) (v : Value) :
    (w.offer v).arena.settings = w.arena.settings := by
  unfold Workspace.offer Arena.offer
  split
  · exact Arena.settings_shareValue _ _
  · rfl

@[simp] theorem settings_foldl_offer (vs : List Value) (w : Workspace) :
    (vs.foldl Workspace.offer w).arena.settings = w.arena.settings := by
  induction vs generalizing w with
  | nil => rfl
  | cons v vs ih => rw [List.foldl_cons, ih, settings_offer]

@[simp] theorem reach_offer (w : Workspace) (v : Value) (n : Nat) :
    reach (w.offer v) n = reach w n := by
  simp [reach]

@[simp] theorem reach_foldl_offer (vs : List Value) (w : Workspace) (n : Nat) :
    reach (vs.foldl Workspace.offer w) n = reach w n := by
  simp [reach]

/-! ## Pushing -/

private theorem ends_writeLast {b : Body} {target : Kind} {limit : Nat} {v : Value}
    (hfits : b.Fits strict) (hready : b.Ready strict target (b.size + 1) limit w.body)
    (hmut : target.isMutable) (hholds : target.holds v) :
    Ends (setSlot b.size v >>= fun _ => setSize (b.size + 1)) w
      (fun _ w' => b.Becomes strict (b.toList ++ [v]) limit w'.body ∧ w'.body.kind = target)
      early := by
  have hroom : b.size < w.body.store.capacity := hready.room
  have hkind : w.body.store.kind = target := hready.kind
  have hadmits : w.body.store.admits b.size v :=
    Store.admits_of_holds (hready.isMutable hmut) (hkind ▸ hholds) hroom
  rw [ends_bind, ends_setSlot hadmits, ends_setSize (by simpa using Nat.succ_le_of_lt hroom)]
  refine ⟨?_, (Store.kind_set _ _ _).trans hkind⟩
  refine hready.becomes (s := w.body.store.set b.size v) hmut (Store.kind_set _ _ _)
    (Store.capacity_set _ _ _) (by simp [Body.length_toList hfits]) (Nat.le_refl _)
    (Nat.le_succ _) (fun i hi => ?_) fun i hi => ?_
  · rw [Store.get?_set hadmits, List.getElem?_append, Body.length_toList hfits]
    by_cases hlt : i < b.size
    · rw [if_neg (by omega), if_pos hlt, hready.slot i hlt, Body.getElem?_toList_of_lt hfits hlt]
    · have hi' : i = b.size := by omega
      subst hi'
      rw [if_pos rfl, if_neg hlt, Nat.sub_self]
      rfl
  · rw [Store.get?_set hadmits, if_neg (by omega)]

/-- A push widens the store for its value.  It fails on a frozen array and on one that is full and
as large as arrays may be.  It breaks only where there is no room yet and arrays may start
without. -/
theorem ends_push_widened (hfits : w.body.Fits strict) (v : Value) :
    Ends (push v) w
      (fun _ w' =>
        w.body.Becomes strict (w.body.toList ++ [v]) (reach w (w.body.size + 1)) w'.body ∧
        w'.body.kind = w.body.kind.forValue v)
      fun f w' => match f with
        | .raised _ => (w.body.frozen ∨ w.body.size = w.body.capacity ∧ maxSize ≤ w.body.size) ∧
            w'.body = w.body
        | .broken => w.arena.settings.uninitializedSize = 0 ∧ w.body.capacity = 0
        | .outOfMemory => ¬Element.object.allocatable (reach w (w.body.size + 1)) := by
  have hmut := Kind.isMutable_forValue w.body.kind v
  have hholds := Kind.holds_forValue w.body.kind v
  have hwide := Kind.widens_forValue w.body.kind v
  unfold push
  simp only [ends_bind, ends_checkFrozen, ends_propagate, ends_size, ends_kind, ends_capacity,
    Workspace.body_offer]
  split
  case isTrue hfrozen => exact ⟨.inl hfrozen, trivial⟩
  case isFalse =>
      by_cases hfull : w.body.size = w.body.capacity
      · rw [if_pos hfull]
        simp only [ends_bind, ends_lift]
        refine (Action.ends_capacityForOneMore _).weaken ?_
        rintro room a ⟨-, hroom⟩
        rw [settings_offer] at hroom
        split
        case isTrue hbig => exact ⟨.inr ⟨hfull, Nat.le_of_lt_succ hbig⟩, Workspace.body_offer w v⟩
        case isFalse hbig =>
            have hmax : w.body.size < UInt64.size - 1 := by
              have hword : maxSize < UInt64.size - 1 := by decide
              omega
            have hlimit : room ≤ reach w (w.body.size + 1) := by
              rw [hroom]
              refine Nat.le_trans Options.capacityForOneMore_le ?_
              unfold reach
              omega
            refine Ends.bind (ends_reallocate strict (by simpa using hfits)
              (by simpa using hwide) hmut
              (by simpa [hroom] using Options.le_capacityForOneMore hmax)
              fun h _ h' => h (Element.allocatable_of_le h' hlimit)) fun _ w' hready => ?_
            simp only [Workspace.body_withArena, Workspace.body_offer] at hready
            by_cases hlt : w.body.size < room
            · exact ends_writeLast hfits (hready.mono hlt hlimit) hmut hholds
            · -- Only where arrays may start with no room at all does growing make none.
              have hextent := hready.extent
              rw [Store.extent_of_isMutable (hready.isMutable hmut)] at hextent
              have hrefused : ¬w'.body.store.admits w.body.size v := fun h => by
                have := Store.lt_of_admits h
                omega
              have hstart : ¬(w.arena.settings.uninitializedSize ≠ 0 ∨ w.body.size ≠ 0) :=
                fun h => hlt (hroom ▸ Options.lt_capacityForOneMore h hmax)
              rw [ends_bind, ends_setSlot_ite, if_neg hrefused, ← hfull]
              omega
      · rw [if_neg hfull]
        refine Ends.bind (ends_ensureStorage (by simpa using hfits)
          (by simpa using hwide) hmut (by simp) fun h _ => by simpa using h)
          fun _ w' hready => ?_
        simp only [Workspace.body_offer, reach_offer] at hready
        exact ends_writeLast hfits hready hmut hholds

theorem ends_push (hfits : w.body.Fits strict) (v : Value) :
    Ends (push v) w
      (fun _ w' => w.body.Becomes strict (w.body.toList ++ [v]) (reach w (w.body.size + 1)) w'.body)
      fun f w' => match f with
        | .raised _ => (w.body.frozen ∨ w.body.size = w.body.capacity ∧ maxSize ≤ w.body.size) ∧
            w'.body = w.body
        | .broken => w.arena.settings.uninitializedSize = 0 ∧ w.body.capacity = 0
        | .outOfMemory => ¬Element.object.allocatable (reach w (w.body.size + 1)) :=
  (ends_push_widened hfits v).weaken fun _ _ h => h.1

theorem writes_push (hfits : w.body.Fits strict) (v : Value) :
    Writes strict (push v) w [] (some (w.body.toList ++ [v])) := by
  have hlen : (w.body.toList ++ [v]).length = w.body.size + 1 := by
    rw [List.length_append, Body.length_toList hfits]
    rfl
  unfold Writes
  simp only [Option.some.injEq, exists_eq_left', forall_eq', hlen]
  refine (ends_push hfits v).mono_early fun f w' h => ?_
  cases f with
  | raised e =>
      have hleft : w.body.Left strict [] w'.body := by
        rw [h.2]
        exact .refl hfits
      exact ⟨h.1.imp_right fun hbig => Nat.lt_succ_of_le hbig.2, hleft⟩
  | broken => exact h.1
  | outOfMemory => exact h

theorem reach_le {n n' : Nat} {b : Body} {xs : List Value} {w' : Workspace}
    (hsettings : w'.arena.settings = w.arena.settings)
    (h : b.Becomes strict xs (reach w n) w'.body) (hle : n ≤ n') : reach w' n' ≤ reach w n' := by
  have hextent := h.extent
  unfold reach at hextent ⊢
  rw [hsettings]
  omega

/-- One write after another.  An error of the later one leaves in place what the first one added. -/
theorem Writes.bind {e e' : Edit Unit} {xs ys values : List Value} (added : List Value)
    (h : Writes strict e w [] (some xs)) (hwithin : Within (Workspace.Follows Arena.Unset) e)
    (hadded : ∀ v ∈ xs, v ∈ w.body.toList ∨ v ∈ added ∨ v.arrayId? = none)
    (hle : xs.length ≤ ys.length)
    (h' : ∀ {w' : Workspace}, w'.body.Fits strict → w'.body.toList = xs →
      Writes strict e' w' values (some ys)) :
    Writes strict (e >>= fun _ => e') w (added ++ values) (some ys) := by
  have hreach : reach w xs.length ≤ reach w ys.length := by
    unfold reach
    omega
  refine Ends.bind ((Ends.and h (hwithin w)).mono_early fun f w' hf => ?_) ?_
  · cases f with
    | raised e =>
        obtain ⟨⟨hwhy, hleft⟩, -⟩ := hf
        refine ⟨hwhy.imp_right fun hbig ys' hys => ?_, hleft.mono fun _ hx => nomatch hx⟩
        cases hys
        exact Nat.lt_of_lt_of_le (hbig _ rfl) hle
    | broken => exact hf.1
    | outOfMemory =>
        obtain ⟨⟨_, hxs, hroom⟩, -⟩ := hf
        cases hxs
        exact ⟨_, rfl, fun h => hroom (Element.allocatable_of_le h hreach)⟩
  · rintro _ w' ⟨⟨_, hxs, hbecomes⟩, -, hsettings⟩
    cases hxs
    have hlimit : reach w' ys.length ≤ reach w ys.length := reach_le hsettings hbecomes hle
    refine (h' hbecomes.fits hbecomes.toList).mono ?_ fun f w'' hf => ?_
    · rintro _ w'' ⟨_, hys, hlater⟩
      cases hys
      exact ⟨_, rfl, (hbecomes.mono hreach).trans (hlater.mono hlimit)⟩
    · cases f with
      | raised e =>
          rw [hbecomes.frozen] at hf
          exact ⟨hf.1, (hbecomes.left hadded).trans hf.2⟩
      | broken => exact (congrArg Options.uninitializedSize hsettings).symm.trans hf
      | outOfMemory =>
          obtain ⟨_, hys, hroom⟩ := hf
          cases hys
          exact ⟨_, rfl, fun h => hroom (Element.allocatable_of_le h hlimit)⟩

theorem writes_forM_push (vs : List Value) : ∀ {w : Workspace}, w.body.Fits strict →
    Writes strict (vs.forM push) w vs (some (w.body.toList ++ vs)) := by
  induction vs with
  | nil =>
      intro w hfits
      rw [List.append_nil]
      exact ⟨_, rfl, Body.Becomes.refl hfits (by unfold reach; omega)⟩
  | cons v vs ih =>
      intro w hfits
      refine Writes.bind [v] (writes_push hfits v) (within_push v) (fun x hx => ?_)
        (by simp) fun hfits' hlist => ?_
      · exact (List.mem_append.mp hx).imp_right .inl
      · have hrest := ih hfits'
        rwa [hlist, List.append_assoc] at hrest

theorem writes_pushAll (hfits : w.body.Fits strict) (vs : List Value) :
    Writes strict (pushAll vs) w vs (some (w.body.toList ++ vs)) := by
  unfold Writes pushAll
  rw [ends_bind, ends_checkFrozen]
  split
  case isTrue hfrozen => exact ⟨.inl hfrozen, .refl hfits⟩
  case isFalse => exact writes_forM_push vs hfits

theorem ends_pushAll_widened (hfits : w.body.Fits strict) (vs : List Value) :
    Ends (pushAll vs) w (fun _ w' => w'.body.kind = vs.foldl Kind.forValue w.body.kind)
      fun _ _ => True := by
  have hpush (vs : List Value) : ∀ {w : Workspace}, w.body.Fits strict → Ends (vs.forM push) w
      (fun _ w' => w'.body.kind = vs.foldl Kind.forValue w.body.kind) fun _ _ => True := by
    induction vs with
    | nil => exact fun _ => rfl
    | cons v vs ih =>
        intro w hfits
        refine Ends.bind ((ends_push_widened hfits v).mono_early fun _ _ _ => trivial) ?_
        rintro _ w' ⟨hbecomes, hkind⟩
        have hrest := ih hbecomes.fits
        rwa [hkind] at hrest
  unfold pushAll
  rw [ends_bind, ends_checkFrozen]
  split
  · trivial
  · exact hpush vs hfits

/-! ## Inserting and overwriting -/

private theorem ends_openGap {b : Body} {target : Kind} {limit position count : Nat}
    (hfits : b.Fits strict)
    (hready : b.Ready strict target (max position b.size + count) limit w.body)
    (hmut : target.isMutable) (hnil : b.size < position → target.holds .nil)
    {rest : Unit → Edit Unit} {post : Unit → Workspace → Prop}
    (hrest : ∀ s, s.Opened w.body.store b.toList position count →
      Ends (rest ()) (w.withStore s) post early) :
    Ends (if position < b.size
      then moveSlots position (position + count) (b.size - position) >>= rest
      else clearSlots b.size position >>= rest) w post early := by
  have hroom : max position b.size + count ≤ w.body.store.capacity := hready.room
  have hwmut := hready.isMutable hmut
  have hkind : w.body.store.kind = target := hready.kind
  have hlen := Body.length_toList hfits
  have hold : ∀ i, i < b.size → w.body.store.get? i = b.toList[i]? := fun i hi =>
    (hready.slot i hi).trans (Body.getElem?_toList_of_lt hfits hi).symm
  split
  case isTrue hlt =>
      have hsrc : position + (b.size - position) ≤ w.body.store.capacity := by omega
      have hdst : position + count + (b.size - position) ≤ w.body.store.capacity := by omega
      rw [ends_bind, ends_moveSlots (Store.canMove_of_le hwmut hsrc hdst)]
      refine hrest _ ⟨Store.kind_move hwmut _ _ _, Store.capacity_move hwmut _ _ _, fun i hi => ?_,
        fun i hi hp => by omega, fun i hi => ?_⟩
      · rw [Store.get?_move hwmut hsrc hdst]
        by_cases hlow : i < position
        · rw [if_pos hlow, if_neg (by omega), hold i (by omega)]
        · rw [if_neg hlow, if_pos (by omega), ← hold i (by omega)]
          congr 1
          omega
      · rw [Store.get?_move hwmut hsrc hdst, if_neg (by omega)]
  case isFalse hge =>
      rw [ends_bind]
      refine ends_clearSlots (fun _ => hwmut) (Nat.le_trans (by omega) hroom) ?_
      intro s hskind hscapacity hslot _
      refine hrest s ⟨hskind, hscapacity, fun i hi => ?_, fun i hi hp => ?_, fun i hi => ?_⟩
      · rw [if_pos (by omega), hslot, if_neg (by omega), hold i (by omega)]
      · rw [hslot, if_pos (by omega), Store.zero_of_holds_nil hwmut
          (by rw [hkind]; exact hnil (by omega))]
      · rw [hslot, if_neg (by omega)]

private theorem ends_writeSplice {b : Body} {target : Kind} {limit position : Nat} {vs : List Value}
    (hfits : b.Fits strict)
    (hready : b.Ready strict target (max position b.size + vs.length) limit w.body)
    (hmut : target.isMutable) (hholds : ∀ v ∈ vs, target.holds v)
    (hnil : b.size < position → target.holds .nil) :
    Ends (spliceSlots position b.size vs) w
      (fun _ w' => b.Becomes strict (splice b.toList position vs) limit w'.body) early := by
  have hroom : max position b.size + vs.length ≤ w.body.store.capacity := hready.room
  have hkind : w.body.store.kind = target := hready.kind
  have hlen := Body.length_toList hfits
  refine ends_openGap hfits hready hmut hnil fun s hs => ?_
  refine Ends.bind (ends_setSlots (w := w.withStore s) ?_ ?_ ?_) ?_
  · exact Store.isMutable_of_kind hs.kind (hready.isMutable hmut)
  · intro v hv
    rw [Workspace.body_withStore, Body.kind_mk, hs.kind, hkind]
    exact hholds v hv
  · rw [Workspace.body_withStore, Body.capacity_mk, hs.capacity]
    omega
  · rintro _ _ ⟨t, rfl, ht⟩
    have hcapacity : t.capacity = w.body.store.capacity := ht.capacity.trans hs.capacity
    rw [ends_setSize (by
      simp only [Workspace.body_withStore, Body.capacity_mk, hcapacity]
      exact hroom)]
    refine hready.becomes (s := t) hmut (ht.kind.trans hs.kind) hcapacity
      (by rw [length_splice, hlen]) (Nat.le_refl _) (by omega) (fun i hi => ?_) fun i hi => ?_
    · exact hs.get?_of_written ht (by rwa [hlen])
    · rw [ht.slot, if_neg (by omega)]
      exact hs.rest i (by rwa [hlen])

theorem writes_insertAt (hfits : w.body.Fits strict) (position : Nat) {vs : List Value}
    (hvs : vs ≠ []) :
    Writes strict (insertAt position vs) w [] (some (splice w.body.toList position vs)) := by
  have hlen : (splice w.body.toList position vs).length = max position w.body.size + vs.length := by
    rw [length_splice, Body.length_toList hfits]
  -- A position behind the end is reached through nils, which the store has to hold, too.
  let padded := if w.body.size < position then w.body.kind.forValue .nil else w.body.kind
  have hpadded : w.body.kind.widens padded ∧
      (w.body.size < position → padded.isMutable ∧ padded.holds .nil) := by
    by_cases hp : w.body.size < position
    · simp only [padded, if_pos hp]
      exact ⟨Kind.widens_forValue _ _, fun _ =>
        ⟨Kind.isMutable_forValue _ _, Kind.holds_forValue _ _⟩⟩
    · simp only [padded, if_neg hp]
      exact ⟨Kind.widens_refl _, fun h => absurd h hp⟩
  obtain ⟨hmut, hwide, hholds⟩ := Kind.foldl_forValue (k := padded) fun h => absurd h hvs
  have hwide' : w.body.kind.widens (vs.foldl Kind.forValue padded) := by
    by_cases hp : padded = .empty
    · have hk : w.body.kind = .empty := by
        by_cases hpos : w.body.size < position
        · rw [hp] at hpadded
          have := (hpadded.2 hpos).1
          cases this
        · simpa only [padded, if_neg hpos] using hp
      rw [hk]
      rfl
    · exact Kind.widens_trans hp hpadded.1 hwide
  unfold Writes insertAt
  simp only [ends_bind, ends_size, Option.some.injEq, exists_eq_left', forall_eq', hlen]
  split
  case isTrue hbig => exact ⟨.inr hbig, .refl hfits⟩
  case isFalse =>
      rw [ends_bind, ends_kind, ends_bind, ends_propagateAll]
      refine Ends.bind (ends_ensureStorage (by simpa using hfits)
        (by simpa using hwide') hmut (by simp only [Workspace.body_foldl_offer]; omega)
        fun h _ => by simpa using h) fun _ w' hready => ?_
      simp only [Workspace.body_foldl_offer, reach_foldl_offer] at hready
      exact ends_writeSplice hfits hready hmut hholds fun hp =>
        Kind.holds_of_widens hmut hwide (hpadded.2 hp).2

theorem Writes.of_frozen {e : Edit Unit} {values : List Value} {result? : Option (List Value)}
    (hfits : w.body.Fits strict) (h : w.body.frozen = false → Writes strict e w values result?) :
    Writes strict (checkFrozen >>= fun _ => e) w values result? := by
  unfold Writes
  rw [ends_bind, ends_checkFrozen]
  split
  case isTrue hfrozen => exact ⟨.inl hfrozen, .refl hfits⟩
  case isFalse hfrozen => exact h (by simpa using hfrozen)

theorem Writes.nothing {values : List Value} (hfits : w.body.Fits strict) :
    Writes strict (pure ()) w values (some w.body.toList) :=
  ⟨_, rfl, Body.Becomes.refl hfits (by unfold reach; omega)⟩

theorem Writes.fail {e : ArrayError} {values : List Value} (hfits : w.body.Fits strict) :
    Writes strict (liftM (Action.fail e : Action Unit)) w values none :=
  ⟨.inr fun _ h => (nomatch h), .refl hfits⟩

theorem insert_at_index (index : Int64) (vs : List Value) (n : Nat) :
    (if index.toInt < 0 then
        if index.toInt + n + 1 < 0 then
          liftM (Action.fail (.indexTooSmall index.toInt (n + 1)) : Action Unit) >>= fun _ =>
            insertAt (index.toInt + n + 1).toNat vs
        else insertAt (index.toInt + n + 1).toNat vs
      else insertAt index.toInt.toNat vs) =
      match positionOf? (n + 1) index with
      | some position => insertAt position vs
      | none => liftM (Action.fail (.indexTooSmall index.toInt (n + 1)) : Action Unit) := by
  unfold positionOf?
  by_cases hindex : index.toInt < 0
  · rw [if_pos hindex, if_neg (show ¬0 ≤ index.toInt by omega)]
    by_cases hposition : index.toInt + n + 1 < 0
    · rw [if_pos hposition, if_neg (by omega)]
      rfl
    · rw [if_neg hposition, if_pos (by omega)]
      dsimp only
      congr 1
      omega
  · rw [if_neg hindex, if_pos (show 0 ≤ index.toInt by omega)]

theorem writes_insert (hfits : w.body.Fits strict) (index : Int64) (vs : List Value) :
    Writes strict (insert index vs) w [] (if vs = [] then some w.body.toList else
      (positionOf? (w.body.size + 1) index).map fun position =>
        splice w.body.toList position vs) := by
  refine Writes.of_frozen hfits fun _ => ?_
  by_cases hvs : vs = []
  · subst hvs
    exact Writes.nothing hfits
  · have hempty : vs.isEmpty = false := by simpa using hvs
    rw [if_neg hvs, hempty]
    unfold Writes
    rw [if_neg Bool.false_ne_true, ends_bind, ends_size]
    dsimp only
    rw [insert_at_index]
    cases positionOf? (w.body.size + 1) index with
    | none => exact Writes.fail hfits
    | some position => exact writes_insertAt hfits position hvs

theorem writes_unshift (hfits : w.body.Fits strict) (vs : List Value) :
    Writes strict (unshift vs) w [] (some (vs ++ w.body.toList)) := by
  refine Writes.of_frozen hfits fun _ => ?_
  by_cases hvs : vs = []
  · subst hvs
    exact Writes.nothing hfits
  · have hempty : vs.isEmpty = false := by simpa using hvs
    rw [hempty]
    have h := writes_insertAt hfits 0 hvs
    simpa [splice] using h

theorem ends_overwriteSlot {b : Body} {target : Kind} {limit position : Nat} {v : Value}
    (hfits : b.Fits strict) (hready : b.Ready strict target b.size limit w.body)
    (hmut : target.isMutable) (hholds : target.holds v) (hlt : position < b.size) :
    Ends (setSlot position v) w
      (fun _ w' => b.Becomes strict (overwrite b.toList position v) limit w'.body) early := by
  have hroom : b.size ≤ w.body.store.capacity := hready.room
  have hkind : w.body.store.kind = target := hready.kind
  have hadmits : w.body.store.admits position v :=
    Store.admits_of_holds (hready.isMutable hmut) (hkind ▸ hholds) (by omega)
  rw [ends_setSlot hadmits]
  refine hready.becomes_in_place (s := w.body.store.set position v) hmut (Store.kind_set _ _ _)
    (Store.capacity_set _ _ _) ?_ (Nat.le_refl _) (fun i hi => ?_) fun i hi => ?_
  · rw [length_overwrite, Body.length_toList hfits]
    omega
  · rw [Store.get?_set hadmits, getElem?_overwrite, Body.length_toList hfits, if_pos hi,
      Body.getElem?_toList_of_lt hfits hi, hready.slot i hi]
  · rw [Store.get?_set hadmits, if_neg (by omega)]

private theorem ends_writeBeyond {b : Body} {target : Kind} {limit position : Nat} {v : Value}
    (hfits : b.Fits strict) (hready : b.Ready strict target (position + 1) limit w.body)
    (hmut : target.isMutable) (hholds : target.holds v)
    (hnil : b.size < position → target.holds .nil) (hle : b.size ≤ position) :
    Ends (do
      clearSlots b.size position
      setSlot position v
      setSize (position + 1) : Edit Unit) w
      (fun _ w' => b.Becomes strict (overwrite b.toList position v) limit w'.body) early := by
  have hroom : position + 1 ≤ w.body.store.capacity := hready.room
  have hkind : w.body.store.kind = target := hready.kind
  have hwmut := hready.isMutable hmut
  rw [ends_bind]
  refine ends_clearSlots (fun _ => hwmut) (Nat.le_trans (Nat.le_succ _) hroom) ?_
  intro s hskind hscapacity hslot _
  have hscapacity' : s.capacity = w.body.store.capacity := hscapacity
  have hadmits : s.admits position v := by
    refine Store.admits_of_holds (Store.isMutable_of_kind hskind hwmut) ?_ (by omega)
    rw [hskind, hready.kind]
    exact hholds
  rw [ends_bind, ends_setSlot (w := w.withStore s) hadmits, ends_setSize (by
    simp only [Workspace.body_withStore, Body.capacity_mk, Store.capacity_set]
    omega)]
  refine hready.becomes (s := s.set position v) hmut ((Store.kind_set _ _ _).trans hskind)
    ((Store.capacity_set _ _ _).trans hscapacity) ?_ (Nat.le_refl _) (by omega)
    (fun i hi => ?_) fun i hi => ?_
  · rw [length_overwrite, Body.length_toList hfits]
    omega
  · rw [Store.get?_set hadmits, getElem?_overwrite, Body.length_toList hfits, hslot]
    by_cases hlast : i = position
    · rw [if_pos hlast, if_pos hlast]
    · rw [if_neg hlast, if_neg hlast]
      by_cases hb : i < b.size
      · rw [if_neg (by omega), if_pos hb, hready.slot i hb, Body.getElem?_toList_of_lt hfits hb]
      · rw [if_pos (by omega), if_neg hb, if_pos (by omega), Store.zero_of_holds_nil hwmut
          (by rw [hkind]; exact hnil (by omega))]
  · rw [Store.get?_set hadmits, if_neg (by omega), hslot, if_neg (by omega)]

theorem writes_set (hfits : w.body.Fits strict) (index : Int64) (v : Value) :
    Writes strict (set index v) w []
      ((positionOf? w.body.size index).map fun position => overwrite w.body.toList position v) := by
  refine Writes.of_frozen hfits fun _ => ?_
  have hmut := Kind.isMutable_forValue w.body.kind v
  have hholds := Kind.holds_forValue w.body.kind v
  have hwide := Kind.widens_forValue w.body.kind v
  unfold Writes
  rw [ends_bind, ends_size, ends_bind, ends_get, Body.position?_eq]
  split
  case h_1 hnone =>
      rw [hnone]
      exact Writes.fail hfits
  case h_2 position hposition =>
      rw [hposition]
      have hlen : (overwrite w.body.toList position v).length = max (position + 1) w.body.size := by
        rw [length_overwrite, Body.length_toList hfits]
      simp only [Option.map_some, Option.some.injEq, exists_eq_left', forall_eq', hlen]
      rw [ends_bind, ends_propagate, ends_bind, ends_kind, Workspace.body_offer]
      split
      case isTrue hlt =>
          have hmax : max (position + 1) w.body.size = w.body.size := by omega
          rw [hmax]
          refine Ends.bind (ends_ensureStorage (by simpa using hfits)
            (by simpa using hwide) hmut (by simp) fun h _ => by simpa using h)
            fun _ w' hready => ?_
          simp only [Workspace.body_offer, reach_offer] at hready
          exact ends_overwriteSlot hfits hready hmut hholds hlt
      case isFalse hge =>
          have hmax : max (position + 1) w.body.size = position + 1 := by omega
          rw [hmax]
          split
          case isTrue hbig =>
              have hleft : w.body.Left strict [] (w.offer v).body := by
                rw [Workspace.body_offer]
                exact .refl hfits
              exact ⟨.inr hbig, hleft⟩
          case isFalse =>
              let padded := if w.body.size < position
                then (w.body.kind.forValue v).forValue .nil else w.body.kind.forValue v
              have hpadded : padded.isMutable ∧ (w.body.kind.forValue v).widens padded ∧
                  (w.body.size < position → padded.holds .nil) := by
                by_cases hp : w.body.size < position
                · simp only [padded, if_pos hp]
                  exact ⟨Kind.isMutable_forValue _ _, Kind.widens_forValue _ _,
                    fun _ => Kind.holds_forValue _ _⟩
                · simp only [padded, if_neg hp]
                  exact ⟨hmut, Kind.widens_refl _, fun h => absurd h hp⟩
              have hwide' : w.body.kind.widens padded :=
                Kind.widens_trans (Kind.forValue_ne_empty _ _) hwide hpadded.2.1
              refine Ends.bind (ends_ensureStorage
                (by simpa using hfits) (by simpa using hwide') hpadded.1 (by simp; omega)
                fun h _ => by simpa using h) fun _ w' hready => ?_
              simp only [Workspace.body_offer, reach_offer] at hready
              exact ends_writeBeyond hfits hready hpadded.1
                (Kind.holds_of_widens hpadded.1 hpadded.2.1 hholds) hpadded.2.2 (by omega)

theorem writes_fill (hfits : w.body.Fits strict) (v : Value) :
    Writes strict (fill v) w [] (some (w.body.toList.map fun _ => v)) := by
  refine Writes.of_frozen hfits fun _ => ?_
  have hmut := Kind.isMutable_forValue w.body.kind v
  have hholds := Kind.holds_forValue w.body.kind v
  have hwide := Kind.widens_forValue w.body.kind v
  have hlen := Body.length_toList hfits
  unfold Writes
  simp only [Option.some.injEq, exists_eq_left', forall_eq', List.length_map, hlen]
  rw [ends_bind, ends_size]
  split
  case isTrue hsize =>
      rw [Body.toList_of_size_eq_zero hfits hsize]
      have hlimit : w.body.store.extent ≤ reach w w.body.size := by unfold reach; omega
      have h := Body.Becomes.refl hfits hlimit
      rwa [Body.toList_of_size_eq_zero hfits hsize] at h
  case isFalse =>
      rw [ends_bind, ends_propagate, ends_bind, ends_kind, Workspace.body_offer]
      refine Ends.bind (ends_ensureStorage (by simpa using hfits)
        (by simpa using hwide) hmut (by simp) fun h _ => by simpa using h) fun _ w' hready => ?_
      simp only [Workspace.body_offer, reach_offer] at hready
      rw [ends_bind, ends_lift]
      refine (Action.ends_pollOver _).weaken fun _ a _ => ?_
      have hroom : w.body.size ≤ w'.body.store.capacity := hready.room
      refine (ends_setSlots (w := w'.withArena a) (hready.isMutable hmut) ?_ ?_).weaken ?_
      · intro x hx
        rw [List.eq_of_mem_replicate hx, Workspace.body_withArena, hready.kind]
        exact hholds
      · rw [List.length_replicate, Nat.zero_add]
        exact hroom
      · rintro _ w'' ⟨s, rfl, hs⟩
        refine hready.becomes_in_place (s := s) hmut hs.kind hs.capacity
          (by rw [List.length_map, hlen]) (Nat.le_refl _) (fun i hi => ?_) fun i hi => ?_
        · rw [hs.slot, List.length_replicate, if_pos (by omega), List.getElem?_map,
            List.getElem?_replicate, if_pos (by omega), List.getElem?_eq_getElem (by omega)]
          rfl
        · rw [hs.slot, List.length_replicate, if_neg (by omega)]
          rfl

end Edit

end AdaptiveArray
