import AdaptiveArray.Proofs.Caution
import AdaptiveArray.Proofs.Concat
import AdaptiveArray.Proofs.Parts
import AdaptiveArray.Proofs.Removal
import AdaptiveArray.Proofs.Replacing
import AdaptiveArray.Proofs.Rotation

/-!
# One array in twin arenas

An edit leaves the same elements in an array wherever it is done among twin arenas.  One
run may take over a backing that the other has to copy, after which the capacities
differ; so the rules below compare arrays that have the same elements, not the same
stores.
-/

namespace AdaptiveArray

variable {α β : Type}

theorem Body.Alike.clone {b c : Body} (h : b.Alike c) : b.clone.Alike c.clone := by
  have hb := Body.shows_clone h.left
  have hc := Body.shows_clone h.right
  exact ⟨hb.fits, hc.fits, by rw [hb.toList, hc.toList, h.toList]⟩

/-- What can be told of an array: its elements, and whether it is frozen. -/
structure Body.Tells (xs : List Value) (frozen : Bool) (b : Body) : Prop where
  shows : b.Shows False xs
  frozen : b.frozen = frozen

theorem Body.Fits.tells {b : Body} (h : b.Fits False) : b.Tells b.toList b.frozen :=
  ⟨h.shows, rfl⟩

theorem Body.Becomes.tells {b b' : Body} {xs : List Value} {limit : Nat}
    (h : b.Becomes False xs limit b') : b'.Tells xs b.frozen :=
  ⟨⟨h.fits, h.toList⟩, h.frozen⟩

theorem Body.Tells.twin {b c : Body} {xs : List Value} {frozen : Bool} (hb : b.Tells xs frozen)
    (hc : c.Tells xs frozen) : b.Twin c where
  left := hb.shows.fits
  right := hc.shows.fits
  toList := hb.shows.toList.trans hc.shows.toList.symm
  frozen := hb.frozen.trans hc.frozen.symm

def Workspace.Twin : Workspace → Workspace → Prop := Workspace.Pair Body.Twin

theorem Workspace.Pair.twin {w v : Workspace} (h : w.Pair Eq v) (hfits : w.body.Fits False) :
    w.Twin v :=
  ⟨h.owner, h.body ▸ .refl hfits, h.arena⟩

namespace Edit

variable {r : Body → Body → Prop} {w v : Workspace} {excused : Fault → Workspace → Prop}
  {post : α → α → Workspace → Workspace → Prop} {early : Workspace → Workspace → Prop}

theorem beside_bodies {e e' : Edit α} {p q : Body → Prop} {r' : Body → Body → Prop}
    (hwv : w.Pair r v) (hw : Ends e w (fun _ w' => p w'.body) excused)
    (hv : Ends e' v (fun _ v' => q v'.body) excused)
    (hstill : Within (Workspace.Follows Arena.Still) e)
    (hstill' : Within (Workspace.Follows Arena.Still) e')
    (h : ∀ b c, p b → q c → r' b c) :
    Beside excused e e' w v (fun _ _ w' v' => w'.Pair r' v') early := by
  apply Beside.of_ends ((hw.and (hstill w)).mono_early fun _ _ h => h.1)
    ((hv.and (hstill' v)).mono_early fun _ _ h => h.1)
  rintro x y w' v' ⟨hx, howner, ha⟩ ⟨hy, howner', hc⟩
  exact ⟨howner.trans (hwv.owner.trans howner'.symm), h _ _ hx hy, hwv.arena.still ha hc⟩

def Paired (e : Edit α) : Prop :=
  ∀ w v : Workspace, w.Pair Eq v → w.body.Fits False →
    Beside (fun f _ => f.Fatal) e e w v (fun _ _ w' v' => w'.Twin v') Workspace.Twin

namespace Paired

theorem check {c : Edit α} {k : α → Edit β} (h : Check Arena.Still c) (hk : ∀ x, Paired (k x)) :
    Paired (c >>= k) := by
  intro w v hwv hfits
  have hc := (h.steady w v hwv).ends (h.unedited w)
    (h.unedited v)
  apply Beside.bind (hc.mono (fun _ _ h => h) (fun _ _ _ _ h => h) ?_) ?_
  · rintro w' v' ⟨hwv', hw, -⟩
    exact hwv'.twin (hw.body ▸ hfits)
  · rintro x _ w' v' ⟨⟨rfl, hwv'⟩, hw, -⟩
    exact hk x w' v' hwv' (hw.body ▸ hfits)

theorem of_cautious {e : Edit α} (xs : Body → List Value) (h : Cautious Arena.Still e)
    (hstill : Within (Workspace.Follows Arena.Still) e)
    (hends : ∀ w : Workspace, w.body.Fits False →
      Ends e w (fun _ w' => w'.body.Tells (xs w.body) w.body.frozen) fun _ _ => True) :
    Paired e := by
  intro w v hwv hfits
  have hrun (u : Workspace) (hu : u.body.Fits False) : Ends e u (fun _ u' =>
      u'.body.Tells (xs u.body) u.body.frozen ∧ Workspace.Follows Arena.Still u u')
      fun f u' => f.Fatal ∨ Workspace.Unedited Arena.Still u u' :=
    ((hends u hu).and ((hstill u).and (h.atomic u))).mono
      (fun _ _ h => ⟨h.1, h.2.1⟩) fun _ _ h => h.2.2
  apply ((h.concurs w v hwv).ends (hrun w hfits) (hrun v (hwv.body ▸ hfits))).mono
    (fun _ _ hf => hf)
  · rintro x y w' v' ⟨-, ⟨hw, howner, ha⟩, hv, howner', hc⟩
    rw [← hwv.body] at hv
    exact ⟨howner.trans (hwv.owner.trans howner'.symm), hw.twin hv, hwv.arena.still ha hc⟩
  · rintro w' v' ⟨hwv', hw, -⟩
    exact hwv'.twin (hw.body ▸ hfits)

theorem answer {e : Edit α} (h : Paired e) (f : α → β) : Paired (e >>= fun x => pure (f x)) := by
  intro w v hwv hfits
  exact Beside.bind (h w v hwv hfits) fun _ _ _ _ hwv' => hwv'

theorem pure (x : α) : Paired (Pure.pure x) := fun _ _ hwv hfits => hwv.twin hfits

theorem of_check {c : Edit α} (h : Check Arena.Still c) : Paired c := by
  have h' := Paired.check h fun x => Paired.pure x
  rwa [bind_pure] at h'

theorem ite {p : Prop} [Decidable p] {c d : Edit α} (hc : Paired c) (hd : Paired d) :
    Paired (if p then c else d) := by
  split
  · exact hc
  · exact hd

end Paired

/-! ## Writing -/

theorem Paired.of_writes {e : Edit Unit} {values : List Value}
    (result? : Body → Option (List Value)) (h : Cautious Arena.Still e)
    (hstill : Within (Workspace.Follows Arena.Still) e)
    (hwrites : ∀ w : Workspace, w.body.Fits False → Writes False e w values (result? w.body)) :
    Paired e := by
  apply Paired.of_cautious (fun b => (result? b).getD []) h hstill
  intro w hw
  apply (hwrites w hw).mono ?_ fun _ _ _ => trivial
  rintro _ w' ⟨xs, hxs, hbecomes⟩
  rw [hxs]
  exact hbecomes.tells

theorem paired_push (x : Value) : Paired (push x) :=
  .of_writes (fun b => some (b.toList ++ [x])) (cautious_push x) (within_push x)
    fun _ hw => writes_push hw x

theorem paired_insert (index : Int64) (vs : List Value) : Paired (insert index vs) :=
  .of_writes (fun b => if vs = [] then some b.toList else
      (positionOf? (b.size + 1) index).map fun position => splice b.toList position vs)
    (cautious_insert index vs) (within_insert index vs) fun _ hw => writes_insert hw index vs

theorem paired_unshift (vs : List Value) : Paired (unshift vs) :=
  .of_writes (fun b => some (vs ++ b.toList)) (cautious_unshift vs) (within_unshift vs)
    fun _ hw => writes_unshift hw vs

theorem paired_set (index : Int64) (x : Value) : Paired (set index x) :=
  .of_writes (fun b => (positionOf? b.size index).map fun position => overwrite b.toList position x)
    (cautious_set index x) (within_set index x) fun _ hw => writes_set hw index x

theorem paired_fill (x : Value) : Paired (fill x) :=
  .of_writes (fun b => some (b.toList.map fun _ => x)) (cautious_fill x) (within_fill x)
    fun _ hw => writes_fill hw x

theorem paired_concat {others : List Body} (hothers : ∀ b ∈ others, b.Fits False) :
    Paired (concat others) :=
  .of_writes (fun b => some (b.toList ++ others.flatMap Body.toList)) (cautious_concat others)
    (within_concat others) fun _ hw => writes_concat hw hothers

/-! ## Taking elements off, and turning round -/

theorem paired_rotate (count : Int64) : Paired (rotate count) := by
  apply Paired.of_cautious (fun b => rotated b.toList (rotationOf count b.size))
    (cautious_rotate count) (within_rotate count)
  intro w hw
  apply (ends_rotate hw count (fun _ => trivial) fun _ => trivial).weaken
  exact fun _ w' h => h.tells

def without (b : Body) (index : Int64) : List Value :=
  (b.position? index).elim b.toList fun position =>
    if position < b.size then b.toList.take position ++ b.toList.drop (position + 1) else b.toList

theorem paired_deleteAt (index : Int64) : Paired (deleteAt index) := by
  apply Paired.of_cautious (without · index) (cautious_deleteAt index) (within_deleteAt index)
  intro w hw
  apply (ends_deleteAt hw index).mono ?_ fun _ _ _ => trivial
  rintro _ w' (⟨hout, -, hsame⟩ | ⟨position, hposition, hv, hremoved⟩)
  · have hlist : without w.body index = w.body.toList := by
      unfold without
      cases hposition : w.body.position? index with
      | none => rfl
      | some position => exact if_neg (Nat.not_lt.mpr (hout position hposition))
    rw [hlist, hsame]
    exact ⟨hw.shows, rfl⟩
  · obtain ⟨hlt, -⟩ := List.getElem?_eq_some_iff.mp hv
    rw [Body.length_toList hw] at hlt
    simp only [without, hposition, Option.elim_some, if_pos hlt]
    exact Body.Becomes.tells hremoved

theorem paired_pop : Paired pop := by
  apply Paired.of_cautious (fun b => b.toList.take (b.size - 1)) cautious_pop within_pop
  intro w hw
  apply (ends_pop hw).mono ?_ fun _ _ _ => trivial
  rintro _ w' (⟨hnone, -, rfl⟩ | ⟨-, -, s, hs, rfl⟩)
  · rw [Body.toList_of_size_eq_zero hw hnone, List.take_nil]
    exact ⟨⟨hw, Body.toList_of_size_eq_zero hw hnone⟩, rfl⟩
  · exact ⟨hs.shows hw (Nat.sub_le _ _), rfl⟩

theorem paired_popN (count : Int64) : Paired (popN count) := by
  apply Paired.of_cautious (fun b => b.toList.take (b.size - min count.toInt.toNat b.size))
    (cautious_popN count) (within_popN count)
  intro w hw
  apply (ends_popN hw count).mono ?_ fun _ _ _ => trivial
  rintro _ w' (⟨hnone, -, rfl⟩ | ⟨taken, part, s, rfl, -, -, hs, a, -, rfl⟩)
  · rw [hnone, Nat.sub_zero, ← Body.length_toList hw, List.take_length]
    exact ⟨hw.shows, rfl⟩
  · exact ⟨hs.shows hw (Nat.sub_le _ _), rfl⟩

theorem paired_shift : Paired shift := by
  apply Paired.of_cautious (fun b => b.toList.drop 1) cautious_shift within_shift
  intro w hw
  apply (ends_shift hw).mono ?_ fun _ _ _ => trivial
  rintro _ w' (⟨hnone, -, rfl⟩ | ⟨-, -, part, w₁, hshared, rfl⟩)
  · rw [Body.toList_of_size_eq_zero hw hnone, List.drop_nil]
    exact ⟨⟨hw, Body.toList_of_size_eq_zero hw hnone⟩, rfl⟩
  · exact ⟨hshared.rest hw, hshared.frozen⟩

theorem paired_shiftN (count : Int64) : Paired (shiftN count) := by
  apply Paired.of_cautious (fun b => b.toList.drop (min count.toInt.toNat b.size))
    (cautious_shiftN count) (within_shiftN count)
  intro w hw
  apply (ends_shiftN hw count).mono ?_ fun _ _ _ => trivial
  rintro _ w' (⟨hnone, -, rfl⟩ | ⟨taken, part, rest, w₁, w₂, rfl, h₁, h₂, -, rfl⟩)
  · rw [hnone, List.drop_zero]
    exact ⟨hw.shows, rfl⟩
  · have hrest := (h₁.size ▸ h₂ : Shared False _ w₁.body.size w₁ rest w₂).rest h₁.fits
    rw [h₁.size, h₁.toList hw] at hrest
    exact ⟨hrest, h₂.frozen.trans h₁.frozen⟩

/-! ## Sharing and moving what is there -/

theorem Shared.tells {start stop : Nat} {part : Store} {w w' : Workspace}
    (h : Shared False start stop w part w') (hfits : w.body.Fits False) :
    w'.body.Tells w.body.toList w.body.frozen :=
  ⟨⟨h.fits, h.toList hfits⟩, h.frozen⟩

theorem Paired.of_same {e : Edit α} (h : Unfailing e)
    (hstill : Within (Workspace.Follows Arena.Still) e)
    (hends : ∀ w : Workspace, w.body.Fits False →
      Ends e w (fun _ w' => w'.body.Tells w.body.toList w.body.frozen) fun _ _ => True) :
    Paired e :=
  .of_cautious Body.toList (.change h) hstill hends

theorem ends_slice_tells {w : Workspace} (hw : w.body.Fits False) (start length : Int64)
    {early : Fault → Workspace → Prop} :
    Ends (slice start length) w (fun _ w' => w'.body.Tells w.body.toList w.body.frozen) early := by
  apply (ends_slice hw start length).weaken
  rintro _ w' (⟨-, rfl, -⟩ | ⟨first, stop, part, -, -, -, -, hshared, -⟩)
  · exact hw.tells
  · exact hshared.tells hw

theorem paired_slice (start length : Int64) : Paired (slice start length) :=
  .of_same (unfailing_slice start length) (within_slice start length)
    fun _ hw => ends_slice_tells hw start length

theorem ends_dup_tells {w : Workspace} (hw : w.body.Fits False) {early : Fault → Workspace → Prop} :
    Ends dup w (fun _ w' => w'.body.Tells w.body.toList w.body.frozen) early := by
  apply (ends_dup hw).weaken
  rintro _ w' (⟨-, -, rfl⟩ | ⟨part, hshared, -⟩)
  · exact hw.tells
  · exact hshared.tells hw

theorem paired_dup : Paired dup :=
  .of_same unfailing_dup within_dup fun _ hw => ends_dup_tells hw

theorem ends_extractShared_tells {w : Workspace} (hw : w.body.Fits False) (start stop : Nat)
    {early : Fault → Workspace → Prop} (hearly : early .broken w) :
    Ends (extractShared start stop) w
      (fun _ w' => w'.body.Tells w.body.toList w.body.frozen) early := by
  by_cases hin : start ≤ stop ∧ stop ≤ w.body.size
  · apply (ends_extractShared hw hin.1 hin.2).weaken
    exact fun _ w' hshared => hshared.tells hw
  · unfold extractShared
    rw [ends_bind, ends_size, ends_bind, ends_lift, Action.ends_ensure, if_neg (by simpa using hin)]
    exact hearly

theorem paired_extractShared (start stop : Nat) : Paired (extractShared start stop) :=
  .of_same (unfailing_extractShared start stop) (yields_extractShared start stop).within
    fun _ hw => ends_extractShared_tells hw start stop trivial

theorem paired_toNative : Paired toNative := by
  apply Paired.of_same unfailing_toNative within_toNative
  intro w hw
  apply (ends_toNative hw).mono ?_ fun _ _ _ => trivial
  exact fun _ w' h => h.tells

theorem paired_freeze : Paired freeze := by
  intro w v hwv hfits
  have hbody := hwv.body
  refine ⟨hwv.owner, ⟨⟨hfits.with_frozen true, ?_, ?_⟩, rfl⟩, hwv.arena⟩
  · exact (hbody ▸ hfits).with_frozen true
  · simp [hbody]

/-! ## Other elements altogether -/

theorem paired_clear : Paired clear := by
  apply Paired.of_cautious (fun _ => []) cautious_clear within_clear
  intro w _
  apply ends_clear.mono ?_ fun _ _ _ => trivial
  exact fun _ w' h => ⟨h.shows ⟨Body.fits_empty, rfl⟩, h.frozen⟩

theorem paired_restartFilled (n : Nat) (x : Value) : Paired (restartFilled n x) := by
  apply Paired.of_cautious (fun _ => List.replicate n x) (.change (unfailing_restartFilled n x))
    (within_restartFilled n x)
  intro w _
  apply (ends_restartFilled n x).mono ?_ fun _ _ _ => trivial
  rintro _ w' ⟨b, hnew, h⟩
  exact ⟨h.shows ⟨hnew.shows.fits.loose, hnew.shows.toList⟩, h.frozen⟩

theorem beside_replaceStore {b c : Body} (hbc : b.Alike c) (hwv : w.Twin v) :
    Beside excused (replaceStore b.store b.size) (replaceStore c.store c.size) w v
      (fun _ _ w' v' => w'.Twin v') early := by
  apply Beside.of_ends (p := fun _ w' => w' = w.replaced b.store b.size)
    (q := fun _ v' => v' = v.replaced c.store c.size)
  · rw [ends_replaceStore hbc.left.size_le]
  · rw [ends_replaceStore hbc.right.size_le]
  · rintro _ _ _ _ rfl rfl
    refine ⟨hwv.owner, ⟨⟨hbc.left.with_frozen _, hbc.right.with_frozen _, hbc.toList⟩,
      hwv.body.frozen⟩, ?_⟩
    exact hwv.arena.still (Arena.Booked.release _ _).still (Arena.Booked.release _ _).still

theorem beside_propagateAll (xs : List Value) (hwv : w.Pair r v) :
    Beside excused (propagateAll xs) (propagateAll xs) w v (fun _ _ w' v' => w'.Pair r v') early :=
  .forM (fun x _ _ h => beside_propagate x h) xs hwv

theorem beside_replace {b c : Body} (hbc : b.Alike c) (hwv : w.Twin v) :
    Beside excused (replace b) (replace c) w v (fun _ _ w' v' => w'.Twin v') Workspace.Twin := by
  apply beside_checkFrozen hwv.body.frozen hwv
  intro _ _
  rw [hbc.toList]
  apply Beside.bind (beside_propagateAll c.toList hwv)
  exact fun _ _ _ _ h => beside_replaceStore hbc h

theorem paired_replace {b : Body} (hb : b.Fits False) : Paired (replace b) :=
  fun _ _ hwv hfits => beside_replace (.refl hb) (hwv.twin hfits)

theorem paired_sort : Paired sort := by
  intro w v hwv hfits
  apply beside_checkFrozen (congrArg Body.frozen hwv.body) (hwv.twin hfits)
  intro _ _
  apply Beside.get
  rw [← hwv.body]
  apply Beside.bind (beside_action (Body.beside_sort hfits hwv.arena) (hwv.twin hfits))
  exact fun _ _ _ _ h => beside_replace h.1 h.2

theorem paired_steal (other : ArrayId) : Paired (steal other) := by
  intro w v hwv hfits
  have htwin := hwv.twin hfits
  have hfound : Beside (fun f _ => f.Fatal) (Action.demand (w.arena.body? other))
      (Action.demand (v.arena.body? other)) w.arena v.arena
      (fun x y a c => x.Twin y ∧ a.Twin c) Arena.Twin := by
    have hother := hwv.arena.body? other
    revert hother
    cases w.arena.body? other <;> cases v.arena.body? other <;> simp
    · exact .throw hwv.arena
    · exact fun hbc => ⟨hbc, hwv.arena⟩
  have hthawed {b c : Body} (hbc : b.Twin c) {a d : Arena} (had : a.Twin d) :
      Beside (fun f _ => f.Fatal) (Action.checkFrozen b) (Action.checkFrozen c) a d
        (fun _ _ a' d' => True ∧ a'.Twin d') Arena.Twin := by
    unfold Action.checkFrozen
    rw [hbc.frozen]
    split
    · exact .get (.throw had)
    · exact ⟨trivial, had⟩
  apply beside_checkFrozen htwin.body.frozen htwin
  intro _ _
  apply Beside.get
  apply Beside.bind (beside_action hfound htwin)
  rintro b c w v ⟨hbc, hwv⟩
  apply Beside.bind (beside_action (hthawed hbc hwv.arena) hwv)
  rintro _ _ w v ⟨-, hwv⟩
  rw [hbc.toList]
  apply Beside.bind (beside_propagateAll c.toList hwv)
  intro _ _ w v hwv
  apply Beside.modify
  apply beside_replaceStore hbc.toAlike
  refine ⟨hwv.owner, hwv.body, hwv.arena.setBody ⟨⟨?_, ?_, rfl⟩, hbc.frozen⟩⟩
  · exact Body.fits_empty.with_frozen _
  · exact Body.fits_empty.with_frozen _

theorem paired_restart (size? fill? : Option Value) : Paired (restart size? fill?) := by
  have hempty : Paired (replaceStore .empty 0) := fun w v hwv hfits =>
    beside_replaceStore (.refl Body.fits_empty) (hwv.twin hfits)
  have hfilled (n : Int64) : Paired (do restartFilled (← sizeArgument n) (fill?.getD .nil)) :=
    .check ⟨unedited_sizeArgument n, steady_sizeArgument n⟩ fun n => paired_restartFilled n _
  have hfail (e : ArrayError) {k : Unit → Edit Unit} (hk : ∀ x, Paired (k x)) :
      Paired ((Action.fail e : Action Unit) >>= k) :=
    .check ⟨unedited_fail e, steady_fail e⟩ hk
  apply Paired.check ⟨unedited_checkFrozen, steady_checkFrozen⟩
  intro _
  split
  · exact hempty
  · intro w v hwv hfits
    apply Beside.get
    rw [← hwv.owner]
    split
    · exact hwv.twin hfits
    · rcases hwv.arena.alike.readable ‹_› with ⟨hw, hv⟩ | ⟨b, c, hw, hv, hbc⟩
      · rw [hw, hv]
        exact .throw (hwv.twin hfits)
      · rw [hw, hv]
        exact beside_replace hbc.clone (hwv.twin hfits)
  · exact hfilled _
  · exact .ite (hfail _ fun _ => hfilled _) (hfilled _)
  · exact .of_check ⟨unedited_fail _, steady_fail _⟩

end Edit

end AdaptiveArray
