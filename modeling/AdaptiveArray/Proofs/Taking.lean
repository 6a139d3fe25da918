import AdaptiveArray.Proofs.Parts
import AdaptiveArray.Proofs.Removal

/-!
# What is taken and what is left

Taking elements off an array parts its list in two: what is answered and what the array
keeps.  A slice and a duplicate leave the list alone.
-/

namespace AdaptiveArray

/-- The place that an index stands for, which need not lie inside an array of `n` elements.  A
negative index counts from the end. -/
def placeOf (n : Nat) (index : Int64) : Int :=
  if index.toInt < 0 then index.toInt + n else index.toInt

theorem Body.position?_eq_placeOf (b : Body) (index : Int64) : b.position? index =
    if placeOf b.size index < 0 then none else some (placeOf b.size index).toNat := by
  unfold Body.position? placeOf
  by_cases hneg : index.toInt < 0
  · rw [if_pos hneg, if_pos hneg]
    by_cases hin : index.toInt.natAbs ≤ b.size
    · rw [if_pos hin, if_neg (by omega)]
      congr 1
      omega
    · rw [if_neg hin, if_pos (by omega)]
  · rw [if_neg hneg, if_neg hneg, if_neg hneg]

structure Splits (xs : List Value) (k : Nat) (front back : Body) : Prop where
  front : front.Shows False (xs.take k)
  back : back.Shows False (xs.drop k)

theorem Splits.append {xs : List Value} {k : Nat} {front back : Body} (h : Splits xs k front back) :
    front.toList ++ back.toList = xs := by
  rw [h.front.toList, h.back.toList, List.take_append_drop]

namespace Edit

variable {w : Workspace}

theorem Denied.absurd {f : Fault} {w' : Workspace} {wrong : Prop} (h : Denied w wrong f w')
    (hopen : w.body.frozen = false) (hright : ¬wrong) : False := by
  rcases h.2 with hfrozen | hwrong
  · rw [hopen] at hfrozen
    cases hfrozen
  · exact hright hwrong

theorem pop_parts (hfits : w.body.Fits False) (hopen : w.body.frozen = false) :
    ∃ w', pop w = .ok (w.body.toList.getLast?.getD .nil) w' ∧
      w'.body.Shows False w.body.toList.dropLast := by
  have hlen := Body.length_toList hfits
  obtain ⟨v, w', hrun, ⟨hnone, rfl, rfl⟩ | ⟨-, hlast, s, hs, rfl⟩⟩ :=
    (ends_pop hfits).exists_ok fun f w' hf => hf.absurd hopen id
  · have hnil := Body.toList_of_size_eq_zero hfits hnone
    rw [hnil]
    exact ⟨_, hrun, hfits, hnil⟩
  · rw [← hlen, ← List.getLast?_eq_getElem?] at hlast
    refine ⟨_, by rw [hlast]; exact hrun, ?_⟩
    rw [List.dropLast_eq_take, hlen]
    exact hs.shows hfits (Nat.sub_le _ _)

theorem shift_parts (hfits : w.body.Fits False) (hopen : w.body.frozen = false) :
    ∃ w', shift w = .ok (w.body.toList.head?.getD .nil) w' ∧
      w'.body.Shows False w.body.toList.tail := by
  obtain ⟨v, w', hrun, ⟨hnone, rfl, rfl⟩ | ⟨-, hfirst, part, w₁, hshared, rfl⟩⟩ :=
    (ends_shift hfits).exists_ok fun f w' hf => hf.absurd hopen id
  · have hnil := Body.toList_of_size_eq_zero hfits hnone
    rw [hnil]
    exact ⟨_, hrun, hfits, hnil⟩
  · rw [← List.head?_eq_getElem?] at hfirst
    refine ⟨_, by rw [hfirst]; exact hrun, ?_⟩
    rw [← List.drop_one]
    exact hshared.rest hfits

theorem popN_parts (hfits : w.body.Fits False) (hopen : w.body.frozen = false) {count : Int64}
    (hcount : 0 ≤ count.toInt) : ∃ b w', popN count w = .ok b w' ∧ Splits w.body.toList
      (w.body.toList.length - min count.toInt.toNat w.body.toList.length) w'.body b := by
  have hlen := Body.length_toList hfits
  rw [hlen]
  obtain ⟨b, w', hrun, ⟨hnone, rfl, rfl⟩ |
      ⟨taken, part, s, htaken, hpart, rfl, hs, a, hbooked, rfl⟩⟩ :=
    (ends_popN hfits count).exists_ok fun f w' hf => hf.absurd hopen (by omega)
  · rw [hnone, Nat.sub_zero, ← hlen]
    refine ⟨_, _, hrun, ?_, ?_⟩
    · rw [List.take_length]
      exact hfits.shows
    · rw [List.drop_length]
      exact Body.shows_empty
  · have hle : taken ≤ w.body.size := htaken ▸ Nat.min_le_right _ _
    have hshows := Body.shows_part False hfits (Nat.le_refl _) hpart
    rw [show w.body.size - (w.body.size - taken) = taken by omega, List.take_of_length_le
      (by rw [List.length_drop]; omega)] at hshows
    rw [← htaken]
    exact ⟨_, _, hrun, hs.shows hfits (Nat.sub_le _ _), hshows⟩

theorem shiftN_parts (hfits : w.body.Fits False) (hopen : w.body.frozen = false) {count : Int64}
    (hcount : 0 ≤ count.toInt) : ∃ b w', shiftN count w = .ok b w' ∧
      Splits w.body.toList (min count.toInt.toNat w.body.toList.length) b w'.body := by
  rw [Body.length_toList hfits]
  obtain ⟨b, w', hrun, ⟨hnone, rfl, rfl⟩ |
      ⟨taken, part, rest, w₁, w₂, htaken, h₁, h₂, rfl, rfl⟩⟩ :=
    (ends_shiftN hfits count).exists_ok fun f w' hf => hf.absurd hopen (by omega)
  · rw [hnone]
    exact ⟨_, _, hrun, Body.shows_empty, hfits.shows⟩
  · have hle : taken ≤ w.body.size := htaken ▸ Nat.min_le_right _ _
    have hshows := h₁.shows False hfits hle
    -- the rest is taken from the store that the first part has left
    have hrest := (h₁.size ▸ h₂ : Shared False taken w₁.body.size w₁ rest w₂).rest h₁.fits
    rw [h₁.size, h₁.toList hfits] at hrest
    rw [← htaken]
    exact ⟨_, _, hrun, hshows, hrest⟩

theorem run_negative_count (hopen : w.body.frozen = false) {count : Int64}
    (hcount : count.toInt < 0) : popN count w = .error (.raised .negativeSize) w ∧
      shiftN count w = .error (.raised .negativeSize) w := by
  have hargument : countArgument count w = .error (.raised .negativeSize) w := by
    unfold countArgument
    rw [if_pos hcount]
    rfl
  have hsize : size w = .ok w.body.size w := rfl
  have hrun {k : Nat → Nat → Edit Body} :
      (size >>= fun n => countArgument count >>= fun m => k n m) w =
        .error (.raised .negativeSize) w :=
    (run_bind_of_ok hsize).trans (run_bind_of_error hargument)
  exact ⟨(run_checkFrozen_bind hopen _).trans hrun, (run_checkFrozen_bind hopen _).trans hrun⟩

theorem deleteAt_parts (hfits : w.body.Fits False) (hopen : w.body.frozen = false)
    (index : Int64) : ∃ v w', deleteAt index w = .ok v w' ∧
      if 0 ≤ placeOf w.body.toList.length index ∧
          placeOf w.body.toList.length index < w.body.toList.length then
        w.body.toList[(placeOf w.body.toList.length index).toNat]? = some v ∧
          w'.body.Shows False (w.body.toList.eraseIdx (placeOf w.body.toList.length index).toNat)
      else v = .nil ∧ w'.body = w.body := by
  have hlen := Body.length_toList hfits
  obtain ⟨v, w', hrun, ⟨hout, rfl, hsame⟩ | ⟨position, hposition, hv, hremoved⟩⟩ :=
    (ends_deleteAt hfits index).exists_ok fun f w' hf => by
      rw [hopen] at hf
      cases hf.2.1
  · refine ⟨_, w', hrun, ?_⟩
    rw [if_neg]
    · exact ⟨rfl, hsame⟩
    · rintro ⟨hstart, hend⟩
      rw [hlen] at hstart hend
      have hin := hout (placeOf w.body.size index).toNat
        (by rw [Body.position?_eq_placeOf, if_neg (by omega)])
      omega
  · refine ⟨v, w', hrun, ?_⟩
    obtain ⟨hlt, -⟩ := List.getElem?_eq_some_iff.mp hv
    rw [Body.position?_eq_placeOf, ← hlen] at hposition
    split at hposition
    case isTrue => cases hposition
    case isFalse hstart =>
        have hplace : (placeOf w.body.toList.length index).toNat = position :=
          Option.some.inj hposition
        rw [if_pos ⟨by omega, by omega⟩, hplace, List.eraseIdx_eq_take_drop_succ]
        exact ⟨hv, hremoved.fits, hremoved.toList⟩

theorem slice_parts (hfits : w.body.Fits False) (start length : Int64) :
    ∃ part w', slice start length w = .ok part w' ∧ w'.body.Shows False w.body.toList ∧
      if placeOf w.body.toList.length start < 0 ∨
          w.body.toList.length < placeOf w.body.toList.length start ∨ length.toInt < 0 then
        part = none
      else ∃ b, part = some b ∧ b.Shows False ((w.body.toList.drop
        (placeOf w.body.toList.length start).toNat).take length.toInt.toNat) := by
  have hlen := Body.length_toList hfits
  obtain ⟨part, w', hrun, ⟨rfl, rfl, hout⟩ |
      ⟨first, stop, part, hfirst, hlength, hle, hstop, hshared, rfl⟩⟩ :=
    (ends_slice hfits start length).exists_ok fun _ _ => id
  · refine ⟨_, _, hrun, hfits.shows, ?_⟩
    rw [if_pos]
    refine Decidable.not_not.mp fun hin => ?_
    rw [hlen] at hin
    have hwrong := hout (placeOf w'.body.size start).toNat
      (by rw [Body.position?_eq_placeOf, if_neg (by omega)])
    omega
  · refine ⟨_, w', hrun, ⟨hshared.fits, hshared.toList hfits⟩, ?_⟩
    rw [Body.position?_eq_placeOf, ← hlen] at hfirst
    split at hfirst
    case isTrue => cases hfirst
    case isFalse hstart =>
        have hplace : (placeOf w.body.toList.length start).toNat = first := Option.some.inj hfirst
        rw [if_neg (by omega), hplace]
        have hshows := hshared.shows False hfits (by omega)
        refine ⟨_, rfl, hshows.fits, hshows.toList.trans ?_⟩
        rw [List.take_eq_take_iff, List.length_drop]
        omega

theorem ends_dup_shows (hfits : w.body.Fits False) {early : Fault → Workspace → Prop} :
    Ends dup w (fun b w' => b.Shows False w.body.toList ∧ b.frozen = false ∧
      w'.body.Shows False w.body.toList ∧ w.arena.Booked w'.arena) early := by
  refine (ends_dup hfits).weaken ?_
  rintro _ w' (⟨hnone, rfl, rfl⟩ | ⟨part, hshared, rfl⟩)
  · refine ⟨?_, rfl, hfits.shows, .refl _⟩
    rw [Body.toList_of_size_eq_zero hfits hnone]
    exact Body.shows_empty
  · have hshows := hshared.shows False hfits (Nat.le_refl _)
    rw [List.drop_zero, Nat.sub_zero, List.take_of_length_le
      (Nat.le_of_eq (Body.length_toList hfits))] at hshows
    exact ⟨hshows, rfl, ⟨hshared.fits, hshared.toList hfits⟩, hshared.booked⟩

theorem dup_parts (hfits : w.body.Fits False) :
    ∃ b w', dup w = .ok b w' ∧ b.Shows False w.body.toList ∧ b.frozen = false ∧
      w'.body.Shows False w.body.toList := by
  obtain ⟨b, w', hrun, hb, hfrozen, hleft, -⟩ := (ends_dup_shows hfits).exists_ok fun _ _ => id
  exact ⟨b, w', hrun, hb, hfrozen, hleft⟩

/-- What the operations that take parts answer and what they leave, of an array in any store.  The
ends, and the element at an index, are taken off exactly, or there is nothing to take; a count takes
as many elements as there are, and is turned down if it is negative.  There is no slice if its start
lies before the array or past its end or its length is negative, and otherwise it has the elements
from the start on, as many as there are.  A slice and a duplicate leave all elements. -/
theorem parts_exact {w : Workspace} {xs : List Value} (h : w.body.Shows False xs) :
    (w.body.frozen = false →
      (∃ w', pop w = .ok (xs.getLast?.getD .nil) w' ∧ w'.body.Shows False xs.dropLast) ∧
      (∃ w', shift w = .ok (xs.head?.getD .nil) w' ∧ w'.body.Shows False xs.tail) ∧
      (∀ count : Int64, 0 ≤ count.toInt →
        (∃ b w', popN count w = .ok b w' ∧ w'.body.toList ++ b.toList = xs ∧
          Splits xs (xs.length - min count.toInt.toNat xs.length) w'.body b) ∧
        ∃ b w', shiftN count w = .ok b w' ∧ b.toList ++ w'.body.toList = xs ∧
          Splits xs (min count.toInt.toNat xs.length) b w'.body) ∧
      (∀ count : Int64, count.toInt < 0 → popN count w = .error (.raised .negativeSize) w ∧
        shiftN count w = .error (.raised .negativeSize) w) ∧
      ∀ index, ∃ v w', deleteAt index w = .ok v w' ∧
        if 0 ≤ placeOf xs.length index ∧ placeOf xs.length index < xs.length then
          xs[(placeOf xs.length index).toNat]? = some v ∧
            w'.body.Shows False (xs.eraseIdx (placeOf xs.length index).toNat)
        else v = .nil ∧ w'.body = w.body) ∧
    (∀ start length, ∃ part w', slice start length w = .ok part w' ∧ w'.body.Shows False xs ∧
      if placeOf xs.length start < 0 ∨ xs.length < placeOf xs.length start ∨ length.toInt < 0 then
        part = none
      else ∃ b, part = some b ∧
        b.Shows False ((xs.drop (placeOf xs.length start).toNat).take length.toInt.toNat)) ∧
    ∃ b w', dup w = .ok b w' ∧ b.Shows False xs ∧ b.frozen = false ∧ w'.body.Shows False xs := by
  obtain ⟨hfits, rfl⟩ := h
  refine ⟨fun hopen => ⟨pop_parts hfits hopen, shift_parts hfits hopen, fun count hcount => ?_,
    fun count hcount => run_negative_count hopen hcount, deleteAt_parts hfits hopen⟩,
    slice_parts hfits, dup_parts hfits⟩
  obtain ⟨b, w₁, hpop, hpopped⟩ := popN_parts hfits hopen hcount
  obtain ⟨c, w₂, hshift, hshifted⟩ := shiftN_parts hfits hopen hcount
  exact ⟨⟨b, w₁, hpop, hpopped.append, hpopped⟩, c, w₂, hshift, hshifted.append, hshifted⟩

/-- A view of more slots than the array has elements. -/
theorem parts_exact_view :
    let window : View := ⟨⟨0, .int #[9, 1, 2, 3, 7, 7]⟩, 1, 5⟩
    let w : Workspace := ⟨0, { store := .view window, size := 3 }, {}⟩
    (∃ w', pop w = .ok (.int 3) w' ∧ w'.body.toList = [.int 1, .int 2]) ∧
    (∃ b w', shiftN 2 w = .ok b w' ∧ b.toList = [.int 1, .int 2] ∧ w'.body.toList = [.int 3]) ∧
    (∃ v w', deleteAt (-2) w = .ok v w' ∧ v = .int 2 ∧ w'.body.toList = [.int 1, .int 3]) ∧
    ∃ b w', slice (-2) 9223372036854775807 w = .ok (some b) w' ∧ b.toList = [.int 2, .int 3] ∧
      w'.body.toList = [.int 1, .int 2, .int 3] := by
  intro window w
  have hfits : w.body.Fits False := .intro_view (by decide) (by change 1 + 5 ≤ 6; decide) rfl
  have hshows : w.body.Shows False [.int 1, .int 2, .int 3] := ⟨hfits, by decide +kernel⟩
  obtain ⟨hopen, hslice, -⟩ := parts_exact hshows
  obtain ⟨hpop, -, hcount, -, hdelete⟩ := hopen rfl
  obtain ⟨w₁, hpop, hleft⟩ := hpop
  obtain ⟨-, b, w₂, hshift, -, hsplits⟩ := hcount 2 (by decide)
  obtain ⟨v, w₃, hdelete, hdeleted⟩ := hdelete (-2)
  obtain ⟨part, w₄, hslice, hsame, hpart⟩ := hslice (-2) 9223372036854775807
  rw [if_pos (by decide)] at hdeleted
  rw [if_neg (by decide)] at hpart
  obtain ⟨c, rfl, hc⟩ := hpart
  refine ⟨⟨w₁, hpop, hleft.toList⟩, ⟨b, w₂, hshift, hsplits.front.toList, hsplits.back.toList⟩,
    ⟨v, w₃, hdelete, ?_, hdeleted.2.toList⟩, c, w₄, hslice, hc.toList, hsame.toList⟩
  exact (Option.some.inj hdeleted.1).symm

/-- No elements are taken by a negative count: it raises an error. -/
theorem popN_negative_raises :
    let w : Workspace := ⟨0, { store := .owned (.int #[1, 2, 3]), size := 3 }, {}⟩
    popN (-1) w = .error (.raised .negativeSize) w ∧ ¬∃ b w', popN (-1) w = .ok b w' := by
  intro w
  have hrun : popN (-1) w = .error (.raised .negativeSize) w := rfl
  refine ⟨hrun, fun ⟨b, w', hok⟩ => ?_⟩
  rw [hrun] at hok
  cases hok

end Edit

end AdaptiveArray
