import AdaptiveArray.Proofs.Writing

/-!
# Writes refine list operations

Each way of writing values into an array, as one operation on the list of its elements.
The array may have any store, its own or a window of a shared one, with anything in the
slots behind its elements.
-/

namespace AdaptiveArray

inductive Write where
  | push (v : Value)
  | pushAll (vs : List Value)
  | insert (index : Int64) (vs : List Value)
  | unshift (vs : List Value)
  | set (index : Int64) (v : Value)
  | fill (v : Value)

namespace Write

def edit : Write → Edit Unit
  | push v => Edit.push v
  | pushAll vs => Edit.pushAll vs
  | insert index vs => Edit.insert index vs
  | unshift vs => Edit.unshift vs
  | set index v => Edit.set index v
  | fill v => Edit.fill v

def values : Write → List Value
  | push v => [v]
  | pushAll vs => vs
  | insert _ vs => vs
  | unshift vs => vs
  | set _ v => [v]
  | fill v => [v]

def partly : Write → List Value
  | pushAll vs => vs
  | _ => []

/-- What becomes of a list of elements.  There is no result where the index lies before the
start. -/
def onList? (xs : List Value) : Write → Option (List Value)
  | push v => some (xs ++ [v])
  | pushAll vs => some (xs ++ vs)
  | insert index vs =>
      if vs = [] then some xs
      else (positionOf? (xs.length + 1) index).map fun position => splice xs position vs
  | unshift vs => some (vs ++ xs)
  | set index v => (positionOf? xs.length index).map fun position => overwrite xs position v
  | fill v => some (xs.map fun _ => v)

theorem writes {strict : Prop} {w : Workspace} (hfits : w.body.Fits strict) (write : Write) :
    Edit.Writes strict write.edit w write.partly (write.onList? w.body.toList) := by
  cases write with
  | push v => exact Edit.writes_push hfits v
  | pushAll vs => exact Edit.writes_pushAll hfits vs
  | insert index vs =>
      rw [onList?, Body.length_toList hfits]
      exact Edit.writes_insert hfits index vs
  | unshift vs => exact Edit.writes_unshift hfits vs
  | set index v =>
      rw [onList?, Body.length_toList hfits]
      exact Edit.writes_set hfits index v
  | fill v => exact Edit.writes_fill hfits v

theorem positionOf?_eq_none {n : Nat} {index : Int64} :
    positionOf? n index = none ↔ index.toInt < -n := by
  unfold positionOf?
  by_cases h : 0 ≤ index.toInt
  · rw [if_pos h]
    simp only [reduceCtorEq, false_iff]
    omega
  · rw [if_neg h]
    by_cases hn : index.toInt.natAbs ≤ n
    · rw [if_pos hn]
      simp only [reduceCtorEq, false_iff]
      omega
    · rw [if_neg hn]
      simp only [true_iff]
      omega

theorem onList?_eq_none {xs : List Value} {write : Write} : write.onList? xs = none ↔
    (∃ index vs, write = insert index vs ∧ vs ≠ [] ∧ index.toInt < -(xs.length + 1)) ∨
      ∃ index v, write = set index v ∧ index.toInt < -xs.length := by
  cases write with
  | insert index vs =>
      by_cases hvs : vs = []
      · simp [onList?, hvs]
      · have hpos : positionOf? (xs.length + 1) index = none ↔ _ := positionOf?_eq_none
        simp only [onList?, hvs, if_false, Option.map_eq_none_iff, hpos]
        constructor
        · exact fun h => .inl ⟨index, vs, rfl, hvs, by omega⟩
        · rintro (⟨_, _, hw, -, h⟩ | ⟨_, _, hw, -⟩)
          · cases hw
            omega
          · cases hw
  | set index v => simp [onList?, positionOf?_eq_none]
  | _ => simp [onList?]

/-- On an unfrozen array that fits, a write leaves exactly what the operation on lists gives.  It
raises an error just where that gives nothing, never breaks an internal check, and runs out of
memory only where a buffer for the way to the new size is larger than any memory. -/
theorem edit_refines_list {w : Workspace} (hfits : w.body.Fits False)
    (hfrozen : w.body.frozen = false) (hoptions : 1 ≤ w.arena.settings.uninitializedSize)
    (write : Write)
    (hsize : ∀ xs, write.onList? w.body.toList = some xs → xs.length ≤ maxSize) :
    Ends write.edit w
      (fun _ w' => w'.body.Fits False ∧ write.onList? w.body.toList = some w'.body.toList)
      (fun f _ => match f with
        | .raised _ => write.onList? w.body.toList = none
        | .outOfMemory => ∃ xs, write.onList? w.body.toList = some xs ∧
            ¬Element.object.allocatable (Edit.reach w xs.length)
        | .broken => False) ∧
    (write.onList? w.body.toList = none ↔
      (∃ index vs, write = insert index vs ∧ vs ≠ [] ∧
        index.toInt < -(w.body.toList.length + 1)) ∨
      ∃ index v, write = set index v ∧ index.toInt < -w.body.toList.length) := by
  refine ⟨(write.writes hfits).mono ?_ ?_, onList?_eq_none⟩
  · rintro _ w' ⟨xs, hxs, hbecomes⟩
    exact ⟨hbecomes.fits, by rw [hxs, hbecomes.toList]⟩
  · intro f w' h
    cases f with
    | raised e =>
        refine Option.eq_none_iff_forall_ne_some.mpr fun xs hxs => ?_
        rcases h.1 with hf | hbig
        · rw [hfrozen] at hf
          cases hf
        · have hle := hsize xs hxs
          have hlt := hbig xs hxs
          omega
    | outOfMemory => exact h
    | broken =>
        have hzero : w.arena.settings.uninitializedSize = 0 := h
        omega

/-- Three of four slots are in use, the last is stale, and nil is put before the last element. -/
theorem edit_refines_list_insert_nil :
    Ends (insert (-2) [.nil]).edit
      ⟨0, { store := .owned (.int #[1, 2, 3, 9]), size := 3 }, {}⟩
      (fun _ w' => w'.body.toList = [.int 1, .int 2, .nil, .int 3])
      (fun f _ => f = .outOfMemory) := by
  have hresult : (insert (-2) [.nil]).onList?
      (Body.toList { store := .owned (.int #[1, 2, 3, 9]), size := 3 }) =
        some [.int 1, .int 2, .nil, .int 3] := by decide +kernel
  have hfits : Body.Fits False { store := .owned (.int #[1, 2, 3, 9]), size := 3 } :=
    ⟨by decide, trivial, False.elim⟩
  refine (edit_refines_list hfits rfl (by decide) _ ?_).1.mono ?_ ?_
  · rw [hresult]
    rintro _ ⟨⟩
    decide
  · rintro _ w' ⟨-, h⟩
    rw [hresult] at h
    exact (Option.some.inj h).symm
  · intro f w' h
    cases f with
    | raised e => exact absurd (hresult.symm.trans h) (by simp)
    | outOfMemory => rfl
    | broken => exact h.elim

end Write

end AdaptiveArray
