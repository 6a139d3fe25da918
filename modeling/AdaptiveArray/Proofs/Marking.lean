import AdaptiveArray.Sharing
import AdaptiveArray.Proofs.Storage

/-!
# Marking objects

Sharing a value sets marks of array objects and does nothing else: no body, no lock and
no other part of the arena changes, and no mark is taken away.
-/

namespace AdaptiveArray

namespace Arena

theorem object?_modifyObject (a : Arena) (id : ArrayId) (change : ArrayObject → ArrayObject)
    (j : ArrayId) : (a.modifyObject id change).object? j =
      if j = id then (a.object? j).map change else a.object? j := by
  simp only [object?, modifyObject, Array.getElem?_modify]
  by_cases hj : id = j
  · subst hj
    rw [if_pos rfl, if_pos rfl]
    cases a.objects[id]? with
    | none => rfl
    | some o => cases o <;> rfl
  · rw [if_neg hj, if_neg (Ne.symm hj)]

@[simp] theorem size_modifyObject (a : Arena) (id : ArrayId)
    (change : ArrayObject → ArrayObject) :
    (a.modifyObject id change).objects.size = a.objects.size := by
  simp [modifyObject]

end Arena

structure ArrayObject.Remarked (o o' : ArrayObject) : Prop where
  body : o'.body = o.body
  lock : o'.lock = o.lock
  shared : o.shared → o'.shared
  sharePending : o.sharePending → o'.sharePending

theorem ArrayObject.Remarked.refl (o : ArrayObject) : o.Remarked o :=
  ⟨rfl, rfl, id, id⟩

theorem ArrayObject.Remarked.trans {o o' o'' : ArrayObject} (h : o.Remarked o')
    (h' : o'.Remarked o'') : o.Remarked o'' :=
  ⟨h'.body.trans h.body, h'.lock.trans h.lock, h'.shared ∘ h.shared,
    h'.sharePending ∘ h.sharePending⟩

namespace Arena

structure Remarked (a b : Arena) : Prop where
  rest : b = { a with objects := b.objects }
  size : b.objects.size = a.objects.size
  none : ∀ id, a.object? id = none → b.object? id = none
  some : ∀ id o, a.object? id = some o → ∃ o', b.object? id = some o' ∧ o.Remarked o'

namespace Remarked

variable {a b c : Arena}

theorem refl (a : Arena) : a.Remarked a :=
  ⟨rfl, rfl, fun _ h => h, fun _ o h => ⟨o, h, .refl o⟩⟩

theorem trans (h : a.Remarked b) (h' : b.Remarked c) : a.Remarked c where
  rest := by
    have hc := h'.rest
    rw [h.rest] at hc
    exact hc
  size := h'.size.trans h.size
  none id hid := h'.none id (h.none id hid)
  some id o ho := by
    obtain ⟨o', ho', hm⟩ := h.some id o ho
    obtain ⟨o'', ho'', hm'⟩ := h'.some id o' ho'
    exact ⟨o'', ho'', hm.trans hm'⟩

theorem modifyObject (a : Arena) (id : ArrayId) {change : ArrayObject → ArrayObject}
    (hchange : ∀ o : ArrayObject, o.Remarked (change o)) :
    a.Remarked (a.modifyObject id change) where
  rest := rfl
  size := size_modifyObject a id change
  none j hj := by
    rw [object?_modifyObject, hj]
    split <;> rfl
  some j o ho := by
    rw [object?_modifyObject, ho]
    split
    · exact ⟨change o, rfl, hchange o⟩
    · exact ⟨o, rfl, .refl o⟩

theorem markShared (a : Arena) (id : ArrayId) : a.Remarked (a.markShared id) :=
  modifyObject a id fun _ => ⟨rfl, rfl, fun _ => rfl, fun h => h⟩

theorem requestShareWalk (a : Arena) (id : ArrayId) : a.Remarked (a.requestShareWalk id) :=
  modifyObject a id fun _ => ⟨rfl, rfl, fun h => h, fun _ => rfl⟩

theorem shareArray (a : Arena) (id : ArrayId) : a.Remarked (a.shareArray id).1 := by
  unfold Arena.shareArray
  split
  · exact refl a
  · exact markShared a id

theorem shareItems (vs : List Value) (a : Arena) (pending : List ArrayId) :
    a.Remarked (a.shareItems pending vs).1 := by
  fun_induction Arena.shareItems a pending vs with
  | case1 => exact refl _
  | case2 a pending id rest a' heq ih =>
      have h := shareArray a id
      rw [heq] at h
      exact h.trans ih
  | case3 a pending id rest a' heq ih =>
      have h := shareArray a id
      rw [heq] at h
      exact h.trans ih
  | case4 a pending v rest hv ih => exact ih

theorem shareWalk (steps : Nat) (pending : List ArrayId) (a : Arena) :
    a.Remarked (Arena.shareWalk steps pending a) := by
  fun_induction Arena.shareWalk steps pending a with
  | case1 => exact refl _
  | case2 => exact refl _
  | case3 steps id pending a _ ih => exact (requestShareWalk a id).trans ih
  | case4 steps id pending a b _ a' pending' heq ih =>
      have h := shareItems b.toList a pending
      rw [heq] at h
      exact h.trans ih

theorem shareElements (a : Arena) (id : ArrayId) : a.Remarked (a.shareElements id) :=
  shareWalk _ _ a

theorem shareValue (a : Arena) (v : Value) : a.Remarked (a.shareValue v) := by
  cases v with
  | array id =>
      have h := shareArray a id
      simp only [Arena.shareValue]
      split
      case h_1 heq =>
          rw [heq] at h
          exact h.trans (shareElements _ id)
      case h_2 heq =>
          rw [heq] at h
          exact h
  | _ => exact refl a

theorem settings (h : a.Remarked b) : b.settings = a.settings := by
  rw [h.rest]
  rfl

theorem body? (h : a.Remarked b) (id : ArrayId) : b.body? id = a.body? id := by
  unfold Arena.body?
  cases ho : a.object? id with
  | none => rw [h.none id ho]
  | some o =>
      obtain ⟨o', ho', hm⟩ := h.some id o ho
      simp [ho', hm.body]

end Remarked

@[simp] theorem settings_shareValue (a : Arena) (v : Value) :
    (a.shareValue v).settings = a.settings :=
  (Remarked.shareValue a v).settings

end Arena

end AdaptiveArray
