import AdaptiveArray.Proofs.Body
import AdaptiveArray.Traversal.Basic
import Mathlib.Data.List.Perm.Subperm
import Mathlib.Logic.Relation

/-!
# Arrays inside arrays

Arrays hold each other in any shape, circles among them.  A walk goes down from one array
to another that it is not inside of yet; so it never gets deeper than there are arrays,
and where there is no circle it never meets an array again that it is inside of.
-/

namespace AdaptiveArray

namespace Arena

def Holds (a : Arena) (i j : ArrayId) : Prop :=
  ∃ b, a.readable? i = some b ∧ .array j ∈ b.toList

/-- No array that is reached from this one reaches itself. -/
def Unlooped (a : Arena) (i : ArrayId) : Prop :=
  ∀ j, Relation.ReflTransGen a.Holds i j → ¬Relation.TransGen a.Holds j j

def Fits (a : Arena) : Prop :=
  ∀ id b, a.readable? id = some b → b.Fits False

structure Room (a : Arena) (s : List ArrayId) (depth : Nat) : Prop where
  nodup : s.Nodup
  readable : ∀ i ∈ s, (a.readable? i).isSome
  enough : a.objects.size < s.length + depth

variable {a : Arena} {s : List ArrayId} {depth : Nat} {i j : ArrayId}

theorem lt_size_of_readable (h : (a.readable? i).isSome) : i < a.objects.size := by
  by_contra hi
  have hnone : a.objects[i]? = none := Array.getElem?_eq_none (Nat.le_of_not_lt hi)
  simp [readable?, object?, hnone] at h

theorem Unlooped.holds (h : a.Unlooped i) (hj : a.Holds i j) : a.Unlooped j :=
  fun k hk => h k (hk.head hj)

theorem Unlooped.not_mem (h : a.Unlooped i) (hs : ∀ j ∈ s, Relation.TransGen a.Holds j i) :
    i ∉ s :=
  fun hi => h i .refl (hs i hi)

theorem leads_cons (hs : ∀ k ∈ s, Relation.TransGen a.Holds k i) (hj : a.Holds i j) :
    ∀ k ∈ i :: s, Relation.TransGen a.Holds k j := by
  intro k hk
  rcases List.mem_cons.mp hk with rfl | hk
  · exact .single hj
  · exact (hs k hk).tail hj

theorem room_start (a : Arena) : a.Room [] a.depth where
  nodup := .nil
  readable := nofun
  enough := by simp [Arena.depth]

theorem Room.cons (h : a.Room s (depth + 1)) (hi : i ∉ s) (hread : (a.readable? i).isSome) :
    a.Room (i :: s) depth where
  nodup := List.nodup_cons.mpr ⟨hi, h.nodup⟩
  readable := List.forall_mem_cons.mpr ⟨hread, h.readable⟩
  enough := by
    have henough := h.enough
    simp only [List.length_cons]
    omega

theorem Room.pos (h : a.Room s depth) : 0 < depth := by
  have hsub : s ⊆ List.range a.objects.size := fun i hi =>
    List.mem_range.mpr (lt_size_of_readable (h.readable i hi))
  have hle := (List.subperm_of_subset h.nodup hsub).length_le
  have henough := h.enough
  rw [List.length_range] at hle
  omega

/-- A walk is inside the arrays `s`, which all lead to the array that it enters next; and from there
it can go on as far down as there are arrays. -/
structure Above (a : Arena) (s : List ArrayId) (depth : Nat) (i : ArrayId) : Prop where
  room : a.Room s depth
  leads : ∀ k ∈ s, Relation.TransGen a.Holds k i
  unlooped : a.Unlooped i

theorem Above.start (h : a.Unlooped i) : a.Above [] a.depth i :=
  ⟨room_start a, List.forall_mem_nil _, h⟩

theorem Above.not_mem (h : a.Above s depth i) : i ∉ s :=
  h.unlooped.not_mem h.leads

theorem Above.holds (h : a.Above s (depth + 1) i) (hj : a.Holds i j) :
    a.Above (i :: s) depth j where
  room := by
    obtain ⟨b, hb, -⟩ := hj
    exact h.room.cons h.not_mem (by rw [hb]; rfl)
  leads := leads_cons h.leads hj
  unlooped := h.unlooped.holds hj

theorem Unlooped.acc (h : a.Unlooped i) : Acc (fun j i => a.Holds i j) i := by
  have hdown : ∀ {depth s i}, a.Above s depth i → Acc (fun j i => a.Holds i j) i := by
    intro depth
    induction depth with
    | zero => exact fun h => absurd h.room.pos (Nat.lt_irrefl 0)
    | succ depth ih => exact fun h => ⟨_, fun _ hj => ih (h.holds hj)⟩
  exact hdown (.start h)

theorem unlooped_of_acc (h : Acc (fun j i => a.Holds i j) i) : a.Unlooped i := by
  induction h with
  | intro i _ ih =>
      intro j hj hloop
      rcases hj.cases_head with rfl | ⟨k, hk, hkj⟩
      · obtain ⟨k, hk, hki⟩ := Relation.TransGen.head'_iff.mp hloop
        exact ih k hk i hki hloop
      · exact ih k hk j hkj hloop

theorem unlooped_of_rank (rank : ArrayId → Nat) (h : ∀ i j, a.Holds i j → rank j < rank i)
    (i : ArrayId) : a.Unlooped i :=
  unlooped_of_acc <| Subrelation.accessible (fun {j i} hij => h i j hij)
    ((measure rank).wf.apply i)

/-! ## Arrays from lists -/

def bodyOf (vs : List Value) : Body where
  store := .owned (.object vs.toArray)
  size := vs.length

theorem fits_bodyOf (vs : List Value) : (bodyOf vs).Fits False :=
  ⟨Nat.le_refl _, trivial, False.elim⟩

theorem toList_bodyOf (vs : List Value) : (bodyOf vs).toList = vs := by
  simp [bodyOf, Body.toList, Body.elements, Body.buffer, Store.slice, Store.buffer, Buffer.slice,
    Buffer.values]

def ofLists (lists : List (List Value)) : Arena where
  objects := (lists.map fun vs => some { body := bodyOf vs }).toArray

theorem object?_ofLists (lists : List (List Value)) (i : ArrayId) :
    (ofLists lists).object? i = (lists[i]?).map fun vs => { body := bodyOf vs } := by
  simp only [object?, ofLists, List.getElem?_toArray, List.getElem?_map]
  cases lists[i]? <;> rfl

theorem readable?_ofLists (lists : List (List Value)) (i : ArrayId) :
    (ofLists lists).readable? i = (lists[i]?).map bodyOf := by
  rw [readable?, object?_ofLists]
  cases lists[i]? <;> rfl

theorem fits_ofLists (lists : List (List Value)) : (ofLists lists).Fits := by
  intro i b hb
  rw [readable?_ofLists] at hb
  obtain ⟨vs, -, rfl⟩ := Option.map_eq_some_iff.mp hb
  exact fits_bodyOf vs

theorem holds_ofLists {lists : List (List Value)} :
    (ofLists lists).Holds i j ↔ ∃ vs, lists[i]? = some vs ∧ .array j ∈ vs := by
  simp [Holds, readable?_ofLists, toList_bodyOf]

theorem unlooped_ofLists {lists : List (List Value)}
    (h : ∀ entry ∈ lists.zipIdx, ∀ v ∈ entry.1, ∀ j ∈ v.arrayId?, entry.2 < j) (i : ArrayId) :
    (ofLists lists).Unlooped i := by
  refine unlooped_of_rank (fun i => lists.length - i) (fun i j hij => ?_) i
  obtain ⟨vs, hvs, hj⟩ := holds_ofLists.mp hij
  have hlt : i < j := h (vs, i) (List.mem_zipIdx_iff_getElem?.mpr hvs) _ hj j rfl
  have hi : i < lists.length := (List.getElem?_eq_some_iff.mp hvs).1
  exact Nat.sub_lt_sub_left hi hlt

end Arena

end AdaptiveArray
