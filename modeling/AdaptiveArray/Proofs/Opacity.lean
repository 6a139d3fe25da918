import AdaptiveArray.Proofs.Matching
import AdaptiveArray.Proofs.Sifting
import AdaptiveArray.Proofs.Sorted

/-!
# What a walk cannot look into

An array that is being written is closed to every walk: nobody can tell from comparing,
hashing or printing values what it holds.  Closed arrays can only make values unequal.  So
whatever is found equal while some are closed is still equal when all are open, and a
removal that looks for equal elements under the write lock of its array is right about all
that it removes.
-/

namespace AdaptiveArray

namespace Arena

def unlocked (a : Arena) : Arena :=
  { a with objects := a.objects.map (Option.map fun o => { o with lock := .free }) }

structure SameUnwritten (a c : Arena) : Prop where
  size : c.objects.size = a.objects.size
  objects : ∀ id, c.object? id = a.object? id ∨
    a.lockOf id = some .mine ∧ c.lockOf id = some .mine

structure Discloses (a c : Arena) : Prop where
  size : c.objects.size = a.objects.size
  readable : ∀ {id b}, a.readable? id = some b → c.readable? id = some b

variable {a c : Arena} {id : ArrayId}

theorem body?_of_readable? {b : Body} (h : a.readable? id = some b) : a.body? id = some b := by
  unfold readable? at h
  split at h
  case h_1 o ho =>
      split at h
      · rw [body?, ho]
        exact h
      · cases h
  case h_2 => cases h

theorem readable?_of_written (h : a.lockOf id = some .mine) : a.readable? id = none := by
  obtain ⟨o, ho, hmine⟩ := Option.map_eq_some_iff.mp h
  rw [readable?, ho]
  exact if_neg (by simp [hmine])

theorem object?_unlocked (a : Arena) (id : ArrayId) :
    a.unlocked.object? id = (a.object? id).map fun o => { o with lock := .free } := by
  rw [object?, object?, unlocked, Array.getElem?_map]
  cases a.objects[id]? <;> rfl

theorem readable?_unlocked (a : Arena) (id : ArrayId) : a.unlocked.readable? id = a.body? id := by
  rw [readable?, object?_unlocked, body?]
  cases a.object? id <;> rfl

@[simp] theorem size_unlocked (a : Arena) : a.unlocked.objects.size = a.objects.size :=
  Array.size_map

theorem discloses_unlocked (hsize : c.objects.size = a.objects.size)
    (h : ∀ {id b}, a.readable? id = some b → c.body? id = some b) : a.Discloses c.unlocked :=
  ⟨(size_unlocked c).trans hsize, fun hb => (readable?_unlocked c _).trans (h hb)⟩

theorem SameUnwritten.readable? (h : a.SameUnwritten c) : c.readable? = a.readable? := by
  funext id
  rcases h.objects id with heq | ⟨ha, hc⟩
  · rw [Arena.readable?, Arena.readable?, heq]
  · rw [readable?_of_written ha, readable?_of_written hc]

end Arena

/-! ## Walks that can look into the same arrays -/

namespace Traversal

variable {a c : Arena} {depth : Nat}

theorem hashArray_of_readable (h : c.readable? = a.readable?) :
    hashArray c depth = hashArray a depth := by
  induction depth with
  | zero => rfl
  | succ depth ih =>
      funext id
      rw [hashArray, hashArray, h, ih]

theorem inspectArray_of_readable (h : c.readable? = a.readable?) :
    inspectArray c depth = inspectArray a depth := by
  induction depth with
  | zero => rfl
  | succ depth ih =>
      funext id
      rw [inspectArray, inspectArray, h, ih]

end Traversal

namespace Arena

variable {a c : Arena}

theorem equal_unlocked_of_relocked (h : a.Relocked c) (how : Equality) :
    c.unlocked.equal how = a.unlocked.equal how := by
  refine equal_of_readable (by simp [h.size]) (funext fun id => ?_) how
  rw [readable?_unlocked, readable?_unlocked, h.body?]

end Arena

/-! ## Walks that can look into more arrays -/

namespace Traversal

variable {a c : Arena} {how : Equality} {s : List ArrayId}
variable {nested nested' : ArrayId → ArrayId → Traversal Bool}

theorem answer_equalValues_mono
    (h : ∀ i j, answer (nested i j) s = true → answer (nested' i j) s = true) {x y : Value}
    (hequal : answer (equalValues how nested x y) s = true) :
    answer (equalValues how nested' x y) s = true := by
  rcases x.leaf_or_arrays y with hleaf | ⟨i, j, rfl, rfl⟩
  · rw [answer_equalValues_leaf hleaf] at hequal ⊢
    exact hequal
  · rw [answer_equalValues_array, Bool.or_eq_true] at hequal ⊢
    exact hequal.imp_right (h i j)

theorem answer_equalBodies_mono (hnested : ∀ i j, Balanced (nested i j))
    (hnested' : ∀ i j, Balanced (nested' i j))
    (h : ∀ i j, answer (nested i j) s = true → answer (nested' i j) s = true) {x y : Body}
    (hequal : answer (equalBodies how nested x y) s = true) :
    answer (equalBodies how nested' x y) s = true := by
  unfold equalBodies at hequal ⊢
  split at hequal
  · cases hequal
  · rw [if_neg ‹_›]
    split at hequal
    case h_4 =>
        rw [equalLists, answer_allM (fun _ => balanced_equalValues hnested _ _),
          List.all_eq_true] at hequal
        rw [equalLists, answer_allM (fun _ => balanced_equalValues hnested' _ _),
          List.all_eq_true]
        exact fun pair hpair => answer_equalValues_mono h (hequal pair hpair)
    all_goals exact hequal

/-- Where an array is closed a walk answers that it equals no other, and inside an array that it is
in already it does not look; so looking into more arrays takes nothing back. -/
theorem answer_equalArrays_mono (h : a.Discloses c) (depth : Nat) {i j : ArrayId}
    (hequal : answer (equalArrays a how depth i j) s = true) :
    answer (equalArrays c how depth i j) s = true := by
  induction depth generalizing s i j with
  | zero => cases hequal
  | succ depth ih =>
      rw [equalArrays, answer_guarded] at hequal ⊢
      split
      · rfl
      · rw [if_neg ‹_›] at hequal
        split at hequal
        case h_1 x y hx hy =>
            rw [h.readable hx, h.readable hy]
            exact answer_equalBodies_mono (balanced_equalArrays a how depth)
              (balanced_equalArrays c how depth) (fun _ _ => ih) hequal
        case h_2 => cases hequal

end Traversal

theorem Arena.Discloses.equal {a c : Arena} (h : a.Discloses c) {how : Equality} {x y : Value}
    (hequal : a.equal how x y = true) : c.equal how x y = true := by
  have hdepth : c.depth = a.depth := congrArg (· + 1) h.size
  rw [Arena.equal, hdepth]
  exact Traversal.answer_equalValues_mono (fun _ _ => Traversal.answer_equalArrays_mono h _) hequal

/-! ## Deleting under the write lock -/

theorem Edit.ends_delete {w : Workspace} (hfits : w.body.Fits False) (v : Value) :
    Ends (delete v) w
      (fun found w' => w'.body.toList = w.body.toList.filter (! w.arena.equal .numeric · v) ∧
        found = (w.body.toList.filter (w.arena.equal .numeric · v)).getLast?.getD .nil ∧
        w.arena.Booked w'.arena ∧ w'.owner = w.owner)
      fun f _ => w.body.frozen = true ∧ f.Frozen ∧ w.arena.includes w.body v = true := by
  by_cases hfrozen : w.body.frozen = true
  · refine ends_deleteOr_frozen hfits hfrozen (fun hnone w' hw' => ?_)
      fun hmatch _ shown _ => ⟨hfrozen, ⟨shown, rfl⟩, hmatch⟩
    have hnone : ∀ x ∈ w.body.toList, w.arena.equal .numeric x v = false := by
      simpa [Arena.includes] using hnone
    refine ⟨?_, ?_, hw'.arena, hw'.owner⟩
    · rw [hw'.body, List.filter_eq_self.mpr fun x hx => by simp [hnone x hx]]
    · rw [List.filter_eq_nil_iff.mpr fun x hx => by simp [hnone x hx]]
      rfl
  · obtain ⟨w', hpurged, hrun⟩ := delete?_purges hfits (Bool.not_eq_true _ ▸ hfrozen) v
    have hdelete? : Ends (delete? v) w (fun found u => found =
        (w.body.toList.filter (w.arena.equal .numeric · v)).getLast? ∧ u = w') fun _ _ => False :=
      (ends_of_ok hrun).mpr ⟨rfl, rfl⟩
    refine Ends.bind (hdelete?.mono_early fun _ _ => False.elim) ?_
    rintro found _ ⟨rfl, rfl⟩
    split
    case h_1 x hx => exact ⟨hpurged.kept, by rw [hx]; rfl, hpurged.booked, hpurged.owner⟩
    case h_2 hx => exact ⟨hpurged.kept, by rw [hx]; rfl, hpurged.booked, hpurged.owner⟩

namespace Arena

variable {a : Arena} {id : ArrayId} {b : Body}

theorem readable?_entered {j : ArrayId} {x : Body} (hlock : a.Available id)
    (hx : (a.entered id b).arena.readable? j = some x) : j ≠ id ∧ a.body? j = some x := by
  have hwritten : (a.entered id b).arena.lockOf id = some .mine := by
    rw [entered, opened, lockOf, object?_setBody, if_pos rfl, Option.map_map, locked]
    rcases hlock with hfree | hmine
    · rw [if_pos hfree]
      exact (lockOf_setLock a id .mine id).trans (by simp [hfree])
    · rw [if_neg (by simp [hmine])]
      exact hmine
  have hne : j ≠ id := by
    rintro rfl
    rw [readable?_of_written hwritten] at hx
    cases hx
  have hbody := body?_of_readable? hx
  rw [entered, opened, body?_setBody, if_neg hne, body?_locked] at hbody
  exact ⟨hne, hbody⟩

theorem ends_perform_delete (hlock : a.Available id) (hb : a.body? id = some b)
    (hfits : b.Fits False) (v : Value) :
    Ends ((Mutation.delete v).perform id) a
      (fun reply c => reply = .value ((b.toList.filter fun x =>
          (a.entered id b).arena.equal .numeric x v).getLast?.getD .nil) ∧
        (∃ y, c.body? id = some y ∧
          y.toList = b.toList.filter fun x => !(a.entered id b).arena.equal .numeric x v) ∧
        ∀ x, (a.entered id b).arena.equal .numeric x v = true →
          c.unlocked.equal .numeric x v = true)
      fun f _ => b.frozen = true ∧ f.Frozen ∧ (a.entered id b).arena.includes b v = true := by
  refine Action.ends_edit hlock hb ?_ (fun _ _ h => h) ?_
  · rintro reply c ⟨hreply, ⟨y, hy, hlist⟩, hmatched⟩
    have hrelocked := Relocked.unlock c id
    refine ⟨hreply, ⟨y, (hrelocked.body? id).trans hy, hlist⟩, fun x hx => ?_⟩
    rw [equal_unlocked_of_relocked hrelocked]
    exact hmatched x hx
  · refine Ends.bind (Edit.ends_delete (w := a.entered id b) hfits v) ?_
    rintro found w ⟨hkept, rfl, hbooked, -⟩
    have hid : w.arena.body? id = some .empty := by
      rw [Arena.body?, Arena.object?, hbooked.objects]
      change ((a.locked id).setBody id .empty).body? id = _
      rw [body?_setBody, if_pos rfl, body?_locked, hb]
      rfl
    refine ⟨rfl, ⟨w.body, ?_, hkept⟩, fun x hx => (discloses_unlocked ?_ ?_).equal hx⟩
    · rw [body?_setBody, if_pos rfl, hid]
      rfl
    · rw [setBody, size_modifyObject, hbooked.objects]
    · intro j y hy
      rw [body?_setBody, if_neg (readable?_entered hlock hy).1, Arena.body?, Arena.object?,
        hbooked.objects]
      exact body?_of_readable? hy

end Arena

/-- What is being written cannot be told from what walks answer.  With arrays closed nothing is
found equal that is not so with all of them open; so looking for a value in an array, and deleting
it there under the lock of the array, finds only elements that equal it when nothing is locked. -/
theorem closed_arrays_hide (a : Arena) :
    (∀ c, a.SameUnwritten c → (∀ how x y, c.equal how x y = a.equal how x y) ∧
      (∀ x y, c.order x y = a.order x y) ∧ (∀ v, c.hashBytes v = a.hashBytes v) ∧
      ∀ v, c.inspect v = a.inspect v) ∧
    (∀ how x y, a.equal how x y = true → a.unlocked.equal how x y = true) ∧
    (∀ b v, a.includes b v = true → ∃ x ∈ b.toList, a.unlocked.equal .numeric x v = true) ∧
    ∀ id b v, a.Available id → a.body? id = some b → b.Fits False →
      ∃ matched : Value → Bool,
        (∀ x, matched x = true → a.unlocked.equal .numeric x v = true) ∧
        Ends ((Mutation.delete v).perform id) a
          (fun reply c => reply = .value ((b.toList.filter matched).getLast?.getD .nil) ∧
            (∃ y, c.body? id = some y ∧ y.toList = b.toList.filter (! matched ·)) ∧
            ∀ x, matched x = true → c.unlocked.equal .numeric x v = true)
          fun f _ => b.frozen = true ∧ f.Frozen ∧ ∃ x ∈ b.toList, matched x = true := by
  have hopened : a.Discloses a.unlocked :=
    Arena.discloses_unlocked rfl Arena.body?_of_readable?
  refine ⟨fun c h => ?_, fun _ _ _ h => hopened.equal h, fun b v h => ?_, ?_⟩
  · have hread := h.readable?
    have hdepth : c.depth = a.depth := congrArg (· + 1) h.size
    refine ⟨fun how x y => ?_, fun x y => ?_, fun v => ?_, fun v => ?_⟩
    · rw [Arena.equal_of_readable h.size hread]
    · rw [Arena.order_of_readable h.size hread]
    · rw [Arena.hashBytes, Arena.hashBytes, hdepth, Traversal.hashArray_of_readable hread]
    · rw [Arena.inspect, Arena.inspect, hdepth, Traversal.inspectArray_of_readable hread]
  · obtain ⟨x, hx, hequal⟩ := List.any_eq_true.mp h
    exact ⟨x, hx, hopened.equal hequal⟩
  · intro id b v hlock hb hfits
    have hentered : (a.entered id b).arena.Discloses a.unlocked :=
      Arena.discloses_unlocked (Arena.size_entered a id b).symm
        fun hx => (Arena.readable?_entered hlock hx).2
    refine ⟨((a.entered id b).arena.equal .numeric · v), fun x hx => hentered.equal hx, ?_⟩
    refine (Arena.ends_perform_delete hlock hb hfits v).mono_early fun f _ hf => ?_
    exact ⟨hf.1, hf.2.1, List.any_eq_true.mp hf.2.2⟩

/-- An array that is written holds two arrays.  The first holds it, like the one to be deleted; the
second holds a copy of it, which equals it only once it can be looked into. -/
theorem closed_arrays_hide_itself :
    let held : List Value := [.array 1, .array 2]
    let a : Arena :=
      { objects := #[some { body := Arena.bodyOf held, lock := .mine },
          some { body := Arena.bodyOf [.array 0, .int 1] },
          some { body := Arena.bodyOf [.array 4, .int 1] },
          some { body := Arena.bodyOf [.array 0, .int 1] },
          some { body := Arena.bodyOf held }] }
    let c : Arena := a.setBody 0 (Arena.bodyOf [.nil])
    c.inspect (.array 2) = a.inspect (.array 2) ∧
      a.inspect (.array 2) = "[[[[...], 1], [...]], 1]" ∧
      a.equal .numeric (.array 2) (.array 3) = false ∧
      a.unlocked.equal .numeric (.array 2) (.array 3) = true ∧
      (∃ x ∈ held, a.unlocked.equal .numeric x (.array 3) = true) ∧
      ∃ d, (Mutation.delete (.array 3)).perform 0 a = .ok (.value (.array 1)) d ∧
        a.unlocked.equal .numeric (.array 1) (.array 3) = true ∧
        d.unlocked.equal .numeric (.array 1) (.array 3) = true := by
  intro held a c
  obtain ⟨hhidden, hequal, hincludes, hdelete⟩ := closed_arrays_hide a
  have hsame : a.SameUnwritten c := by
    refine ⟨rfl, fun id => ?_⟩
    by_cases hid : id = 0
    · exact .inr ⟨hid ▸ rfl, hid ▸ rfl⟩
    · exact .inl (by rw [Arena.object?_setBody, if_neg hid])
  obtain ⟨matched, hmatched, hends⟩ := hdelete 0 (Arena.bodyOf held) (.array 3) (.inr rfl) rfl
    (Arena.fits_bodyOf held)
  have hrun : ∃ d, (Mutation.delete (.array 3)).perform 0 a = .ok (.value (.array 1)) d := ⟨_, rfl⟩
  obtain ⟨d, hrun⟩ := hrun
  obtain ⟨hreply, -, hafter⟩ := hends.of_ok hrun
  have hfirst : matched (.array 1) = true := by
    cases hlast : ((Arena.bodyOf held).toList.filter matched).getLast? with
    | none =>
        rw [hlast] at hreply
        cases hreply
    | some x =>
        rw [hlast] at hreply
        obtain rfl : Value.array 1 = x := Reply.value.inj hreply
        exact (List.mem_filter.mp (List.mem_of_getLast? hlast)).2
  have hlook : a.includes (Arena.bodyOf held) (.array 3) = true := rfl
  exact ⟨(hhidden c hsame).2.2.2 _, rfl, rfl, by decide +kernel,
    (Arena.toList_bodyOf held) ▸ hincludes _ _ hlook, d, hrun, hmatched _ hfirst, hafter _ hfirst⟩

end AdaptiveArray
