import AdaptiveArray.Proofs.Walking

/-!
# What a share walk reaches

Sharing a value marks the arrays that can be reached from it and no others.  The walk only
ever follows elements, so whatever it marks is reachable.  When its list has run empty
every marked array holds marked arrays only, so nothing reachable is left out.  `Walks` is
the walk without a bound on its steps, which comes to an end all the same.
-/

namespace AdaptiveArray.Arena

inductive Reaches (a : Arena) (v : Value) : ArrayId → Prop
  | root {id : ArrayId} : v = .array id → Reaches a v id
  | element {id j : ArrayId} {b : Body} : Reaches a v id → a.body? id = some b →
      .array j ∈ b.toList → Reaches a v j

/-- The walk from the arrays on a list comes to an end in the second arena, after as many steps as
it takes. -/
inductive Walks : List ArrayId → Arena → Arena → Prop
  | done {a : Arena} : Walks [] a a
  | putOff {id : ArrayId} {pending : List ArrayId} {a b : Arena} : a.readable? id = none →
      Walks pending (a.requestShareWalk id) b → Walks (id :: pending) a b
  | look {id : ArrayId} {pending : List ArrayId} {a b : Arena} {body : Body} :
      a.readable? id = some body →
      Walks (a.shareItems pending body.toList).2 (a.shareItems pending body.toList).1 b →
      Walks (id :: pending) a b

variable {a b : Arena} {v : Value} {id : ArrayId} {pending : List ArrayId}

/-! ## The walk comes to an end -/

/-- Each step takes an array off the list, and puts on it only arrays that were not marked. -/
theorem walks_shareWalk (steps : Nat) (hsteps : pending.length + a.unmarked.card ≤ steps) :
    Walks pending a (shareWalk steps pending a) := by
  fun_induction shareWalk steps pending a with
  | case1 pending a =>
      rw [List.length_eq_zero_iff.mp (by omega : pending.length = 0)]
      exact .done
  | case2 => exact .done
  | case3 steps id pending a hread ih =>
      refine .putOff hread (ih ?_)
      have := Finset.card_le_card (Remarked.requestShareWalk a id).unmarked
      rw [List.length_cons] at hsteps
      omega
  | case4 steps id pending a b hread a' pending' heq ih =>
      have hmeasure := (itemsShared_shareItems a pending b.toList).measure
      refine .look hread ?_
      rw [heq] at hmeasure ⊢
      refine ih ?_
      rw [List.length_cons] at hsteps
      exact Nat.le_trans hmeasure (by omega)

theorem walks_shareElements (a : Arena) (id : ArrayId) : Walks [id] a (a.shareElements id) := by
  refine walks_shareWalk _ ?_
  have := card_unmarked_le a
  rw [List.length_singleton]
  omega

/-! ## Only what is reachable is marked -/

theorem eq_or_isShared_of_shareArray {j : ArrayId} (h : (a.shareArray id).1.isShared j) :
    j = id ∨ a.isShared j := by
  by_cases heq : j = id
  · exact .inl heq
  · rw [isShared, object?_shareArray, if_neg heq] at h
    exact .inr h

theorem isShared_or_mem_cons {j : ArrayId} {rest : List Value}
    (h : (a.shareArray id).1.isShared j ∨ .array j ∈ rest) :
    a.isShared j ∨ .array j ∈ .array id :: rest := by
  rcases h with hmarked | hmem
  · rcases eq_or_isShared_of_shareArray hmarked with rfl | hold
    · exact .inr List.mem_cons_self
    · exact .inl hold
  · exact .inr (List.mem_cons_of_mem _ hmem)

theorem shareItems_only (a : Arena) (pending : List ArrayId) (vs : List Value) :
    (∀ j, (a.shareItems pending vs).1.isShared j → a.isShared j ∨ .array j ∈ vs) ∧
    ∀ j ∈ (a.shareItems pending vs).2, j ∈ pending ∨ .array j ∈ vs := by
  fun_induction Arena.shareItems a pending vs with
  | case1 a pending => exact ⟨fun _ => .inl, fun _ => .inl⟩
  | case2 a pending id rest a' heq ih =>
      obtain rfl : (a.shareArray id).1 = a' := by rw [heq]
      refine ⟨fun j hj => isShared_or_mem_cons (ih.1 j hj), fun j hj => ?_⟩
      rcases ih.2 j hj with hold | hmem
      · rcases List.mem_cons.mp hold with rfl | hold
        · exact .inr List.mem_cons_self
        · exact .inl hold
      · exact .inr (List.mem_cons_of_mem _ hmem)
  | case3 a pending id rest a' heq ih =>
      obtain rfl : (a.shareArray id).1 = a' := by rw [heq]
      exact ⟨fun j hj => isShared_or_mem_cons (ih.1 j hj),
        fun j hj => (ih.2 j hj).imp_right (List.mem_cons_of_mem _)⟩
  | case4 a pending v rest hv ih =>
      exact ⟨fun j hj => (ih.1 j hj).imp_right (List.mem_cons_of_mem _),
        fun j hj => (ih.2 j hj).imp_right (List.mem_cons_of_mem _)⟩

structure Traced (a : Arena) (v : Value) (pending : List ArrayId) (b : Arena) : Prop where
  remarked : a.Remarked b
  marked : ∀ j, b.isShared j → a.isShared j ∨ a.Reaches v j
  pending : ∀ j ∈ pending, a.Reaches v j

theorem Traced.putOff (h : Traced a v (id :: pending) b) :
    Traced a v pending (b.requestShareWalk id) where
  remarked := h.remarked.trans (.requestShareWalk b id)
  marked j hj := by
    refine h.marked j ?_
    have hobject : (b.requestShareWalk id).object? j = _ := object?_modifyObject b id _ j
    rw [isShared, hobject] at hj
    split at hj
    · rwa [Option.any_map] at hj
    · exact hj
  pending j hj := h.pending j (List.mem_cons_of_mem id hj)

theorem Traced.look (h : Traced a v (id :: pending) b) {body : Body}
    (hread : b.readable? id = some body) :
    Traced a v (b.shareItems pending body.toList).2 (b.shareItems pending body.toList).1 := by
  obtain ⟨hmarked, hpending⟩ := shareItems_only b pending body.toList
  obtain ⟨o, ho, -, rfl⟩ := exists_of_readable? hread
  have hbody : a.body? id = some o.body := by
    rw [← h.remarked.body? id, body?, ho]
    rfl
  have hheld {j : ArrayId} (hj : .array j ∈ o.body.toList) : a.Reaches v j :=
    .element (h.pending id List.mem_cons_self) hbody hj
  refine ⟨h.remarked.trans (.shareItems _ b pending), fun j hj => ?_, fun j hj => ?_⟩
  · rcases hmarked j hj with hold | hmem
    · exact h.marked j hold
    · exact .inr (hheld hmem)
  · rcases hpending j hj with hold | hmem
    · exact h.pending j (List.mem_cons_of_mem id hold)
    · exact hheld hmem

theorem Traced.run (h : Traced a v pending b) {c : Arena} (hwalks : Walks pending b c) :
    Traced a v [] c := by
  induction hwalks with
  | done => exact h
  | putOff _ _ ih => exact ih h.putOff
  | look hread _ ih => exact ih (h.look hread)

theorem Traced.shareValue (a : Arena) (v : Value) : Traced a v [] (a.shareValue v) := by
  have hnothing : Traced a v [] a := ⟨.refl a, fun _ => .inl, nofun⟩
  cases v with
  | array id =>
      simp only [Arena.shareValue]
      split
      case h_1 a' heq =>
          have hfst : a' = (a.shareArray id).1 := by rw [heq]
          have hstart : Traced a (.array id) [id] a' := by
            rw [hfst]
            refine ⟨.shareArray a id, fun j hj => ?_, fun j hj => ?_⟩
            · rcases eq_or_isShared_of_shareArray hj with rfl | hold
              · exact .inr (.root rfl)
              · exact .inl hold
            · exact .root (by rw [List.mem_singleton.mp hj])
          exact hstart.run (walks_shareElements a' id)
      case h_2 a' heq =>
          have hfst : a' = (a.shareArray id).1 := by rw [heq]
          refine ⟨hfst ▸ .shareArray a id, fun j hj => ?_, nofun⟩
          rw [isShared, object?_of_shareArray_false heq] at hj
          exact .inl hj
  | _ => exact hnothing

/-! ## All that is reachable is marked -/

theorem isShared_of_reaches {j : ArrayId} (hroot : ∀ id, v = .array id → b.isShared id)
    (hclosed : ∀ id o, b.object? id = some o → o.shared → ∀ j, .array j ∈ o.body.toList →
      b.isShared j) (hremarked : a.Remarked b) (h : a.Reaches v j) : b.isShared j := by
  induction h with
  | root heq => exact hroot _ heq
  | element _ hbody hmem ih =>
      -- The array on the way is marked by now, and holds what it held when the walk began.
      obtain ⟨o, ho, hshared⟩ := exists_of_isShared ih
      rw [← hremarked.body?, body?, ho] at hbody
      exact hclosed _ o ho hshared _ (Option.some.inj hbody ▸ hmem)

/-- Sharing a value in arrays without locks, in which shared arrays hold shared arrays only: the
walk comes to an end, the shared arrays are those that were and those reachable from the value, and
no array holds anything else than it did. -/
theorem shareValue_marks_reachable
    (hknown : ∀ id o, a.object? id = some o → ∀ v ∈ o.body.toList, a.Knows v) (hv : a.Knows v)
    (hfree : ∀ id o, a.object? id = some o → o.lock = .free)
    (hclosed : ∀ id o, a.object? id = some o → o.shared → ∀ j, .array j ∈ o.body.toList →
      a.isShared j) :
    (∀ id b, v = .array id → a.shareArray id = (b, true) → Walks [id] b (a.shareValue v)) ∧
    (∀ j, (a.shareValue v).isShared j ↔ a.isShared j ∨ a.Reaches v j) ∧
    a.shareValue v = { a with objects := (a.shareValue v).objects } ∧
    ∀ j, (a.shareValue v).body? j = a.body? j := by
  have htraced := Traced.shareValue a v
  have hremarked := htraced.remarked
  refine ⟨?_, fun j => ⟨htraced.marked j, ?_⟩, hremarked.rest, hremarked.body?⟩
  · rintro id b rfl hnew
    rw [Arena.shareValue, hnew]
    exact walks_shareElements b id
  · have hwalked : Walking True (fun j => a.isShared j) [] (a.shareValue v) :=
      .shareValue hknown (fun _ id o ho hshared j hj => .inl (hclosed id o ho hshared j hj)) v
    rintro (hold | hreaches)
    · exact hremarked.isShared hold
    · refine isShared_of_reaches ?_ (fun id o ho hshared j hj => ?_) hremarked hreaches
      · rintro id rfl
        exact isShared_shareValue (hv id rfl)
      · have hdone := (hwalked.closed trivial id o ho).resolve_right List.not_mem_nil
        refine (hdone hshared j hj).resolve_right fun hheld => hheld.1 ?_
        obtain ⟨o', ho', hm⟩ := hremarked.origin ho
        rw [hm.lock]
        exact hfree id o' ho'

/-- Two arrays in a circle, one of which also holds an array that is shared already and holds
itself.  Both become shared; an array that holds one of them does not. -/
theorem shareValue_marks_reachable_circle :
    let holding (vs : Array Value) (shared : Bool) : ArrayObject :=
      { body := { store := .owned (.object vs), size := vs.size }, shared }
    let a : Arena := { objects := #[some (holding #[.array 1] false),
      some (holding #[.array 0, .array 2] false), some (holding #[.array 2] true),
      some (holding #[.array 0] false)] }
    (a.shareValue (.array 0)).isShared 1 ∧ ¬a.Reaches (.array 0) 3 ∧
      Walks [0] (a.shareArray 0).1 (a.shareValue (.array 0)) := by
  intro holding a
  have hobjects : ∀ id o, a.object? id = some o → o.lock = .free ∧
      (o.shared → o.body.toList = [.array 2]) ∧ ∀ v ∈ o.body.toList, a.Knows v := by
    have hknows : ∀ j : ArrayId, j < 4 → a.Knows (.array j) := by
      rintro j hj _ ⟨⟩
      match j, hj with
      | 0, _ | 1, _ | 2, _ | 3, _ => rfl
    intro id o ho
    match id, ho with
    | 0, ho =>
        obtain rfl := Option.some.inj ho
        exact ⟨rfl, nofun, fun v hv => List.mem_singleton.mp hv ▸ hknows 1 (by decide)⟩
    | 1, ho =>
        obtain rfl := Option.some.inj ho
        refine ⟨rfl, nofun, fun v hv => ?_⟩
        rcases List.mem_pair.mp hv with rfl | rfl
        · exact hknows 0 (by decide)
        · exact hknows 2 (by decide)
    | 2, ho =>
        obtain rfl := Option.some.inj ho
        exact ⟨rfl, fun _ => rfl, fun v hv => List.mem_singleton.mp hv ▸ hknows 2 (by decide)⟩
    | 3, ho =>
        obtain rfl := Option.some.inj ho
        exact ⟨rfl, nofun, fun v hv => List.mem_singleton.mp hv ▸ hknows 0 (by decide)⟩
    | _ + 4, ho => cases ho
  have hclosed : ∀ id o, a.object? id = some o → o.shared → ∀ j, .array j ∈ o.body.toList →
      a.isShared j := by
    intro id o ho hshared j hj
    rw [(hobjects id o ho).2.1 hshared, List.mem_singleton] at hj
    cases hj
    rfl
  obtain ⟨hwalks, hmarks, -, -⟩ := shareValue_marks_reachable (v := .array 0)
    (fun id o ho => (hobjects id o ho).2.2) (by rintro _ ⟨⟩; rfl)
    (fun id o ho => (hobjects id o ho).1) hclosed
  have hsecond : a.Reaches (.array 0) 1 :=
    .element (b := (holding #[.array 1] false).body) (.root rfl) rfl List.mem_cons_self
  refine ⟨(hmarks 1).mpr (.inr hsecond), fun hreaches => ?_, hwalks 0 _ rfl rfl⟩
  have hmarked := (hmarks 3).mpr (.inr hreaches)
  revert hmarked
  decide

end AdaptiveArray.Arena
