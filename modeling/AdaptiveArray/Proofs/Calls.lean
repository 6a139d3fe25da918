import AdaptiveArray.Proofs.Storage

/-!
# Calls

What a loop called, with the answers, one call after the other.  Between its calls it did
nothing but keep the books, so each call met what the one before it had left.
-/

namespace AdaptiveArray

variable {α β : Type} {act : α → Action β} {a b c : Arena} {calls : List (α × β)}

/-- From `a` on the action was called, and answered, as `calls` says, which has led to the last
arena. -/
inductive Called (act : α → Action β) (a : Arena) : List (α × β) → Arena → Prop
  | start : Called act a [] a
  | booked {calls : List (α × β)} {b c : Arena} :
      Called act a calls b → b.Booked c → Called act a calls c
  | call {calls : List (α × β)} {x : α} {answer : β} {b c : Arena} :
      Called act a calls b → act x b = .ok answer c → Called act a (calls ++ [(x, answer)]) c

def FailedCall (act : α → Action β) (a : Arena) (calls : List (α × β)) (x : α) (f : Fault)
    (c : Arena) : Prop :=
  ∃ b, Called act a calls b ∧ act x b = .error f c

theorem Called.ends_call (h : Called act a calls b) (x : α) :
    Ends (act x) b (fun answer c => Called act a (calls ++ [(x, answer)]) c)
      fun f c => FailedCall act a calls x f c :=
  .intro (fun _ _ hrun => h.call hrun) fun _ _ hrun => ⟨b, h, hrun⟩

theorem Called.keeps {I : Arena → Prop} {early : Fault → Arena → Prop}
    (h : Called act a calls b) (hbook : ∀ {c d : Arena}, I c → c.Booked d → I d)
    (hact : ∀ x ∈ calls.map Prod.fst, ∀ c, I c → Ends (act x) c (fun _ d => I d) early)
    (hI : I a) : I b := by
  induction h with
  | start => exact hI
  | booked _ hbooked ih => exact hbook (ih hact) hbooked
  | call _ hrun ih =>
      have hb := ih fun x hx => hact x (by simpa using .inl (by simpa using hx))
      exact (hact _ (by simp) _ hb).of_ok hrun

/-! ## Actions that only look -/

section Pure

variable {p : α → β} (hpure : ∀ x b, a.Booked b → act x b = .ok (p x) b)

include hpure

theorem Called.of_pure (h : Called act a calls b) :
    a.Booked b ∧ calls = (calls.map Prod.fst).map fun x => (x, p x) := by
  induction h with
  | start => exact ⟨.refl a, rfl⟩
  | booked _ hbooked ih => exact ⟨ih.1.trans hbooked, ih.2⟩
  | @call calls x answer b c _ hrun ih =>
      rw [hpure x b ih.1] at hrun
      cases hrun
      refine ⟨ih.1, ?_⟩
      rw [List.map_append, List.map_append, ← ih.2]
      rfl

theorem not_failedCall_of_pure {x : α} {f : Fault} : ¬FailedCall act a calls x f c := by
  rintro ⟨b, hcalled, hrun⟩
  rw [hpure x b (hcalled.of_pure hpure).1] at hrun
  cases hrun

end Pure

/-! ## Sifting by the answers -/

section Kept

variable {drop : Bool → Bool} {calls : List (Value × Bool)}

def keptBy (drop : Bool → Bool) (calls : List (Value × Bool)) : List Value :=
  (calls.filter fun call => !drop call.2).map Prod.fst

theorem keptBy_snoc (v : Value) (answer : Bool) : keptBy drop (calls ++ [(v, answer)]) =
    if drop answer then keptBy drop calls else keptBy drop calls ++ [v] := by
  cases h : drop answer <;> simp [keptBy, h]

theorem keptBy_map (p : Value → Bool) (xs : List Value) :
    keptBy id (xs.map fun x => (x, p x)) = xs.filter fun x => !p x := by
  simp [keptBy, List.filter_map, Function.comp_def]

theorem keptBy_sublist (drop : Bool → Bool) (calls : List (Value × Bool)) :
    (keptBy drop calls).Sublist (calls.map Prod.fst) :=
  List.filter_sublist.map Prod.fst

end Kept

end AdaptiveArray
