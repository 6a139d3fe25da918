import AdaptiveArray.Proofs.Calls
import AdaptiveArray.Proofs.Frozen
import AdaptiveArray.Proofs.Removal

/-!
# What a removal leaves

The test is called on one element after the other, from left to right.  What it lets
pass stays, in order, and so does everything from the element on that it fails for.
-/

namespace AdaptiveArray

theorem Kind.holds_nil_of_isPrimitive {k : Kind} (h : k.isPrimitive) : k.holds .nil = false := by
  cases k with
  | owned e => cases e <;> first | rfl | cases h
  | view e => cases e <;> first | rfl | cases h
  | _ => cases h

theorem Body.isNil_of_isPrimitive {strict : Prop} {b : Body} (hfits : b.Fits strict)
    (hkind : b.kind.isPrimitive) {v : Value} (hv : v ∈ b.toList) : v.isNil = false := by
  cases v with
  | nil =>
      have hholds := holds_of_mem hfits hv
      rw [Kind.holds_nil_of_isPrimitive hkind] at hholds
      cases hholds
  | _ => rfl

variable {act : Value → Action Bool} {drop : Bool → Bool} {calls : List (Value × Bool)}

theorem isSome_getLast?_filter {α : Type} (p : α → Bool) (xs : List α) :
    (xs.filter p).getLast?.isSome = xs.any p := by
  rw [Bool.eq_iff_iff, List.getLast?_isSome, List.any_eq_true]
  simp [List.filter_eq_nil_iff]

def removedBy (drop : Bool → Bool) (calls : List (Value × Bool)) : List Value :=
  (calls.filter fun call => drop call.2).map Prod.fst

theorem getLast?_removedBy_snoc (v : Value) (answer : Bool) :
    (removedBy drop (calls ++ [(v, answer)])).getLast? =
      if drop answer then some v else (removedBy drop calls).getLast? := by
  cases h : drop answer <;> simp [removedBy, h]

theorem removedBy_map (p : Value → Bool) (xs : List Value) :
    removedBy id (xs.map fun x => (x, p x)) = xs.filter p := by
  simp [removedBy, List.filter_map, Function.comp_def]

structure Sifted (act : Value → Action Bool) (drop : Bool → Bool) (w : Workspace)
    (calls : List (Value × Bool)) (w' : Workspace) : Prop where
  owner : w'.owner = w.owner
  called : Called act w.arena calls w'.arena
  elements : calls.map Prod.fst = w.body.toList
  fits : w'.body.Fits False
  kept : w'.body.toList = keptBy drop calls

/-- The test was called on the first elements of `w` and failed for `x`.  If it raised an error, `x`
and the elements behind it stand behind those it had let pass. -/
structure Interrupted (act : Value → Action Bool) (drop : Bool → Bool) (w : Workspace)
    (calls : List (Value × Bool)) (x : Value) (rest : List Value) (f : Fault) (w' : Workspace) :
    Prop where
  failed : FailedCall act w.arena calls x f w'.arena
  elements : w.body.toList = calls.map Prod.fst ++ x :: rest
  kept : ∀ e, f = .raised e → w'.owner = w.owner ∧ w'.body.Fits False ∧
    w'.body.toList = keptBy drop calls ++ x :: rest

structure Purged (p : Value → Bool) (w w' : Workspace) : Prop where
  owner : w'.owner = w.owner
  booked : w.arena.Booked w'.arena
  fits : w'.body.Fits False
  kept : w'.body.toList = w.body.toList.filter fun x => !p x

namespace Edit

variable {w : Workspace} {test : Value → Edit Bool}

def accountOf (act : Value → Action Bool) (drop : Bool → Bool) (w : Workspace) : Account :=
  fun error found kept read a => ∃ calls, calls.map Prod.fst = w.body.toList.take read ∧
    kept = keptBy drop calls ∧ found = (removedBy drop calls).getLast? ∧
    match error with
    | none => Called act w.arena calls a
    | some e => ∃ x, w.body.toList[read]? = some x ∧ FailedCall act w.arena calls x (.raised e) a

theorem carries_accountOf (htest : test = fun v => do return drop (← act v)) :
    Carries w.owner w.body test (accountOf act drop w)
      fun f a => ∃ calls x rest, w.body.toList = calls.map Prod.fst ++ x :: rest ∧
        FailedCall act w.arena calls x f a := by
  subst htest
  constructor
  case booked =>
      rintro found kept read a a' ⟨calls, helements, hkept, hfound, hcalled⟩ hbooked
      exact ⟨calls, helements, hkept, hfound, hcalled.booked hbooked⟩
  case test =>
      rintro w₁ v found kept read howner hv ⟨calls, helements, rfl, rfl, hcalled⟩
      have hsplit : w.body.toList = calls.map Prod.fst ++ v :: w.body.toList.drop (read + 1) := by
        obtain ⟨hlt, hget⟩ := List.getElem?_eq_some_iff.mp hv
        rw [helements, ← hget, List.getElem_cons_drop hlt, List.take_append_drop]
      rw [ends_bind, ends_lift]
      refine (hcalled.ends_call v).mono ?_ ?_
      · intro answer a hcalled'
        refine ⟨howner, rfl, calls ++ [(v, answer)], ?_, (keptBy_snoc v answer).symm,
          (getLast?_removedBy_snoc v answer).symm, hcalled'⟩
        rw [List.map_append, helements, List.take_add_one, hv]
        rfl
      · intro f a hfailed
        cases f with
        | raised e =>
            exact .inr ⟨e, rfl, howner, rfl, calls, helements, rfl, rfl, v, hv, hfailed⟩
        | broken => exact .inl ⟨Fault.fatal_broken, calls, v, _, hsplit, hfailed⟩
        | outOfMemory => exact .inl ⟨Fault.fatal_outOfMemory, calls, v, _, hsplit, hfailed⟩

theorem ends_removeWhere_sifted (hfits : w.body.Fits False) (hopen : w.body.frozen = false)
    (htest : test = fun v => do return drop (← act v)) :
    Ends (removeWhere test) w
      (fun found w' => ∃ calls, Sifted act drop w calls w' ∧
        found = (removedBy drop calls).getLast?)
      fun f w' => ∃ calls x rest, Interrupted act drop w calls x rest f w' := by
  refine (ends_removeWhere hfits (carries_accountOf htest) ⟨[], rfl, rfl, rfl, .start⟩).mono ?_ ?_
  · rintro found w' ⟨kept, howner, hremoved, calls, helements, rfl, rfl, hcalled⟩
    have hall : w.body.toList.length = w.body.size := Body.length_toList hfits
    rw [← hall, List.take_length] at helements
    refine ⟨calls, ⟨howner, hcalled, helements, hremoved.fits, ?_⟩, rfl⟩
    rw [hremoved.toList, ← hall, List.drop_length, List.append_nil]
  · rintro f w' (⟨e, found, kept, read, rfl, howner, hremoved, hstopped⟩ | hbroke | hfrozen)
    · obtain ⟨calls, helements, rfl, -, x, hx, hfailed⟩ := hstopped
      obtain ⟨hlt, hget⟩ := List.getElem?_eq_some_iff.mp hx
      have hrest : w.body.toList.drop read = x :: w.body.toList.drop (read + 1) := by
        rw [← hget, List.getElem_cons_drop hlt]
      refine ⟨calls, x, w.body.toList.drop (read + 1), hfailed, ?_, fun _ _ => ?_⟩
      · rw [helements, ← hrest, List.take_append_drop]
      · exact ⟨howner, hremoved.fits, by rw [hremoved.toList, hrest]⟩
    · obtain ⟨hfatal, calls, x, rest, helements, hfailed⟩ := hbroke
      exact ⟨calls, x, rest, hfailed, helements, fun e he => absurd he (hfatal e)⟩
    · rw [hopen] at hfrozen
      cases hfrozen.2.1

theorem removeWhere_purges {p : Value → Bool} (hfits : w.body.Fits False)
    (hopen : w.body.frozen = false) (htest : test = fun v => do return id (← act v))
    (hpure : ∀ x b, w.arena.Booked b → act x b = .ok (p x) b) :
    ∃ w', Purged p w w' ∧ removeWhere test w = .ok (w.body.toList.filter p).getLast? w' := by
  obtain ⟨found, w', hrun, calls, hsifted, hfound⟩ :=
    (ends_removeWhere_sifted hfits hopen htest).exists_ok fun f w' => by
      rintro ⟨calls, x, rest, hinterrupted⟩
      exact not_failedCall_of_pure hpure hinterrupted.failed
  obtain ⟨hbooked, hcalls⟩ := hsifted.called.of_pure hpure
  rw [hsifted.elements] at hcalls
  refine ⟨w', ⟨hsifted.owner, hbooked, hsifted.fits, ?_⟩, ?_⟩
  · rw [hsifted.kept, hcalls, keptBy_map]
  · rw [hrun, hfound, hcalls, removedBy_map]

theorem delete?_purges (hfits : w.body.Fits False) (hopen : w.body.frozen = false) (v : Value) :
    ∃ w', Purged (w.arena.equal .numeric · v) w w' ∧ delete? v w =
      .ok (w.body.toList.filter (w.arena.equal .numeric · v)).getLast? w' := by
  let look (x : Value) : Action Bool := return (← get).equal .numeric x v
  have htest : (fun x => return (← get).arena.equal .numeric x v : Value → Edit Bool) =
      fun x => do return id (← look x) := rfl
  refine removeWhere_purges hfits hopen htest fun x b hbooked => ?_
  rw [← Arena.equal_of_objects hbooked.objects]
  rfl

theorem compact_purges (hfits : w.body.Fits False) (hopen : w.body.frozen = false) :
    ∃ w', Purged Value.isNil w w' ∧ compact w = .ok (w.body.toList.any Value.isNil) w' := by
  have hstart : compact w = (if w.body.kind.isPrimitive then return false
      else do return (← removeWhere fun x => return x.isNil).isSome : Edit Bool) w :=
    run_checkFrozen_bind hopen _
  rw [hstart]
  split
  case isTrue hkind =>
      have hnone : ∀ x ∈ w.body.toList, x.isNil = false := fun x =>
        Body.isNil_of_isPrimitive hfits hkind
      refine ⟨w, ⟨rfl, .refl _, hfits, ?_⟩, ?_⟩
      · rw [List.filter_eq_self.mpr fun x hx => by rw [hnone x hx]; rfl]
      · rw [List.any_eq_false.mpr fun x hx => by simp [hnone x hx]]
        rfl
  case isFalse =>
      let look (x : Value) : Action Bool := return x.isNil
      have htest : (fun x => return x.isNil : Value → Edit Bool) =
          fun x => do return id (← look x) := rfl
      obtain ⟨w', hpurged, hrun⟩ := removeWhere_purges hfits hopen htest fun x b _ => rfl
      refine ⟨w', hpurged, ?_⟩
      rw [run_bind_of_ok hrun]
      exact congrArg (EStateM.Result.ok · w') (isSome_getLast?_filter _ _)

/-- Removing from an array that is not frozen.  `reject` and `keepIf` call the block once for each
element, from left to right, until the end or until it first fails, and then fail like it; the array
keeps what the block let pass, in order, and behind that the element it failed for and all elements
it was not called on.  `delete` and `deleteOr` take out what is equal to the value and answer the
last of it, if there is any, and `compact` takes out what is nil.  Nothing else ends them. -/
theorem removals_exact {w : Workspace} (hfits : w.body.Fits False) (hopen : w.body.frozen = false) :
    (∀ f : Block Bool, Ends (reject f) w
      (fun removed w' => ∃ calls, Sifted f.run id w calls w' ∧
        removed = calls.any fun call => call.2)
      fun e w' => ∃ calls x rest, Interrupted f.run id w calls x rest e w') ∧
    (∀ f : Block Bool, Ends (keepIf f) w (fun _ w' => ∃ calls, Sifted f.run not w calls w')
      fun e w' => ∃ calls x rest, Interrupted f.run not w calls x rest e w') ∧
    (∀ v missing, ∃ w', Purged (w.arena.equal .numeric · v) w w' ∧
      deleteOr v missing w =
        match (w.body.toList.filter (w.arena.equal .numeric · v)).getLast? with
        | some x => .ok x w'
        | none => missing v w') ∧
    (∀ v, ∃ w', Purged (w.arena.equal .numeric · v) w w' ∧ delete v w =
      .ok ((w.body.toList.filter (w.arena.equal .numeric · v)).getLast?.getD .nil) w') ∧
    ∃ w', Purged Value.isNil w w' ∧ compact w = .ok (w.body.toList.any Value.isNil) w' := by
  have hdelete (v : Value) (missing : Value → Edit Value) :
      ∃ w', Purged (w.arena.equal .numeric · v) w w' ∧ deleteOr v missing w =
        match (w.body.toList.filter (w.arena.equal .numeric · v)).getLast? with
        | some x => .ok x w'
        | none => missing v w' := by
    obtain ⟨w', hpurged, hrun⟩ := delete?_purges hfits hopen v
    refine ⟨w', hpurged, ?_⟩
    unfold deleteOr
    rw [run_bind_of_ok hrun]
    cases (w.body.toList.filter (w.arena.equal .numeric · v)).getLast? <;> rfl
  refine ⟨fun f => ?_, fun f => ?_, hdelete, fun v => ?_, compact_purges hfits hopen⟩
  · have htest : (fun x => f.run x : Value → Edit Bool) = fun x => do return id (← f.run x) := by
      simp
    unfold reject
    rw [ends_bind, ends_checkFrozen, hopen, if_neg Bool.false_ne_true]
    refine Ends.bind (ends_removeWhere_sifted hfits hopen htest) ?_
    rintro found w' ⟨calls, hsifted, rfl⟩
    refine ⟨calls, hsifted, ?_⟩
    rw [removedBy, List.getLast?_map, Option.isSome_map]
    exact isSome_getLast?_filter _ _
  · unfold keepIf
    rw [ends_bind, ends_checkFrozen, hopen, if_neg Bool.false_ne_true]
    refine Ends.bind (ends_removeWhere_sifted hfits hopen rfl) ?_
    rintro found w' ⟨calls, hsifted, -⟩
    exact ⟨calls, hsifted⟩
  · obtain ⟨w', hpurged, hrun⟩ := hdelete v fun _ => return .nil
    refine ⟨w', hpurged, hrun.trans ?_⟩
    cases (w.body.toList.filter (w.arena.equal .numeric · v)).getLast? <;> rfl

/-- A view: one value is taken out of it, and a block fails for its third element when it has
removed the second. -/
theorem removals_exact_view :
    let window : View := ⟨⟨0, .int #[5, 1, 2, 1, 4, 9]⟩, 1, 4⟩
    let w : Workspace := ⟨0, { store := .view window, size := 4 }, {}⟩
    let block : Block Bool := fun n v =>
      if n = 2 then Action.fail .negativeSize else return v = .int 2
    (∃ w', delete (.int 1) w = .ok (.int 1) w' ∧ w'.body.toList = [.int 2, .int 4]) ∧
    ∃ w', reject block w = .error (.raised .negativeSize) w' ∧
      w'.body.toList = [.int 1, .int 1, .int 4] ∧
      ∃ calls x rest, Interrupted block.run id w calls x rest (.raised .negativeSize) w' := by
  intro window w block
  have hfits : w.body.Fits False := .intro_view (by decide) (by change 1 + 4 ≤ 6; decide) rfl
  obtain ⟨hreject, -, -, hdelete, -⟩ := removals_exact hfits rfl
  constructor
  · obtain ⟨w', hpurged, hrun⟩ := hdelete (.int 1)
    refine ⟨w', hrun.trans ?_, hpurged.kept.trans (by decide +kernel)⟩
    exact congrArg (EStateM.Result.ok · w') (by decide +kernel)
  · have hfailure : failure? (reject block) w =
        some (.raised .negativeSize, [.int 1, .int 1, .int 4]) := by decide +kernel
    obtain ⟨w', hrun, hleft⟩ := failure?_eq_some.mp hfailure
    exact ⟨w', hrun, hleft, Ends.of_error (hreject _) hrun⟩

end Edit

end AdaptiveArray
