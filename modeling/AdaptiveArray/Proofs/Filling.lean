import AdaptiveArray.Proofs.Calls
import AdaptiveArray.Proofs.Mapping

/-!
# Blocks that fill an array

A block that fills an array is called for one place after the other, and what it answers
is in the array before it is called again.  So if it fails the array holds all that it
answered, and behind that what was there before; which store the elements are in by then
makes no difference.
-/

namespace AdaptiveArray

def Block.offered (f : Block Value) (owner : ArrayId) (v : Value) : Action Value := do
  let y ← f.run v
  modify fun a => a.offer owner y
  return y

theorem Block.ends_offered {f : Block Value} {owner : ArrayId} {v : Value} {a : Arena}
    {post : Value → Arena → Prop} {early : Fault → Arena → Prop} :
    Ends (f.offered owner v) a post early ↔
      Ends (f.run v) a (fun y c => post y (c.offer owner y)) early := by
  unfold offered
  rw [ends_bind]
  rfl

theorem Block.within_offered {R : Arena → Arena → Prop} [Arena.Frame R] {f : Block Value}
    (hf : ∀ v, Within R (f.run v)) (owner : ArrayId) (v : Value) :
    Within R (f.offered owner v) := by
  refine .bind (hf v) fun y => .bind (.modify fun a => ?_) fun _ => .pure y
  unfold Arena.offer
  split
  · exact Arena.Frame.shareValue a y
  · exact Evolution.refl a

theorem Called.within {α β : Type} {R : Arena → Arena → Prop} [Arena.Tally R]
    {act : α → Action β} {a b : Arena} {calls : List (α × β)} (hact : ∀ x, Within R (act x))
    (h : Called act a calls b) : R a b := by
  induction h with
  | start => exact Evolution.refl a
  | booked _ hbooked ih => exact Evolution.trans ih (Arena.Tally.booked hbooked)
  | call _ hrun ih => exact Evolution.trans ih ((hact _ _).of_ok hrun)

namespace Edit

variable {f : Block Value} {w w' w'' : Workspace} {calls : List (Value × Value)} {v x y : Value}
variable {rest : List Value} {fault : Fault} {limit n : Nat}

/-- The block was called and has answered, and the array holds its answers with `rest` behind
them. -/
structure Filled (f : Block Value) (w : Workspace) (calls : List (Value × Value))
    (rest : List Value) (w' : Workspace) : Prop where
  owner : w'.owner = w.owner
  called : Called (f.offered w.owner) w.arena calls w'.arena
  fits : w'.body.Fits False
  frozen : w'.body.frozen = w.body.frozen
  elements : w'.body.toList = calls.map Prod.snd ++ rest

structure Aborted (f : Block Value) (w : Workspace) (calls : List (Value × Value)) (x : Value)
    (rest : List Value) (fault : Fault) (w' : Workspace) : Prop where
  owner : w'.owner = w.owner
  failed : FailedCall (f.offered w.owner) w.arena calls x fault w'.arena
  fits : w'.body.Fits False
  frozen : w'.body.frozen = w.body.frozen
  elements : w'.body.toList = calls.map Prod.snd ++ rest

theorem Filled.ends_call (h : Filled f w calls rest w') (x : Value) :
    Ends (f.run x) w'.arena
      (fun y a => Called (f.offered w.owner) w.arena (calls ++ [(x, y)]) (a.offer w.owner y))
      fun fault a => Aborted f w calls x rest fault (w'.withArena a) :=
  (Block.ends_offered.mp (h.called.ends_call x)).mono_early
    fun _ _ hfailed => ⟨h.owner, hfailed, h.fits, h.frozen, h.elements⟩

theorem Filled.snoc {a : Arena} {rest' : List Value} (h : Filled f w calls rest w')
    (hcalled : Called (f.offered w.owner) w.arena (calls ++ [(x, y)]) (a.offer w.owner y))
    (hfollows : Workspace.Follows Arena.Booked ((w'.withArena a).offer y) w'')
    (hbecomes : w'.body.Becomes False (calls.map Prod.snd ++ y :: rest') limit w''.body) :
    Filled f w (calls ++ [(x, y)]) rest' w'' where
  owner := hfollows.1.trans h.owner
  called := by
    rw [← h.owner] at hcalled ⊢
    exact hcalled.booked hfollows.2
  fits := hbecomes.fits
  frozen := hbecomes.frozen.trans h.frozen
  elements := by simpa using hbecomes.toList

/-! ## Writing over the elements -/

def Mapped (f : Block Value) (w : Workspace) (i : Nat) (w' : Workspace) : Prop :=
  ∃ calls, Filled f w calls (w.body.toList.drop i) w' ∧
    calls.map Prod.fst = w.body.toList.take i ∧ i ≤ w.body.size ∧
    w'.body.store.extent ≤ w.body.store.extent

theorem ends_map_filled (hfits : w.body.Fits False) (hopen : w.body.frozen = false) :
    Ends (map f) w
      (fun _ w' => ∃ calls, calls.map Prod.fst = w.body.toList ∧ Filled f w calls [] w')
      fun fault w' => (∃ calls x rest, w.body.toList = calls.map Prod.fst ++ x :: rest ∧
          Aborted f w calls x (x :: rest) fault w') ∨
        fault = .outOfMemory ∧ ¬Element.object.allocatable w.body.store.extent := by
  have hlength := Body.length_toList hfits
  have hsize {i : Nat} {w' : Workspace} (h : Mapped f w i w') : w'.body.size = w.body.size := by
    obtain ⟨calls, hfilled, hcalls, hi, -⟩ := h
    have hcount := congrArg List.length hcalls
    have hall := congrArg List.length hfilled.elements
    rw [Body.length_toList hfilled.fits] at hall
    simp only [List.length_map, List.length_take, List.length_append,
      List.length_drop] at hcount hall
    omega
  refine (ends_map (I := Mapped f w) (fun hI => ⟨hI.choose_spec.1.fits, hsize hI⟩) ?_ ?_ ?_ ?_).mono
    ?_ fun _ _ h => h
  · rintro i w' v ⟨calls, hfilled, hcalls, hi, hextent⟩ hv
    have hcount : calls.length = i := by
      have h := congrArg List.length hcalls
      simp only [List.length_map, List.length_take] at h
      omega
    have hlen : (calls.map Prod.snd).length = i := by rw [List.length_map, hcount]
    rw [hfilled.elements, List.getElem?_append_right (Nat.le_of_eq hlen), hlen, Nat.sub_self,
      List.getElem?_drop, Nat.add_zero] at hv
    obtain ⟨hlt, rfl⟩ := List.getElem?_eq_some_iff.mp hv
    have hdrop := List.drop_eq_getElem_cons hlt
    refine (hfilled.ends_call _).mono (fun y a hcalled w'' hfollows hbecomes => ?_) ?_
    · rw [hfilled.elements, List.set_append_right _ _ (Nat.le_of_eq hlen), hlen, Nat.sub_self,
        hdrop,
        List.set_cons_zero] at hbecomes
      refine ⟨_, hfilled.snoc hcalled hfollows hbecomes, ?_, by omega,
        Nat.le_trans hbecomes.extent hextent⟩
      rw [List.map_append, hcalls, List.take_add_one, hv]
      rfl
    · intro fault a haborted
      refine .inl ⟨calls, _, w.body.toList.drop (i + 1), ?_, hdrop ▸ haborted⟩
      rw [hcalls, ← hdrop, List.take_append_drop]
  · rintro i w' ⟨calls, -, -, -, hextent⟩ hmemory w''
    exact .inr ⟨rfl, fun h => hmemory (Element.allocatable_of_le h hextent)⟩
  · exact ⟨[], ⟨rfl, .start, hfits, rfl, rfl⟩, rfl, Nat.zero_le _, Nat.le_refl _⟩
  · exact fun e hfrozen => absurd (hopen.symm.trans hfrozen) Bool.false_ne_true
  · rintro _ w' ⟨calls, hfilled, hcalls, -, -⟩
    rw [← hlength, List.drop_length] at hfilled
    exact ⟨calls, by rw [hcalls, ← hlength, List.take_length], hfilled⟩

/-! ## Starting afresh -/

def indices (n : Nat) : List Value :=
  (List.range n).map fun i => .int (Int64.ofNat i)

theorem indices_succ (n : Nat) : indices (n + 1) = indices n ++ [.int (Int64.ofNat n)] := by
  simp [indices, List.range_succ]

@[simp] theorem length_indices (n : Nat) : (indices n).length = n := by
  simp [indices]

theorem ends_pushFrom_filled (hopen : w.body.frozen = false) (hn : n ≤ maxSize)
    (hsettings : ∀ {calls b}, Called (f.offered w.owner) w.arena calls b →
      1 ≤ b.settings.uninitializedSize ∧ b.settings.uninitializedSize ≤ limit) (left : Nat) :
    ∀ {i : Nat} {w' : Workspace} {calls : List (Value × Value)}, i + left = n →
      Filled f w calls [] w' → calls.map Prod.fst = indices i →
      w'.body.store.extent ≤ max limit (2 * i) →
      Ends (pushFrom f left i) w'
        (fun _ w' => ∃ calls, calls.map Prod.fst = indices n ∧ Filled f w calls [] w')
        fun fault w' => (∃ calls k, k < n ∧ calls.map Prod.fst = indices k ∧
            Aborted f w calls (.int (Int64.ofNat k)) [] fault w') ∨
          fault = .outOfMemory ∧ ¬Element.object.allocatable limit := by
  induction left with
  | zero =>
      rintro i w' calls rfl hfilled hcalls -
      exact ⟨calls, hcalls, hfilled⟩
  | succ left ih =>
      intro i w' calls hleft hfilled hcalls hextent
      have hsize : w'.body.size = i := by
        have hcount := congrArg List.length hcalls
        rw [← Body.length_toList hfilled.fits, hfilled.elements]
        simpa using hcount
      unfold pushFrom
      rw [ends_bind, ends_lift]
      refine (hfilled.ends_call _).mono (fun y a hcalled => ?_)
        fun fault a haborted => .inl ⟨calls, i, by omega, hcalls, haborted⟩
      -- The answer is shared when it is pushed, which leaves the options alone.
      have hroom : 1 ≤ a.settings.uninitializedSize ∧ a.settings.uninitializedSize ≤ limit := by
        have h := hsettings hcalled
        rwa [← hfilled.owner,
          show (a.offer w'.owner y).settings = a.settings from
            settings_offer (w'.withArena a) y] at h
      have hreach : reach (w'.withArena a) (i + 1) ≤ max limit (2 * (i + 1)) := by
        have hle : a.settings.uninitializedSize ≤ limit := hroom.2
        unfold reach
        change max (max a.settings.uninitializedSize w'.body.store.extent) _ ≤ _
        omega
      have hpush := (ends_push (w := w'.withArena a) hfilled.fits y).and
        (ends_push_booked y (w'.withArena a))
      rw [Workspace.body_withArena, hsize] at hpush
      refine Ends.bind (hpush.mono_early ?_) ?_
      · rintro fault w'' ⟨h, -⟩
        cases fault with
        | raised e =>
            rw [hfilled.frozen, hopen] at h
            have hbig : maxSize ≤ i := (h.1.resolve_left Bool.false_ne_true).2
            omega
        | broken =>
            have hzero : a.settings.uninitializedSize = 0 := h.1
            have hpos : 1 ≤ a.settings.uninitializedSize := hroom.1
            omega
        | outOfMemory =>
            refine .inr ⟨rfl, fun hlimit => h ?_⟩
            exact Element.allocatable_of_le
              (Element.allocatable_of_size_le (by omega) hlimit) hreach
      · rintro _ w'' ⟨hbecomes, hfollows⟩
        rw [hfilled.elements, List.append_nil] at hbecomes
        refine ih (by omega) (hfilled.snoc hcalled hfollows hbecomes) ?_
          (Nat.le_trans hbecomes.extent hreach)
        rw [List.map_append, hcalls, indices_succ]
        rfl

theorem ends_sizeArgument_of_le {k : Int64} {post : Nat → Workspace → Prop}
    {early : Fault → Workspace → Prop} (hk : 0 ≤ k.toInt) (hle : k.toInt.toNat ≤ maxSize) :
    Ends (sizeArgument k) w post early ↔ post k.toInt.toNat w := by
  unfold sizeArgument
  rw [if_neg (Int.not_lt.mpr hk), if_neg (Nat.not_lt.mpr hle)]
  rfl

/-- Blocks that fill an array that is not frozen.  A map calls its block once for each element, from
left to right, until the end or until it first fails, and then fails like it; the array holds what
the block answered, and behind that the elements it has not answered for.  Starting afresh with `n`
answers calls the block for the numbers below `n` in the same way, and leaves what it answered.
Nothing else ends them, as long as there is memory: for a map, the slots that were there as values;
and for a start, the most that an array may start with. -/
theorem fillings_exact (hfits : w.body.Fits False) (hopen : w.body.frozen = false)
    (f : Block Value) :
    Ends (map f) w
      (fun _ w' => ∃ calls, calls.map Prod.fst = w.body.toList ∧ Filled f w calls [] w')
      (fun fault w' => (∃ calls x rest, w.body.toList = calls.map Prod.fst ++ x :: rest ∧
          Aborted f w calls x (x :: rest) fault w') ∨
        fault = .outOfMemory ∧ ¬Element.object.allocatable w.body.store.extent) ∧
    ∀ (n : Int64) (limit : Nat), 0 ≤ n.toInt → n.toInt.toNat ≤ maxSize →
      (∀ {calls b}, Called (f.offered w.owner) w.arena calls b →
        1 ≤ b.settings.uninitializedSize ∧ b.settings.uninitializedSize ≤ limit) →
      Ends (restartWith n f) w
        (fun _ w' => ∃ calls, calls.map Prod.fst = indices n.toInt.toNat ∧ Filled f w calls [] w')
        fun fault w' => (∃ calls k, k < n.toInt.toNat ∧ calls.map Prod.fst = indices k ∧
            Aborted f w calls (.int (Int64.ofNat k)) [] fault w') ∨
          fault = .outOfMemory ∧ ¬Element.object.allocatable limit := by
  refine ⟨ends_map_filled hfits hopen, fun n limit hn hle hsettings => ?_⟩
  unfold restartWith
  rw [ends_bind, ends_checkFrozen, hopen, if_neg Bool.false_ne_true, ends_bind,
    ends_sizeArgument_of_le hn hle, ends_bind, ends_replaceStore (Nat.zero_le _)]
  have hempty : Filled f w [] [] (w.replaced .empty 0) :=
    ⟨rfl, .booked .start (Arena.Booked.release _ _), Body.fits_empty.with_frozen _, rfl, rfl⟩
  exact ends_pushFrom_filled hopen hle hsettings _ (Nat.zero_add _) hempty rfl (Nat.zero_le _)

/-- A window of numbers, and a block that answers strings and fails when it is called for the third
time. -/
theorem fillings_exact_strings :
    let window : View := ⟨⟨0, .int #[5, 1, 2, 3, 4, 9]⟩, 1, 4⟩
    let w : Workspace := ⟨0, { store := .view window, size := 4 }, {}⟩
    let block : Block Value := fun n _ =>
      if n = 2 then Action.fail .negativeSize else Action.newString "x"
    (∃ w', map block w = .error (.raised .negativeSize) w' ∧
      w'.body.toList = [.string 0 "x", .string 1 "x", .int 3, .int 4] ∧
      ∃ calls x rest, w.body.toList = calls.map Prod.fst ++ x :: rest ∧
        Aborted block w calls x (x :: rest) (.raised .negativeSize) w') ∧
    ∃ w', restartWith 5 block w = .error (.raised .negativeSize) w' ∧
      w'.body.toList = [.string 0 "x", .string 1 "x"] ∧
      ∃ calls k, k < 5 ∧ calls.map Prod.fst = indices k ∧
        Aborted block w calls (.int (Int64.ofNat k)) [] (.raised .negativeSize) w' := by
  intro window w block
  have hfits : w.body.Fits False := .intro_view (by decide) (by change 1 + 4 ≤ 6; decide) rfl
  obtain ⟨hmap, hrestart⟩ := fillings_exact hfits rfl block
  have hblock (v : Value) : Within Arena.Unset (block.run v) := fun a => by
    rw [Block.run, Action.ends_call]
    exact ends_ite (fun _ => .inr rfl) fun _ => rfl
  have hsettings {calls : List (Value × Value)} {b : Arena}
      (h : Called (block.offered w.owner) w.arena calls b) :
      1 ≤ b.settings.uninitializedSize ∧ b.settings.uninitializedSize ≤ 16 := by
    have hkept : b.settings = w.arena.settings :=
      h.within (R := Arena.Unset) (Block.within_offered hblock _)
    rw [hkept]
    decide
  constructor
  · have hfailure : failure? (map block) w =
        some (.raised .negativeSize, [.string 0 "x", .string 1 "x", .int 3, .int 4]) := by
      decide +kernel
    obtain ⟨w', hrun, hleft⟩ := failure?_eq_some.mp hfailure
    exact ⟨w', hrun, hleft, (hmap.of_error hrun).resolve_right nofun⟩
  · have hfailure : failure? (restartWith 5 block) w =
        some (.raised .negativeSize, [.string 0 "x", .string 1 "x"]) := by
      decide +kernel
    obtain ⟨w', hrun, hleft⟩ := failure?_eq_some.mp hfailure
    refine ⟨w', hrun, hleft,
      (Ends.of_error (hrestart _ 16 ?_ ?_ hsettings) hrun).resolve_right nofun⟩
    · decide
    · decide

end Edit

end AdaptiveArray
