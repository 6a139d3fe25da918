import AdaptiveArray.Edit.Basic

/-!
# Endings

A computation ends with an answer or early, with a fault; either way it leaves a
state.  `Ends c s post early` says what is known of both.  The rules below follow the
way computations are put together, so a statement about a whole operation falls apart
into statements about its steps.
-/

namespace AdaptiveArray

variable {σ α β : Type}

/-- Faults after which nothing is promised. -/
def Fault.Fatal (f : Fault) : Prop := ∀ e, f ≠ .raised e

theorem Fault.fatal_broken : broken.Fatal := nofun

theorem Fault.fatal_outOfMemory : outOfMemory.Fatal := nofun

theorem Fault.not_fatal_raised (e : ArrayError) : ¬(raised e).Fatal := fun h => h e rfl

/-- Started in `s`, the computation answers with `post` true of the answer and the state left, or
ends early with `early` true of the fault and the state left. -/
def Ends (c : EStateM Fault σ α) (s : σ) (post : α → σ → Prop)
    (early : Fault → σ → Prop) : Prop :=
  match c s with
  | .ok x s' => post x s'
  | .error f s' => early f s'

section Rules

variable {c : EStateM Fault σ α} {k : α → EStateM Fault σ β} {s : σ}
variable {post post' : α → σ → Prop} {early early' : Fault → σ → Prop}

theorem Ends.intro (hok : ∀ x s', c s = .ok x s' → post x s')
    (herror : ∀ f s', c s = .error f s' → early f s') : Ends c s post early := by
  unfold Ends
  cases hc : c s with
  | ok x s' => exact hok x s' hc
  | error f s' => exact herror f s' hc

theorem ends_of_ok {x : α} {s' : σ} (run : c s = .ok x s') : Ends c s post early ↔ post x s' := by
  rw [Ends, run]

theorem ends_of_error {f : Fault} {s' : σ} (run : c s = .error f s') :
    Ends c s post early ↔ early f s' := by
  rw [Ends, run]

theorem Ends.of_ok {x : α} {s' : σ} (h : Ends c s post early) (run : c s = .ok x s') : post x s' :=
  (ends_of_ok run).mp h

theorem Ends.of_error {f : Fault} {s' : σ} (h : Ends c s post early) (run : c s = .error f s') :
    early f s' :=
  (ends_of_error run).mp h

theorem Ends.mono (h : Ends c s post early) (hpost : ∀ x s', post x s' → post' x s')
    (hearly : ∀ f s', early f s' → early' f s') : Ends c s post' early' :=
  .intro (fun x s' run => hpost x s' (h.of_ok run)) fun f s' run => hearly f s' (h.of_error run)

theorem Ends.weaken (h : Ends c s post early) (hpost : ∀ x s', post x s' → post' x s') :
    Ends c s post' early :=
  h.mono hpost fun _ _ he => he

theorem Ends.mono_early (h : Ends c s post early) (hearly : ∀ f s', early f s' → early' f s') :
    Ends c s post early' :=
  h.mono (fun _ _ hx => hx) hearly

theorem Ends.and (h : Ends c s post early) (h' : Ends c s post' early') :
    Ends c s (fun x s' => post x s' ∧ post' x s') (fun f s' => early f s' ∧ early' f s') :=
  .intro (fun _ _ run => ⟨h.of_ok run, h'.of_ok run⟩)
    fun _ _ run => ⟨h.of_error run, h'.of_error run⟩

@[simp] theorem ends_pure (x : α) : Ends (pure x) s post early ↔ post x s := Iff.rfl

@[simp] theorem ends_bind {post : β → σ → Prop} :
    Ends (c >>= k) s post early ↔
      Ends c s (fun x s' => Ends (k x) s' post early) early := by
  simp only [Ends, bind, EStateM.bind]
  cases c s <;> rfl

theorem Ends.bind {mid : α → σ → Prop} {post : β → σ → Prop} (h : Ends c s mid early)
    (hk : ∀ x s', mid x s' → Ends (k x) s' post early) : Ends (c >>= k) s post early :=
  ends_bind.mpr (h.weaken hk)

@[simp] theorem ends_throw (f : Fault) :
    Ends (throw f : EStateM Fault σ α) s post early ↔ early f s := Iff.rfl

@[simp] theorem ends_get {post : σ → σ → Prop} :
    Ends (get : EStateM Fault σ σ) s post early ↔ post s s := Iff.rfl

@[simp] theorem ends_modify {post : Unit → σ → Prop} (change : σ → σ) :
    Ends (modify change : EStateM Fault σ Unit) s post early ↔ post () (change s) := Iff.rfl

@[simp] theorem ends_modifyGet (change : σ → α × σ) :
    Ends (modifyGet change : EStateM Fault σ α) s post early ↔
      post (change s).1 (change s).2 := Iff.rfl

theorem ends_ite {p : Prop} [Decidable p] {d : EStateM Fault σ α} (hc : p → Ends c s post early)
    (hd : ¬p → Ends d s post early) : Ends (if p then c else d) s post early := by
  split
  · exact hc ‹_›
  · exact hd ‹_›

theorem Ends.traced (h : Ends c s post early) :
    Ends c s (fun x s' => c s = .ok x s' ∧ post x s') early :=
  .intro (fun _ _ run => ⟨run, h.of_ok run⟩) fun _ _ run => h.of_error run

theorem Ends.of_raised {P : Fault → σ → Prop} {e : ArrayError} {s' : σ}
    (h : Ends c s post fun f s' => f.Fatal ∨ P f s') (run : c s = .error (.raised e) s') :
    P (.raised e) s' :=
  (h.of_error run).resolve_left (Fault.not_fatal_raised e)

theorem Ends.exists_ok (h : Ends c s post early) (hearly : ∀ f s', ¬early f s') :
    ∃ x s', c s = .ok x s' ∧ post x s' := by
  cases run : c s with
  | ok x s' => exact ⟨x, s', rfl, h.of_ok run⟩
  | error f s' => exact absurd (h.of_error run) (hearly f s')

theorem Ends.exists_error (h : Ends c s post early) (hpost : ∀ x s', ¬post x s') :
    ∃ f s', c s = .error f s' ∧ early f s' := by
  cases run : c s with
  | ok x s' => exact absurd (h.of_ok run) (hpost x s')
  | error f s' => exact ⟨f, s', rfl, h.of_error run⟩

theorem Ends.of_run {P : σ → Prop} {s' : σ}
    (h : Ends c s (fun _ s' => P s') fun f s' => f.Fatal ∨ P s')
    (run : (∃ x, c s = .ok x s') ∨ ∃ e, c s = .error (.raised e) s') : P s' := by
  rcases run with ⟨x, run⟩ | ⟨e, run⟩
  · exact h.of_ok run
  · exact h.of_raised run

theorem run_bind_of_ok {x : α} {s' : σ} (h : c s = .ok x s') : (c >>= k) s = k x s' := by
  simp only [bind, EStateM.bind, h]

theorem run_bind_of_error {f : Fault} {s' : σ} (h : c s = .error f s') :
    (c >>= k) s = .error f s' := by
  simp only [bind, EStateM.bind, h]

theorem run_get_bind (k : σ → EStateM Fault σ α) (s : σ) : (get >>= k) s = k s s := rfl

theorem Ends.trivial (c : EStateM Fault σ α) (s : σ) :
    Ends c s (fun _ _ => True) (fun _ _ => True) :=
  .intro (fun _ _ _ => True.intro) fun _ _ _ => True.intro

end Rules

namespace Action

variable {a : Arena} {post : Unit → Arena → Prop} {early : Fault → Arena → Prop}

@[simp] theorem ends_fail {post : α → Arena → Prop} (e : ArrayError) :
    Ends (fail e : Action α) a post early ↔ early (.raised e) a := Iff.rfl

@[simp] theorem ends_ensure (holds : Bool) :
    Ends (ensure holds) a post early ↔ if holds then post () a else early .broken a := by
  cases holds <;> rfl

@[simp] theorem ends_demand_some {post : α → Arena → Prop} (x : α) :
    Ends (demand (some x)) a post early ↔ post x a := Iff.rfl

@[simp] theorem ends_demand_none {post : α → Arena → Prop} :
    Ends (demand (none : Option α)) a post early ↔ early .broken a := Iff.rfl

@[simp] theorem ends_poll :
    Ends poll a post early ↔ post () { a with polls := a.polls + 1 } := Iff.rfl

@[simp] theorem ends_release (s : Store) :
    Ends (release s) a post early ↔ post () (a.release s) := Iff.rfl

@[simp] theorem ends_shareValue (v : Value) :
    Ends (shareValue v) a post early ↔ post () (a.shareValue v) := Iff.rfl

@[simp] theorem ends_newBacking {post : Backing → Arena → Prop} (b : Buffer) :
    Ends (newBacking b) a post early ↔
      post ⟨a.nextBacking, b⟩ { a with nextBacking := a.nextBacking + 1 } := Iff.rfl

@[simp] theorem ends_newObject {post : ArrayId → Arena → Prop} (b : Body) :
    Ends (newObject b) a post early ↔
      post a.objects.size { a with objects := a.objects.push (some { body := b }) } := Iff.rfl

@[simp] theorem ends_call {post : α → Arena → Prop} (block : Nat → Action α) :
    Ends (call block) a post early ↔
      Ends (block a.calls) { a with calls := a.calls + 1 } post early := Iff.rfl

end Action

def Arena.settings (a : Arena) : Options := a.options?.getD {}

def Arena.withSettings (a : Arena) : Arena := { a with options? := some a.settings }

@[simp] theorem Action.ends_options {a : Arena} {post : Options → Arena → Prop}
    {early : Fault → Arena → Prop} :
    Ends Action.options a post early ↔ post a.settings a.withSettings := by
  have hrun : Action.options a = .ok a.settings a.withSettings := by
    unfold Action.options Arena.withSettings Arena.settings
    cases h : a.options? with
    | none =>
        rw [run_get_bind, h]
        rfl
    | some o =>
        rw [run_get_bind, h]
        change EStateM.Result.ok o a = .ok o { a with options? := some o }
        rw [← h]
  simp [Ends, hrun]

end AdaptiveArray
