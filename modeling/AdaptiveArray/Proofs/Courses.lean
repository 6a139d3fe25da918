import AdaptiveArray.Lifetime
import AdaptiveArray.Proofs.DeriveFrame

/-!
# Courses

A course leads from one arena to a later one.  It is what clients do: requests, locks taken
and released, arrays shared, bare stores given up, and whatever else they may do by the
rules that they are held to.  The blocks of a request take courses of their own, in which
the arrays that are being edited around them are left alone.
-/

namespace AdaptiveArray

/-- What clients are held to.  The lists are of the arrays that are being edited meanwhile. -/
structure Rules where
  request : List ArrayId → Arena → Request → Prop
  /-- The calls of its blocks that a client answers for, having asked in the first arena. -/
  called : Arena → List Value → Arena → Prop
  returned : Option Value → Arena → Prop
  /-- What may be answered to a request that was made in the arena. -/
  answer : Arena → Reply → Prop
  placed : Reply → Arena → Arena → Prop
  /-- The changes of one array that may be looked at while they go on. -/
  opened : List ArrayId → Arena → ArrayId → Mutation → Prop
  step : List ArrayId → Arena → Arena → Prop

variable {rules : Rules} {held : List ArrayId} {a b c : Arena}

inductive Course (rules : Rules) : List ArrayId → Arena → Arena → Prop where
  | refl (held : List ArrayId) (a : Arena) : Course rules held a a
  | trans {held : List ArrayId} {a b c : Arena} :
      Course rules held a b → Course rules held b c → Course rules held a c
  | answered {held : List ArrayId} {a b c : Arena} {r : Request} {reply : Reply}
      (fair : rules.request held a r)
      (blocks : ∀ vs b answer? c, rules.called a vs b → r.call vs b = some (answer?, c) →
        Course rules (r.inside held) b c)
      (returned : ∀ vs b answer? c, rules.called a vs b → r.call vs b = some (answer?, c) →
        rules.returned answer? c)
      (run : r.run a = .ok reply b) (answer : rules.answer a reply)
      (placed : rules.placed reply b c) : Course rules held a c
  | failed {held : List ArrayId} {a b : Arena} {r : Request} {e : ArrayError}
      (fair : rules.request held a r)
      (blocks : ∀ vs b answer? c, rules.called a vs b → r.call vs b = some (answer?, c) →
        Course rules (r.inside held) b c)
      (returned : ∀ vs b answer? c, rules.called a vs b → r.call vs b = some (answer?, c) →
        rules.returned answer? c)
      (run : r.run a = .error (.raised e) b) : Course rules held a b
  | locked {held : List ArrayId} {a : Arena} {id : ArrayId} (holder : Lock)
      (free : a.lockOf id = some .free) : Course rules held a (a.setLock id holder)
  | unlocked {held : List ArrayId} {a : Arena} {id : ArrayId} (idle : id ∉ held) :
      Course rules held a (a.unlock id)
  | shared {held : List ArrayId} {a : Arena} (v : Value) : Course rules held a (a.shareValue v)
  | unnamed {held : List ArrayId} {a : Arena} (name : String) :
      Course rules held a (a.dropStore name)
  | step {held : List ArrayId} {a b : Arena} (allowed : rules.step held a b) :
      Course rules held a b

theorem Course.unblocked {r : Request} {reply : Reply} (fair : rules.request held a r)
    (hcall : ∀ vs b, r.call vs b = none) (run : r.run a = .ok reply b)
    (answer : rules.answer a reply) (placed : rules.placed reply b c) : Course rules held a c :=
  .answered fair (fun vs b _ _ _ h => by simp [hcall] at h)
    (fun vs b _ _ _ h => by simp [hcall] at h) run answer placed

theorem Request.call_mutate_of_none {m : Mutation} (hcall : ∀ v b, m.call v b = none) (id : ArrayId)
    (vs : List Value) (a : Arena) : (mutate id m).call vs a = none := by
  rcases vs with _ | ⟨v, _ | ⟨_, _⟩⟩
  · rfl
  · exact hcall v a
  · rfl

theorem Course.changed (m : Mutation) (id : ArrayId) {reply : Reply}
    (fair : rules.request held a (.mutate id m)) (hcall : ∀ v b, m.call v b = none)
    (run : m.perform id a = .ok reply b) (answer : rules.answer a reply)
    (placed : rules.placed reply b c) : Course rules held a c :=
  .unblocked fair (Request.call_mutate_of_none hcall id) run answer placed

/-- What single requests and steps stay within, whole courses do. -/
theorem Course.stays {R : List ArrayId → Arena → Arena → Prop} [∀ held, Evolution (R held)]
    (hrelocked : ∀ held {a b : Arena}, a.Relocked b → R held a b)
    (hunnamed : ∀ held (a : Arena) name, R held a (a.dropStore name))
    (hstep : ∀ held a b, rules.step held a b → R held a b)
    (hrequest : ∀ held a r, rules.request held a r →
      (∀ vs b answer? c, rules.called a vs b → r.call vs b = some (answer?, c) →
        Course rules (r.inside held) b c ∧ R (r.inside held) b c) →
      Ends r.run a (fun reply b => rules.answer a reply → ∀ c, rules.placed reply b c → R held a c)
        fun f b => f.Fatal ∨ R held a b)
    (h : Course rules held a b) : R held a b := by
  induction h with
  | refl held a => exact Evolution.refl a
  | trans _ _ ih ih' => exact Evolution.trans ih ih'
  | answered fair blocks _ run answer placed ih =>
      have hrun := hrequest _ _ _ fair fun vs b answer? c hcalled hcall =>
        ⟨blocks vs b answer? c hcalled hcall, ih vs b answer? c hcalled hcall⟩
      exact hrun.of_ok run answer _ placed
  | failed fair blocks _ run ih =>
      have hrun := hrequest _ _ _ fair fun vs b answer? c hcalled hcall =>
        ⟨blocks vs b answer? c hcalled hcall, ih vs b answer? c hcalled hcall⟩
      exact hrun.of_raised run
  | locked holder => exact hrelocked _ (.setLock _ _ holder)
  | unlocked => exact hrelocked _ (.unlock _ _)
  | shared v => exact hrelocked _ (.shareValue _ v)
  | unnamed name => exact hunnamed _ _ name
  | step allowed => exact hstep _ _ _ allowed

/-- What courses lead to, in the midst of edits too.  The bodies in the list are out of the arena,
each in an edit that an answer or an error has just ended or that waits for its block; a block that
fails at once shows where it is called. -/
inductive Leads (rules : Rules) (before : List (ArrayId × Body)) (a : Arena) :
    List (ArrayId × Body) → Arena → Prop where
  | start : Leads rules before a before a
  | later {edited : List (ArrayId × Body)} {b c : Arena} (leads : Leads rules before a edited b)
      (course : Course rules (edited.map Prod.fst) b c) : Leads rules before a edited c
  | opened {edited : List (ArrayId × Body)} {b : Arena} {id : ArrayId} {x : Body} {m : Mutation}
      {w : Workspace} (leads : Leads rules before a edited b) (body : b.body? id = some x)
      (fair : rules.opened (edited.map Prod.fst) b id m)
      (blocks : ∀ vs c answer? d, rules.called b vs c →
        (Request.mutate id m).call vs c = some (answer?, d) →
          Course rules (id :: edited.map Prod.fst) c d)
      (returned : ∀ vs c answer? d, rules.called b vs c →
        (Request.mutate id m).call vs c = some (answer?, d) → rules.returned answer? d)
      (run : (∃ reply, m.edit (b.opened id x) = .ok reply w) ∨
        ∃ e, m.edit (b.opened id x) = .error (.raised e) w) :
      Leads rules before a ((id, w.body) :: edited) w.arena

end AdaptiveArray
