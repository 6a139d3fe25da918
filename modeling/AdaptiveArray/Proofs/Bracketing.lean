import AdaptiveArray.Proofs.Parsing

/-!
# Texts without a problem

Where reading a text meets no problem, its events are those of a document: each array that
is begun is ended, after the events of its items.
-/

namespace AdaptiveArray.Json

open Document (eventsOf)

namespace Document

theorem Within.mono {n m : Nat} {doc : Document} (h : doc.Within n) (hle : n ≤ m) :
    doc.Within m := by
  induction h generalizing m with
  | leaf hleaf => exact .leaf hleaf
  | array _ ih =>
      obtain ⟨m, rfl⟩ := Nat.exists_eq_add_one.mpr (Nat.zero_lt_of_lt hle)
      exact .array fun doc hdoc => ih doc hdoc (Nat.le_of_succ_le_succ hle)

mutual

theorem exists_within : ∀ doc : Document, ∃ n, doc.Within n
  | array docs =>
      have ⟨n, hitems⟩ := exists_within_items docs
      ⟨n + 1, .array hitems⟩
  | nil | bool _ | int _ | float _ | string _ => ⟨0, .leaf nofun⟩

theorem exists_within_items : ∀ docs : List Document, ∃ n, ∀ doc ∈ docs, doc.Within n
  | [] => ⟨0, nofun⟩
  | doc :: docs =>
      have ⟨n, hdoc⟩ := exists_within doc
      have ⟨m, hdocs⟩ := exists_within_items docs
      ⟨max n m, List.forall_mem_cons.mpr ⟨hdoc.mono (Nat.le_max_left n m),
        fun d hd => (hdocs d hd).mono (Nat.le_max_right n m)⟩⟩

end

theorem exists_array_of_opening {doc : Document} {es : List Event}
    (h : doc.events = .opening :: es) : ∃ docs, doc = array docs := by
  cases doc with
  | array docs => exact ⟨docs, rfl⟩
  | _ => cases h

end Document

variable {depth : Nat} {es : List Event} {doc : Document}

/-- The events end the arrays that are open, so many inside each other, with items before each
end. -/
def Closes : Nat → List Event → Prop
  | 0, es => es = []
  | depth + 1, es => ∃ docs tail, es = eventsOf docs ++ tail ∧ Closes depth tail

theorem Closes.closing (h : Closes depth es) : Closes (depth + 1) (.closing :: es) :=
  ⟨[], es, rfl, h⟩

theorem Closes.item (h : Closes (depth + 1) es) (doc : Document) :
    Closes (depth + 1) (doc.events ++ es) := by
  obtain ⟨docs, tail, rfl, htail⟩ := h
  exact ⟨doc :: docs, tail, (List.append_assoc ..).symm, htail⟩

def Expecting.Completes : Expecting → Nat → List Event → Prop
  | .value, depth, es => ∃ (doc : Document) (tail : List Event),
      es = doc.events ++ tail ∧ Closes depth tail
  | .first, depth, es => Closes depth es
  | .more, depth, es => Closes depth es
  | .nothing, _, es => es = []

theorem Expecting.closes_of_after (h : (Expecting.after depth).Completes depth es) :
    Closes depth es := by
  cases depth with
  | zero => exact h
  | succ depth => exact h

theorem Expecting.closes_of_value (hopen : 0 < depth) (h : Expecting.value.Completes depth es) :
    Closes depth es := by
  obtain ⟨doc, tail, rfl, htail⟩ := h
  obtain ⟨depth, rfl⟩ := Nat.exists_eq_add_one.mpr hopen
  exact htail.item doc

theorem exists_of_scalar {c : Char} {text rest : List Char} {e : Event}
    (h : scalar c text = .ok (e, rest)) : ∃ doc : Document, doc.events = [e] := by
  unfold scalar at h
  split_ifs at h
  · obtain ⟨_, -, h⟩ := ok_of_bind h
    cases h
    exact ⟨.nil, rfl⟩
  · obtain ⟨_, -, h⟩ := ok_of_bind h
    cases h
    exact ⟨.bool true, rfl⟩
  · obtain ⟨_, -, h⟩ := ok_of_bind h
    cases h
    exact ⟨.bool false, rfl⟩
  · obtain ⟨⟨s, _⟩, -, h⟩ := ok_of_bind h
    cases h
    exact ⟨.string s, rfl⟩
  · obtain ⟨⟨n, _⟩, -, h⟩ := ok_of_bind h
    obtain ⟨_, hevent, h⟩ := ok_of_bind h
    cases h
    cases n with
    | unsigned n =>
        simp only [Number.event] at hevent
        split at hevent
        · cases hevent
          exact ⟨.int (Int64.ofNat n), rfl⟩
        · cases hevent
    | negative i =>
        cases hevent
        exact ⟨.int (Int64.ofInt i), rfl⟩
    | float x =>
        cases hevent
        exact ⟨.float x, rfl⟩

theorem eventsFrom_first {steps : Nat} {text rest : List Char} {c : Char}
    (hskip : skipBlanks text = c :: rest) (hc : c ≠ ']') :
    eventsFrom (steps + 1) .first depth text = eventsFrom (steps + 1) .value depth text := by
  simp [eventsFrom, hskip, hc]

def Completing (steps : Nat) : Prop :=
  ∀ (expecting : Expecting) {depth : Nat} {text : List Char},
    (expecting = .first ∨ expecting = .more → 0 < depth) →
      (eventsFrom steps expecting depth text).problem = none →
        expecting.Completes depth (eventsFrom steps expecting depth text).events

namespace Completing

variable {steps : Nat} {text : List Char}

theorem after (h : Completing steps)
    (hnone : (eventsFrom steps (.after depth) depth text).problem = none) :
    Closes depth (eventsFrom steps (.after depth) depth text).events := by
  refine Expecting.closes_of_after (h _ (fun hinside => ?_) hnone)
  cases depth with
  | zero => rcases hinside with h | h <;> cases h
  | succ depth => exact Nat.succ_pos depth

theorem closing (h : Completing steps) (hopen : 0 < depth)
    (hnone : (eventsFrom steps (.after (depth - 1)) (depth - 1) text).problem = none) :
    Closes depth
      (.closing :: (eventsFrom steps (.after (depth - 1)) (depth - 1) text).events) := by
  obtain ⟨depth, rfl⟩ := Nat.exists_eq_add_one.mpr hopen
  exact (h.after hnone).closing

theorem value (h : Completing steps)
    (hnone : (eventsFrom (steps + 1) .value depth text).problem = none) :
    Expecting.value.Completes depth (eventsFrom (steps + 1) .value depth text).events := by
  cases hskip : skipBlanks text with
  | nil => simp [eventsFrom, hskip] at hnone
  | cons c rest =>
      simp only [eventsFrom, hskip, reduceCtorEq, decide_false, Bool.and_false,
        Bool.false_eq_true, if_false] at hnone ⊢
      split_ifs at hnone ⊢ with hbegin hdeep hmap
      · -- The items and the end of the array come first, and then what follows it.
        obtain ⟨docs, tail, heq, htail⟩ := h .first (fun _ => Nat.succ_pos depth) hnone
        exact ⟨.array docs, tail, congrArg (Event.opening :: ·) heq, htail⟩
      · cases hscalar : scalar c rest with
        | error p => simp [hscalar] at hnone
        | ok read =>
            obtain ⟨e, rest⟩ := read
            obtain ⟨doc, hdoc⟩ := exists_of_scalar hscalar
            simp only [hscalar] at hnone ⊢
            exact ⟨doc, _, by rw [hdoc]; rfl, h.after hnone⟩

theorem first (h : Completing steps) (hopen : 0 < depth)
    (hnone : (eventsFrom (steps + 1) .first depth text).problem = none) :
    Closes depth (eventsFrom (steps + 1) .first depth text).events := by
  cases hskip : skipBlanks text with
  | nil => simp [eventsFrom, hskip] at hnone
  | cons c rest =>
      by_cases hc : c = ']'
      · simp only [eventsFrom, hskip, hc, decide_true, Bool.and_self, if_true] at hnone ⊢
        exact h.closing hopen hnone
      · rw [eventsFrom_first hskip hc] at hnone ⊢
        exact Expecting.closes_of_value hopen (h.value hnone)

theorem more (h : Completing steps) (hopen : 0 < depth)
    (hnone : (eventsFrom (steps + 1) .more depth text).problem = none) :
    Closes depth (eventsFrom (steps + 1) .more depth text).events := by
  cases hskip : skipBlanks text with
  | nil => simp [eventsFrom, hskip] at hnone
  | cons c rest =>
      simp only [eventsFrom, hskip] at hnone ⊢
      split_ifs at hnone ⊢
      · exact h.closing hopen hnone
      · exact Expecting.closes_of_value hopen (h .value (by simp) hnone)

end Completing

/-- Step by step, where no problem comes up the events complete what was begun. -/
theorem eventsFrom_completes (steps : Nat) : Completing steps := by
  induction steps with
  | zero => exact fun _ _ _ _ h => nomatch h
  | succ steps ih =>
      intro expecting depth text hopen h
      cases expecting with
      | value => exact ih.value h
      | first => exact ih.first (hopen (.inl rfl)) h
      | more => exact ih.more (hopen (.inr rfl)) h
      | nothing =>
          cases hskip : skipBlanks text with
          | nil => simp [eventsFrom, hskip, Expecting.Completes]
          | cons c rest => simp [eventsFrom, hskip] at h

theorem exists_document_of_valueEvents {text : List Char} (h : (valueEvents text).problem = none) :
    ∃ doc : Document, (valueEvents text).events = doc.events := by
  obtain ⟨doc, tail, heq, rfl⟩ := eventsFrom_completes (text.length + 1) .value (by simp) h
  exact ⟨doc, heq.trans (List.append_nil _)⟩

theorem exists_array_of_arrayEvents {text : List Char} (h : (arrayEvents text).problem = none) :
    ∃ docs, (arrayEvents text).events = (Document.array docs).events := by
  cases hskip : skipBlanks text with
  | nil => simp [arrayEvents, hskip] at h
  | cons c rest =>
      by_cases hc : c = '['
      · subst hc
        have hvalue : arrayEvents text = valueEvents text := by simp [arrayEvents, hskip]
        rw [hvalue] at h ⊢
        obtain ⟨doc, hdoc⟩ := exists_document_of_valueEvents h
        have hopening : (valueEvents text).events =
            .opening :: (eventsFrom text.length .first 1 rest).events := by
          simp [valueEvents, eventsFrom, hskip, maxDepth, Events.before]
        obtain ⟨docs, rfl⟩ := Document.exists_array_of_opening (hdoc.symm.trans hopening)
        exact ⟨docs, hdoc⟩
      · simp [arrayEvents, hskip, hc] at h

end AdaptiveArray.Json
