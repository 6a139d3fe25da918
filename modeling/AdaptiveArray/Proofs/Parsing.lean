import AdaptiveArray.Proofs.Documents
import AdaptiveArray.Proofs.Lexing

/-!
# Documents read back

The text of a document is read as the events of the document, wherever a value may stand
and the arrays in it still have room below the greatest depth.  Floats are the only
leaves of which that has to be supposed.
-/

namespace AdaptiveArray.Json

def Legible (x : Binary64) : Prop :=
  number (layout.write x).toList = .ok (.float x, [])

namespace Document

/-- With room for so many levels, the text of the document is read as its events, and enough steps
are left for the text behind it. -/
def Reads (n : Nat) (doc : Document) : Prop :=
  ∀ steps depth expecting rest, depth + n ≤ maxDepth →
    expecting = .value ∨ expecting = .first → Delimited rest → (doc.text ++ rest).length < steps →
    ∃ more, rest.length < more ∧ eventsFrom steps expecting depth (doc.text ++ rest) =
        doc.events.foldr Events.before (eventsFrom more (.after depth) depth rest)

end Document

variable {n depth steps : Nat} {rest text : List Char} {expecting : Expecting} {e : Event}
variable {doc : Document} {docs : List Document}

@[simp] theorem Expecting.after_succ (depth : Nat) : Expecting.after (depth + 1) = .more := rfl

theorem eventsFrom_scalar {c : Char} {cs : List Char} (h : scalar c cs = .ok (e, rest))
    (hexpecting : expecting = .value ∨ expecting = .first) :
    eventsFrom (steps + 1) expecting depth (c :: cs) =
      (eventsFrom steps (.after depth) depth rest).before e := by
  have hne (d : Char) (hd : scalar d cs = .error .malformed) : c ≠ d := by
    rintro rfl
    rw [hd] at h
    cases h
  have hblank : isBlank c = false := by
    simp [isBlank, hne ' ' rfl, hne '\n' rfl, hne '\t' rfl, hne '\r' rfl]
  rcases hexpecting with rfl | rfl <;>
    simp [eventsFrom, skipBlanks, hblank, hne '[' rfl, hne ']' rfl, hne '\x7b' rfl, h]

theorem eventsFrom_lexeme (h : Lexeme text e) (hexpecting : expecting = .value ∨ expecting = .first)
    (hrest : Delimited rest) (hsteps : (text ++ rest).length < steps) : ∃ more, rest.length < more ∧
      eventsFrom steps expecting depth (text ++ rest) =
        (eventsFrom more (.after depth) depth rest).before e := by
  obtain ⟨hreads⟩ := h
  obtain ⟨more, rfl⟩ := Nat.exists_eq_add_one.mpr (Nat.zero_lt_of_lt hsteps)
  refine ⟨more, ?_, eventsFrom_scalar (hreads rest hrest) hexpecting⟩
  simp only [List.length_append, List.length_cons] at hsteps
  omega

namespace Document

theorem lexeme_of_leaf (hleaf : ∀ docs, doc ≠ array docs) (hlegible : doc.Floats Legible) :
    ∃ e, doc.events = [e] ∧ Lexeme doc.text e := by
  cases doc with
  | nil => exact ⟨_, rfl, lexeme_nil⟩
  | bool b =>
      cases b with
      | true => exact ⟨_, rfl, lexeme_true⟩
      | false => exact ⟨_, rfl, lexeme_false⟩
  | int i => exact ⟨_, rfl, lexeme_int i⟩
  | float x => exact ⟨_, rfl, lexeme_number (hlegible x (by simp [events])) rfl⟩
  | string s => exact ⟨_, rfl, lexeme_string s⟩
  | array docs => exact absurd rfl (hleaf docs)

theorem delimited_textAfter (docs : List Document) (rest : List Char) :
    Delimited (textAfter docs ++ rest) := by
  cases docs with
  | nil => exact .bracket rest
  | cons doc docs => exact .comma _

theorem readsAfter (h : ∀ doc ∈ docs, doc.Reads n) (hdepth : depth + 1 + n ≤ maxDepth)
    (hsteps : (textAfter docs ++ rest).length < steps) :
    ∃ more, rest.length < more ∧ eventsFrom steps .more (depth + 1) (textAfter docs ++ rest) =
      (eventsOf docs).foldr Events.before (eventsFrom more (.after depth) depth rest) := by
  induction docs generalizing steps with
  | nil =>
      obtain ⟨more, rfl⟩ := Nat.exists_eq_add_one.mpr (Nat.zero_lt_of_lt hsteps)
      exact ⟨more, Nat.lt_of_succ_lt_succ hsteps, rfl⟩
  | cons doc docs ih =>
      obtain ⟨steps, rfl⟩ := Nat.exists_eq_add_one.mpr (Nat.zero_lt_of_lt hsteps)
      simp only [textAfter, List.cons_append, List.append_assoc] at hsteps ⊢
      obtain ⟨mid, hmid, hfirst⟩ := h doc List.mem_cons_self steps (depth + 1) .value _ hdepth
        (.inl rfl) (delimited_textAfter docs rest) (Nat.lt_of_succ_lt_succ hsteps)
      obtain ⟨more, hmore, hothers⟩ := ih (fun d hd => h d (List.mem_cons_of_mem doc hd)) hmid
      refine ⟨more, hmore, ?_⟩
      change eventsFrom steps .value (depth + 1) _ = _
      rw [hfirst, Expecting.after_succ, hothers, eventsOf, List.foldr_append]

theorem reads_array (h : ∀ doc ∈ docs, doc.Reads n) : (array docs).Reads (n + 1) := by
  intro steps depth expecting rest hdepth hexpecting _ hsteps
  obtain ⟨steps, rfl⟩ := Nat.exists_eq_add_one.mpr (Nat.zero_lt_of_lt hsteps)
  have hopening (text : List Char) : eventsFrom (steps + 1) expecting depth ('[' :: text) =
      (eventsFrom steps .first (depth + 1) text).before .opening := by
    have hroom : depth ≠ maxDepth := by omega
    rcases hexpecting with rfl | rfl <;>
      simp [eventsFrom, skipBlanks, isBlank, hroom]
  cases docs with
  | nil =>
      simp only [text, List.cons_append, List.length_cons, List.nil_append] at hsteps ⊢
      obtain ⟨more, rfl⟩ : ∃ more, steps = more + 1 := Nat.exists_eq_add_one.mpr (by omega)
      exact ⟨more, by omega, hopening _⟩
  | cons doc docs =>
      simp only [text, List.cons_append, List.append_assoc] at hsteps ⊢
      have hinside : depth + 1 + n ≤ maxDepth := by omega
      obtain ⟨mid, hmid, hfirst⟩ := h doc List.mem_cons_self steps (depth + 1) .first _ hinside
        (.inr rfl) (delimited_textAfter docs rest) (Nat.lt_of_succ_lt_succ hsteps)
      obtain ⟨more, hmore, hothers⟩ := readsAfter (fun d hd => h d (List.mem_cons_of_mem doc hd))
        hinside hmid
      refine ⟨more, hmore, ?_⟩
      rw [hopening, hfirst, Expecting.after_succ, hothers, events, eventsOf, List.foldr_cons,
        List.foldr_append]

theorem reads_of_within (h : doc.Within n) (hlegible : doc.Floats Legible) : doc.Reads n := by
  induction h with
  | leaf hleaf =>
      obtain ⟨e, hevents, hlexeme⟩ := lexeme_of_leaf hleaf hlegible
      intro steps depth expecting rest _ hexpecting hrest hsteps
      rw [hevents]
      exact eventsFrom_lexeme hlexeme hexpecting hrest hsteps
  | array items ih =>
      exact reads_array fun doc hdoc => ih doc hdoc (floats_array.mp hlegible doc hdoc)

end Document

/-- The text of an array is read as the events of its document. -/
theorem arrayEvents_json (h : (Document.array docs).Within maxDepth)
    (hlegible : (Document.array docs).Floats Legible) :
    arrayEvents (Document.array docs).text = ⟨(Document.array docs).events, none⟩ := by
  have hvalue (docs : List Document) :
      arrayEvents (Document.array docs).text = valueEvents (Document.array docs).text := by
    cases docs <;> simp [arrayEvents, Document.text, skipBlanks, isBlank]
  have hall (es : List Event) : es.foldr Events.before ⟨[], none⟩ = ⟨es, none⟩ := by
    induction es with
    | nil => rfl
    | cons e es ih => simp [ih, Events.before]
  obtain ⟨more, hmore, hreads⟩ := Document.reads_of_within h hlegible _ 0 .value []
    (Nat.le_of_eq (Nat.zero_add _)) (.inl rfl) .nil (Nat.lt_succ_self _)
  obtain ⟨more, rfl⟩ := Nat.exists_eq_add_one.mpr hmore
  rw [List.append_nil] at hreads
  rw [hvalue, valueEvents, hreads]
  exact hall _

end AdaptiveArray.Json
