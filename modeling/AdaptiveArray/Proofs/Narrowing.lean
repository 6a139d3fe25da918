import AdaptiveArray.Proofs.Bracketing
import AdaptiveArray.Proofs.Calls
import AdaptiveArray.Proofs.Combining
import AdaptiveArray.Proofs.Reading

/-!
# Arrays in the narrowest kind

A builder widens its store for one value at a time, and copies it for room at other times.
Whatever it starts with and whenever it grows, it ends in the narrowest kind that there is
for all its values together, in whatever order they came.  So do the arrays that are made
by builders: those of given values, of what a block answers, of rows, and of JSON texts.
-/

namespace AdaptiveArray

open Json (Document)

namespace Kind

/-- For values like these there is this kind, and no narrower one. -/
def Narrowest (vs : List Value) : Kind → Prop
  | empty => vs = []
  | owned .int => vs ≠ [] ∧ ∀ v ∈ vs, ∃ i, v = .int i ∧ fitsInt32 i = true
  | owned .long => (∀ v ∈ vs, ∃ i, v = .int i) ∧ ∃ i, .int i ∈ vs ∧ fitsInt32 i = false
  | owned .double => vs ≠ [] ∧ ∀ v ∈ vs, ∃ x, v = .float x
  | owned .object => (∃ v ∈ vs, ∀ i, v ≠ .int i) ∧ ∃ v ∈ vs, ∀ x, v ≠ .float x
  | _ => False

variable {v : Value} {vs : List Value} {k : Kind}

theorem ofValue_eq_int : ofValue v = owned .int ↔ ∃ i, v = .int i ∧ fitsInt32 i = true := by
  cases v with
  | int i => by_cases h : fitsInt32 i <;> simp [ofValue, h]
  | _ => simp [ofValue]

theorem ofValue_eq_integer :
    ofValue v = owned .int ∨ ofValue v = owned .long ↔ ∃ i, v = .int i := by
  cases v with
  | int i => by_cases h : fitsInt32 i <;> simp [ofValue, h]
  | _ => simp [ofValue]

theorem ofValue_eq_double : ofValue v = owned .double ↔ ∃ x, v = .float x := by
  cases v with
  | int i => by_cases h : fitsInt32 i <;> simp [ofValue, h]
  | _ => simp [ofValue]

theorem all_ofValue_eq_int : (vs.map ofValue).all (· = owned .int) ↔
    ∀ v ∈ vs, ∃ i, v = .int i ∧ fitsInt32 i = true := by
  simp [ofValue_eq_int]

theorem all_ofValue_eq_integer : (vs.map ofValue).all (fun k => k = owned .int || k = owned .long) ↔
    ∀ v ∈ vs, ∃ i, v = .int i := by
  simp [ofValue_eq_integer]

theorem all_ofValue_eq_double : (vs.map ofValue).all (· = owned .double) ↔
    ∀ v ∈ vs, ∃ x, v = .float x := by
  simp [ofValue_eq_double]

theorem narrowest_spec (vs : List Value) : (narrowest (vs.map ofValue)).Narrowest vs := by
  unfold narrowest
  split_ifs with hnil hint hinteger hdouble
  · simpa [Narrowest] using hnil
  · exact ⟨by simpa using hnil, all_ofValue_eq_int.mp hint⟩
  · have hintegers := all_ofValue_eq_integer.mp hinteger
    refine ⟨hintegers, ?_⟩
    by_contra hfit
    refine hint (all_ofValue_eq_int.mpr fun v hv => ?_)
    obtain ⟨i, rfl⟩ := hintegers v hv
    exact ⟨i, rfl, Bool.not_eq_false _ ▸ fun hwide => hfit ⟨i, hv, hwide⟩⟩
  · exact ⟨by simpa using hnil, all_ofValue_eq_double.mp hdouble⟩
  · rw [all_ofValue_eq_integer] at hinteger
    rw [all_ofValue_eq_double] at hdouble
    push Not at hinteger hdouble
    exact ⟨hinteger, hdouble⟩

theorem Narrowest.eq (h : k.Narrowest vs) : narrowest (vs.map ofValue) = k := by
  have hsome {v : Value} (hv : v ∈ vs) : ¬(vs.map ofValue).isEmpty := by
    simpa using List.ne_nil_of_mem hv
  unfold narrowest
  cases k with
  | empty => exact if_pos (by simpa [Narrowest] using h)
  | owned e => cases e with
    | int =>
        obtain ⟨hne, hints⟩ := h
        rw [if_neg (by simpa using hne), if_pos (all_ofValue_eq_int.mpr hints)]
    | long =>
        obtain ⟨hintegers, i, hi, hwide⟩ := h
        rw [if_neg (hsome hi), if_neg, if_pos (all_ofValue_eq_integer.mpr hintegers)]
        intro hints
        obtain ⟨_, heq, hfit⟩ := all_ofValue_eq_int.mp hints _ hi
        cases heq
        exact Bool.false_ne_true (hwide.symm.trans hfit)
    | double =>
        obtain ⟨hne, hfloats⟩ := h
        obtain ⟨v, hv⟩ := List.exists_mem_of_ne_nil vs hne
        obtain ⟨x, rfl⟩ := hfloats v hv
        have hother : ¬∀ v ∈ vs, ∃ i, v = .int i := fun h => by
          obtain ⟨i, hi⟩ := h _ hv
          cases hi
        rw [if_neg (hsome hv), if_neg, if_neg (mt all_ofValue_eq_integer.mp hother),
          if_pos (all_ofValue_eq_double.mpr hfloats)]
        exact fun hints => hother fun v hv => (all_ofValue_eq_int.mp hints v hv).imp fun _ h => h.1
    | object =>
        obtain ⟨⟨v, hv, hint⟩, u, hu, hfloat⟩ := h
        rw [if_neg (hsome hv), if_neg, if_neg, if_neg]
        · exact fun h => (all_ofValue_eq_double.mp h u hu).elim hfloat
        · exact fun h => (all_ofValue_eq_integer.mp h v hv).elim hint
        · exact fun h => (all_ofValue_eq_int.mp h v hv).elim fun i hi => hint i hi.1
  | _ => exact h.elim

theorem narrowest_eq_iff : narrowest (vs.map ofValue) = k ↔ k.Narrowest vs :=
  ⟨fun h => h ▸ narrowest_spec vs, Narrowest.eq⟩

end Kind

/-! ## From JSON texts -/

namespace Json.Document

theorem ends_build_leaf {a : Arena} {doc : Document} {early : Fault → Arena → Prop}
    (hleaf : ∀ docs, doc ≠ array docs) :
    Ends (build doc.events [] none) a
      (fun built d => ∃ v, built = some (.scalar v) ∧ a.Extends d ∧ d.Spells doc v) early := by
  cases doc with
  | array docs => exact absurd rfl (hleaf docs)
  | string text => exact ⟨_, rfl, ⟨id, rfl⟩, .string a.nextString text⟩
  | nil => exact ⟨_, rfl, .refl a, .nil⟩
  | bool b => exact ⟨_, rfl, .refl a, .bool b⟩
  | int i => exact ⟨_, rfl, .refl a, .int i⟩
  | float x => exact ⟨_, rfl, .refl a, .float x⟩

end Json.Document

namespace Action

variable {a : Arena} {text : String}

theorem ends_readArray_narrow (hstart : a.settings.uninitializedSize ≠ 0)
    (h : (Json.arrayEvents text.toList).problem = none) :
    ∃ docs, (Json.arrayEvents text.toList).events = (Document.array docs).events ∧
      Ends (readArray text) a
        (fun answer d => ∃ b, answer = .ok b ∧ a.Extends d ∧ d.SpellsAll docs b)
        fun f _ => f = .outOfMemory ∧ ¬Element.object.allocatable (max a.settings.uninitializedSize
          (2 * (Document.array docs).events.length)) := by
  obtain ⟨docs, hdocs⟩ := Json.exists_array_of_arrayEvents h
  obtain ⟨n, hwithin⟩ := Json.Document.exists_within_items docs
  refine ⟨docs, hdocs, ?_⟩
  unfold readArray
  dsimp only
  rw [hdocs, h]
  refine Ends.bind (Json.Document.ends_build_array hwithin (fun _ => hstart) (Nat.le_max_left _ _)
    (Nat.le_max_right _ _) fun hbig _ => ⟨rfl, hbig⟩) ?_
  rintro _ d ⟨b, rfl, hext, hspells⟩
  exact ⟨b, rfl, hext, hspells⟩

theorem ends_readValue_narrow (hstart : a.settings.uninitializedSize ≠ 0)
    (h : (Json.valueEvents text.toList).problem = none) :
    ∃ doc : Document, (Json.valueEvents text.toList).events = doc.events ∧
      Ends (readValue text) a
        (fun answer d => ∃ v, answer = .ok v ∧ a.Extends d ∧ d.Spells doc v)
        fun f _ => f = .outOfMemory ∧ ¬Element.object.allocatable (max a.settings.uninitializedSize
          (2 * doc.events.length)) := by
  obtain ⟨doc, hdoc⟩ := Json.exists_document_of_valueEvents h
  refine ⟨doc, hdoc, ?_⟩
  unfold readValue
  dsimp only
  rw [hdoc, h]
  by_cases hleaf : ∀ docs, doc ≠ .array docs
  · refine Ends.bind (Json.Document.ends_build_leaf hleaf) ?_
    rintro _ d ⟨v, rfl, hext, hspells⟩
    exact ⟨v, rfl, hext, hspells⟩
  · push Not at hleaf
    obtain ⟨docs, rfl⟩ := hleaf
    obtain ⟨n, hwithin⟩ := Json.Document.exists_within_items docs
    refine Ends.bind (Json.Document.ends_build_array hwithin (fun _ => hstart) (Nat.le_max_left _ _)
      (Nat.le_max_right _ _) fun hbig _ => ⟨rfl, hbig⟩) ?_
    rintro _ d ⟨b, rfl, hext, hspells⟩
    have hpushed := Arena.extends_pushObject d { body := b }
    exact ⟨_, rfl, hext.trans hpushed,
      (hspells.extends hpushed).spells (Arena.readable?_pushObject d b)⟩

end Action

/-- Where arrays start with some room, arrays that are built have the values they were built from,
in order, in the narrowest kind there is for them: a builder's, whatever size it expects; those of
given values; of what a block answers; rows, and what holds them; and all that is read from a JSON
text without a problem.  Nothing can be lacking but memory for as many slots as may be needed, and
nothing else can fail but the block. -/
theorem arrays_narrowest {a : Arena} (hstart : a.settings.uninitializedSize ≠ 0) :
    (∀ (vs : List Value) (k : Kind), Kind.narrowest (vs.map Kind.ofValue) = k ↔ k.Narrowest vs) ∧
    (∀ (expected : Nat) (vs : List Value), Ends (do
        let b ← Builder.pushAll { expected } vs
        b.finish) a (fun b c => a.Booked c ∧ b.Gathered vs)
      fun f _ => f = .outOfMemory ∧ ¬Element.object.allocatable
        (max (max a.settings.uninitializedSize expected) (2 * vs.length))) ∧
    (∀ vs : List Value, Ends (Action.ofValues vs) a (fun b c => a.Booked c ∧ b.Gathered vs)
      fun f _ => f = .outOfMemory ∧ ¬Element.object.allocatable vs.length) ∧
    (∀ (b : Body) (f : Block Value), b.Fits False → Ends (b.map f) a
      (fun mapped c => ∃ calls, calls.map Prod.fst = b.toList ∧ Called f.run a calls c ∧
        mapped.Gathered (calls.map Prod.snd))
      fun fault c => (∃ calls x rest, b.toList = calls.map Prod.fst ++ x :: rest ∧
          FailedCall f.run a calls x fault c) ∨
        fault = .outOfMemory ∧ ¬Element.object.allocatable b.size) ∧
    (∀ (b : Body) (others : List Body), b.Fits False → Ends (b.zip others) a
      (fun zipped c => ∃ rows, Body.Rows others b.toList.zipIdx rows ∧
        c.objects.toList = a.objects.toList ++ rows.map (fun row => some { body := row }) ∧
        zipped.Gathered ((List.range' a.objects.size b.size).map .array))
      fun f _ => f = .outOfMemory ∧
        ¬Element.object.allocatable (max b.size (others.length + 1))) ∧
    (∀ text : String, (Json.arrayEvents text.toList).problem = none →
      ∃ docs, (Json.arrayEvents text.toList).events = (Document.array docs).events ∧
        Ends (Action.readArray text) a
          (fun answer d => ∃ b, answer = .ok b ∧ a.Extends d ∧ d.SpellsAll docs b)
          fun f _ => f = .outOfMemory ∧ ¬Element.object.allocatable
            (max a.settings.uninitializedSize (2 * (Document.array docs).events.length))) ∧
    ∀ text : String, (Json.valueEvents text.toList).problem = none →
      ∃ doc : Document, (Json.valueEvents text.toList).events = doc.events ∧
        Ends (Action.readValue text) a
          (fun answer d => ∃ v, answer = .ok v ∧ a.Extends d ∧ d.Spells doc v)
          fun f _ => f = .outOfMemory ∧ ¬Element.object.allocatable
            (max a.settings.uninitializedSize (2 * doc.events.length)) := by
  refine ⟨fun _ _ => Kind.narrowest_eq_iff, fun expected vs => ?_,
    fun vs => Action.ends_ofValues vs fun hbig _ => ⟨rfl, hbig⟩,
    fun _ f hfits => Body.ends_map hfits f, fun b others hfits => ?_,
    fun _ => Action.ends_readArray_narrow hstart, fun _ => Action.ends_readValue_narrow hstart⟩
  · have hlimited : ({ expected } : Builder).Limited a
        (max (max a.settings.uninitializedSize expected) (2 * vs.length)) :=
      Builder.limited_new hstart (by omega) (by omega)
    refine Ends.bind (hlimited.ends_pushAll (fun hbig _ => ⟨rfl, hbig⟩)
      (Builder.gathers_new expected) (Nat.le_max_right _ _)) ?_
    rintro b c ⟨hbooked, hgathers⟩
    refine hgathers.ends_finish.weaken ?_
    rintro body _ ⟨rfl, hbody⟩
    exact ⟨hbooked, hbody⟩
  · refine (Body.ends_zip (J := fun _ _ => True) (fun _ _ => trivial) hfits others trivial
      fun _ _ _ _ _ _ _ _ => trivial).weaken ?_
    rintro zipped c ⟨rows, _, hrows, rfl, hobjects, hzipped, -⟩
    exact ⟨rows, hrows, hobjects, hzipped⟩

/-- Integers that grow too wide for a store that was full, and a text with an array inside. -/
theorem arrays_narrowest_widened :
    (∃ b c, (do
        let b ← Builder.pushAll { expected := 1 } [.int 1, .int 4294967296, .int 2]
        b.finish : Action Body) {} = .ok b c ∧
      b.Gathered [.int 1, .int 4294967296, .int 2] ∧ b.kind = .owned .long) ∧
    ∃ b d, Action.readArray "[1.5,[2],2]" {} = .ok (.ok b) d ∧ b.kind = .owned .object ∧
      ∃ docs, d.SpellsAll docs b := by
  obtain ⟨hiff, hbuilt, -, -, -, hread, -⟩ :=
    arrays_narrowest (a := {}) (by decide : ({} : Arena).settings.uninitializedSize ≠ 0)
  constructor
  · obtain ⟨b, c, hrun, -, hgathered⟩ := (hbuilt 1 [.int 1, .int 4294967296, .int 2]).exists_ok
      fun _ _ h => h.2 (by decide)
    refine ⟨b, c, hrun, hgathered, hgathered.kind.trans ((hiff _ _).mpr ?_)⟩
    exact ⟨by simp, 4294967296, by simp, by decide⟩
  · obtain ⟨docs, hdocs, hends⟩ := hread "[1.5,[2],2]" (by decide +kernel)
    obtain ⟨_, d, hrun, b, rfl, -, hspells⟩ := hends.exists_ok fun _ _ h => h.2 (by
      rw [← hdocs]
      decide +kernel)
    have hkind : (match Action.readArray "[1.5,[2],2]" {} with
        | .ok (.ok b) _ => some b.kind
        | _ => none) = some (.owned .object) := by
      decide +kernel
    rw [hrun] at hkind
    exact ⟨b, d, hrun, Option.some.inj hkind, docs, hspells⟩

end AdaptiveArray
