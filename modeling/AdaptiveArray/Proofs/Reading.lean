import AdaptiveArray.Json.Reader
import AdaptiveArray.Json.Settings
import AdaptiveArray.Proofs.Parsing
import AdaptiveArray.Proofs.Spelling

/-!
# Reading what was written

The events of a document build what the document spells out, array by array from the
inside.  Every array starts without room, so it must be given some for the first element.
-/

namespace AdaptiveArray

open Json (Document)

variable {a d : Arena} {b : Builder} {doc : Document} {docs : List Document} {limit n : Nat}
variable {early : Fault → Arena → Prop}

/-! ## Building -/

structure Builder.Collects (b : Builder) (a : Arena) (docs : List Document) (limit : Nat) :
    Prop where
  values : ∃ vs, b.Gathers vs ∧ List.Forall₂ a.Spells docs vs
  limited : b.Limited a limit
  start : a.settings.uninitializedSize ≠ 0

namespace Builder

theorem collects_new (hstart : a.settings.uninitializedSize ≠ 0)
    (hlimit : a.settings.uninitializedSize ≤ limit) : ({} : Builder).Collects a [] limit :=
  ⟨⟨[], gathers_new 0, .nil⟩, limited_new hstart hlimit (Nat.zero_le _), hstart⟩

theorem Collects.extends (h : b.Collects a docs limit) (hext : a.Extends d) :
    b.Collects d docs limit := by
  obtain ⟨⟨vs, hgathers, hspells⟩, ⟨⟨hword, hgrows⟩, hsize, hexpected, hcapacity⟩, hstart⟩ := h
  rw [← hext.settings] at hgrows hsize hstart
  exact ⟨⟨vs, hgathers, hspells.imp fun _ _ hv => hv.extends hext⟩,
    ⟨⟨hword, hgrows⟩, hsize, hexpected, hcapacity⟩, hstart⟩

theorem Collects.ends_push {v : Value} (h : b.Collects a docs limit) (hv : a.Spells doc v)
    (hlength : 2 * (docs.length + 1) ≤ limit)
    (hmemory : ¬Element.object.allocatable limit → ∀ a', early .outOfMemory a') :
    Ends (b.push v) a (fun b' a' => a.Extends a' ∧ b'.Collects a' (docs ++ [doc]) limit) early := by
  obtain ⟨⟨vs, hgathers, hspells⟩, hlimited, hstart⟩ := h
  refine (hlimited.ends_push hgathers v (by rwa [← hspells.length_eq]) hmemory).weaken ?_
  rintro b' a' ⟨hbooked, hgathers', hlimited'⟩
  have hext := hbooked.extends
  refine ⟨hext, ⟨vs ++ [v], hgathers', ?_⟩, hlimited', by rwa [hext.settings]⟩
  exact List.rel_append (hspells.imp fun _ _ hv => hv.extends hext) (.cons (hv.extends hext) .nil)

theorem Collects.ends_finish (h : b.Collects a docs limit) :
    Ends b.finish a (fun body a' => a' = a ∧ a.SpellsAll docs body) early := by
  obtain ⟨⟨vs, hgathers, hspells⟩, -, -⟩ := h
  refine hgathers.ends_finish.weaken ?_
  rintro body a' ⟨rfl, hnew, hkind⟩
  obtain rfl := hnew.shows.toList
  exact ⟨rfl, hnew, hkind, hspells⟩

end Builder

/-- Where a value is due, the events of the document bring it to the innermost open array: what can
be said of the rest from there on, whatever was built on the way, can be said of all. -/
def Json.Document.Builds (doc : Document) (limit : Nat) (early : Fault → Arena → Prop) : Prop :=
  ∀ ⦃a b docs rest top es post⦄, b.Collects a docs limit → 2 * (docs.length + 1) ≤ limit →
    (∀ b' a', a.Extends a' → b'.Collects a' (docs ++ [doc]) limit →
      Ends (Json.build es (b' :: rest) top) a' post early) →
    Ends (Json.build (doc.events ++ es) (b :: rest) top) a post early

namespace Json.Document

theorem builds_leaf (hleaf : ∀ docs, doc ≠ array docs)
    (hmemory : ¬Element.object.allocatable limit → ∀ a', early .outOfMemory a') :
    doc.Builds limit early := by
  intro a b docs rest top es post hcollects hlength hrest
  have hpush {a' : Arena} {v : Value} (hext : a.Extends a') (hv : a'.Spells doc v) :
      Ends (b.push v >>= fun b => build es (b :: rest) top) a' post early := by
    refine Ends.bind ((hcollects.extends hext).ends_push hv hlength hmemory) ?_
    rintro b' a'' ⟨hext', hcollects'⟩
    exact hrest b' a'' (hext.trans hext') hcollects'
  cases doc with
  | array docs => exact absurd rfl (hleaf docs)
  | string text => exact hpush ⟨id, rfl⟩ (.string a.nextString text)
  | nil => exact hpush (.refl a) .nil
  | bool b => exact hpush (.refl a) (.bool b)
  | int i => exact hpush (.refl a) (.int i)
  | float x => exact hpush (.refl a) (.float x)

theorem ends_build_items {done : List Document} {rest : List Builder} {top : Option Built}
    {es : List Event} {post : Option Built → Arena → Prop}
    (h : ∀ doc ∈ docs, doc.Builds limit early) (hcollects : b.Collects a done limit)
    (hlength : 2 * (done.length + docs.length) ≤ limit)
    (hrest : ∀ b' a', a.Extends a' → b'.Collects a' (done ++ docs) limit →
      Ends (build (.closing :: es) (b' :: rest) top) a' post early) :
    Ends (build (eventsOf docs ++ es) (b :: rest) top) a post early := by
  induction docs generalizing a b done with
  | nil => exact hrest b a (.refl a) (by rwa [List.append_nil])
  | cons doc docs ih =>
      rw [List.length_cons] at hlength
      rw [eventsOf, List.append_assoc]
      refine h doc List.mem_cons_self hcollects (by omega) fun b' a' hext hcollects' => ?_
      refine ih (fun d hd => h d (List.mem_cons_of_mem doc hd)) hcollects' ?_ ?_
      · rw [List.length_append, List.length_singleton]
        omega
      · intro b'' a'' hext' hcollects''
        rw [List.append_assoc] at hcollects''
        exact hrest b'' a'' (hext.trans hext') hcollects''

theorem builds_array (h : ∀ doc ∈ docs, doc.Builds limit early) (hlength : 2 * docs.length ≤ limit)
    (hmemory : ¬Element.object.allocatable limit → ∀ a', early .outOfMemory a') :
    (array docs).Builds limit early := by
  intro a b done rest top es post hcollects hroom hrest
  have hnew := Builder.collects_new hcollects.start hcollects.limited.start
  -- the items go to a builder of their own, which is then an element of the one outside
  change Ends (build (eventsOf docs ++ es) ({} :: b :: rest) top) a post early
  refine ends_build_items h hnew (by simpa using hlength) fun inner a' hext hinner => ?_
  change Ends (inner.finish >>= _) a' post early
  refine Ends.bind hinner.ends_finish ?_
  rintro body a₁ ⟨rfl, hbody⟩
  rw [ends_bind, Action.ends_newObject]
  have hpushed := Arena.extends_pushObject a₁ { body }
  have harray := (hbody.extends hpushed).spells (Arena.readable?_pushObject a₁ body)
  refine Ends.bind ((hcollects.extends (hext.trans hpushed)).ends_push harray hroom hmemory) ?_
  rintro b' a₂ ⟨hext', hcollects'⟩
  exact hrest b' a₂ ((hext.trans hpushed).trans hext') hcollects'

/-! No array has more elements than there are events, so a builder that doubles stays within twice
as many slots. -/

theorem length_le_eventsOf (docs : List Document) : docs.length ≤ (eventsOf docs).length := by
  induction docs with
  | nil => exact Nat.zero_le _
  | cons doc docs ih =>
      have hdoc : 0 < doc.events.length := by cases doc <;> simp [events]
      simp only [eventsOf, List.length_cons, List.length_append]
      omega

theorem length_events_le (hdoc : doc ∈ docs) : doc.events.length ≤ (eventsOf docs).length := by
  induction docs with
  | nil => cases hdoc
  | cons d docs ih =>
      simp only [eventsOf, List.length_append]
      cases hdoc with
      | head => omega
      | tail _ hdoc =>
          have := ih hdoc
          omega

theorem builds_of_within (h : doc.Within n) (hlength : 2 * doc.events.length ≤ limit)
    (hmemory : ¬Element.object.allocatable limit → ∀ a', early .outOfMemory a') :
    doc.Builds limit early := by
  induction h with
  | leaf hleaf => exact builds_leaf hleaf hmemory
  | @array n docs items ih =>
      rw [events, List.length_cons] at hlength
      have hitems := length_le_eventsOf docs
      refine builds_array (fun doc hdoc => ih doc hdoc ?_) (by omega) hmemory
      have := length_events_le hdoc
      omega

theorem ends_build_array (h : ∀ doc ∈ docs, doc.Within n)
    (hstart : docs ≠ [] → a.settings.uninitializedSize ≠ 0)
    (hlimit : a.settings.uninitializedSize ≤ limit)
    (hlength : 2 * (array docs).events.length ≤ limit)
    (hmemory : ¬Element.object.allocatable limit → ∀ a', early .outOfMemory a') :
    Ends (build (array docs).events [] none) a (fun built d => ∃ b, built = some (.array b) ∧
      a.Extends d ∧ d.SpellsAll docs b) early := by
  cases docs with
  | nil => exact ⟨_, rfl, .refl a, ⟨Body.new_empty, rfl, .nil⟩⟩
  | cons doc docs =>
      have hnew := Builder.collects_new (hstart (List.cons_ne_nil doc docs)) hlimit
      have hitems := length_le_eventsOf (doc :: docs)
      rw [events, List.length_cons] at hlength
      have hbuilds : ∀ d ∈ doc :: docs, d.Builds limit early := by
        intro d hd
        have := length_events_le hd
        exact builds_of_within (h d hd) (by omega) hmemory
      change Ends (build (eventsOf (doc :: docs)) [{}] none) a _ early
      rw [← List.append_nil (eventsOf (doc :: docs))]
      refine ends_build_items hbuilds hnew ?_ fun b d hext hcollects => ?_
      · rw [List.length_nil, Nat.zero_add]
        omega
      · change Ends (b.finish >>= _) d _ early
        refine Ends.bind hcollects.ends_finish ?_
        rintro body _ ⟨rfl, hbody⟩
        exact ⟨body, rfl, hext, hbody⟩

end Json.Document

/-! ## Round trips -/

namespace Json.Document

theorem length_eventsOf_le (h : ∀ doc ∈ docs, doc.events.length ≤ doc.text.length) :
    (eventsOf docs).length ≤ (textAfter docs).length := by
  induction docs with
  | nil => exact Nat.le_refl 1
  | cons doc docs ih =>
      obtain ⟨hdoc, hdocs⟩ := List.forall_mem_cons.mp h
      have := ih hdocs
      simp only [eventsOf, textAfter, List.length_append, List.length_cons]
      omega

theorem length_events_le_text (h : doc.Within n) (hlegible : doc.Floats Legible) :
    doc.events.length ≤ doc.text.length := by
  induction h with
  | leaf hleaf =>
      obtain ⟨e, hevents, hlexeme⟩ := lexeme_of_leaf hleaf hlegible
      rw [hevents]
      exact hlexeme.length_pos
  | @array n docs _ ih =>
      have hitems : ∀ doc ∈ docs, doc.events.length ≤ doc.text.length := fun doc hdoc =>
        ih doc hdoc (floats_array.mp hlegible doc hdoc)
      cases docs with
      | nil => exact Nat.le_refl 2
      | cons doc docs =>
          obtain ⟨hdoc, hdocs⟩ := List.forall_mem_cons.mp hitems
          have := length_eventsOf_le hdocs
          simp only [events, eventsOf, text, List.length_append, List.length_cons]
          omega

end Json.Document

/-- The text of a document is read, and what it spells out is built, unless memory runs out. -/
theorem Action.ends_readArray (h : (Document.array docs).Within Json.maxDepth)
    (hlegible : (Document.array docs).Floats Json.Legible)
    (hstart : docs ≠ [] → a.settings.uninitializedSize ≠ 0)
    (hmemory : ¬Element.object.allocatable (max a.settings.uninitializedSize
      (2 * (Document.array docs).text.length)) → ∀ a', early .outOfMemory a') :
    Ends (readArray (Document.array docs).json) a (fun answer d => ∃ b, answer = .ok b ∧
      a.Extends d ∧ d.SpellsAll docs b) early := by
  have hitems : ∃ n, ∀ doc ∈ docs, doc.Within n := by
    cases h with
    | leaf hleaf => exact absurd rfl (hleaf docs)
    | array items => exact ⟨_, items⟩
  obtain ⟨n, hitems⟩ := hitems
  have hlength := Json.Document.length_events_le_text h hlegible
  unfold readArray
  rw [Document.json, String.toList_ofList, Json.arrayEvents_json h hlegible]
  refine Ends.bind (Json.Document.ends_build_array hitems hstart (Nat.le_max_left _ _) (by omega)
    hmemory) ?_
  rintro _ d ⟨b, rfl, hext, hspells⟩
  exact ⟨b, rfl, hext, hspells⟩

theorem Arena.SpellsAll.documents? {y : Body} (h : d.SpellsAll docs y)
    (hwithin : ∀ doc ∈ docs, doc.Within n)
    (hfinite : ∀ doc ∈ docs, doc.Floats fun x => x.isFinite) : d.documents? n y = some docs := by
  obtain ⟨hlength, hitems⟩ := List.forall₂_iff_zip.mp h.items
  refine mapM_eq_some_iff.mpr (List.forall₂_iff_zip.mpr ⟨hlength, fun {doc v} hmem => ?_⟩).flip
  have hdoc := (List.of_mem_zip hmem).1
  exact (hitems hmem).document? (hwithin doc hdoc) (hfinite doc hdoc)

/-- An array with documents is written as they say; and in every arena, where arrays start with some
room and floats are legible, its text is read back as what they spell out.  That is written the same
way, and what is read then is of the same kind and equal. -/
theorem Arena.json_round_trip {c : Arena} {x : Body}
    (hdocs : a.documents? (Json.maxDepth - 1) x = some docs)
    (hlegible : (Document.array docs).Floats Json.Legible)
    (hstart : docs ≠ [] → c.settings.uninitializedSize ≠ 0)
    (hmemory : Element.object.allocatable (max c.settings.uninitializedSize
      (2 * (Document.array docs).text.length))) :
    ∃ text, a.bodyJson? x = some (.ok text) ∧
      ∃ y d, Action.readArray text c = .ok (.ok y) d ∧ c.Extends d ∧ d.SpellsAll docs y ∧
        d.bodyJson? y = some (.ok text) ∧
        ∃ z e, Action.readArray text d = .ok (.ok z) e ∧ e.SpellsAll docs z ∧ z.kind = y.kind ∧
          e.equalBodies .strict y z = true := by
  have hitems := exists_of_forall₂ (mapM_eq_some_iff.mp hdocs)
  have hwithin : ∀ doc ∈ docs, doc.Within (Json.maxDepth - 1) := by
    intro doc hdoc
    obtain ⟨v, hv⟩ := hitems.2 doc hdoc
    exact within_of_document? hv
  have hfinite : ∀ doc ∈ docs, doc.Floats fun x => x.isFinite := by
    intro doc hdoc
    obtain ⟨v, hv⟩ := hitems.2 doc hdoc
    exact finite_of_document? hv
  have hread {c : Arena} (hstart : docs ≠ [] → c.settings.uninitializedSize ≠ 0)
      (hmemory : Element.object.allocatable (max c.settings.uninitializedSize
        (2 * (Document.array docs).text.length))) :
      ∃ y d, Action.readArray (Document.array docs).json c = .ok (.ok y) d ∧ c.Extends d ∧
        d.SpellsAll docs y := by
    have hends : Ends (Action.readArray (Document.array docs).json) c (fun answer d =>
        ∃ y, answer = .ok y ∧ c.Extends d ∧ d.SpellsAll docs y) fun _ _ => False :=
      Action.ends_readArray (.array hwithin) hlegible hstart fun h => absurd hmemory h
    obtain ⟨_, d, hrun, y, rfl, hext, hspells⟩ := hends.exists_ok fun _ _ h => h
    exact ⟨y, d, hrun, hext, hspells⟩
  obtain ⟨y, d, hy, hext, hspells⟩ := hread hstart hmemory
  rw [← hext.settings] at hstart hmemory
  obtain ⟨z, e, hz, hext', hspells'⟩ := hread hstart hmemory
  refine ⟨_, bodyJson?_eq hdocs, y, d, hy, hext, hspells,
    bodyJson?_eq (hspells.documents? hwithin hfinite), z, e, hz, hspells',
    hspells'.kind_eq hspells, ?_⟩
  exact (hspells.extends hext').equalBodies hspells'
    (Json.Document.floats_array.mpr hfinite) .strict

/-- A symbol, a NaN and a float, two of them in an array inside. -/
theorem Arena.json_round_trip_nested : ∃ y d,
    Action.readArray "[1,[\"s\",null],1.5]" {} = .ok (.ok y) d ∧
      d.SpellsAll [.int 1, .array [.string "s", .nil], .float ⟨0x3ff8000000000000⟩] y := by
  let a := ofLists [[.symbol "s", .float .nan]]
  have hdocs : a.documents? (Json.maxDepth - 1)
      (bodyOf [.int 1, .array 0, .float ⟨0x3ff8000000000000⟩]) =
        some [.int 1, .array [.string "s", .nil], .float ⟨0x3ff8000000000000⟩] := by
    with_unfolding_all rfl
  have hlegible : (Document.array [.int 1, .array [.string "s", .nil],
      .float ⟨0x3ff8000000000000⟩]).Floats Json.Legible := by
    intro x hx
    simp only [Json.Document.events, Json.Document.eventsOf, List.cons_append, List.nil_append,
      List.mem_cons, reduceCtorEq, false_or, Json.Event.float.injEq, List.not_mem_nil,
      or_false] at hx
    subst hx
    unfold Json.Legible
    decide +kernel
  obtain ⟨text, hwritten, y, d, hread, -, hspells, -⟩ :=
    json_round_trip hdocs hlegible (c := {}) (fun _ => by decide) (by decide +kernel)
  have hjson : (Document.array [.int 1, .array [.string "s", .nil],
      .float ⟨0x3ff8000000000000⟩]).json = "[1,[\"s\",null],1.5]" := by
    decide +kernel
  have htext : text = "[1,[\"s\",null],1.5]" :=
    (Except.ok.inj (Option.some.inj (hwritten.symm.trans (bodyJson?_eq hdocs)))).trans hjson
  rw [htext] at hread
  exact ⟨y, d, hread, hspells⟩

/-- Where arrays start with no room, what was written cannot be read. -/
theorem Arena.json_unread_without_room :
    ∃ o c, Options.ofJson "\x7b\"array_uninitialized_size\":0\x7d" = .ok o ∧
      Action.installOptions o {} = .ok () c ∧ c.bodyJson? (bodyOf [.int 1]) = some (.ok "[1]") ∧
      ∃ d, Action.readArray "[1]" c = .error .broken d :=
  ⟨{ uninitializedSize := 0 }, { options? := some { uninitializedSize := 0 } }, rfl, rfl, rfl,
    ⟨_, rfl⟩⟩

end AdaptiveArray
