import AdaptiveArray.Proofs.Building
import AdaptiveArray.Proofs.Documents
import AdaptiveArray.Proofs.Matching

/-!
# What a document spells out

A document spells out an array of strings, numbers, booleans, `nil` and arrays of these,
each array new and in the narrowest kind that holds its elements.  Only the identities of
the arrays and strings are left open.  What a document spells out has this document
again, and all that it spells out is equal.
-/

namespace AdaptiveArray

open Json (Document)

inductive Arena.Spells (a : Arena) : Document → Value → Prop
  | nil : a.Spells .nil .nil
  | bool (b : Bool) : a.Spells (.bool b) (.bool b)
  | int (i : Int64) : a.Spells (.int i) (.int i)
  | float (x : Binary64) : a.Spells (.float x) (.float x)
  | string (id : StringId) (text : String) : a.Spells (.string text) (.string id text)
  | array {id : ArrayId} {b : Body} {docs : List Document} (readable : a.readable? id = some b)
      (new : b.New b.toList) (kind : b.kind = Kind.narrowest (b.toList.map Kind.ofValue))
      (length : docs.length = b.toList.length)
      (items : ∀ {doc v}, (doc, v) ∈ docs.zip b.toList → a.Spells doc v) :
      a.Spells (.array docs) (.array id)

structure Arena.SpellsAll (a : Arena) (docs : List Document) (b : Body) : Prop where
  new : b.New b.toList
  kind : b.kind = Kind.narrowest (b.toList.map Kind.ofValue)
  items : List.Forall₂ a.Spells docs b.toList

structure Arena.Extends (a d : Arena) : Prop where
  readable : ∀ {id b}, a.readable? id = some b → d.readable? id = some b
  settings : d.settings = a.settings

namespace Arena

variable {a d e : Arena} {doc : Document} {docs : List Document} {v w : Value} {b c : Body}
  {n : Nat}

theorem Extends.refl (a : Arena) : a.Extends a :=
  ⟨id, rfl⟩

theorem Extends.trans (h : a.Extends d) (h' : d.Extends e) : a.Extends e :=
  ⟨fun hb => h'.readable (h.readable hb), h'.settings.trans h.settings⟩

theorem Booked.extends (h : a.Booked d) : a.Extends d :=
  ⟨fun hb => by rwa [readable?_of_objects h.objects], h.settings⟩

theorem extends_pushObject (a : Arena) (o : ArrayObject) :
    a.Extends { a with objects := a.objects.push (some o) } where
  settings := rfl
  readable := by
    intro id b hb
    have hlt := lt_size_of_readable (by rw [hb]; rfl)
    simpa [readable?, object?, Array.getElem?_push, Nat.ne_of_lt hlt] using hb

theorem readable?_pushObject (a : Arena) (b : Body) :
    readable? { a with objects := a.objects.push (some { body := b }) } a.objects.size =
      some b := by
  simp [readable?, object?]

theorem Spells.extends (h : a.Spells doc v) (hext : a.Extends d) : d.Spells doc v := by
  induction h with
  | array readable new kind length _ ih => exact .array (hext.readable readable) new kind length ih
  | _ => constructor

theorem SpellsAll.extends (h : a.SpellsAll docs b) (hext : a.Extends d) : d.SpellsAll docs b :=
  ⟨h.new, h.kind, h.items.imp fun _ _ hv => hv.extends hext⟩

theorem SpellsAll.spells {id : ArrayId} (h : a.SpellsAll docs b) (hb : a.readable? id = some b) :
    a.Spells (.array docs) (.array id) := by
  obtain ⟨hlength, hitems⟩ := List.forall₂_iff_zip.mp h.items
  exact .array hb h.new h.kind hlength hitems

theorem Spells.document? (h : a.Spells doc v) (hwithin : doc.Within n)
    (hfinite : doc.Floats fun x => x.isFinite) : a.document? n v = some doc := by
  induction h generalizing n with
  | @array id b docs readable _ _ length _ ih =>
      cases hwithin with
      | leaf hleaf => exact absurd rfl (hleaf docs)
      | array items =>
          have hfloats := Document.floats_array.mp hfinite
          refine document?_array_iff.mpr ⟨b, docs, readable, mapM_eq_some_iff.mpr ?_, rfl⟩
          refine (List.forall₂_iff_zip.mpr ⟨length, fun {doc v} hmem => ?_⟩).flip
          have hdoc := (List.of_mem_zip hmem).1
          exact ih hmem (items doc hdoc) (hfloats doc hdoc)
  | float x =>
      have hx : x.isFinite := hfinite x (by simp [Document.events])
      simp [Arena.document?, hx]
  | _ => simp only [Arena.document?]

end Arena

namespace Traversal

variable {a : Arena} {doc : Document} {docs : List Document} {u v : Value} {b c : Body}
variable {how : Equality}

theorem answer_equalBodies_of_zip {nested : ArrayId → ArrayId → Traversal Bool} {s : List ArrayId}
    (hbalanced : ∀ i j, Balanced (nested i j)) (hb : b.New b.toList) (hc : c.New c.toList)
    (hblength : docs.length = b.toList.length) (hclength : docs.length = c.toList.length)
    (h : ∀ {doc u v}, (doc, u) ∈ docs.zip b.toList → (doc, v) ∈ docs.zip c.toList →
      answer (equalValues how nested u v) s = true) :
    answer (equalBodies how nested b c) s = true := by
  refine (answer_equalBodies hbalanced hb.shows.fits.loose hc.shows.fits.loose).mpr ⟨?_, ?_⟩
  · rw [← Body.length_toList hb.shows.fits, ← Body.length_toList hc.shows.fits, ← hblength,
      hclength]
  · intro k u v hu hv
    have hk := (List.getElem?_eq_some_iff.mp hu).1
    have hdoc : docs[k]? = some docs[k] := List.getElem?_eq_getElem (by omega)
    exact h (List.mem_of_getElem? (List.getElem?_zip_eq_some.mpr ⟨hdoc, hu⟩))
      (List.mem_of_getElem? (List.getElem?_zip_eq_some.mpr ⟨hdoc, hv⟩))

theorem answer_equalValues_of_spells (h : a.Spells doc u) (h' : a.Spells doc v)
    (hfinite : doc.Floats fun x => x.isFinite) {s : List ArrayId} {depth : Nat}
    (hroom : a.Room s depth) :
    answer (equalValues how (equalArrays a how depth) u v) s = true := by
  induction h generalizing v s depth with
  | @array i b docs readable new _ length _ ih =>
      cases h' with
      | @array j c _ readable' new' _ length' items' =>
          rw [answer_equalValues_array]
          obtain ⟨depth, rfl⟩ := Nat.exists_eq_add_one.mpr hroom.pos
          rw [equalArrays, answer_guarded, readable, readable']
          by_cases hi : i ∈ s
          · simp [hi]
          · have hroom' := hroom.cons hi (by rw [readable]; rfl)
            have hequal : answer (equalBodies how (equalArrays a how depth) b c) (i :: s) = true :=
              answer_equalBodies_of_zip (balanced_equalArrays a how depth) new new' length length'
                fun {doc u v} hu hv => ih hu (items' hv)
                  (Document.floats_array.mp hfinite doc (List.of_mem_zip hu).1) hroom'
            simp [hi, hequal]
  | float x =>
      cases h'
      have hx : x.isFinite := hfinite x (by simp [Document.events])
      have hnan : x.isNaN = false := by simp_all [Binary64.isFinite, Binary64.isNaN]
      simp [equalValues, Binary64.numEq, hnan]
  | _ =>
      cases h'
      simp [equalValues]

end Traversal

theorem Arena.SpellsAll.equalBodies {a : Arena} {docs : List Document} {b c : Body}
    (h : a.SpellsAll docs b) (h' : a.SpellsAll docs c)
    (hfinite : (Document.array docs).Floats fun x => x.isFinite) (how : Equality) :
    a.equalBodies how b c = true := by
  obtain ⟨hlength, hitems⟩ := List.forall₂_iff_zip.mp h.items
  obtain ⟨hlength', hitems'⟩ := List.forall₂_iff_zip.mp h'.items
  refine Traversal.answer_equalBodies_of_zip (Traversal.balanced_equalArrays a how a.depth) h.new
    h'.new hlength hlength' fun {doc u v} hu hv => ?_
  exact Traversal.answer_equalValues_of_spells (hitems hu) (hitems' hv)
    (Document.floats_array.mp hfinite doc (List.of_mem_zip hu).1) (room_start a)

theorem Arena.Spells.ofValue_eq {a d : Arena} {doc : Document} {v w : Value} (h : a.Spells doc v)
    (h' : d.Spells doc w) : Kind.ofValue v = Kind.ofValue w := by
  cases h <;> cases h' <;> rfl

theorem Arena.map_ofValue_eq {a d : Arena} {docs : List Document} {vs ws : List Value}
    (h : List.Forall₂ a.Spells docs vs) (h' : List.Forall₂ d.Spells docs ws) :
    vs.map Kind.ofValue = ws.map Kind.ofValue := by
  induction h generalizing ws with
  | nil =>
      cases h'
      rfl
  | cons hv _ ih =>
      cases h' with
      | cons hw hws => simp [hv.ofValue_eq hw, ih hws]

theorem Arena.SpellsAll.kind_eq {a d : Arena} {docs : List Document} {b c : Body}
    (h : a.SpellsAll docs b) (h' : d.SpellsAll docs c) : b.kind = c.kind := by
  rw [h.kind, h'.kind, map_ofValue_eq h.items h'.items]

end AdaptiveArray
