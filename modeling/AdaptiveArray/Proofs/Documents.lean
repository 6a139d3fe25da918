import AdaptiveArray.Json.Event
import AdaptiveArray.Json.Writer
import AdaptiveArray.Proofs.Nesting
import Mathlib.Data.List.Forall2

/-!
# Documents

A document is what the JSON text of an array says: symbols are strings in it, and floats
that are not finite are `nil`.  An array has a document if it and all that it holds can be
read and the nesting comes to an end, and then its text is the text of the document.
-/

namespace AdaptiveArray

namespace Json

inductive Document where
  | nil
  | bool (b : Bool)
  | int (i : Int64)
  | float (x : Binary64)
  | string (text : String)
  | array (items : List Document)

namespace Document

mutual

def text : Document → List Char
  | nil => ['n', 'u', 'l', 'l']
  | bool true => ['t', 'r', 'u', 'e']
  | bool false => ['f', 'a', 'l', 's', 'e']
  | int i => (toString i.toInt).toList
  | float x => (layout.write x).toList
  | string s => (quote s).toList
  | array [] => ['[', ']']
  | array (d :: ds) => '[' :: (d.text ++ textAfter ds)

def textAfter : List Document → List Char
  | [] => [']']
  | d :: ds => ',' :: (d.text ++ textAfter ds)

end

mutual

def events : Document → List Event
  | nil => [.nil]
  | bool b => [.bool b]
  | int i => [.int i]
  | float x => [.float x]
  | string s => [.string s]
  | array ds => .opening :: eventsOf ds

def eventsOf : List Document → List Event
  | [] => [.closing]
  | d :: ds => d.events ++ eventsOf ds

end

def json (d : Document) : String :=
  String.ofList d.text

def Floats (P : Binary64 → Prop) (doc : Document) : Prop :=
  ∀ x, .float x ∈ doc.events → P x

inductive Within : Nat → Document → Prop
  | leaf {n : Nat} {d : Document} (leaf : ∀ ds, d ≠ array ds) : Within n d
  | array {n : Nat} {ds : List Document} (items : ∀ d ∈ ds, Within n d) : Within (n + 1) (array ds)

theorem mem_eventsOf {docs : List Document} {e : Event} :
    e ∈ eventsOf docs ↔ e = .closing ∨ ∃ doc ∈ docs, e ∈ doc.events := by
  induction docs with
  | nil => simp [eventsOf]
  | cons doc docs ih => simp [eventsOf, ih, or_left_comm]

theorem floats_array {P : Binary64 → Prop} {docs : List Document} :
    (array docs).Floats P ↔ ∀ doc ∈ docs, doc.Floats P := by
  simp only [Floats, events, List.mem_cons, mem_eventsOf, reduceCtorEq, false_or]
  constructor
  · exact fun h doc hdoc x hx => h x ⟨doc, hdoc, hx⟩
  · rintro h x ⟨doc, hdoc, hx⟩
    exact h doc hdoc x hx

end Document

end Json

open Json (Document)

def Arena.document? (a : Arena) : (levels : Nat) → Value → Option Document
  | _, .nil => some .nil
  | _, .bool b => some (.bool b)
  | _, .int i => some (.int i)
  | _, .float x => some (if x.isFinite then .float x else .nil)
  | _, .symbol name => some (.string name)
  | _, .string _ text => some (.string text)
  | 0, .array _ => none
  | n + 1, .array id => do
      let b ← a.readable? id
      return .array (← b.toList.mapM (a.document? n))

def Arena.documents? (a : Arena) (levels : Nat) (b : Body) : Option (List Document) :=
  b.toList.mapM (a.document? levels)

variable {a : Arena} {n : Nat} {v : Value} {doc : Document}

theorem exists_of_forall₂ {α β : Type} {R : α → β → Prop} {xs : List α} {ys : List β}
    (h : List.Forall₂ R xs ys) : (∀ x ∈ xs, ∃ y, R x y) ∧ ∀ y ∈ ys, ∃ x, R x y := by
  induction h with
  | nil => simp
  | cons hxy _ ih =>
      constructor
      · exact List.forall_mem_cons.mpr ⟨⟨_, hxy⟩, ih.1⟩
      · exact List.forall_mem_cons.mpr ⟨⟨_, hxy⟩, ih.2⟩

theorem mapM_eq_some_iff {α β : Type} {f : α → Option β} {xs : List α} {ys : List β} :
    xs.mapM f = some ys ↔ List.Forall₂ (fun x y => f x = some y) xs ys := by
  induction xs generalizing ys with
  | nil => cases ys <;> simp [List.mapM_nil]
  | cons x xs ih =>
      rw [List.mapM_cons]
      constructor
      · intro h
        simp only [Option.bind_eq_bind, Option.bind_eq_some_iff, Option.pure_def,
          Option.some.injEq] at h
        obtain ⟨y, hy, ys, hys, rfl⟩ := h
        exact .cons hy (ih.mp hys)
      · intro h
        cases h with
        | cons hy hys => simp [hy, ih.mpr hys]

namespace Arena

theorem document?_array_iff {id : ArrayId} : a.document? (n + 1) (.array id) = some doc ↔
    ∃ b docs, a.readable? id = some b ∧ a.documents? n b = some docs ∧ doc = .array docs := by
  simp only [document?, documents?, Option.bind_eq_bind, Option.bind_eq_some_iff, Option.pure_def,
    Option.some.injEq]
  constructor
  · rintro ⟨b, hb, docs, hdocs, rfl⟩
    exact ⟨b, docs, hb, hdocs, rfl⟩
  · rintro ⟨b, docs, hb, hdocs, rfl⟩
    exact ⟨b, hb, docs, hdocs, rfl⟩

theorem leaf_of_document? (hv : ∀ id, v ≠ .array id) (h : a.document? n v = some doc) :
    ∀ docs, doc ≠ .array docs := by
  cases v with
  | array id => exact absurd rfl (hv id)
  | float x =>
      simp only [document?, Option.some.injEq] at h
      subst h
      split <;> nofun
  | _ =>
      simp only [document?, Option.some.injEq] at h
      subst h
      nofun

theorem document?_induction {P : Nat → Value → Document → Prop}
    (leaf : ∀ n v doc, (∀ id, v ≠ .array id) → a.document? n v = some doc → P n v doc)
    (array : ∀ n id b docs, a.readable? id = some b →
      List.Forall₂ (fun v doc => a.document? n v = some doc ∧ P n v doc) b.toList docs →
        P (n + 1) (.array id) (.array docs))
    (h : a.document? n v = some doc) : P n v doc := by
  induction n generalizing v doc with
  | zero =>
      refine leaf 0 v doc ?_ h
      rintro id rfl
      simp [document?] at h
  | succ n ih =>
      by_cases hv : ∀ id, v ≠ .array id
      · exact leaf (n + 1) v doc hv h
      · simp only [not_forall, not_not] at hv
        obtain ⟨id, rfl⟩ := hv
        obtain ⟨b, docs, hb, hdocs, rfl⟩ := document?_array_iff.mp h
        exact array n id b docs hb ((mapM_eq_some_iff.mp hdocs).imp fun _ _ hv => ⟨hv, ih hv⟩)

theorem within_of_document? (h : a.document? n v = some doc) : doc.Within n := by
  refine document?_induction (P := fun n _ doc => doc.Within n) (fun n v doc hv h => ?_)
    (fun n id b docs _ hdocs => ?_) h
  · exact .leaf (leaf_of_document? hv h)
  · refine .array fun d hd => ?_
    obtain ⟨v, -, hwithin⟩ := (exists_of_forall₂ hdocs).2 d hd
    exact hwithin

theorem finite_of_document? (h : a.document? n v = some doc) :
    doc.Floats fun x => x.isFinite := by
  refine document?_induction (P := fun _ _ doc => doc.Floats fun x => x.isFinite)
    (fun n v doc hv h => ?_) (fun n id b docs _ hdocs => ?_) h
  · cases v with
    | array id => exact absurd rfl (hv id)
    | float x =>
        simp only [document?, Option.some.injEq] at h
        subst h
        split <;> simp_all [Json.Document.Floats, Json.Document.events]
    | _ =>
        simp only [document?, Option.some.injEq] at h
        subst h
        simp [Json.Document.Floats, Json.Document.events]
  · rw [Json.Document.floats_array]
    intro doc hdoc
    obtain ⟨v, -, hfinite⟩ := (exists_of_forall₂ hdocs).2 doc hdoc
    exact hfinite

theorem document?_leaf (hv : ∀ id, v ≠ .array id) (n m : Nat) :
    a.document? n v = a.document? m v := by
  cases v with
  | array id => exact absurd rfl (hv id)
  | _ => simp only [document?]

/-- What an array with a document holds leads nowhere for ever. -/
theorem acc_of_document? {i : ArrayId} (h : a.document? n (.array i) = some doc) :
    Acc (fun j i => a.Holds i j) i := by
  refine document?_induction
    (P := fun _ v _ => ∀ i, v = .array i → Acc (fun j i => a.Holds i j) i)
    (fun n v doc hv _ i hi => absurd hi (hv i)) (fun n id b docs hb hdocs => ?_) h i rfl
  rintro _ ⟨⟩
  refine ⟨_, fun j hj => ?_⟩
  obtain ⟨b', hb', hmem⟩ := hj
  obtain rfl : b = b' := Option.some.inj (hb.symm.trans hb')
  obtain ⟨doc, -, hacc⟩ := (exists_of_forall₂ hdocs).1 _ hmem
  exact hacc j rfl

theorem document?_above {s : List ArrayId} {depth : Nat} (h : a.document? n v = some doc)
    (habove : ∀ i, v = .array i → a.Above s depth i) : a.document? depth v = some doc := by
  refine document?_induction (P := fun n v doc => ∀ s depth, (∀ i, v = .array i →
    a.Above s depth i) → a.document? depth v = some doc) (fun n v doc hv h s depth _ => ?_)
    (fun n id b docs hb hdocs s depth habove => ?_) h s depth habove
  · rw [document?_leaf hv depth n, h]
  · have hid := habove id rfl
    obtain ⟨depth, rfl⟩ := Nat.exists_eq_add_one.mpr hid.room.pos
    refine document?_array_iff.mpr ⟨b, docs, hb, mapM_eq_some_iff.mpr ?_, rfl⟩
    have hmem := (List.forall₂_and_left b.toList docs).mpr ⟨fun _ hv => hv, hdocs⟩
    refine hmem.imp fun v d hv => hv.2.2 (id :: s) depth fun j hj => ?_
    exact hid.holds ⟨b, hb, hj ▸ hv.1⟩

theorem document?_depth (h : a.document? n v = some doc) : a.document? a.depth v = some doc := by
  refine document?_above (s := []) h ?_
  rintro i rfl
  exact .start (unlooped_of_acc (acc_of_document? h))

/-! ## Writing -/

end Arena

namespace Json

theorem writeValue_leaf (hv : ∀ id, v ≠ .array id) (h : a.document? n v = some doc) (depth : Nat) :
    writeValue a depth v = some (.ok doc.json) := by
  cases v with
  | array id => exact absurd rfl (hv id)
  | bool b =>
      simp only [Arena.document?, Option.some.injEq] at h
      subst h
      cases b <;> simp only [writeValue] <;> rfl
  | float x =>
      simp only [Arena.document?, Option.some.injEq] at h
      subst h
      by_cases hx : x.isFinite
      · simp [writeValue, writeFloat, hx, Document.json, Document.text]
      · simp [writeValue, writeFloat, hx, Document.json, Document.text]
  | _ =>
      simp only [Arena.document?, Option.some.injEq] at h
      subst h
      simp [writeValue, Document.json, Document.text]

theorem writeAll_eq {write : Value → Written} {vs : List Value} {docs : List Document}
    (h : List.Forall₂ (fun v doc => write v = some (.ok doc.json)) vs docs) :
    writeAll write vs = some (.ok (docs.map Document.json)) := by
  induction h with
  | nil => rfl
  | cons hv _ ih =>
      rw [writeAll, hv, ih]
      rfl

theorem intercalate_cons {α : Type} (c : α) (xs : List α) (xss : List (List α)) :
    [c].intercalate (xs :: xss) = xs ++ xss.flatMap (c :: ·) := by
  induction xss generalizing xs with
  | nil => simp [List.intercalate]
  | cons ys xss ih => simpa [List.intercalate] using ih ys

theorem json_array (docs : List Document) : (Document.array docs).json =
    "[" ++ String.intercalate "," (docs.map Document.json) ++ "]" := by
  have hrest (docs : List Document) : Document.textAfter docs =
      docs.flatMap (fun doc => ',' :: doc.text) ++ [']'] := by
    induction docs with
    | nil => rfl
    | cons doc docs ih => simp [Document.textAfter, ih]
  apply String.toList_inj.mp
  rw [String.toList_append, String.toList_append, String.toList_intercalate, List.map_map]
  cases docs with
  | nil => rfl
  | cons doc docs =>
      change _ = _ ++ [','].intercalate _ ++ _
      rw [List.map_cons, intercalate_cons]
      simp [Document.json, Document.text, hrest, List.flatMap_map]

theorem writeItems_eq {write : Value → Written} {vs : List Value} {docs : List Document}
    (h : List.Forall₂ (fun v doc => write v = some (.ok doc.json)) vs docs) :
    writeItems write vs = some (.ok (Document.array docs).json) := by
  rw [writeItems, writeAll_eq h, json_array]
  rfl

theorem writeValue_eq (h : a.document? n v = some doc) :
    writeValue a n v = some (.ok doc.json) := by
  refine Arena.document?_induction (P := fun n v doc => writeValue a n v = some (.ok doc.json))
    (fun n v doc hv h => writeValue_leaf hv h n) (fun n id b docs hb hdocs => ?_) h
  rw [writeValue, hb]
  exact writeItems_eq (hdocs.imp fun _ _ hv => hv.2)

end Json

theorem Arena.bodyJson?_eq {b : Body} {docs : List Document} (h : a.documents? n b = some docs) :
    a.bodyJson? b = some (.ok (Document.array docs).json) := by
  exact Json.writeItems_eq ((mapM_eq_some_iff.mp h).imp fun _ _ hv =>
    Json.writeValue_eq (document?_depth hv))

end AdaptiveArray
