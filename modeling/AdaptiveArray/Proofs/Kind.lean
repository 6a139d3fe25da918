import AdaptiveArray.Kind

/-!
# Widening

One kind widens to another when every element of the first can be kept in the second.
The kinds that the storage asks for when it must take values are reached by widening,
can be written in place, and hold the values they were asked for.
-/

namespace AdaptiveArray

namespace Element

def widens (a b : Element) : Bool :=
  a = b || (a = int && b = long) || b = object

def zero : Element → Value
  | int => .int 0
  | long => .int 0
  | double => .float Binary64.zero
  | object => .nil

end Element

namespace Kind

def widens (k target : Kind) : Bool :=
  match k.element?, target.element? with
  | none, _ => true
  | some a, some b => a.widens b
  | some _, none => false

@[simp] theorem forMutation_of_isMutable {k : Kind} (h : k.isMutable) : k.forMutation = k := by
  cases k with
  | empty => cases h
  | owned e => rfl
  | view e => cases h
  | native => rfl

theorem ne_empty_of_isMutable {k : Kind} (h : k.isMutable) : k ≠ empty := by
  rintro rfl
  cases h

theorem isMutable_forMutation {k : Kind} (h : k ≠ empty) : k.forMutation.isMutable := by
  cases k with
  | empty => exact absurd rfl h
  | owned e => rfl
  | view e => rfl
  | native => rfl

@[simp] theorem forMutation_forMutation (k : Kind) : k.forMutation.forMutation = k.forMutation := by
  cases k <;> rfl

@[simp] theorem element?_forMutation (k : Kind) : k.forMutation.element? = k.element? := by
  cases k <;> rfl

theorem forMutation_ne_native {k : Kind} (h : k ≠ native) : k.forMutation ≠ native := by
  cases k <;> simp_all [forMutation]

theorem forCopy_ne_native (k : Kind) : k.forCopy ≠ native := by
  unfold forCopy
  split
  · nofun
  · assumption

theorem holds_forMutation (k : Kind) (v : Value) : k.forMutation.holds v = k.holds v := by
  simp [holds]

theorem widens_refl (k : Kind) : k.widens k := by
  cases k with
  | empty => rfl
  | owned e => cases e <;> rfl
  | view e => cases e <;> rfl
  | native => rfl

theorem widens_forMutation (k : Kind) : k.widens k.forMutation := by
  have h := widens_refl k
  simpa [widens] using h

private theorem Element.widens_trans :
    ∀ {a b c : Element}, a.widens b → b.widens c → a.widens c := by
  intro a b c
  cases a <;> cases b <;> cases c <;> decide

theorem widens_trans {k l m : Kind} (hl : l ≠ empty) (h : k.widens l) (h' : l.widens m) :
    k.widens m := by
  unfold widens at h h' ⊢
  cases hk : k.element? with
  | none => rfl
  | some a =>
      cases hle : l.element? with
      | none => cases l <;> simp_all [element?]
      | some b =>
          cases hm : m.element? with
          | none => simp [hle, hm] at h'
          | some c =>
              simp only [hk, hle, hm] at h h' ⊢
              exact Element.widens_trans h h'

@[simp] theorem forMutation_forCopy (k : Kind) : k.forCopy.forMutation = k.forCopy := by
  cases k <;> rfl

theorem forCopy_spec {k : Kind} (h : k ≠ empty) : k.forCopy.isMutable ∧ k.widens k.forCopy := by
  cases k with
  | empty => exact absurd rfl h
  | owned e => cases e <;> decide
  | view e => cases e <;> decide
  | native => decide

theorem holds_ofValue (v : Value) : (ofValue v).holds v := by
  cases v with
  | int i => by_cases h : fitsInt32 i <;> simp [ofValue, holds, forMutation, h]
  | _ => rfl

theorem isMutable_ofValue (v : Value) : (ofValue v).isMutable := by
  cases v with
  | int i => by_cases h : fitsInt32 i <;> simp [ofValue, isMutable, h]
  | _ => rfl

theorem holds_of_widens {k l : Kind} {v : Value} (hl : l.isMutable) (h : k.widens l)
    (hv : k.holds v) : l.holds v := by
  cases l with
  | empty => cases hl
  | view e => cases hl
  | native => rfl
  | owned e =>
      cases k with
      | empty => simp [holds, forMutation] at hv
      | native => cases e <;> simp_all [widens, element?, Element.widens, holds, forMutation]
      | owned d =>
          cases d <;> cases e <;> cases v <;>
            simp_all [widens, element?, Element.widens, holds, forMutation]
      | view d =>
          cases d <;> cases e <;> cases v <;>
            simp_all [widens, element?, Element.widens, holds, forMutation]

theorem forStore_spec (k : Kind) {incoming : Kind} (h : incoming ≠ empty) :
    (k.forStore incoming).isMutable ∧ k.widens (k.forStore incoming) ∧
      incoming.widens (k.forStore incoming) := by
  cases incoming with
  | empty => exact absurd rfl h
  | native => cases k with
    | owned d => cases d <;> decide
    | view d => cases d <;> decide
    | _ => decide
  | owned e => cases k with
    | owned d => cases d <;> cases e <;> decide
    | view d => cases d <;> cases e <;> decide
    | _ => cases e <;> decide
  | view e => cases k with
    | owned d => cases d <;> cases e <;> decide
    | view d => cases d <;> cases e <;> decide
    | _ => cases e <;> decide

theorem forStore_ofValue (k : Kind) (v : Value) :
    (k.forStore (ofValue v)).isMutable ∧ k.widens (k.forStore (ofValue v)) ∧
      (k.forStore (ofValue v)).holds v := by
  have hne : ofValue v ≠ empty := ne_empty_of_isMutable (isMutable_ofValue v)
  obtain ⟨hmut, hk, hwide⟩ := forStore_spec k hne
  exact ⟨hmut, hk, holds_of_widens hmut hwide (holds_ofValue v)⟩

theorem isMutable_forValue (k : Kind) (v : Value) : (k.forValue v).isMutable := by
  unfold forValue
  split
  · refine isMutable_forMutation fun h => ?_
    subst h
    simp_all [holds, forMutation]
  · exact (forStore_ofValue k v).1

theorem widens_forValue (k : Kind) (v : Value) : k.widens (k.forValue v) := by
  unfold forValue
  split
  · exact widens_forMutation k
  · exact (forStore_ofValue k v).2.1

theorem holds_forValue (k : Kind) (v : Value) : (k.forValue v).holds v := by
  unfold forValue
  split
  · rwa [holds_forMutation]
  · exact (forStore_ofValue k v).2.2

theorem forValue_ne_empty (k : Kind) (v : Value) : k.forValue v ≠ empty :=
  ne_empty_of_isMutable (isMutable_forValue k v)

theorem ofValue_ne_native (v : Value) : ofValue v ≠ native := by
  unfold ofValue
  split
  · split <;> nofun
  · nofun
  · nofun

theorem forValue_ne_native {k : Kind} (h : k ≠ native) (v : Value) : k.forValue v ≠ native := by
  have hjoin : ∀ l, l ≠ native → k.forStore l ≠ native := by
    intro l hl
    rcases k with _ | (_ | _ | _ | _) | (_ | _ | _ | _) | _ <;>
      rcases l with _ | (_ | _ | _ | _) | (_ | _ | _ | _) | _ <;> first | contradiction | decide
  unfold forValue
  split
  · exact forMutation_ne_native h
  · exact hjoin _ (ofValue_ne_native v)

theorem foldl_forValue {vs : List Value} : ∀ {k : Kind}, (vs = [] → k.isMutable) →
    (vs.foldl forValue k).isMutable ∧ k.widens (vs.foldl forValue k) ∧
      ∀ v ∈ vs, (vs.foldl forValue k).holds v := by
  induction vs with
  | nil => exact fun {k} hk => ⟨hk rfl, widens_refl k, by simp⟩
  | cons v vs ih =>
      intro k _
      obtain ⟨hmut, hwide, hall⟩ := ih (k := k.forValue v) fun _ => isMutable_forValue k v
      refine ⟨hmut, widens_trans (forValue_ne_empty k v) (widens_forValue k v) hwide, ?_⟩
      intro x hx
      cases hx with
      | head => exact holds_of_widens hmut hwide (holds_forValue k v)
      | tail _ hx => exact hall x hx

theorem foldl_forStore {ks : List Kind} : ∀ {k : Kind}, (∀ l ∈ ks, l ≠ empty) →
    (ks = [] → k.isMutable) → (ks.foldl forStore k).isMutable ∧
      k.widens (ks.foldl forStore k) ∧ ∀ l ∈ ks, l.widens (ks.foldl forStore k) := by
  induction ks with
  | nil => exact fun {k} _ hk => ⟨hk rfl, widens_refl k, by simp⟩
  | cons l ks ih =>
      intro k hks _
      obtain ⟨hlmut, hlk, hl⟩ := forStore_spec k (hks l List.mem_cons_self)
      have hne : k.forStore l ≠ empty := ne_empty_of_isMutable hlmut
      obtain ⟨hmut, hwide, hall⟩ := ih (k := k.forStore l)
        (fun x hx => hks x (List.mem_cons_of_mem l hx)) fun _ => hlmut
      refine ⟨hmut, widens_trans hne hlk hwide, ?_⟩
      intro x hx
      cases hx with
      | head => exact widens_trans hne hl hwide
      | tail _ hx => exact hall x hx

/-! ## The narrowest kind for several values -/

/-- The narrowest kind for values of which these are the narrowest kinds one by one.  Integers and
floats have only the kind of all values in common. -/
def narrowest (ks : List Kind) : Kind :=
  if ks.isEmpty then empty
  else if ks.all (· = owned .int) then owned .int
  else if ks.all fun k => k = owned .int || k = owned .long then owned .long
  else if ks.all (· = owned .double) then owned .double
  else owned .object

theorem narrowest_cases (ks : List Kind) : narrowest ks = empty ∨ ∃ e, narrowest ks = owned e := by
  unfold narrowest
  split
  · exact .inl rfl
  · right
    repeat' split
    all_goals exact ⟨_, rfl⟩

theorem exists_ofValue (v : Value) : ∃ e, ofValue v = owned e := by
  cases v with
  | int i => by_cases h : fitsInt32 i <;> simp [ofValue, h]
  | _ => exact ⟨_, rfl⟩

theorem narrowest_concat (ks : List Kind) (e : Element) :
    narrowest (ks ++ [owned e]) = (narrowest ks).join (owned e) := by
  cases ks with
  | nil => cases e <;> rfl
  | cons k ks =>
      let ints := (k :: ks).all (· = owned .int)
      let longs := (k :: ks).all fun k => k = owned .int || k = owned .long
      let doubles := (k :: ks).all (· = owned .double)
      have hints : ints → longs := by
        simp only [ints, longs, List.all_eq_true, decide_eq_true_eq, Bool.or_eq_true]
        exact fun h l hl => .inl (h l hl)
      have hlongs : longs → ¬doubles := by
        simp only [longs, doubles, List.all_cons, Bool.and_eq_true, Bool.or_eq_true,
          decide_eq_true_eq]
        rintro ⟨rfl | rfl, -⟩ ⟨hdouble, -⟩ <;> cases hdouble
      unfold narrowest
      rw [List.all_append, List.all_append, List.all_append]
      change (if _ then _ else if ints && _ then _ else if longs && _ then _
        else if doubles && _ then _ else _) = Kind.join (if _ then _ else if ints then _
          else if longs then _ else if doubles then _ else _) _
      -- which of the three tests hold before, and the new kind, say which hold afterwards
      generalize ints = i, longs = l, doubles = d at hints hlongs ⊢
      cases e <;> cases i <;> cases l <;> cases d <;> first | rfl | simp at hints hlongs

theorem narrowest_ne_empty {ks : List Kind} (h : ks ≠ []) : narrowest ks ≠ empty := by
  unfold narrowest
  rw [if_neg (by simpa using h)]
  repeat' split
  all_goals nofun

theorem forValue_eq_forStore (k : Kind) (v : Value) : k.forValue v = k.forStore (ofValue v) := by
  cases v with
  | int i =>
      rcases k with _ | e | e | _ <;> by_cases h : fitsInt32 i <;> try cases e
      all_goals simp [forValue, holds, forStore, join, forMutation, ofValue, h]
  | _ => rcases k with _ | e | e | _ <;> first | rfl | (cases e <;> rfl)

theorem narrowest_forValue (vs : List Value) (v : Value) :
    (narrowest (vs.map ofValue)).forValue v = narrowest ((vs ++ [v]).map ofValue) := by
  have hjoin {k : Kind} (hk : k = empty ∨ ∃ d, k = owned d) (e : Element) :
      k.forStore (owned e) = k.join (owned e) := by
    rcases hk with rfl | ⟨d, rfl⟩
    · rfl
    · cases d <;> cases e <;> rfl
  obtain ⟨e, he⟩ := exists_ofValue v
  rw [forValue_eq_forStore, List.map_append, List.map_singleton, he, narrowest_concat,
    hjoin (narrowest_cases _)]

/-! ## Making room one by one and for all at once -/

theorem forStore_forMutation (k l : Kind) : k.forStore l.forMutation = k.forStore l := by
  cases l with
  | view e =>
      rcases k with _ | d | d | _ <;> try cases d
      all_goals cases e <;> rfl
  | _ => rfl

theorem forStore_forStore (k : Kind) (d e : Element) :
    (k.forStore (owned d)).forStore (owned e) = k.forStore ((owned d).join (owned e)) := by
  rcases k with _ | c | c | _ <;> try cases c
  all_goals cases d <;> cases e <;> rfl

theorem forStore_narrowest_forValue (k : Kind) {us : List Value} (hus : us ≠ []) (v : Value) :
    (k.forStore (narrowest (us.map ofValue))).forValue v =
      k.forStore (narrowest ((us ++ [v]).map ofValue)) := by
  have hne : narrowest (us.map ofValue) ≠ empty :=
    narrowest_ne_empty fun h => hus (List.map_eq_nil_iff.mp h)
  obtain ⟨d, hd⟩ := (narrowest_cases (us.map ofValue)).resolve_left hne
  obtain ⟨e, he⟩ := exists_ofValue v
  rw [forValue_eq_forStore, List.map_append, List.map_singleton, he, narrowest_concat, hd,
    forStore_forStore]

theorem foldl_forValue_eq (k : Kind) {vs : List Value} (hvs : vs ≠ []) :
    vs.foldl forValue k = k.forStore (narrowest (vs.map ofValue)) := by
  have hrest (us : List Value) (hus : us ≠ []) (vs : List Value) :
      vs.foldl forValue (k.forStore (narrowest (us.map ofValue))) =
        k.forStore (narrowest ((us ++ vs).map ofValue)) := by
    induction vs generalizing us with
    | nil => rw [List.append_nil, List.foldl_nil]
    | cons v vs ih =>
        rw [List.foldl_cons, forStore_narrowest_forValue k hus, ih _ (by simp), List.append_assoc,
          List.singleton_append]
  cases vs with
  | nil => exact absurd rfl hvs
  | cons v vs =>
      have hfirst : ofValue v = narrowest ([v].map ofValue) := by
        obtain ⟨e, he⟩ := exists_ofValue v
        rw [List.map_singleton, he]
        cases e <;> rfl
      rw [List.foldl_cons, forValue_eq_forStore, hfirst, hrest [v] (by simp), List.singleton_append]

end Kind

end AdaptiveArray
