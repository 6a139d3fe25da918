import AdaptiveArray.Proofs.Descent
import AdaptiveArray.Proofs.Documents

/-!
# When writing ends

Writing keeps no account of the arrays that it is inside of.  Where every array can be
read, it ends for an array just if that leads into no circle.  If writing ends, the array
has a document, and what has a document leads nowhere for ever.  And below an array that
leads into no circle, a way down never comes to an array that it has passed; so writing
goes through no more arrays, one inside the other, than there are.
-/

namespace AdaptiveArray

open Json (Document writeValue writeAll writeItems writeBody Written)

namespace Arena

variable {a : Arena} {s : List ArrayId} {n m : Nat} {v : Value} {vs : List Value}
variable {doc : Document} {docs : List Document} {i : ArrayId}

/-! ## Documents -/

theorem exists_mapM_eq_some {α β : Type} {f : α → Option β} {xs : List α}
    (h : ∀ x ∈ xs, ∃ y, f x = some y) : ∃ ys, xs.mapM f = some ys := by
  induction xs with
  | nil => exact ⟨[], rfl⟩
  | cons x xs ih =>
      obtain ⟨hx, hxs⟩ := List.forall_mem_cons.mp h
      obtain ⟨y, hy⟩ := hx
      obtain ⟨ys, hys⟩ := ih hxs
      exact ⟨y :: ys, mapM_eq_some_iff.mpr (.cons hy (mapM_eq_some_iff.mp hys))⟩

theorem exists_document (h : ∀ i, v = .array i → ∃ doc, a.document? n v = some doc) :
    ∃ doc, a.document? n v = some doc := by
  cases v with
  | array i => exact h i rfl
  | _ => exact ⟨_, document?.eq_def ..⟩

theorem document?_mono (h : a.document? n v = some doc) (hle : n ≤ m) :
    a.document? m v = some doc := by
  refine document?_induction (P := fun n v doc => ∀ m, n ≤ m → a.document? m v = some doc)
    (fun n v doc hv h m _ => ?_) (fun n id b docs hb hdocs m hle => ?_) h m hle
  · rw [document?_leaf hv m n, h]
  · obtain ⟨m, rfl⟩ := Nat.exists_eq_add_one_of_ne_zero (Nat.ne_zero_of_lt hle)
    refine document?_array_iff.mpr ⟨b, docs, hb, mapM_eq_some_iff.mpr ?_, rfl⟩
    exact hdocs.imp fun _ _ hv => hv.2 m (Nat.le_of_succ_le_succ hle)

/-- What is nested in an array that leads into no circle goes no deeper than there are arrays
besides those that lead to it. -/
theorem exists_document_of_unlooped (hheld : ∀ i j, a.Holds i j → (a.readable? j).isSome)
    (hread : (a.readable? i).isSome) (hi : a.Unlooped i)
    (hs : ∀ k ∈ s, Relation.TransGen a.Holds k i) (hn : (a.unentered s).card ≤ n) :
    ∃ doc, a.document? n (.array i) = some doc := by
  have hfewer := card_unentered_cons (isSome_of_readable hread) (hi.not_mem hs)
  induction n generalizing s i with
  | zero => exact absurd (hfewer.trans_le hn) (Nat.not_lt_zero _)
  | succ n ih =>
      obtain ⟨b, hb⟩ := Option.isSome_iff_exists.mp hread
      have hitems : ∀ v ∈ b.toList, ∃ doc, a.document? n v = some doc := by
        refine fun v hv => exists_document fun j hj => ?_
        subst hj
        have hj : a.Holds i j := ⟨b, hb, hv⟩
        have hlater := leads_cons hs hj
        exact ih (hheld i j hj) (hi.holds hj) hlater (Nat.le_of_lt_succ (hfewer.trans_le hn))
          (card_unentered_cons (isSome_of_readable (hheld i j hj)) ((hi.holds hj).not_mem hlater))
      obtain ⟨docs, hdocs⟩ := exists_mapM_eq_some hitems
      exact ⟨.array docs, document?_array_iff.mpr ⟨b, docs, hb, hdocs, rfl⟩⟩

/-! ## Arrays from lists -/

theorem knows_ofLists {lists : List (List Value)}
    (h : ∀ v ∈ vs, ∀ j ∈ v.arrayId?, j < lists.length) : ∀ v ∈ vs, (ofLists lists).Knows v := by
  intro v hv j hj
  rw [object?_ofLists, List.getElem?_eq_getElem (h v hv j hj)]
  rfl

theorem known_ofLists {lists : List (List Value)}
    (h : ∀ vs ∈ lists, ∀ v ∈ vs, ∀ j ∈ v.arrayId?, j < lists.length) (id : ArrayId)
    (o : ArrayObject) (ho : (ofLists lists).object? id = some o) :
    ∀ v ∈ o.body.toList, (ofLists lists).Knows v := by
  rw [object?_ofLists] at ho
  obtain ⟨vs, hvs, rfl⟩ := Option.map_eq_some_iff.mp ho
  rw [toList_bodyOf]
  exact knows_ofLists (h vs (List.mem_of_getElem? hvs))

theorem free_ofLists (lists : List (List Value)) (id : ArrayId) (o : ArrayObject)
    (ho : (ofLists lists).object? id = some o) : o.lock = .free := by
  rw [object?_ofLists] at ho
  obtain ⟨vs, -, rfl⟩ := Option.map_eq_some_iff.mp ho
  rfl

/-! ## Writing that ends -/

theorem forall_of_writeAll {write : Value → Written}
    (hwrite : ∀ v ∈ vs, write v ≠ none → ∃ text, write v = some (.ok text))
    (h : writeAll write vs ≠ none) : ∀ v ∈ vs, write v ≠ none := by
  induction vs with
  | nil => exact List.forall_mem_nil _
  | cons v vs ih =>
      obtain ⟨hv, hvs⟩ := List.forall_mem_cons.mp hwrite
      have hfirst : write v ≠ none := by
        intro hnone
        simp [writeAll, hnone] at h
      obtain ⟨text, htext⟩ := hv hfirst
      refine List.forall_mem_cons.mpr ⟨hfirst, ih hvs fun hnone => ?_⟩
      simp [writeAll, htext, hnone] at h

theorem exists_documents_of_writeItems
    (harrays : ∀ i, .array i ∈ vs → writeValue a n (.array i) ≠ none →
      ∃ doc, a.document? n (.array i) = some doc)
    (h : writeItems (writeValue a n) vs ≠ none) : ∃ docs, vs.mapM (a.document? n) = some docs := by
  have hdocument : ∀ v ∈ vs, writeValue a n v ≠ none → ∃ doc, a.document? n v = some doc := by
    refine fun v hv hne => exists_document fun i hi => ?_
    subst hi
    exact harrays i hv hne
  have hall : ∀ v ∈ vs, writeValue a n v ≠ none := by
    refine forall_of_writeAll (fun v hv hne => ?_) fun hnone => h ?_
    · obtain ⟨doc, hdoc⟩ := hdocument v hv hne
      exact ⟨doc.json, Json.writeValue_eq hdoc⟩
    · rw [writeItems, hnone]
      rfl
  exact exists_mapM_eq_some fun v hv => hdocument v hv (hall v hv)

theorem exists_document_of_writeValue (hheld : ∀ i j, a.Holds i j → (a.readable? j).isSome)
    (hread : (a.readable? i).isSome) (h : writeValue a n (.array i) ≠ none) :
    ∃ doc, a.document? n (.array i) = some doc := by
  induction n generalizing i with
  | zero => exact absurd rfl h
  | succ n ih =>
      obtain ⟨b, hb⟩ := Option.isSome_iff_exists.mp hread
      rw [writeValue, hb] at h
      obtain ⟨docs, hdocs⟩ := exists_documents_of_writeItems (fun j hj =>
        ih (hheld i j ⟨b, hb, hj⟩)) h
      exact ⟨.array docs, document?_array_iff.mpr ⟨b, docs, hb, hdocs, rfl⟩⟩

theorem ends_iff_of_text {write : Nat → Written} {P : Prop} {bound room : Nat}
    (hroom : bound ≤ room)
    (hends : ∀ depth, write depth ≠ none → P)
    (htext : P → ∃ text, ∀ depth, bound ≤ depth → write depth = some (.ok text)) :
    ((∃ depth, write depth ≠ none) ↔ P) ∧ (P → ∃ text, write room = some (.ok text) ∧
      ∀ depth, bound ≤ depth → write depth = some (.ok text)) := by
  refine ⟨⟨fun ⟨depth, h⟩ => hends depth h, fun hP => ?_⟩, fun hP => ?_⟩
  · obtain ⟨text, h⟩ := htext hP
    exact ⟨bound, by simp [h]⟩
  · obtain ⟨text, h⟩ := htext hP
    exact ⟨text, h room hroom, h⟩

/-- Where no array is locked, the writing of an array ends just if it leads into no circle, and that
of an array outside the arena just if what it holds leads into none.  Then it ends in a text, and
goes through at most as many arrays, one inside the other, as are there. -/
theorem writing_ends_iff_unlooped
    (hknown : ∀ id o, a.object? id = some o → ∀ v ∈ o.body.toList, a.Knows v)
    (hfree : ∀ id o, a.object? id = some o → o.lock = .free) :
    (∀ i, (a.object? i).isSome →
      ((∃ depth, writeValue a depth (.array i) ≠ none) ↔ a.Unlooped i) ∧
      (a.Unlooped i → ∃ text, a.json? (.array i) = some (.ok text) ∧
        ∀ depth, a.present.card ≤ depth → writeValue a depth (.array i) = some (.ok text))) ∧
    ∀ b : Body, (∀ v ∈ b.toList, a.Knows v) →
      ((∃ depth, writeBody a depth b ≠ none) ↔ ∀ i, .array i ∈ b.toList → a.Unlooped i) ∧
      ((∀ i, .array i ∈ b.toList → a.Unlooped i) → ∃ text, a.bodyJson? b = some (.ok text) ∧
        ∀ depth, a.present.card ≤ depth → writeBody a depth b = some (.ok text)) := by
  have hreadable : ∀ {i}, (a.object? i).isSome → (a.readable? i).isSome := by
    intro i hi
    obtain ⟨o, ho⟩ := Option.isSome_iff_exists.mp hi
    simp [readable?, ho, hfree i o ho]
  have hheld : ∀ i j, a.Holds i j → (a.readable? j).isSome := fun _ _ hj =>
    hreadable (isSome_of_holds hknown hj)
  have hdocument : ∀ {i}, (a.object? i).isSome → a.Unlooped i →
      ∃ doc, a.document? a.present.card (.array i) = some doc := fun hi hloop =>
    exists_document_of_unlooped hheld (hreadable hi) hloop (List.forall_mem_nil _)
      (card_unentered_le a [])
  have hroom : a.present.card ≤ a.objects.size + 1 := (card_present_le a).trans (Nat.le_succ _)
  constructor
  · refine fun i hi => ends_iff_of_text hroom (fun depth hends => ?_) fun hloop => ?_
    · obtain ⟨doc, hdoc⟩ := exists_document_of_writeValue hheld (hreadable hi) hends
      exact unlooped_of_acc (acc_of_document? hdoc)
    · obtain ⟨doc, hdoc⟩ := hdocument hi hloop
      exact ⟨doc.json, fun depth hle => Json.writeValue_eq (document?_mono hdoc hle)⟩
  · intro b hb
    have hthere : ∀ i, .array i ∈ b.toList → (a.object? i).isSome := fun i hi => hb _ hi i rfl
    refine ends_iff_of_text hroom (fun depth hends i hi => ?_) fun hloops => ?_
    · obtain ⟨docs, hdocs⟩ := exists_documents_of_writeItems (fun j hj =>
        exists_document_of_writeValue hheld (hreadable (hthere j hj))) hends
      obtain ⟨doc, hdoc⟩ := (exists_of_forall₂ (mapM_eq_some_iff.mp hdocs)).1 _ hi
      exact unlooped_of_acc (acc_of_document? hdoc)
    · have hitems : ∀ v ∈ b.toList, ∃ doc, a.document? a.present.card v = some doc := by
        refine fun v hv => exists_document fun i hi => ?_
        subst hi
        exact hdocument (hthere i hv) (hloops i hv)
      obtain ⟨docs, hdocs⟩ := exists_mapM_eq_some hitems
      refine ⟨(Document.array docs).json, fun depth hle => Json.writeItems_eq ?_⟩
      exact (mapM_eq_some_iff.mp hdocs).imp fun _ _ hv => Json.writeValue_eq (document?_mono hv hle)

/-- An array that holds one array twice, and an array that holds both of them. -/
theorem writing_ends_iff_unlooped_shared :
    let a := ofLists [[.array 1, .array 1], [.int 5]]
    ∀ depth, 2 ≤ depth → writeValue a depth (.array 0) = some (.ok "[[5],[5]]") ∧
      writeBody a depth (bodyOf [.array 0, .array 1]) = some (.ok "[[[5],[5]],[5]]") := by
  intro a depth hle
  have hknows : ∀ v ∈ (bodyOf [.array 0, .array 1]).toList, a.Knows v := by
    rw [toList_bodyOf]
    exact knows_ofLists (by decide)
  have hloops : ∀ i, a.Unlooped i := unlooped_ofLists (by decide)
  have hcard : a.present.card = 2 := by decide
  obtain ⟨harrays, hbodies⟩ := writing_ends_iff_unlooped (known_ofLists (by decide) : ∀ id o,
    a.object? id = some o → ∀ v ∈ o.body.toList, a.Knows v) (free_ofLists _)
  rw [← hcard] at hle
  constructor
  · obtain ⟨text, hjson, htext⟩ := (harrays 0 rfl).2 (hloops 0)
    have hvalue : a.json? (.array 0) = some (.ok "[[5],[5]]") := by rfl
    rw [htext depth hle, ← hjson, hvalue]
  · obtain ⟨text, hjson, htext⟩ := (hbodies _ hknows).2 fun i _ => hloops i
    have hbody : a.bodyJson? (bodyOf [.array 0, .array 1]) = some (.ok "[[[5],[5]],[5]]") := by rfl
    rw [htext depth hle, ← hjson, hbody]

/-- An array that holds itself is written without end. -/
theorem writing_endless_circle : ∃ a : Arena, a.Fits ∧
    (∀ id o, a.object? id = some o → ∀ v ∈ o.body.toList, a.Knows v) ∧
    (∀ id o, a.object? id = some o → o.lock = .free) ∧ (a.object? 0).isSome ∧
    ∀ depth, writeValue a depth (.array 0) = none ∧
      writeBody a depth (bodyOf [.array 0]) = none := by
  let a := ofLists [[.array 0]]
  have hvalue : ∀ depth, writeValue a depth (.array 0) = none := by
    intro depth
    induction depth with
    | zero => rfl
    | succ depth ih =>
        have hread : a.readable? 0 = some (bodyOf [.array 0]) := rfl
        rw [writeValue, hread]
        simp [toList_bodyOf, writeItems, writeAll, ih]
  refine ⟨a, fits_ofLists _, known_ofLists (by decide), free_ofLists _, rfl, fun depth => ?_⟩
  refine ⟨hvalue depth, ?_⟩
  simp [writeBody, toList_bodyOf, writeItems, writeAll, hvalue]

end Arena

end AdaptiveArray
