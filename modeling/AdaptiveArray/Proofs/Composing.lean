import AdaptiveArray.Proofs.Combining
import AdaptiveArray.Proofs.Sifting

/-!
# What composed arrays hold

Sums, repetitions, filters and rows, element by element.  Operands may be of any kind,
look into a backing that others see too, and have stale slots behind their elements;
none of that shows in the results, and the operands stay as they are.
-/

namespace AdaptiveArray

def Arena.Declined (a : Arena) (e : ArrayError) (family : ErrorClass) (f : Fault) (c : Arena) :
    Prop :=
  f = .raised e ∧ e.family = family ∧ c = a

/-- There are new array objects with these bodies behind those there were, and otherwise only the
books have changed. -/
structure Arena.Enlarged (a : Arena) (bodies : List Body) (c : Arena) : Prop where
  objects : c.objects.toList = a.objects.toList ++ bodies.map fun b => some { body := b }
  booked : a.Booked { c with objects := a.objects }

theorem Arena.Booked.with_objects {a c d : Arena} {objects : Array (Option ArrayObject)}
    (h : a.Booked { c with objects }) (h' : c.Booked d) : a.Booked { d with objects } :=
  h.trans ⟨rfl, h'.stores, h'.redefined, h'.settings, h'.calls, h'.nextString, h'.nextBacking⟩

namespace Body

variable {a : Arena} {b : Body}

/-! ## Filters -/

theorem ends_filter_pure {strict : Prop} (hfits : b.Fits strict) (p : Value → Bool) :
    Ends (b.filter fun v => return !p v) a
      (fun part c => a.Booked c ∧ part.New (b.toList.filter fun v => !p v))
      fun f _ => f = .outOfMemory ∧ ¬Element.object.allocatable b.size := by
  have hpure : ∀ v c, a.Booked c → (return p v : Action Bool) c = .ok (p v) c := fun _ _ _ => rfl
  refine (ends_filter hfits (fun v => return p v) id rfl).mono ?_ ?_
  · rintro part c ⟨calls, hcalls, hcalled, hnew⟩
    obtain ⟨hbooked, hanswers⟩ := hcalled.of_pure hpure
    rw [hanswers, hcalls, keptBy_map] at hnew
    exact ⟨hbooked, hnew⟩
  · rintro f c (⟨calls, x, rest, -, hfailed⟩ | hmemory)
    · exact absurd hfailed (not_failedCall_of_pure hpure)
    · exact hmemory

theorem ends_compact {strict : Prop} (hfits : b.Fits strict) :
    Ends b.compact a (fun part c => a.Booked c ∧ part.New (b.toList.filter fun v => !v.isNil))
      fun f _ => f = .outOfMemory ∧ ¬Element.object.allocatable b.size := by
  unfold compact
  split
  case isTrue hkind =>
      have hall : (b.toList.filter fun v => !v.isNil) = b.toList.filter fun _ => !false :=
        List.filter_congr fun v hv => by rw [isNil_of_isPrimitive hfits hkind hv]
      rw [hall]
      exact ends_filter_pure hfits fun _ => false
  case isFalse => exact ends_filter_pure hfits Value.isNil

def Unfinished (b : Body) (f : Block Bool) (a : Arena) (fault : Fault) (c : Arena) : Prop :=
  ∃ calls x rest, b.toList = calls.map Prod.fst ++ x :: rest ∧ FailedCall f.run a calls x fault c

/-! ## Rows -/

def across (bodies : List Body) (i : Nat) : List Value :=
  bodies.map fun b => b.toList[i]?.getD .nil

theorem Rows.length_eq {others rows : List Body} {places : List (Value × Nat)}
    (h : Rows others places rows) : rows.length = places.length :=
  (List.Forall₂.length_eq h).symm

theorem Rows.across {others rows : List Body} (hfits : ∀ o ∈ others, o.Fits False)
    (h : Rows others b.toList.zipIdx rows) {i : Nat} {row : Body} (hrow : rows[i]? = some row) :
    row.New (across (b :: others) i) := by
  obtain ⟨hlt, rfl⟩ := List.getElem?_eq_some_iff.mp hrow
  have hplace : i < b.toList.zipIdx.length := h.length_eq ▸ hlt
  have hthere : i < b.toList.length := by rwa [List.length_zipIdx] at hplace
  have hgathered := List.Forall₂.get h hplace hlt
  rw [List.get_eq_getElem, List.getElem_zipIdx, Nat.zero_add] at hgathered
  have hcells : (b.toList[i] :: others.map fun o => (o.get? i).getD .nil) =
      Body.across (b :: others) i := by
    unfold Body.across
    rw [List.map_cons, List.getElem?_eq_getElem hthere, Option.getD_some]
    congr 1
    exact List.map_congr_left fun o ho => by rw [getElem?_toList (hfits o ho)]; rfl
  exact hcells ▸ hgathered.new

theorem ends_zip_enlarged (hfits : b.Fits False) (others : List Body) :
    Ends (b.zip others) a
      (fun zipped c => ∃ rows, Rows others b.toList.zipIdx rows ∧ a.Enlarged rows c ∧
        zipped.New ((List.range' a.objects.size rows.length).map .array))
      fun f _ => f = .outOfMemory ∧
        ¬Element.object.allocatable (max b.size (others.length + 1)) := by
  refine (ends_zip (J := fun _ c => a.Booked { c with objects := a.objects })
    (fun h h' => h.with_objects h') hfits others (.refl a) fun _ _ _ _ _ _ hc _ => hc).weaken ?_
  rintro zipped c ⟨rows, _, hrows, rfl, hobjects, hzipped, hbooked⟩
  refine ⟨rows, hrows, ⟨hobjects, hbooked⟩, ?_⟩
  rw [hrows.length_eq, List.length_zipIdx, length_toList hfits]
  exact hzipped.new

/-! ## Altogether -/

/-- Arrays composed of others.  A sum has the elements of both operands, and fails with an argument
error if there are too many; a product has those of its operand again and again, and fails with an
argument error for a negative count and with a range error if there are too many.  What is left by
`compact` are the elements that are not nil, and `select` and `reject` call their block on one
element after the other, keep what it says, and fail only if it fails.  Rows are new arrays with
what the operands have at each place of the first, and nil where another is shorter.  Apart from
that memory may run out, but never for an array of permitted size. -/
theorem compositions_exact {a : Arena} {x : Body} (hfits : x.Fits False) :
    (∀ y : Body, y.Fits False → Ends (x.add y) a
      (fun sum c => x.size + y.size ≤ maxSize ∧ a.Booked c ∧ sum.New (x.toList ++ y.toList))
      fun f c => maxSize < x.size + y.size ∧ a.Declined .sizeTooBig .argument f c) ∧
    (∀ count : Int64, Ends (x.mul count) a
      (fun product c => (0 ≤ count.toInt ∧ count.toInt.toNat * x.size ≤ maxSize) ∧ a.Booked c ∧
        product.New (List.replicate count.toInt.toNat x.toList).flatten)
      fun f c => count.toInt < 0 ∧ a.Declined .negativeCount .argument f c ∨
        (0 ≤ count.toInt ∧ maxSize < count.toInt.toNat * x.size) ∧
          a.Declined .productTooBig .range f c) ∧
    Ends x.compact a (fun part c => a.Booked c ∧ part.New (x.toList.filter fun v => !v.isNil))
      (fun f _ => f = .outOfMemory ∧ maxSize < x.size) ∧
    (∀ f : Block Bool, Ends (x.select f) a
      (fun part c => ∃ calls, calls.map Prod.fst = x.toList ∧ Called f.run a calls c ∧
        part.New ((calls.filter fun call => call.2).map Prod.fst))
      fun fault c => x.Unfinished f a fault c ∨ fault = .outOfMemory ∧ maxSize < x.size) ∧
    (∀ f : Block Bool, Ends (x.reject f) a
      (fun part c => ∃ calls, calls.map Prod.fst = x.toList ∧ Called f.run a calls c ∧
        part.New ((calls.filter fun call => !call.2).map Prod.fst))
      fun fault c => x.Unfinished f a fault c ∨ fault = .outOfMemory ∧ maxSize < x.size) ∧
    ∀ others : List Body, (∀ o ∈ others, o.Fits False) → Ends (x.zip others) a
      (fun zipped c => ∃ rows : List Body, rows.length = x.size ∧ a.Enlarged rows c ∧
        zipped.New ((List.range' a.objects.size x.size).map .array) ∧
        ∀ (i : Nat) (row : Body), rows[i]? = some row → row.New (across (x :: others) i))
      fun f _ => f = .outOfMemory ∧ maxSize < max x.size (others.length + 1) := by
  have hmemory {n : Nat} (hbig : ¬Element.object.allocatable n) : maxSize < n :=
    Nat.lt_of_not_le fun hle => hbig (Element.allocatable_of_le_maxSize hle)
  refine ⟨fun y hy => ?_, fun count => ?_, ?_, fun f => ?_, fun f => ?_, fun others hothers => ?_⟩
  · exact ends_add hfits hy fun hbig => ⟨hbig, rfl, rfl, rfl⟩
  · exact ends_mul hfits count (fun hnegative => .inl ⟨hnegative, rfl, rfl, rfl⟩)
      fun hcount hbig => .inr ⟨⟨hcount, hbig⟩, rfl, rfl, rfl⟩
  · exact (ends_compact hfits).mono_early fun f _ h => ⟨h.1, hmemory h.2⟩
  · refine (ends_filter hfits f.run not (by simp)).mono ?_ ?_
    · rintro part c ⟨calls, hcalls, hcalled, hnew⟩
      exact ⟨calls, hcalls, hcalled, by simpa [keptBy] using hnew⟩
    · exact fun fault c h => h.imp_right fun hout => ⟨hout.1, hmemory hout.2⟩
  · exact (ends_filter hfits f.run id rfl).mono_early
      fun fault c h => h.imp_right fun hout => ⟨hout.1, hmemory hout.2⟩
  · refine (ends_zip_enlarged hfits others).mono ?_ fun f _ h => ⟨h.1, hmemory h.2⟩
    rintro zipped c ⟨rows, hrows, henlarged, hzipped⟩
    have hlen : rows.length = x.size := by
      rw [hrows.length_eq, List.length_zipIdx, length_toList hfits]
    exact ⟨rows, hlen, henlarged, hlen ▸ hzipped, fun i row hrow => hrows.across hothers hrow⟩

/-- Integers in the middle of a backing and values in native storage with a stale slot. -/
theorem compositions_exact_mixed :
    let x : Body := { store := .view ⟨⟨0, .int #[9, 1, 2, 9]⟩, 1, 2⟩, size := 2 }
    let y : Body := { store := .native 7 #[.nil, .bool true, .int 5], size := 2 }
    (∃ sum c, x.add y {} = .ok sum c ∧ sum.toList = [.int 1, .int 2, .nil, .bool true]) ∧
    (∃ product c, y.mul 2 {} = .ok product c ∧
      product.toList = [.nil, .bool true, .nil, .bool true]) ∧
    (∃ part c, y.compact {} = .ok part c ∧ part.toList = [.bool true]) ∧
    ∃ zipped c, x.zip [y] {} = .ok zipped c ∧ zipped.toList = [.array 0, .array 1] := by
  intro x y
  have hx : x.Fits False := .intro_view (by decide) (by change 1 + 2 ≤ 4; decide) rfl
  have hy : y.Fits False := ⟨by decide, trivial, False.elim⟩
  obtain ⟨hadd, -, -, -, -, hzip⟩ := compositions_exact (a := {}) hx
  obtain ⟨-, hmul, hcompact, -⟩ := compositions_exact (a := {}) hy
  refine ⟨?_, ?_, ?_, ?_⟩
  · obtain ⟨sum, c, hrun, -, -, hnew⟩ := (hadd y hy).exists_ok fun _ _ h =>
      absurd h.1 (by decide)
    exact ⟨sum, c, hrun, hnew.shows.toList.trans (by decide +kernel)⟩
  · obtain ⟨product, c, hrun, -, -, hnew⟩ := (hmul 2).exists_ok fun _ _ h =>
      h.elim (fun h => absurd h.1 (by decide)) fun h => absurd h.1 (by decide +kernel)
    exact ⟨product, c, hrun, hnew.shows.toList.trans (by decide +kernel)⟩
  · obtain ⟨part, c, hrun, -, hnew⟩ := hcompact.exists_ok fun _ _ h => absurd h.2 (by decide)
    exact ⟨part, c, hrun, hnew.shows.toList.trans (by decide +kernel)⟩
  · obtain ⟨zipped, c, hrun, rows, -, -, hnew, -⟩ :=
      (hzip [y] fun o ho => List.mem_singleton.mp ho ▸ hy).exists_ok fun _ _ h =>
        absurd h.2 (by decide)
    exact ⟨zipped, c, hrun, hnew.shows.toList.trans (by decide +kernel)⟩

end Body

end AdaptiveArray
