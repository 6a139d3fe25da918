import AdaptiveArray.Derive.Combine
import AdaptiveArray.Proofs.Calls
import AdaptiveArray.Proofs.Concat
import AdaptiveArray.Proofs.Sorting
import Mathlib.Data.List.Forall2

/-!
# Arrays made from others

Sums, repetitions, filters, maps and rows are new arrays.  What blocks do to the arena is
told by a property that every call keeps, or call by call.
-/

namespace AdaptiveArray

theorem Store.Blank.shows {s : Store} {k : Kind} {n : Nat} (h : s.Blank k n) :
    ({ store := s, size := 0 } : Body).Shows True [] := by
  have hfits : ({ store := s, size := 0 } : Body).Fits True :=
    ⟨Nat.zero_le _, h.fits, fun _ _ i _ hlt => h.slot i (h.capacity ▸ hlt)⟩
  exact ⟨hfits, Body.toList_of_size_eq_zero hfits rfl⟩

namespace Kind

theorem join_forCopy_spec {k l : Kind} (h : k ≠ empty ∨ l ≠ empty) :
    (k.join l).forCopy.isMutable ∧ k.widens (k.join l).forCopy ∧ l.widens (k.join l).forCopy := by
  cases k with
  | empty => cases l with
    | empty => exact absurd h (by decide)
    | owned e => cases e <;> decide
    | view e => cases e <;> decide
    | native => decide
  | owned d => cases l with
    | owned e => cases d <;> cases e <;> decide
    | view e => cases d <;> cases e <;> decide
    | _ => cases d <;> decide
  | view d => cases l with
    | owned e => cases d <;> cases e <;> decide
    | view e => cases d <;> cases e <;> decide
    | _ => cases d <;> decide
  | native => cases l with
    | owned e => cases e <;> decide
    | view e => cases e <;> decide
    | _ => decide

end Kind

namespace Body

variable {a : Arena} {x y b : Body} {early : Fault → Arena → Prop}

theorem new_of_written {fresh s : Store} {k : Kind} {vs : List Value} (hne : k ≠ .empty)
    (hblank : fresh.Blank k vs.length) (hwritten : s.Written fresh 0 vs) :
    ({ store := s, size := vs.length } : Body).New vs := by
  have hmut : s.isMutable := Store.isMutable_of_kind hwritten.kind (hblank.isMutable hne)
  refine new_of_full (Store.fits_of_isMutable hmut) (Store.backing?_of_isMutable hmut)
    (hwritten.capacity.trans hblank.capacity) fun i hi => ?_
  rw [hwritten.slot, if_pos ⟨Nat.zero_le i, by omega⟩, Nat.sub_zero]

theorem ends_add {strict : Prop} (hx : x.Fits strict) (hy : y.Fits strict)
    (hbig : maxSize < x.size + y.size → early (.raised .sizeTooBig) a) :
    Ends (x.add y) a (fun sum a' => x.size + y.size ≤ maxSize ∧ a.Booked a' ∧
      sum.New (x.toList ++ y.toList)) early := by
  have hlen : (x.toList ++ y.toList).length = x.size + y.size := by
    rw [List.length_append, length_toList hx, length_toList hy]
  unfold add
  dsimp only
  split
  case isTrue htotal => exact hbig htotal
  case isFalse htotal =>
    have hle : x.size + y.size ≤ maxSize := Nat.le_of_not_lt htotal
    split
    case isTrue hnone =>
        rw [toList_of_size_eq_zero hx (by omega), toList_of_size_eq_zero hy (by omega)]
        exact ⟨hle, .refl a, new_empty⟩
    case isFalse hsome =>
        obtain ⟨hmut, hwideX, hwideY⟩ := Kind.join_forCopy_spec (k := x.kind) (l := y.kind) (by
          by_cases hzero : x.size = 0
          · exact .inr (kind_ne_empty hy (by omega))
          · exact .inl (kind_ne_empty hx hzero))
        have hne : (x.kind.join y.kind).forCopy ≠ .empty := Kind.ne_empty_of_isMutable hmut
        refine Ends.bind (Action.ends_allocate _ _ fun hmemory =>
          absurd (Element.allocatable_of_le_maxSize hle) hmemory) ?_
        rintro fresh a₁ ⟨hbooked, hblank⟩
        have hkind : fresh.kind = (x.kind.join y.kind).forCopy := by
          rw [hblank.kind hne, Kind.forMutation_forCopy]
        have hfits : ∀ b ∈ [x, y], b.Fits False := by
          rintro b hb
          rcases List.mem_cons.mp hb with rfl | hb
          · exact hx.loose
          · exact List.mem_singleton.mp hb ▸ hy.loose
        refine Ends.bind (Action.ends_copyAll hfits (hblank.isMutable hne) ?_ ?_) ?_
        · rw [hblank.capacity]
          simp [totalSize]
        · intro b hb _
          rw [hkind]
          rcases List.mem_cons.mp hb with rfl | hb
          · exact hwideX
          · exact List.mem_singleton.mp hb ▸ hwideY
        · rintro sum a₂ ⟨hbooked', hwritten⟩
          rw [show [x, y].flatMap toList = x.toList ++ y.toList by simp] at hwritten
          rw [← hlen] at hle hblank ⊢
          rw [ofStore?_eq (Nat.le_of_eq (hwritten.capacity.trans hblank.capacity).symm)]
          exact ⟨hle, hbooked.trans hbooked', new_of_written hne hblank hwritten⟩

theorem ends_repeatInto {strict : Prop} (hfits : b.Fits strict) (left : Nat) :
    ∀ {a : Arena} {i : Nat} {dst : Store}, dst.isMutable → b.kind.widens dst.kind →
      (i + left) * b.size ≤ dst.capacity →
      Ends (b.repeatInto left i dst) a (fun s a' => a.Booked a' ∧
        s.Written dst (i * b.size) (List.replicate left b.toList).flatten) early := by
  induction left with
  | zero => exact fun _ _ _ => ⟨.refl _, Store.written_nil _ _⟩
  | succ left ih =>
      intro a i dst hmut hwide hroom
      have hroom' : (i + 1 + left) * b.size ≤ dst.capacity := by
        rwa [show i + 1 + left = i + (left + 1) by omega]
      have hstep : i * b.size + b.size ≤ dst.capacity := by
        rw [← Nat.succ_mul]
        exact Nat.le_trans (Nat.mul_le_mul_right _ (by omega)) hroom'
      unfold repeatInto
      refine Ends.bind (Action.ends_pollAt i) fun _ a₁ h₁ => ?_
      refine Ends.bind (Action.ends_copyTo hfits.store (by rw [Nat.zero_add]; exact hfits.size_le)
        hmut hstep fun _ => hwide) ?_
      rintro d a₂ ⟨h₂, hover⟩
      refine (ih (hover.isMutable hmut) (hover.kind ▸ hwide) (hover.capacity ▸ hroom')).weaken ?_
      rintro s a₃ ⟨h₃, hwritten⟩
      refine ⟨(h₁.trans h₂).trans h₃, ?_⟩
      rw [List.replicate_succ, List.flatten_cons]
      refine (hover.written hfits).append ?_
      rwa [length_toList hfits, ← Nat.succ_mul]

theorem length_repeated {strict : Prop} (hfits : b.Fits strict) (times : Nat) :
    (List.replicate times b.toList).flatten.length = times * b.size := by
  rw [List.length_flatten, List.map_replicate, List.sum_replicate_nat, length_toList hfits]

theorem ends_mul {strict : Prop} (hfits : b.Fits strict) (count : Int64)
    (hnegative : count.toInt < 0 → early (.raised .negativeCount) a)
    (hbig : 0 ≤ count.toInt → maxSize < count.toInt.toNat * b.size →
      early (.raised .productTooBig) a) :
    Ends (b.mul count) a (fun product a' =>
      (0 ≤ count.toInt ∧ count.toInt.toNat * b.size ≤ maxSize) ∧ a.Booked a' ∧
        product.New (List.replicate count.toInt.toNat b.toList).flatten) early := by
  have hlen := length_repeated hfits count.toInt.toNat
  unfold mul
  dsimp only
  split
  case isTrue hneg => exact hnegative hneg
  case isFalse hneg =>
    split
    case isTrue htotal => exact hbig (Int.not_lt.mp hneg) htotal
    case isFalse htotal =>
      have hok : 0 ≤ count.toInt ∧ count.toInt.toNat * b.size ≤ maxSize :=
        ⟨Int.not_lt.mp hneg, Nat.le_of_not_lt htotal⟩
      split
      case isTrue hnone =>
          rw [List.length_eq_zero_iff.mp (hlen.trans hnone)]
          exact ⟨hok, .refl a, new_empty⟩
      case isFalse hsome =>
          obtain ⟨hmut, hwide⟩ := Kind.forCopy_spec
            (kind_ne_empty hfits fun hzero => hsome (by rw [hzero, Nat.mul_zero]))
          have hne : b.kind.forCopy ≠ .empty := Kind.ne_empty_of_isMutable hmut
          refine Ends.bind (Action.ends_allocate _ _ fun hmemory =>
            absurd (Element.allocatable_of_le_maxSize hok.2) hmemory) ?_
          rintro fresh a₁ ⟨hbooked, hblank⟩
          have hkind : fresh.kind = b.kind.forCopy := by
            rw [hblank.kind hne, Kind.forMutation_forCopy]
          refine Ends.bind (ends_repeatInto hfits _ (hblank.isMutable hne) (hkind ▸ hwide) ?_) ?_
          · exact Nat.le_of_eq (by rw [Nat.zero_add, hblank.capacity])
          · rintro product a₂ ⟨hbooked', hwritten⟩
            rw [Nat.zero_mul] at hwritten
            rw [← hlen] at hok hblank ⊢
            rw [ofStore?_eq (Nat.le_of_eq (hwritten.capacity.trans hblank.capacity).symm)]
            exact ⟨hok, hbooked.trans hbooked', new_of_written hne hblank hwritten⟩

/-! ## With a block -/

section Filters

variable {test : Value → Action Bool}

theorem ends_keepInto {act : Value → Action Bool} {drop : Bool → Bool}
    (htest : test = fun v => do return !drop (← act v)) (vs : List Value) :
    ∀ {c : Arena} {dst : Store} {kept : Nat} {calls : List (Value × Bool)},
      ({ store := dst, size := kept } : Body).New (keptBy drop calls) →
      (vs ≠ [] → dst.isMutable) → (∀ v ∈ vs, dst.kind.holds v) →
      kept + vs.length ≤ dst.capacity → Called act a calls c →
      Ends (keepInto test vs kept dst) c
        (fun answer d => ∃ calls', calls'.map Prod.fst = calls.map Prod.fst ++ vs ∧
          Called act a calls' d ∧
          ({ store := answer.1, size := answer.2 } : Body).New (keptBy drop calls'))
        fun fault d => ∃ calls' x rest,
          calls.map Prod.fst ++ vs = calls'.map Prod.fst ++ x :: rest ∧
          FailedCall act a calls' x fault d := by
  -- On the elements left; the calls made so far tell which of the others were kept.
  induction vs with
  | nil =>
      intro c dst kept calls hnew _ _ _ hcalled
      exact ⟨calls, (List.append_nil _).symm, hcalled, hnew⟩
  | cons v vs ih =>
      intro c dst kept calls hnew hmut hholds hroom hcalled
      have hmut : dst.isMutable := hmut (List.cons_ne_nil v vs)
      have hroom : kept + (vs.length + 1) ≤ dst.capacity := hroom
      have hrest : ∀ x ∈ vs, dst.kind.holds x := fun x hx => hholds x (List.mem_cons_of_mem v hx)
      unfold keepInto
      rw [htest, bind_assoc]
      refine Ends.bind ((hcalled.ends_call v).mono_early fun fault d hfailed =>
        ⟨calls, v, vs, rfl, hfailed⟩) fun answer d hcalled' => ?_
      have hkept : keptBy drop (calls ++ [(v, answer)]) = _ := keptBy_snoc v answer
      rw [pure_bind, ← htest]
      cases hdrop : drop answer with
      | true =>
          rw [hdrop, if_pos rfl] at hkept
          rw [← hkept] at hnew
          simpa using ih hnew (fun _ => hmut) hrest (by omega) hcalled'
      | false =>
          rw [hdrop, if_neg Bool.false_ne_true] at hkept
          have hadmits : dst.admits kept v :=
            Store.admits_of_holds hmut (hholds v List.mem_cons_self) (by omega)
          have hmut' : (dst.set kept v).isMutable :=
            Store.isMutable_of_kind (Store.kind_set dst kept v) hmut
          have hnew' : ({ store := dst.set kept v, size := kept + 1 } : Body).New
              (keptBy drop (calls ++ [(v, answer)])) :=
            ⟨hkept ▸ hnew.shows.set hadmits, Store.backing?_of_isMutable hmut', rfl⟩
          simp only [Bool.not_false, if_true, ends_bind, Action.ends_ensure, hadmits]
          have hrest' : ∀ x ∈ vs, (dst.set kept v).kind.holds x := by
            rwa [Store.kind_set]
          simpa using ih hnew' (fun _ => hmut') hrest' (by rw [Store.capacity_set]; omega) hcalled'

theorem ends_filter {strict : Prop} (hfits : b.Fits strict) (act : Value → Action Bool)
    (drop : Bool → Bool) (htest : test = fun v => do return !drop (← act v)) :
    Ends (b.filter test) a
      (fun part c => ∃ calls, calls.map Prod.fst = b.toList ∧ Called act a calls c ∧
        part.New (keptBy drop calls))
      fun fault c => (∃ calls x rest, b.toList = calls.map Prod.fst ++ x :: rest ∧
          FailedCall act a calls x fault c) ∨
        fault = .outOfMemory ∧ ¬Element.object.allocatable b.size := by
  have hspec : b.toList ≠ [] → b.kind.forCopy.isMutable ∧ b.kind.widens b.kind.forCopy := by
    intro hsome
    exact Kind.forCopy_spec (kind_ne_empty hfits fun hzero =>
      hsome (toList_of_size_eq_zero hfits hzero))
  unfold filter
  refine Ends.bind (Action.ends_allocate _ _ fun hmemory => .inr ⟨rfl, hmemory⟩) ?_
  rintro fresh a₁ ⟨hbooked, hblank⟩
  have hkind (hsome : b.toList ≠ []) : fresh.kind = b.kind.forCopy := by
    rw [hblank.kind (Kind.ne_empty_of_isMutable (hspec hsome).1), Kind.forMutation_forCopy]
  have hstart : ({ store := fresh, size := 0 } : Body).New (keptBy drop []) :=
    ⟨hblank.shows, hblank.backing, rfl⟩
  refine Ends.bind ((ends_keepInto htest b.toList hstart ?_ ?_ ?_
    (Called.start.booked hbooked)).mono_early fun fault c h => .inl h) ?_
  · intro hsome
    rw [Store.isMutable, hkind hsome]
    exact (hspec hsome).1
  · intro v hv
    have hsome := List.ne_nil_of_mem hv
    rw [hkind hsome]
    exact Kind.holds_of_widens (hspec hsome).1 (hspec hsome).2 (holds_of_mem hfits hv)
  · exact Nat.le_of_eq (by rw [hblank.capacity, length_toList hfits, Nat.zero_add])
  · rintro ⟨store, kept⟩ c ⟨calls, hcalls, hcalled, hnew⟩
    dsimp only at hnew ⊢
    split
    case isTrue hnone =>
        have hkept : keptBy drop calls = [] :=
          hnew.shows.toList.symm.trans (toList_of_size_eq_zero hnew.shows.fits hnone)
        exact ⟨calls, hcalls, hcalled, hkept ▸ new_empty⟩
    case isFalse hsome =>
        rw [ofStore?_eq hnew.shows.fits.size_le]
        exact ⟨calls, hcalls, hcalled, hnew⟩

end Filters

section Builders

variable {n : Nat}

theorem provided_of_fits (hfits : b.Fits False) :
    ({ expected := b.size } : Builder).Provided b.toList.length := by
  rw [length_toList hfits]
  exact Builder.provided_new b.size

theorem ends_mapInto {f : Block Value} (vs : List Value) : ∀ {c : Arena} {rows : Builder}
    {calls : List (Value × Value)}, rows.Provided vs.length → rows.expected = n →
      rows.Gathers (calls.map Prod.snd) → Called f.run a calls c →
      Ends (mapInto f vs rows) c
        (fun rows' d => ∃ calls', calls'.map Prod.fst = calls.map Prod.fst ++ vs ∧
          Called f.run a calls' d ∧ rows'.Gathers (calls'.map Prod.snd))
        fun fault d => (∃ calls' x rest,
            calls.map Prod.fst ++ vs = calls'.map Prod.fst ++ x :: rest ∧
              FailedCall f.run a calls' x fault d) ∨
          fault = .outOfMemory ∧ ¬Element.object.allocatable n := by
  induction vs with
  | nil =>
      intro c rows calls _ _ hgathers hcalled
      exact ⟨calls, (List.append_nil _).symm, hcalled, hgathers⟩
  | cons v vs ih =>
      intro c rows calls hprovided hexpected hgathers hcalled
      unfold mapInto
      refine Ends.bind ((hcalled.ends_call v).mono_early fun fault d hfailed =>
        .inl ⟨calls, v, vs, rfl, hfailed⟩) fun y d hcalled => ?_
      refine Ends.bind (hprovided.ends_push hgathers y fun hbig _ =>
        .inr ⟨rfl, hexpected ▸ hbig⟩) ?_
      rintro rows' d' ⟨hbooked, hgathers', hprovided', hexpected'⟩
      have hrest := ih hprovided' (hexpected'.trans hexpected) (by simpa using hgathers')
        (hcalled.booked hbooked)
      simpa using hrest

theorem ends_map (hfits : b.Fits False) (f : Block Value) :
    Ends (b.map f) a
      (fun mapped c => ∃ calls, calls.map Prod.fst = b.toList ∧ Called f.run a calls c ∧
        mapped.Gathered (calls.map Prod.snd))
      fun fault c => (∃ calls x rest, b.toList = calls.map Prod.fst ++ x :: rest ∧
          FailedCall f.run a calls x fault c) ∨
        fault = .outOfMemory ∧ ¬Element.object.allocatable b.size := by
  unfold map
  refine Ends.bind (ends_mapInto b.toList (provided_of_fits hfits) rfl (Builder.gathers_new _)
    .start) ?_
  rintro rows c ⟨calls, hcalls, hcalled, hgathers⟩
  refine hgathers.ends_finish.weaken ?_
  rintro mapped _ ⟨rfl, hmapped⟩
  exact ⟨calls, hcalls, hcalled, hmapped⟩

def Rows (others : List Body) (places : List (Value × Nat)) (rows : List Body) : Prop :=
  List.Forall₂ (fun place row =>
    row.Gathered (place.1 :: others.map fun o => (o.get? place.2).getD .nil)) places rows

variable {J : List Value → Arena → Prop}
  (hbook : ∀ {ys : List Value} {b c : Arena}, J ys b → b.Booked c → J ys c)

include hbook

/-- `J` tells of the rows made so far.  There are new array objects for them, and the builder
gathers these. -/
theorem ends_zipInto {others : List Body} (hlimit : others.length + 1 ≤ n) (vs : List Value)
    (hrow : ∀ v ∈ vs, ∀ i ys row c, J ys c →
      row.New (v :: others.map fun b => (b.get? i).getD .nil) →
      J (ys ++ [.array c.objects.size])
        { c with objects := c.objects.push (some { body := row }) }) :
    ∀ {a : Arena} {i : Nat} {pairs : Builder} {xs : List Value}, pairs.Provided vs.length →
      pairs.expected ≤ n → pairs.Gathers xs → J xs a →
      Ends (zipInto others vs i pairs) a
        (fun pairs' c => ∃ rows ys, Rows others (vs.zipIdx i) rows ∧
          ys = (List.range' a.objects.size vs.length).map .array ∧
          c.objects.toList = a.objects.toList ++ rows.map (fun row => some { body := row }) ∧
          pairs'.Gathers (xs ++ ys) ∧ J (xs ++ ys) c)
        fun f _ => f = .outOfMemory ∧ ¬Element.object.allocatable n := by
  induction vs with
  | nil =>
      intro a i pairs xs _ _ hgathers hJ
      refine ⟨[], [], .nil, rfl, (List.append_nil _).symm, ?_⟩
      rw [List.append_nil]
      exact ⟨hgathers, hJ⟩
  | cons v vs ih =>
      intro a i pairs xs hprovided hexpected hgathers hJ
      unfold zipInto
      refine Ends.bind (Action.ends_ofValues _ fun hbig _ => ⟨rfl, fun h => hbig ?_⟩) ?_
      · exact Element.allocatable_of_le h (by simpa using hlimit)
      rintro row a₁ ⟨hbooked, hgathered⟩
      rw [ends_bind, Action.ends_newObject]
      refine Ends.bind (hprovided.ends_push hgathers (.array a₁.objects.size) fun hbig _ =>
        ⟨rfl, fun h => hbig (Element.allocatable_of_le h hexpected)⟩) ?_
      rintro pairs' a₂ ⟨hbooked', hgathers', hprovided', hexpected'⟩
      have hmade := hrow v List.mem_cons_self i xs row a₁ (hbook hJ hbooked) hgathered.new
      refine (ih (fun x hx => hrow x (List.mem_cons_of_mem v hx)) hprovided'
        (hexpected' ▸ hexpected) hgathers' (hbook hmade hbooked')).weaken ?_
      rintro pairs'' c ⟨rows, ys, hrows, rfl, hobjects, hrest⟩
      rw [hbooked'.objects, hbooked.objects] at hobjects hrest
      refine ⟨row :: rows, _, .cons hgathered hrows, rfl, by simpa using hobjects, ?_⟩
      simpa [List.range'_succ] using hrest

theorem ends_zip (hfits : b.Fits False) (others : List Body) (hJ : J [] a)
    (hrow : ∀ v ∈ b.toList, ∀ i ys row c, J ys c →
      row.New (v :: others.map fun b => (b.get? i).getD .nil) →
      J (ys ++ [.array c.objects.size])
        { c with objects := c.objects.push (some { body := row }) }) :
    Ends (b.zip others) a
      (fun zipped c => ∃ rows ys, Rows others b.toList.zipIdx rows ∧
        ys = (List.range' a.objects.size b.size).map .array ∧
        c.objects.toList = a.objects.toList ++ rows.map (fun row => some { body := row }) ∧
        zipped.Gathered ys ∧ J ys c)
      fun f _ => f = .outOfMemory ∧
        ¬Element.object.allocatable (max b.size (others.length + 1)) := by
  unfold zip
  refine Ends.bind (ends_zipInto (J := J) hbook (Nat.le_max_right b.size _) b.toList hrow
    (provided_of_fits hfits) (Nat.le_max_left _ _) (Builder.gathers_new _) hJ) ?_
  rintro pairs c ⟨rows, ys, hrows, hys, hobjects, hgathers, hc⟩
  rw [List.nil_append] at hgathers hc
  rw [length_toList hfits] at hys
  refine hgathers.ends_finish.weaken ?_
  rintro zipped _ ⟨rfl, hzipped⟩
  exact ⟨rows, ys, hrows, hys, hobjects, hzipped, hc⟩

end Builders

end Body

end AdaptiveArray
