import AdaptiveArray.Buffer
import AdaptiveArray.Proofs.Kind
import AdaptiveArray.Proofs.Span

/-!
# Buffers through their slots

One lemma for each operation on a buffer: what it leaves in slot `i`.  All of them read
through `Buffer.get?`, so the four forms of a buffer are told apart here and nowhere
else.
-/

namespace AdaptiveArray.Buffer

private theorem map_of_ite {α : Type} {f : α → Value} {c : Prop} [Decidable c]
    {x y z : Option α} (h : x = if c then y else z) :
    x.map f = if c then y.map f else z.map f := by
  subst h
  split <;> rfl

@[simp] theorem size_values (b : Buffer) : b.values.size = b.size := by
  cases b <;> simp [values, size]

theorem getElem?_values (b : Buffer) (i : Nat) : b.values[i]? = b.get? i := by
  cases b <;> simp [values, get?]

theorem get?_eq_none {b : Buffer} {i : Nat} (h : b.size ≤ i) : b.get? i = none := by
  rw [← getElem?_values, Array.getElem?_eq_none (by simpa using h)]

theorem get?_isSome {b : Buffer} {i : Nat} (h : i < b.size) : (b.get? i).isSome := by
  rw [← getElem?_values, Array.getElem?_eq_getElem (by simpa using h)]
  rfl

theorem toInt64_inj {x y : Int32} : x.toInt64 = y.toInt64 ↔ x = y := by
  rw [← Int64.toInt_inj, Int32.toInt_toInt64, Int32.toInt_toInt64, Int32.toInt_inj]

theorem eq_of_get? {b c : Buffer} (helement : b.element = c.element)
    (h : ∀ i, b.get? i = c.get? i) : b = c := by
  have hslots {α : Type} {f : α → Value} (hf : f.Injective) {xs ys : Array α}
      (h : ∀ i : Nat, xs[i]?.map f = ys[i]?.map f) : xs = ys :=
    Array.ext_getElem? fun i => Option.map_injective hf (h i)
  cases b with
  | int xs =>
      cases c with
      | int ys =>
          exact congrArg int (hslots (fun x y hxy => toInt64_inj.mp (Value.int.inj hxy)) h)
      | _ => cases helement
  | long xs =>
      cases c with
      | long ys => exact congrArg long (hslots (fun x y => Value.int.inj) h)
      | _ => cases helement
  | double xs =>
      cases c with
      | double ys => exact congrArg double (hslots (fun x y => Value.float.inj) h)
      | _ => cases helement
  | object xs =>
      cases c with
      | object ys => exact congrArg object (Array.ext_getElem? h)
      | _ => cases helement

/-! ## Zero slots -/

@[simp] theorem size_zeros (e : Element) (n : Nat) : (zeros e n).size = n := by
  cases e <;> simp [zeros, size]

@[simp] theorem element_zeros (e : Element) (n : Nat) : (zeros e n).element = e := by
  cases e <;> rfl

theorem get?_zeros (e : Element) (n i : Nat) :
    (zeros e n).get? i = if i < n then some e.zero else none := by
  cases e <;> by_cases h : i < n <;> simp [zeros, get?, h, Element.zero]

@[simp] theorem size_clear (b : Buffer) (start stop : Nat) :
    (b.clear start stop).size = b.size := by
  cases b <;> simp [clear, size]

@[simp] theorem element_clear (b : Buffer) (start stop : Nat) :
    (b.clear start stop).element = b.element := by
  cases b <;> rfl

theorem get?_clear (b : Buffer) (start stop i : Nat) :
    (b.clear start stop).get? i =
      if start ≤ i ∧ i < stop ∧ i < b.size then some b.element.zero else b.get? i := by
  cases b with
  | int xs => exact map_of_ite (Span.getElem?_fill xs start stop 0 i)
  | long xs => exact map_of_ite (Span.getElem?_fill xs start stop 0 i)
  | double xs =>
      exact map_of_ite (Span.getElem?_fill xs start stop Binary64.zero i)
  | object xs => exact Span.getElem?_fill xs start stop .nil i

/-! ## Writing -/

private theorem toInt64_toInt32 {i : Int64} (h : fitsInt32 i) : i.toInt32.toInt64 = i := by
  rw [← Int64.toInt_inj]
  simp only [fitsInt32, Bool.and_eq_true, decide_eq_true_eq] at h
  rw [Int32.toInt_toInt64, Int64.toInt_toInt32]
  exact Int.bmod_eq_of_le (by omega) (by omega)

theorem takes_eq_holds (b : Buffer) (v : Value) : b.takes v = (Kind.owned b.element).holds v := by
  cases b <;> cases v <;> rfl

theorem takes_of_get? {b : Buffer} {i : Nat} {v : Value} (h : b.get? i = some v) : b.takes v := by
  cases b with
  | int xs =>
      obtain ⟨x, -, rfl⟩ := Option.map_eq_some_iff.mp h
      have hmin := x.le_toInt
      have hmax := x.toInt_lt
      simp only [takes, fitsInt32, Int32.toInt_toInt64, Bool.and_eq_true, decide_eq_true_eq]
      omega
  | long xs =>
      obtain ⟨x, -, rfl⟩ := Option.map_eq_some_iff.mp h
      rfl
  | double xs =>
      obtain ⟨x, -, rfl⟩ := Option.map_eq_some_iff.mp h
      rfl
  | object xs => rfl

@[simp] theorem size_set (b : Buffer) (i : Nat) (v : Value) : (b.set i v).size = b.size := by
  cases b <;> cases v <;> simp [set, size]

@[simp] theorem element_set (b : Buffer) (i : Nat) (v : Value) :
    (b.set i v).element = b.element := by
  cases b <;> cases v <;> rfl

theorem get?_set {b : Buffer} {v : Value} (h : b.takes v) (i j : Nat) :
    (b.set i v).get? j = if j = i ∧ i < b.size then some v else b.get? j := by
  have hset : ∀ {α : Type} (xs : Array α) (x : α) (f : α → Value), f x = v →
      (xs.setIfInBounds i x)[j]?.map f =
        if j = i ∧ i < xs.size then some v else xs[j]?.map f := by
    intro α xs x f hf
    rw [Array.getElem?_setIfInBounds]
    by_cases hj : i = j
    · subst hj
      by_cases hi : i < xs.size <;> simp [hi, hf]
    · simp [hj, Ne.symm hj]
  cases b with
  | int xs =>
      cases v <;> simp only [takes, Bool.false_eq_true] at h
      exact hset xs _ _ (congrArg Value.int (toInt64_toInt32 h))
  | long xs =>
      cases v <;> simp only [takes, Bool.false_eq_true] at h
      exact hset xs _ _ rfl
  | double xs =>
      cases v <;> simp only [takes, Bool.false_eq_true] at h
      exact hset xs _ _ rfl
  | object xs =>
      have h := hset xs v id rfl
      simp only [Option.map_id_fun, id] at h
      exact h

/-! ## Parts and copies -/

theorem size_slice (b : Buffer) (start stop : Nat) :
    (b.slice start stop).size = min stop b.size - start := by
  cases b <;> simp [slice, size]

@[simp] theorem element_slice (b : Buffer) (start stop : Nat) :
    (b.slice start stop).element = b.element := by
  cases b <;> rfl

theorem get?_slice {b : Buffer} {start stop : Nat} (h : stop ≤ b.size) (i : Nat) :
    (b.slice start stop).get? i = if start + i < stop then b.get? (start + i) else none := by
  have hextract : ∀ {α : Type} (xs : Array α) (f : α → Value), stop ≤ xs.size →
      (xs.extract start stop)[i]?.map f =
        if start + i < stop then xs[start + i]?.map f else none := by
    intro α xs f hstop
    rw [Array.getElem?_extract]
    by_cases hi : start + i < stop
    · rw [if_pos (by omega), if_pos hi]
    · rw [if_neg (by omega), if_neg hi]
      rfl
  cases b with
  | int xs => exact hextract xs _ h
  | long xs => exact hextract xs _ h
  | double xs => exact hextract xs _ h
  | object xs => simpa [slice, get?] using hextract xs id h

theorem convert?_of_widens {b : Buffer} {e : Element} (h : b.element.widens e) :
    ∃ c, b.convert? e = some c ∧ c.element = e ∧ c.size = b.size ∧
      ∀ i, c.get? i = b.get? i := by
  cases b with
  | int xs =>
      cases e with
      | int => exact ⟨_, rfl, rfl, rfl, fun i => rfl⟩
      | long =>
          refine ⟨_, rfl, rfl, by simp [size], fun i => ?_⟩
          simp [get?, Function.comp_def]
      | double => cases h
      | object => exact ⟨_, rfl, rfl, by simp [size, values], fun i => getElem?_values _ i⟩
  | long xs =>
      cases e with
      | int => cases h
      | long => exact ⟨_, rfl, rfl, rfl, fun i => rfl⟩
      | double => cases h
      | object => exact ⟨_, rfl, rfl, by simp [size, values], fun i => getElem?_values _ i⟩
  | double xs =>
      cases e with
      | int => cases h
      | long => cases h
      | double => exact ⟨_, rfl, rfl, rfl, fun i => rfl⟩
      | object => exact ⟨_, rfl, rfl, by simp [size, values], fun i => getElem?_values _ i⟩
  | object xs =>
      cases e with
      | object => exact ⟨_, rfl, rfl, rfl, fun i => rfl⟩
      | _ => cases h

@[simp] theorem size_overwrite (dst : Buffer) (start : Nat) (src : Buffer) :
    (dst.overwrite start src).size = dst.size := by
  cases dst <;> cases src <;> simp [overwrite, size]

@[simp] theorem element_overwrite (dst : Buffer) (start : Nat) (src : Buffer) :
    (dst.overwrite start src).element = dst.element := by
  cases dst <;> cases src <;> rfl

theorem get?_overwrite {dst src : Buffer} (h : src.element = dst.element) (start i : Nat) :
    (dst.overwrite start src).get? i =
      if start ≤ i ∧ i < start + src.size ∧ i < dst.size then src.get? (i - start)
      else dst.get? i := by
  cases dst with
  | int xs =>
      cases src <;> simp only [element, reduceCtorEq] at h
      exact map_of_ite (Span.getElem?_overwrite xs start _ i)
  | long xs =>
      cases src <;> simp only [element, reduceCtorEq] at h
      exact map_of_ite (Span.getElem?_overwrite xs start _ i)
  | double xs =>
      cases src <;> simp only [element, reduceCtorEq] at h
      exact map_of_ite (Span.getElem?_overwrite xs start _ i)
  | object xs =>
      cases src <;> simp only [element, reduceCtorEq] at h
      exact Span.getElem?_overwrite xs start _ i

/-! ## Moving and reversing -/

@[simp] theorem size_move (b : Buffer) (src dst len : Nat) :
    (b.move src dst len).size = b.size := by
  cases b <;> simp [move, size]

@[simp] theorem element_move (b : Buffer) (src dst len : Nat) :
    (b.move src dst len).element = b.element := by
  cases b <;> rfl

theorem get?_move {b : Buffer} {src dst len : Nat} (hsrc : src + len ≤ b.size)
    (hdst : dst + len ≤ b.size) (i : Nat) :
    (b.move src dst len).get? i =
      if dst ≤ i ∧ i < dst + len then b.get? (src + (i - dst)) else b.get? i := by
  cases b with
  | int xs => exact map_of_ite (Span.getElem?_blockMove hsrc hdst i)
  | long xs => exact map_of_ite (Span.getElem?_blockMove hsrc hdst i)
  | double xs => exact map_of_ite (Span.getElem?_blockMove hsrc hdst i)
  | object xs => exact Span.getElem?_stepMove hsrc hdst i

theorem canMove_of_le {b : Buffer} {src dst len : Nat} (hsrc : src + len ≤ b.size)
    (hdst : dst + len ≤ b.size) : b.canMove src dst len := by
  cases b <;> simp_all [canMove, size]

@[simp] theorem size_reverse (b : Buffer) (start stop : Nat) :
    (b.reverse start stop).size = b.size := by
  cases b <;> simp [reverse, size]

@[simp] theorem element_reverse (b : Buffer) (start stop : Nat) :
    (b.reverse start stop).element = b.element := by
  cases b <;> rfl

theorem get?_reverse {b : Buffer} {start stop : Nat} (h : stop ≤ b.size) (i : Nat) :
    (b.reverse start stop).get? i =
      if start ≤ i ∧ i < stop then b.get? (start + stop - 1 - i) else b.get? i := by
  cases b with
  | int xs => exact map_of_ite (Span.getElem?_reverse h i)
  | long xs => exact map_of_ite (Span.getElem?_reverse h i)
  | double xs => exact map_of_ite (Span.getElem?_reverse h i)
  | object xs => exact Span.getElem?_reverse h i

end AdaptiveArray.Buffer
