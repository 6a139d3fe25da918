import AdaptiveArray.Json.Event
import AdaptiveArray.Json.Writer
import Mathlib.Data.List.TakeDrop
import Mathlib.Data.List.TakeWhile

/-!
# Leaves read back

What is written for a leaf is one lexeme.  It is read back as that leaf, and the same way
whatever stands behind it that cannot belong to it: nothing, a comma, or the end of an
array.
-/

namespace AdaptiveArray.Json

inductive Delimited : List Char → Prop
  | nil : Delimited []
  | comma (rest : List Char) : Delimited (',' :: rest)
  | bracket (rest : List Char) : Delimited (']' :: rest)

def Steady {α : Type} (scan : List Char → Except Problem (α × List Char)) : Prop :=
  ∀ ⦃text x left rest⦄, scan text = .ok (x, left) → Delimited rest →
    scan (text ++ rest) = .ok (x, left ++ rest)

inductive Lexeme : List Char → Event → Prop
  | intro {c : Char} {cs : List Char} {e : Event}
      (reads : ∀ rest, Delimited rest → scalar c (cs ++ rest) = .ok (e, rest)) : Lexeme (c :: cs) e

theorem Lexeme.length_pos {text : List Char} {e : Event} (h : Lexeme text e) : 0 < text.length := by
  cases h
  simp

variable {α β : Type} {text rest left : List Char} {atEnd : Problem}

/-! ## Numerals -/

theorem ok_of_bind {x : Except Problem α} {k : α → Except Problem β} {y : β}
    (h : (x >>= k) = .ok y) : ∃ z, x = .ok z ∧ k z = .ok y := by
  cases x with
  | error p => cases h
  | ok z => exact ⟨z, rfl, h⟩

theorem digits_append (hrest : Delimited rest) :
    digits (text ++ rest) = ((digits text).1, (digits text).2 ++ rest) := by
  simp only [digits, List.span_eq_takeWhile_dropWhile]
  induction text with
  | nil => cases hrest <;> rfl
  | cons c text ih => cases hc : c.isDigit <;> simp_all

theorem steady_someDigits : Steady (someDigits atEnd) := by
  intro text ds left rest h hrest
  unfold someDigits at h ⊢
  rw [digits_append hrest]
  rcases hdigits : digits text with ⟨_ | ⟨d, ds⟩, _ | ⟨c, left⟩⟩ <;> rw [hdigits] at h <;>
    cases h <;> rfl

theorem steady_wholePart : Steady (wholePart atEnd) := by
  intro text ds left rest h hrest
  obtain ⟨⟨ds, left⟩, hdigits, h⟩ := ok_of_bind h
  rw [wholePart, steady_someDigits hdigits hrest]
  dsimp only [bind, Except.bind] at h ⊢
  split at h <;> cases h
  rfl

theorem steady_fractionPart : Steady (fractionPart atEnd) := by
  intro text ds left rest h hrest
  cases text with
  | nil =>
      cases h
      cases hrest <;> rfl
  | cons c text =>
      by_cases hc : c = '.'
      · subst hc
        exact steady_someDigits h hrest
      · have hplain (text : List Char) : fractionPart atEnd (c :: text) = .ok ([], c :: text) := by
          unfold fractionPart
          split <;> simp_all
        rw [hplain] at h
        cases h
        exact hplain (text ++ rest)

theorem steady_exponentPart : Steady (exponentPart atEnd) := by
  intro text x left rest h hrest
  cases text with
  | nil =>
      cases h
      cases hrest <;> rfl
  | cons c text =>
      simp only [List.cons_append, exponentPart] at h ⊢
      split at h
      case isFalse hc =>
          cases h
          rw [if_neg hc, List.cons_append]
      case isTrue hc =>
          rw [if_pos hc]
          obtain ⟨⟨ds, left⟩, hdigits, h⟩ := ok_of_bind h
          cases text with
          | nil => cases hdigits
          | cons d text =>
              cases h
              have hmore := steady_someDigits hdigits hrest
              have hpure (x : Option (Bool × List Char)) (text : List Char) :
                  (pure (x, text) : Except Problem _) = .ok (x, text) := rfl
              by_cases hplus : d = '+' <;> by_cases hminus : d = '-' <;>
                simp_all [bind, Except.bind]

theorem steady_unsignedNumeral (negative : Bool) : Steady (unsignedNumeral negative atEnd) := by
  intro text n left rest h hrest
  obtain ⟨⟨whole, afterWhole⟩, hwhole, h⟩ := ok_of_bind h
  obtain ⟨⟨fraction, afterFraction⟩, hfraction, h⟩ := ok_of_bind h
  obtain ⟨⟨exponent, left⟩, hexponent, h⟩ := ok_of_bind h
  cases h
  simp only [unsignedNumeral, bind, Except.bind, steady_wholePart hwhole hrest,
    steady_fractionPart hfraction hrest, steady_exponentPart hexponent hrest]
  rfl

theorem numeral_cons {c : Char} (hc : c ≠ '-') :
    numeral atEnd (c :: text) = unsignedNumeral false atEnd (c :: text) := by
  unfold numeral
  split
  · rename_i heq
    cases heq
    exact absurd rfl hc
  · rfl

theorem steady_numeral : Steady (numeral atEnd) := by
  intro text n left rest h hrest
  cases text with
  | nil => cases h
  | cons c text =>
      by_cases hc : c = '-'
      · subst hc
        exact steady_unsignedNumeral true h hrest
      · rw [numeral_cons hc] at h
        rw [List.cons_append, numeral_cons hc]
        exact steady_unsignedNumeral false h hrest

theorem steady_number : Steady number := by
  intro text x left rest h hrest
  obtain ⟨⟨n, left⟩, hnumeral, h⟩ := ok_of_bind h
  rw [number, steady_numeral hnumeral hrest]
  dsimp only [bind, Except.bind] at h ⊢
  split at h <;> cases h
  rfl

theorem number_first {c : Char} {n : Number} (h : number (c :: text) = .ok (n, left)) :
    c = '-' ∨ c.isDigit := by
  by_contra hc
  simp only [not_or, Bool.not_eq_true] at hc
  have hdigits : digits (c :: text) = ([], c :: text) := by
    rw [digits, List.span_eq_takeWhile_dropWhile, List.takeWhile_cons_of_neg (by simp [hc.2]),
      List.dropWhile_cons_of_neg (by simp [hc.2])]
  have hsome : someDigits .truncated (c :: text) = .error .malformed := by
    rw [someDigits, hdigits]
  rw [number, numeral_cons hc.1, unsignedNumeral, wholePart, hsome] at h
  cases h

theorem lexeme_number {n : Number} {e : Event} (h : number text = .ok (n, []))
    (he : n.event = .ok e) : Lexeme text e := by
  cases text with
  | nil => cases h
  | cons c cs =>
      refine ⟨fun rest hrest => ?_⟩
      have hnumber := steady_number h hrest
      have hfirst : (c = '-' || c.isDigit) = true := by simpa using number_first h
      have hother (d : Char) (hd : d ≠ '-' ∧ d.isDigit = false) : c ≠ d := by
        rintro rfl
        rcases number_first h with rfl | hc
        · exact hd.1 rfl
        · simp [hd.2] at hc
      rw [scalar, if_neg (hother 'n' (by decide)), if_neg (hother 't' (by decide)),
        if_neg (hother 'f' (by decide)), if_neg (hother '"' (by decide)), if_pos hfirst,
        ← List.cons_append, hnumber]
      change n.event >>= _ = _
      rw [he]
      rfl

/-! ## Integers -/

theorem toDigits_zero_cons {n : Nat} {ds : List Char} (h : Nat.toDigits 10 n = '0' :: ds) :
    ds = [] := by
  induction n using Nat.strongRecOn generalizing ds with
  | ind n ih =>
      by_cases hn : n < 10
      · rw [Nat.toDigits_of_lt_base hn] at h
        exact (List.cons.inj h).2.symm
      · rw [Nat.toDigits_of_base_le (by decide) (by omega)] at h
        cases hmore : Nat.toDigits 10 (n / 10) with
        | nil => exact absurd hmore Nat.toDigits_ne_nil
        | cons d more =>
            rw [hmore] at h
            cases h
            obtain rfl := ih (n / 10) (by omega) hmore
            have hvalue := Nat.ofDigitChars_ten_toDigits (n := n / 10)
            rw [hmore] at hvalue
            change 0 = n / 10 at hvalue
            omega

theorem gather_of_lt {ds : List Char} {significand : Nat}
    (h : Nat.ofDigitChars 10 ds significand < UInt64.size) :
    gather significand ds = (Nat.ofDigitChars 10 ds significand, []) := by
  induction ds generalizing significand with
  | nil => rfl
  | cons d ds ih =>
      have hstep : significand * 10 + digit d = 10 * significand + (d.toNat - '0'.toNat) := by
        rw [Nat.mul_comm]
        rfl
      rw [Nat.ofDigitChars_cons, ← hstep] at h ⊢
      have hle :
          significand * 10 + digit d ≤ Nat.ofDigitChars 10 ds (significand * 10 + digit d) := by
        rw [Nat.ofDigitChars_eq_ofDigitChars_zero]
        exact Nat.le_add_right_of_le (Nat.le_mul_of_pos_left _ (Nat.pow_pos (by decide)))
      rw [gather, if_pos (Nat.lt_of_le_of_lt hle h), ih h]

theorem gather_toDigits {n : Nat} (h : n < UInt64.size) :
    gather 0 (Nat.toDigits 10 n) = (n, []) := by
  rw [gather_of_lt (by rwa [Nat.ofDigitChars_ten_toDigits]), Nat.ofDigitChars_ten_toDigits]

theorem isDigit_toDigits (n : Nat) : ∀ c ∈ Nat.toDigits 10 n, c.isDigit := fun _ hc =>
  Nat.isDigit_of_mem_toDigits (by decide) (by decide) hc

theorem unsignedNumeral_toDigits (negative : Bool) (n : Nat) :
    unsignedNumeral negative atEnd (Nat.toDigits 10 n) =
      .ok (⟨negative, Nat.toDigits 10 n, [], none⟩, []) := by
  have hdigits : digits (Nat.toDigits 10 n) = (Nat.toDigits 10 n, []) := by
    rw [digits, List.span_eq_takeWhile_dropWhile,
      List.takeWhile_eq_self_iff.mpr (isDigit_toDigits n),
      List.dropWhile_eq_nil_iff.mpr (isDigit_toDigits n)]
  have hsome : someDigits atEnd (Nat.toDigits 10 n) = .ok (Nat.toDigits 10 n, []) := by
    rw [someDigits, hdigits]
    obtain ⟨d, ds, hds⟩ := List.exists_cons_of_ne_nil (Nat.toDigits_ne_nil (n := n) (b := 10))
    rw [hds]
  have hwhole : wholePart atEnd (Nat.toDigits 10 n) = .ok (Nat.toDigits 10 n, []) := by
    rw [wholePart, hsome]
    dsimp only [bind, Except.bind]
    split
    · rename_i heq
      cases toDigits_zero_cons heq
    · rfl
  rw [unsignedNumeral, hwhole]
  rfl

theorem number_toDigits {n : Nat} (h : n < UInt64.size) :
    number (Nat.toDigits 10 n) = .ok (.unsigned n, []) := by
  have hnumeral : numeral .truncated (Nat.toDigits 10 n) =
      .ok (⟨false, Nat.toDigits 10 n, [], none⟩, []) := by
    obtain ⟨d, ds, hds⟩ := List.exists_cons_of_ne_nil (Nat.toDigits_ne_nil (n := n) (b := 10))
    have hd : d.isDigit := isDigit_toDigits n d (by simp [hds])
    have hminus : d ≠ '-' := by
      rintro rfl
      cases hd
    rw [hds, numeral_cons hminus, ← hds, unsignedNumeral_toDigits]
  rw [number, hnumeral]
  simp [bind, Except.bind, Numeral.number?, gather_toDigits h]
  rfl

theorem number_neg_toDigits {n : Nat} (hpos : 0 < n) (h : n ≤ 0x8000000000000000) :
    number ('-' :: Nat.toDigits 10 n) = .ok (.negative (-n), []) := by
  have hsize : n < UInt64.size := by
    simp only [UInt64.size]
    omega
  rw [number, numeral, unsignedNumeral_toDigits]
  simp [bind, Except.bind, Numeral.number?, gather_toDigits hsize, hpos, h]
  rfl

theorem lexeme_int (i : Int64) : Lexeme (toString i.toInt).toList (.int i) := by
  have hlower : -0x8000000000000000 ≤ i.toInt := i.minValue_le_toInt
  have hupper : i.toInt < 0x8000000000000000 := i.toInt_lt
  rw [Int.toString_eq_repr, Int.repr_eq_if]
  by_cases hi : 0 ≤ i.toInt
  · rw [if_pos hi, Nat.toList_repr]
    refine lexeme_number (number_toDigits (by simp only [UInt64.size]; omega)) ?_
    rw [Number.event, if_pos (by omega), ← Int64.ofInt_eq_ofNat, Int.toNat_of_nonneg hi,
      Int64.ofInt_toInt]
  · rw [if_neg hi, String.toList_append, Nat.toList_repr]
    refine lexeme_number (number_neg_toDigits (by omega) (by omega)) ?_
    rw [Number.event, Int.toNat_of_nonneg (by omega), Int.neg_neg, Int64.ofInt_toInt]

/-! ## Strings -/

theorem hexCode_digits {n : Nat} (h : n < 256) :
    hexCode ('0' :: '0' :: Nat.digitChar (n / 16) :: Nat.digitChar (n % 16) :: rest) =
      .ok (n, rest) := by
  have hhex : ∀ d < 16, hexDigit? (Nat.digitChar d) = some d := by decide
  have hzero : hexDigit? '0' = some 0 := rfl
  simp only [hexCode, hzero, hhex (n / 16) (by omega), hhex (n % 16) (by omega), Except.ok.injEq,
    Prod.mk.injEq, and_true]
  omega

theorem escaped_control {c : Char} (h : c.toNat < 32) :
    escaped true ('u' :: '0' :: '0' :: Nat.digitChar (c.toNat / 16) ::
      Nat.digitChar (c.toNat % 16) :: rest) = .ok (c, rest) := by
  change escapedCode _ = _
  rw [escapedCode, hexCode_digits (by omega)]
  simp only [bind, Except.bind]
  rw [if_neg (by simp; omega), if_neg (by simp; omega), Char.ofNat_toNat]
  rfl

theorem stringBody_escapeChar (c : Char) (steps : Nat) (done rest : List Char) :
    stringBody true (steps + 1) done (escapeChar c ++ rest) =
      stringBody true steps (c :: done) rest := by
  unfold escapeChar
  split
  -- the other cases are the characters with an escape of their own
  case h_8 h1 h2 _ _ _ _ _ =>
    split
    case isTrue hc => simp [stringBody, escaped_control hc, bind, Except.bind]
    case isFalse hc =>
        rw [List.singleton_append, stringBody, if_neg h1, if_neg h2, if_neg hc]
  all_goals rfl

theorem stringBody_escaped {cs done : List Char} {steps : Nat} (hsteps : cs.length < steps) :
    stringBody true steps done (cs.flatMap escapeChar ++ '"' :: rest) =
      .ok (String.ofList (done.reverse ++ cs), rest) := by
  induction cs generalizing steps done with
  | nil =>
      obtain ⟨steps, rfl⟩ := Nat.exists_eq_add_one.mpr hsteps
      simp [stringBody]
  | cons c cs ih =>
      rw [List.length_cons] at hsteps
      obtain ⟨steps, rfl⟩ := Nat.exists_eq_add_one.mpr (Nat.zero_lt_of_lt hsteps)
      rw [List.flatMap_cons, List.append_assoc, stringBody_escapeChar, ih (by omega)]
      simp

theorem length_le_escaped (cs : List Char) : cs.length ≤ (cs.flatMap escapeChar).length := by
  induction cs with
  | nil => exact Nat.le_refl 0
  | cons c cs ih =>
      have hc : 0 < (escapeChar c).length := by
        unfold escapeChar
        repeat' split
        all_goals simp
      simp only [List.flatMap_cons, List.length_append, List.length_cons]
      omega

theorem lexeme_string (text : String) : Lexeme (quote text).toList (.string text) := by
  have hquote : (quote text).toList = '"' :: (text.toList.flatMap escapeChar ++ ['"']) := by
    rw [quote, String.toList_ofList, List.cons_append]
  rw [hquote]
  refine ⟨fun rest _ => ?_⟩
  have hstring : string (text.toList.flatMap escapeChar ++ '"' :: rest) = .ok (text, rest) := by
    rw [string, stringBody_escaped]
    · simp
    · have := length_le_escaped text.toList
      simp only [List.length_append, List.length_cons]
      omega
  rw [List.append_assoc, List.singleton_append]
  change (string _ >>= _) = _
  rw [hstring]
  rfl

/-! ## Words -/

theorem lexeme_nil : Lexeme ['n', 'u', 'l', 'l'] .nil := ⟨fun _ _ => rfl⟩

theorem lexeme_true : Lexeme ['t', 'r', 'u', 'e'] (.bool true) := ⟨fun _ _ => rfl⟩

theorem lexeme_false : Lexeme ['f', 'a', 'l', 's', 'e'] (.bool false) := ⟨fun _ _ => rfl⟩

end AdaptiveArray.Json
