import AdaptiveArray.Binary64.Rounding
import AdaptiveArray.Proofs.Floats

/-!
# Integers rounded to floats

An integer is rounded to a whole number of steps of the ladder of its own power of two.
So it keeps its sign and stays between the powers of two that it lies between, and up
to 53 binary digits it stays what it is.
-/

namespace AdaptiveArray

namespace Binary64

/-! ## Words from their parts -/

section Word

variable {negative : Bool} {word : Nat}

theorem toNat_bits_ofWord (h : word < 2047 * hiddenBit) :
    (ofWord negative word).bits.toNat = (if negative then signBit else 0) + word := by
  have hword : (if negative then signBit + word else word) < UInt64.size := by
    simp only [signBit, hiddenBit, UInt64.size] at h ⊢
    split <;> omega
  rw [ofWord, UInt64.toNat_ofNat_of_lt' hword]
  split <;> omega

theorem isNegative_ofWord (h : word < 2047 * hiddenBit) :
    (ofWord negative word).isNegative = negative := by
  rw [isNegative, toNat_bits_ofWord h]
  simp only [signBit, hiddenBit] at h ⊢
  cases negative with
  | false => simpa using by omega
  | true => simp

theorem exponentField_ofWord (h : word < 2047 * hiddenBit) :
    (ofWord negative word).exponentField = word / hiddenBit := by
  rw [exponentField, toNat_bits_ofWord h]
  simp only [signBit, hiddenBit] at h ⊢
  split <;> omega

theorem fraction_ofWord (h : word < 2047 * hiddenBit) :
    (ofWord negative word).fraction = word % hiddenBit := by
  rw [fraction, toNat_bits_ofWord h]
  simp only [signBit, hiddenBit] at h ⊢
  split <;> omega

theorem isNaN_ofWord (h : word < 2047 * hiddenBit) : (ofWord negative word).isNaN = false := by
  have hexponent : (ofWord negative word).exponentField ≠ 2047 := by
    rw [exponentField_ofWord h]
    simp only [hiddenBit] at h ⊢
    omega
  simp [isNaN, hexponent]

theorem magnitude_ofWord {shift q : Nat} (hq : hiddenBit ≤ q) (hq' : q ≤ 2 * hiddenBit)
    (h : shift * hiddenBit + q < 2047 * hiddenBit) :
    (ofWord negative (shift * hiddenBit + q)).magnitude = q * 2 ^ shift := by
  have hexponent : (ofWord negative (shift * hiddenBit + q)).exponentField =
      (shift * hiddenBit + q) / hiddenBit := exponentField_ofWord h
  have hfraction : (ofWord negative (shift * hiddenBit + q)).fraction =
      (shift * hiddenBit + q) % hiddenBit := fraction_ofWord h
  rw [magnitude_eq, significand, scale, hexponent, hfraction]
  rcases Nat.lt_or_eq_of_le hq' with hlt | rfl
  · have hdiv : (shift * hiddenBit + q) / hiddenBit = shift + 1 := by
      simp only [hiddenBit] at hq hlt ⊢
      omega
    have hmod : (shift * hiddenBit + q) % hiddenBit = q - hiddenBit := by
      simp only [hiddenBit] at hq hlt ⊢
      omega
    rw [hdiv, hmod, if_neg (Nat.succ_ne_zero shift), Nat.add_sub_cancel, Nat.add_sub_cancel' hq]
  · have hdiv : (shift * hiddenBit + 2 * hiddenBit) / hiddenBit = shift + 2 := by
      simp only [hiddenBit]
      omega
    have hmod : (shift * hiddenBit + 2 * hiddenBit) % hiddenBit = 0 := by
      simp only [hiddenBit]
      omega
    rw [hdiv, hmod, if_neg (Nat.succ_ne_zero _), Nat.add_zero, Nat.add_sub_assoc (by decide),
      pow_succ]
    ring

end Word

/-! ## Rounding a quotient -/

section Quotient

variable {num den : Nat}

theorem roundQuotient_of_dvd (h : den ∣ num) (hden : 0 < den) :
    roundQuotient num den * den = num := by
  have hrest : num % den = 0 := Nat.mod_eq_zero_of_dvd h
  rw [roundQuotient, hrest, Nat.mul_zero, if_pos hden, Nat.div_mul_cancel h]

theorem le_roundQuotient {q : Nat} (h : q * den ≤ num) (hden : 0 < den) :
    q ≤ roundQuotient num den := by
  have hq : q ≤ num / den := (Nat.le_div_iff_mul_le hden).mpr h
  unfold roundQuotient
  dsimp only
  split
  · exact hq
  · split <;> omega

theorem roundQuotient_le {q : Nat} (h : num ≤ q * den) (hden : 0 < den) :
    roundQuotient num den ≤ q := by
  rcases Nat.lt_or_eq_of_le h with hlt | rfl
  · have hq : num / den < q := (Nat.div_lt_iff_lt_mul hden).mpr hlt
    unfold roundQuotient
    dsimp only
    split
    · omega
    · split <;> omega
  · have hexact := roundQuotient_of_dvd (Nat.dvd_mul_left den q) hden
    exact Nat.le_of_eq (Nat.eq_of_mul_eq_mul_right hden hexact)

theorem roundQuotient_mul_right (num : Nat) {den c : Nat} (hc : 0 < c) :
    roundQuotient (num * c) (den * c) = roundQuotient num den := by
  unfold roundQuotient
  dsimp only
  rw [Nat.mul_div_mul_right _ _ hc, Nat.mul_mod_mul_right, ← Nat.mul_assoc]
  have hlt : 2 * (num % den) * c < den * c ↔ 2 * (num % den) < den := Nat.mul_lt_mul_right hc
  have heq : 2 * (num % den) * c = den * c ↔ 2 * (num % den) = den :=
    Nat.mul_left_inj (Nat.pos_iff_ne_zero.mp hc)
  simp only [hlt, heq]

end Quotient

/-! ## Integers -/

def lastDigit : Nat :=
  1 <<< 1022

theorem one_shiftLeft_pos (m : Nat) : 0 < 1 <<< m := by
  rw [Nat.one_shiftLeft]
  exact Nat.two_pow_pos m

theorem shiftLeft_eq_mul (n k m : Nat) : n <<< (k + m) = 2 ^ k * n * (1 <<< m) := by
  rw [Nat.shiftLeft_eq, Nat.shiftLeft_eq, Nat.pow_add]
  ring

theorem lastDigit_pos : 0 < lastDigit :=
  one_shiftLeft_pos 1022

theorem unitsPerOne_eq : unitsPerOne = hiddenBit * lastDigit :=
  shiftLeft_eq_mul 1 52 1022

theorem unitsPerOne_pos : 0 < unitsPerOne := by
  rw [unitsPerOne_eq]
  exact Nat.mul_pos (by decide) lastDigit_pos

/-- The last digit of a natural number of 53 digits and more, or what it would be of a smaller one,
in units. -/
def step (n : Nat) : Nat :=
  2 ^ n.log2 * lastDigit

theorem step_pos (n : Nat) : 0 < step n :=
  Nat.mul_pos (Nat.two_pow_pos _) lastDigit_pos

theorem step_eq (n : Nat) : step n = 2 ^ (n.log2 + 1022) := by
  unfold step lastDigit
  generalize 1022 = k
  rw [Nat.one_shiftLeft, Nat.pow_add]

theorem hiddenBit_mul_step (n : Nat) : hiddenBit * step n = 2 ^ n.log2 * unitsPerOne := by
  rw [step, unitsPerOne_eq, Nat.mul_left_comm]

structure Rounds (n : Nat) (negative : Bool) (x : Binary64) : Prop where
  isNaN : x.isNaN = false
  isNegative : x.isNegative = negative
  magnitude : x.magnitude = roundQuotient (n * unitsPerOne) (step n) * step n

section Natural

variable {n : Nat} {negative : Bool}

theorem hiddenBit_mul_step_le (hn : n ≠ 0) : hiddenBit * step n ≤ n * unitsPerOne := by
  rw [hiddenBit_mul_step]
  exact Nat.mul_le_mul_right _ (Nat.log2_self_le hn)

theorem le_two_mul_hiddenBit_mul_step : n * unitsPerOne ≤ 2 * hiddenBit * step n := by
  rw [Nat.mul_assoc, hiddenBit_mul_step, ← Nat.mul_assoc, ← Nat.pow_succ']
  exact Nat.mul_le_mul_right _ (Nat.le_of_lt Nat.lt_log2_self)

theorem rounds_ofRatio (hn : n ≠ 0) (hlt : n < 2 ^ 64) :
    Rounds n negative (ofRatio negative n 1) := by
  have hpos := step_pos n
  have hq := le_roundQuotient (hiddenBit_mul_step_le hn) hpos
  have hq' := roundQuotient_le (le_two_mul_hiddenBit_mul_step (n := n)) hpos
  have hlog : n.log2 < 64 := (Nat.log2_lt hn).mpr hlt
  have hne : n * unitsPerOne ≠ 0 := Nat.mul_ne_zero hn unitsPerOne_pos.ne'
  have hscaled (k : Nat) : (n * 1 <<< k).log2 = n.log2 + k := by
    have hpos := Nat.two_pow_pos k
    rw [Nat.one_shiftLeft, Nat.log2_eq_iff (Nat.mul_ne_zero hn hpos.ne'), Nat.add_right_comm,
      Nat.pow_add _ n.log2, Nat.pow_add _ (n.log2 + 1)]
    exact ⟨Nat.mul_le_mul_right _ (Nat.log2_self_le hn),
      Nat.mul_lt_mul_of_pos_right Nat.lt_log2_self hpos⟩
  have hshift : (n * unitsPerOne).log2 - 52 = n.log2 + 1022 := by
    rw [unitsPerOne, hscaled]
    omega
  have hword : (n.log2 + 1022) * hiddenBit + roundQuotient (n * unitsPerOne) (step n) <
      2047 * hiddenBit := by
    simp only [hiddenBit] at hq' ⊢
    omega
  rw [ofRatio_eq negative (by rwa [Nat.div_one]), Nat.div_one, hshift]
  dsimp only
  rw [Nat.one_shiftLeft, ← step_eq, if_neg (Nat.not_le.mpr hword)]
  refine ⟨isNaN_ofWord hword, isNegative_ofWord hword, ?_⟩
  rw [magnitude_ofWord hq hq' hword, ← step_eq]

namespace Rounds

variable {x : Binary64}

theorem two_pow_le {k : Nat} (h : Rounds n negative x) (hk : 2 ^ k ≤ n) :
    2 ^ k * unitsPerOne ≤ x.magnitude := by
  have hn : n ≠ 0 := by
    have := Nat.two_pow_pos k
    omega
  have hlog : k ≤ n.log2 := (Nat.le_log2 hn).mpr hk
  calc 2 ^ k * unitsPerOne ≤ 2 ^ n.log2 * unitsPerOne :=
        Nat.mul_le_mul_right _ (Nat.pow_le_pow_right (by decide) hlog)
    _ = hiddenBit * step n := (hiddenBit_mul_step n).symm
    _ ≤ roundQuotient (n * unitsPerOne) (step n) * step n :=
        Nat.mul_le_mul_right _ (le_roundQuotient (hiddenBit_mul_step_le hn) (step_pos n))
    _ = x.magnitude := h.magnitude.symm

theorem le_two_pow {k : Nat} (h : Rounds n negative x) (hn : n ≠ 0) (hk : n ≤ 2 ^ k) :
    x.magnitude ≤ 2 ^ k * unitsPerOne := by
  have hlog : n.log2 ≤ k := by
    have hpow : 2 ^ n.log2 ≤ 2 ^ k := Nat.le_trans (Nat.log2_self_le hn) hk
    exact (Nat.pow_le_pow_iff_right (by decide)).mp hpow
  have hsteps : 2 ^ k * unitsPerOne = 2 ^ (k - n.log2) * hiddenBit * step n := by
    rw [Nat.mul_assoc, hiddenBit_mul_step, ← Nat.mul_assoc, ← Nat.pow_add, Nat.sub_add_cancel hlog]
  rw [h.magnitude, hsteps]
  refine Nat.mul_le_mul_right _ (roundQuotient_le ?_ (step_pos n))
  exact hsteps ▸ Nat.mul_le_mul_right _ hk

theorem exact (h : Rounds n negative x) (hn : n < 2 ^ 53) : x.magnitude = n * unitsPerOne := by
  have hlog : n.log2 ≤ 52 := by
    by_cases hzero : n = 0
    · subst hzero
      decide
    · have := (Nat.log2_lt hzero).mpr hn
      omega
  have hdvd : step n ∣ n * unitsPerOne := by
    rw [step, unitsPerOne_eq]
    refine Nat.dvd_mul_left_of_dvd (Nat.mul_dvd_mul_right ?_ _) n
    exact Nat.pow_dvd_pow 2 hlog
  rw [h.magnitude, roundQuotient_of_dvd hdvd (step_pos n)]

/-- Only the last 512 integers below `2 ^ 63` are rounded up to it. -/
theorem eq_limit_iff (h : Rounds n negative x) (hn : n < 2 ^ 63) :
    x.magnitude = 2 ^ 63 * unitsPerOne ↔ 2 ^ 63 - 512 ≤ n := by
  by_cases hlow : n < 2 ^ 62
  · have hne : x.magnitude ≠ 2 ^ 63 * unitsPerOne := by
      intro heq
      by_cases hzero : n = 0
      · have hround : roundQuotient (n * unitsPerOne) (step n) ≤ 0 :=
          roundQuotient_le (by simp [hzero]) (step_pos n)
        rw [h.magnitude, Nat.le_zero.mp hround, Nat.zero_mul] at heq
        have hpos := unitsPerOne_pos
        omega
      · have hle := h.le_two_pow hzero (Nat.le_of_lt hlow)
        have hpos := unitsPerOne_pos
        omega
    simp only [hne, false_iff]
    omega
  · have hlog : n.log2 = 62 := (Nat.log2_eq_iff (by omega)).mpr (by omega)
    have hstep : step n = 1024 * unitsPerOne := by
      rw [step, hlog, unitsPerOne_eq, ← Nat.mul_assoc]
      rfl
    rw [h.magnitude, hstep, roundQuotient_mul_right n unitsPerOne_pos, ← Nat.mul_assoc,
      Nat.mul_left_inj unitsPerOne_pos.ne']
    simp only [roundQuotient, Bool.and_eq_true, decide_eq_true_eq]
    split
    · omega
    · split <;> omega

end Rounds

end Natural

/-! ## With a sign -/

section Integer

variable {i : Int}

theorem rounds_ofInt (hi : i ≠ 0) (hlt : i.natAbs < 2 ^ 64) :
    Rounds i.natAbs (i < 0) (ofInt i) :=
  rounds_ofRatio (Int.natAbs_ne_zero.mpr hi) hlt

theorem ofInt_zero : ofInt 0 = ⟨0⟩ := by
  decide +kernel

theorem isNaN_ofInt (hlt : i.natAbs < 2 ^ 64) : (ofInt i).isNaN = false := by
  by_cases hi : i = 0
  · rw [hi, ofInt_zero]
    rfl
  · exact (rounds_ofInt hi hlt).isNaN

theorem units_ofInt (hlt : i.natAbs < 2 ^ 64) :
    (ofInt i).units = if i < 0 then -((ofInt i).magnitude : Int) else (ofInt i).magnitude := by
  by_cases hi : i = 0
  · rw [hi, ofInt_zero]
    rfl
  · rw [units, (rounds_ofInt hi hlt).isNegative]
    simp

theorem units_ofInt_of_small (h : i.natAbs < 2 ^ 53) : (ofInt i).units = i * unitsPerOne := by
  have hlt : i.natAbs < 2 ^ 64 := Nat.lt_trans h (by decide)
  rw [units_ofInt hlt]
  by_cases hi : i = 0
  · rw [hi, ofInt_zero, Int.zero_mul]
    rfl
  · rw [(rounds_ofInt hi hlt).exact h, Nat.cast_mul]
    split
    · rw [Int.ofNat_natAbs_of_nonpos (by omega), ← Int.neg_mul, Int.neg_neg]
    · rw [Int.natAbs_of_nonneg (by omega)]

theorem two_pow_mul_unitsPerOne_pos (k : Nat) : (0 : Int) < 2 ^ k * (unitsPerOne : Int) :=
  Int.mul_pos (Int.pow_pos (by decide)) (Int.natCast_pos.mpr unitsPerOne_pos)

theorem two_pow_le_units_ofInt {k : Nat} (hk : 2 ^ k ≤ i) (hlt : i.natAbs < 2 ^ 64) :
    2 ^ k * (unitsPerOne : Int) ≤ (ofInt i).units := by
  have hcast : ((2 ^ k : Nat) : Int) = 2 ^ k := Int.natCast_pow 2 k
  have hpos := Nat.two_pow_pos k
  have hnat : 2 ^ k ≤ i.natAbs := by omega
  have hle := (rounds_ofInt (by omega) hlt).two_pow_le hnat
  rw [units_ofInt hlt, if_neg (by omega)]
  exact_mod_cast hle

theorem units_ofInt_le_two_pow {k : Nat} (hk : i ≤ 2 ^ k) (hlt : i.natAbs < 2 ^ 64) :
    (ofInt i).units ≤ 2 ^ k * (unitsPerOne : Int) := by
  have hpos := two_pow_mul_unitsPerOne_pos k
  rw [units_ofInt hlt]
  split
  case isTrue => omega
  case isFalse hnonneg =>
      by_cases hi : i = 0
      · subst hi
        exact Int.le_of_lt hpos
      · have hcast : ((2 ^ k : Nat) : Int) = 2 ^ k := Int.natCast_pow 2 k
        have hnat : i.natAbs ≤ 2 ^ k := by omega
        exact_mod_cast (rounds_ofInt hi hlt).le_two_pow (Int.natAbs_ne_zero.mpr hi) hnat

theorem units_ofInt_le_neg_two_pow {k : Nat} (hk : i ≤ -2 ^ k) (hlt : i.natAbs < 2 ^ 64) :
    (ofInt i).units ≤ -(2 ^ k * (unitsPerOne : Int)) := by
  have hcast : ((2 ^ k : Nat) : Int) = 2 ^ k := Int.natCast_pow 2 k
  have hpos := Nat.two_pow_pos k
  have hnat : 2 ^ k ≤ i.natAbs := by omega
  have hle := (rounds_ofInt (by omega) hlt).two_pow_le hnat
  rw [units_ofInt hlt, if_pos (by omega)]
  exact Int.neg_le_neg (by exact_mod_cast hle)

theorem neg_two_pow_le_units_ofInt {k : Nat} (hk : -2 ^ k ≤ i) (hlt : i.natAbs < 2 ^ 64) :
    -(2 ^ k * (unitsPerOne : Int)) ≤ (ofInt i).units := by
  have hpos := two_pow_mul_unitsPerOne_pos k
  rw [units_ofInt hlt]
  split
  case isTrue hneg =>
      have hcast : ((2 ^ k : Nat) : Int) = 2 ^ k := Int.natCast_pow 2 k
      have hnat : i.natAbs ≤ 2 ^ k := by omega
      have hle := (rounds_ofInt (by omega) hlt).le_two_pow (by omega) hnat
      exact Int.neg_le_neg (by exact_mod_cast hle)
  case isFalse => omega

theorem units_ofInt_eq_limit_iff (hlt : i < 2 ^ 63) (hge : -2 ^ 63 ≤ i) :
    (ofInt i).units = 2 ^ 63 * (unitsPerOne : Int) ↔ 2 ^ 63 - 512 ≤ i := by
  have hpos := two_pow_mul_unitsPerOne_pos 63
  rw [units_ofInt (by omega)]
  split
  case isTrue => omega
  case isFalse hnonneg =>
      by_cases hi : i = 0
      · have hzero : magnitude ⟨0⟩ = 0 := rfl
        rw [hi, ofInt_zero, hzero]
        omega
      · have hlimit := (rounds_ofInt hi (by omega)).eq_limit_iff (by omega)
        rw [show 2 ^ 63 * (unitsPerOne : Int) = ((2 ^ 63 * unitsPerOne : Nat) : Int) by
            push_cast; rfl,
          Int.natCast_inj, hlimit]
        omega

end Integer

end Binary64

end AdaptiveArray
