import AdaptiveArray.Binary64.Basic
import Mathlib.Tactic.Ring

/-!
# Floats of one value

Away from the sign, the words of floats are in the order of what they stand for.  So two
floats of one value are the same word, unless they are the two zeros.
-/

namespace AdaptiveArray

namespace Binary64

variable {x y : Binary64}

theorem fraction_lt (x : Binary64) : x.fraction < hiddenBit :=
  Nat.mod_lt _ (by decide)

theorem toNat_bits (x : Binary64) : x.bits.toNat =
    (if x.isNegative then signBit else 0) + (x.exponentField * hiddenBit + x.fraction) := by
  have hlt := x.bits.toNat_lt
  simp only [isNegative, exponentField, fraction, signBit, hiddenBit]
  by_cases hsign : 9223372036854775808 ≤ x.bits.toNat <;> simp [hsign] <;> omega

theorem ext_fields (hsign : x.isNegative = y.isNegative)
    (hexp : x.exponentField = y.exponentField) (hfrac : x.fraction = y.fraction) : x = y := by
  have hbits : x.bits.toNat = y.bits.toNat := by
    rw [toNat_bits x, toNat_bits y, hsign, hexp, hfrac]
  cases x
  cases y
  exact congrArg _ (UInt64.toNat_inj.mp hbits)

theorem significand_lt (x : Binary64) : x.significand < 2 * hiddenBit := by
  have hfrac := x.fraction_lt
  unfold significand
  split <;> omega

theorem hiddenBit_le_significand (h : x.exponentField ≠ 0) : hiddenBit ≤ x.significand := by
  rw [significand, if_neg h]
  exact Nat.le_add_right _ _

theorem magnitude_eq (x : Binary64) : x.magnitude = x.significand * 2 ^ x.scale :=
  Nat.shiftLeft_eq _ _

theorem magnitude_lt_of_exponentField_lt (h : x.exponentField < y.exponentField) :
    x.magnitude < y.magnitude := by
  have hy : hiddenBit ≤ y.significand := hiddenBit_le_significand (by omega)
  rw [magnitude_eq, magnitude_eq]
  by_cases hx : x.exponentField = 0
  · have hsig : x.significand = x.fraction := if_pos hx
    have hscale : x.scale = 0 := by rw [scale, hx]
    calc x.significand * 2 ^ x.scale = x.fraction := by rw [hsig, hscale, pow_zero, mul_one]
      _ < hiddenBit := x.fraction_lt
      _ ≤ y.significand := hy
      _ ≤ y.significand * 2 ^ y.scale := Nat.le_mul_of_pos_right _ (Nat.two_pow_pos _)
  · have hscale : x.scale + 1 ≤ y.scale := by
      simp only [scale]
      omega
    calc x.significand * 2 ^ x.scale < 2 * hiddenBit * 2 ^ x.scale :=
          Nat.mul_lt_mul_of_pos_right x.significand_lt (Nat.two_pow_pos _)
      _ = hiddenBit * 2 ^ (x.scale + 1) := by rw [pow_succ]; ring
      _ ≤ y.significand * 2 ^ y.scale :=
          Nat.mul_le_mul hy (Nat.pow_le_pow_right (by decide) hscale)

theorem fields_of_magnitude_eq (h : x.magnitude = y.magnitude) :
    x.exponentField = y.exponentField ∧ x.fraction = y.fraction := by
  have hexp : x.exponentField = y.exponentField := by
    rcases Nat.lt_trichotomy x.exponentField y.exponentField with hlt | heq | hlt
    · exact absurd h (magnitude_lt_of_exponentField_lt hlt).ne
    · exact heq
    · exact absurd h (magnitude_lt_of_exponentField_lt hlt).ne'
  refine ⟨hexp, ?_⟩
  have hsig : x.significand = y.significand := by
    rw [magnitude_eq, magnitude_eq, scale, scale, hexp] at h
    exact Nat.eq_of_mul_eq_mul_right (Nat.two_pow_pos _) h
  rw [significand, significand, hexp] at hsig
  split at hsig
  · exact hsig
  · exact Nat.add_left_cancel hsig

theorem eq_of_units_eq (h : x.units = y.units) (hne : x.units ≠ 0) : x = y := by
  have hmag : x.isNegative = y.isNegative ∧ x.magnitude = y.magnitude := by
    rw [units, units] at h
    rw [units] at hne
    cases hx : x.isNegative <;> cases hy : y.isNegative <;>
      simp only [hx, hy, Bool.false_eq_true, if_true, if_false] at h hne <;>
      simp only [true_and, reduceCtorEq, false_and] <;> omega
  obtain ⟨hexp, hfrac⟩ := fields_of_magnitude_eq hmag.2
  exact ext_fields hmag.1 hexp hfrac

theorem numEq_zero_iff : x.numEq zero = true ↔ x.isNaN = false ∧ x.units = 0 := by
  have hnan : zero.isNaN = false := by decide
  have hunits : zero.units = 0 := by decide
  simp [numEq, hnan, hunits]

theorem eq_or_zero_of_numEq (h : x.numEq y = true) :
    x = y ∨ x.numEq zero = true ∧ y.numEq zero = true := by
  simp only [numEq, Bool.and_eq_true, Bool.not_eq_true', decide_eq_true_eq] at h
  obtain ⟨⟨hx, hy⟩, hunits⟩ := h
  by_cases hzero : x.units = 0
  · exact .inr ⟨numEq_zero_iff.mpr ⟨hx, hzero⟩, numEq_zero_iff.mpr ⟨hy, hunits ▸ hzero⟩⟩
  · exact .inl (eq_of_units_eq hunits hzero)

end Binary64

end AdaptiveArray
