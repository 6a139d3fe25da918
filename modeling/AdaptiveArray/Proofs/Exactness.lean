import AdaptiveArray.Proofs.Agreement
import AdaptiveArray.Proofs.Ordering
import AdaptiveArray.Proofs.Rounding
import AdaptiveArray.Proofs.Stability
import AdaptiveArray.Traversal.Order
import Mathlib.Algebra.Order.Field.Rat
import Mathlib.Order.WithBot
import Mathlib.Order.Compare

/-!
# Numbers in their exact order

An integer stands for itself, a float for a fraction or for one of the two ends.  Told in
units of floats both are integers, so the order of numbers is that of their units.  An
integer is compared with a float without loss, except where it is rounded up to the
float `2 ^ 63`, the first beyond the integers.
-/

namespace AdaptiveArray

abbrev Extended := WithBot (WithTop ℚ)

namespace Binary64

def number? (x : Binary64) : Option Extended :=
  if x.isNaN then none
  else if x.isFinite then some ((x.units / unitsPerOne : ℚ) : WithTop ℚ)
  else if x.isNegative then some ⊥
  else some ⊤

def limit : Binary64 := ⟨0x43e0000000000000⟩

variable {i : Int64} {x : Binary64}

theorem units_limit : limit.units = 2 ^ 63 * (unitsPerOne : Int) := by
  have hmagnitude : limit.magnitude = 2 ^ 63 * unitsPerOne := shiftLeft_eq_mul hiddenBit 11 1074
  have hpositive : limit.isNegative = false := rfl
  rw [units, hpositive, hmagnitude, if_neg Bool.false_ne_true, Nat.cast_mul]
  rfl

theorem eq_limit_of_units (h : x.units = 2 ^ 63 * (unitsPerOne : Int)) : x = limit :=
  eq_of_units_eq (h.trans units_limit.symm) (h ▸ (two_pow_mul_unitsPerOne_pos 63).ne')

/-! ## An integer and a float -/

theorem units_of_isIntegral (h : x.isIntegral = true) : x.units = x.truncate * unitsPerOne := by
  have hmod : x.magnitude % unitsPerOne = 0 := by simpa [isIntegral] using h
  have hdvd : (unitsPerOne : Int) ∣ x.units := by
    have hmag : (unitsPerOne : Int) ∣ (x.magnitude : Int) :=
      Int.natCast_dvd_natCast.mpr (Nat.dvd_of_mod_eq_zero hmod)
    rw [units]
    split
    · exact Int.dvd_neg.mpr hmag
    · exact hmag
  exact (Int.tdiv_mul_cancel hdvd).symm

theorem magnitude_lt_of_not_isIntegral (h : x.isIntegral = false) :
    x.magnitude < 2 ^ 53 * unitsPerOne := by
  have hmod : x.magnitude % unitsPerOne ≠ 0 := by simpa [isIntegral] using h
  obtain ⟨k, hunits⟩ : ∃ k, unitsPerOne = 2 ^ k := by
    unfold unitsPerOne
    generalize 1074 = k
    exact ⟨k, Nat.one_shiftLeft k⟩
  have hscale : x.scale < k := by
    by_contra hge
    refine hmod (Nat.mod_eq_zero_of_dvd ?_)
    rw [magnitude_eq, hunits]
    exact Nat.dvd_mul_left_of_dvd (Nat.pow_dvd_pow 2 (Nat.not_lt.mp hge)) _
  calc x.magnitude = x.significand * 2 ^ x.scale := x.magnitude_eq
    _ < 2 * hiddenBit * 2 ^ x.scale :=
        Nat.mul_lt_mul_of_pos_right x.significand_lt (Nat.two_pow_pos _)
    _ ≤ 2 ^ 53 * unitsPerOne := by
        refine Nat.mul_le_mul (by decide) ?_
        rw [hunits]
        exact Nat.pow_le_pow_right (by decide) (Nat.le_of_lt hscale)

theorem compare_map {α β : Type} [LinearOrder α] [LinearOrder β] {f : α → β} {m n : α}
    (hlt : m < n → f m < f n) (hgt : n < m → f n < f m) : compare (f m) (f n) = compare m n := by
  rcases lt_trichotomy m n with h | rfl | h
  · rw [compare_lt_iff_lt.mpr h, compare_lt_iff_lt.mpr (hlt h)]
  · rw [compare_eq_iff_eq.mpr rfl, compare_eq_iff_eq.mpr rfl]
  · rw [compare_gt_iff_gt.mpr h, compare_gt_iff_gt.mpr (hgt h)]

theorem compare_mul_right (m n : Int) {k : Int} (hk : 0 < k) :
    compare (m * k) (n * k) = compare m n :=
  compare_map (f := (· * k)) (fun h => Int.mul_lt_mul_of_pos_right h hk)
    fun h => Int.mul_lt_mul_of_pos_right h hk

theorem toInt64_eq_truncate_iff (hx : x.isNaN = false) :
    x.toInt64.toInt = x.truncate ↔ -2 ^ 63 ≤ x.truncate ∧ x.truncate < 2 ^ 63 := by
  rw [toInt64, hx, if_neg Bool.false_ne_true, Int64.toInt_ofInt_of_le (by omega) (by omega)]
  omega

theorem compareInt?_of_integral (hx : x.isNaN = false) (hwhole : x.isIntegral = true)
    (hrange : -2 ^ 63 ≤ x.truncate ∧ x.truncate < 2 ^ 63) :
    compareInt? i x = some (compare (i.toInt * unitsPerOne) x.units) := by
  have htruncate := (toInt64_eq_truncate_iff hx).mpr hrange
  rw [compareInt?, hx, if_neg Bool.false_ne_true, hwhole, htruncate, decide_eq_true rfl,
    Bool.and_self, if_pos rfl, units_of_isIntegral hwhole,
    compare_mul_right _ _ (by exact_mod_cast unitsPerOne_pos)]

theorem compareInt?_of_rounded (hx : x.isNaN = false)
    (hother : x.isIntegral = true → ¬(-2 ^ 63 ≤ x.truncate ∧ x.truncate < 2 ^ 63)) :
    compareInt? i x = some (compare (ofInt i.toInt).units x.units) := by
  have hlt := i.toInt_lt
  have hge := i.le_toInt
  have htest : (x.isIntegral && decide (x.toInt64.toInt = x.truncate)) = false := by
    rw [Bool.and_eq_false_imp]
    exact fun hwhole => decide_eq_false fun heq =>
      hother hwhole ((toInt64_eq_truncate_iff hx).mp heq)
  rw [compareInt?, hx, if_neg Bool.false_ne_true, htest, if_neg Bool.false_ne_true, compare?,
    isNaN_ofInt (by omega), hx]
  rfl

private theorem compare_eq_of_lt {r s t : Int} (hr : r < t) (hs : s < t) :
    compare r t = compare s t := by
  rw [compare_lt_iff_lt.mpr hr, compare_lt_iff_lt.mpr hs]

private theorem compare_eq_of_gt {r s t : Int} (hr : t < r) (hs : t < s) :
    compare r t = compare s t := by
  rw [compare_gt_iff_gt.mpr hr, compare_gt_iff_gt.mpr hs]

private theorem natAbs_toInt_lt (i : Int64) : i.toInt.natAbs < 2 ^ 64 := by
  have hlt := i.toInt_lt
  have hge := i.le_toInt
  omega

theorem compare_rounded_of_below (hwhole : x.isIntegral = true) (h : x.truncate < -2 ^ 63) :
    compare (ofInt i.toInt).units x.units = compare (i.toInt * unitsPerOne) x.units := by
  have hge := i.le_toInt
  have hpos : (0 : Int) < unitsPerOne := by exact_mod_cast unitsPerOne_pos
  have hunits := units_of_isIntegral hwhole
  have hend : x.units < -(2 ^ 63 * (unitsPerOne : Int)) := by
    rw [hunits, ← Int.neg_mul]
    exact Int.mul_lt_mul_of_pos_right h hpos
  refine compare_eq_of_gt
    (lt_of_lt_of_le hend (neg_two_pow_le_units_ofInt hge (natAbs_toInt_lt i))) ?_
  rw [hunits]
  exact Int.mul_lt_mul_of_pos_right (by omega) hpos

theorem compare_rounded_of_above (hwhole : x.isIntegral = true) (h : 2 ^ 63 ≤ x.truncate)
    (hlimit : x = limit → i.toInt < 2 ^ 63 - 512) :
    compare (ofInt i.toInt).units x.units = compare (i.toInt * unitsPerOne) x.units := by
  have hlt := i.toInt_lt
  have hpos : (0 : Int) < unitsPerOne := by exact_mod_cast unitsPerOne_pos
  have hunits := units_of_isIntegral hwhole
  have hend : 2 ^ 63 * (unitsPerOne : Int) ≤ x.units := by
    rw [hunits]
    exact Int.mul_le_mul_of_nonneg_right h hpos.le
  have hround : (ofInt i.toInt).units ≤ 2 ^ 63 * (unitsPerOne : Int) :=
    units_ofInt_le_two_pow (Int.le_of_lt hlt) (natAbs_toInt_lt i)
  refine compare_eq_of_lt (lt_of_le_of_ne (hround.trans hend) fun heq => ?_) ?_
  · have hat : (ofInt i.toInt).units = 2 ^ 63 * (unitsPerOne : Int) :=
      le_antisymm hround (hend.trans_eq heq.symm)
    have hlast := (units_ofInt_eq_limit_iff hlt i.le_toInt).mp hat
    have hlow := hlimit (eq_limit_of_units (heq.symm.trans hat))
    omega
  · rw [hunits]
    exact Int.mul_lt_mul_of_pos_right (by omega) hpos

theorem compare_rounded_of_fraction (hwhole : x.isIntegral = false) :
    compare (ofInt i.toInt).units x.units = compare (i.toInt * unitsPerOne) x.units := by
  have hword := natAbs_toInt_lt i
  have hpos : (0 : Int) < unitsPerOne := by exact_mod_cast unitsPerOne_pos
  by_cases hsmall : i.toInt.natAbs < 2 ^ 53
  · rw [units_ofInt_of_small hsmall]
  have hmag := magnitude_lt_of_not_isIntegral hwhole
  have hcast : (x.magnitude : Int) < 2 ^ 53 * (unitsPerOne : Int) := by exact_mod_cast hmag
  have hbounds : -(2 ^ 53 * (unitsPerOne : Int)) < x.units ∧
      x.units < 2 ^ 53 * (unitsPerOne : Int) := by
    rw [units]
    split <;> omega
  by_cases hneg : i.toInt < 0
  · have hi : i.toInt ≤ -2 ^ 53 := by omega
    refine compare_eq_of_lt (lt_of_le_of_lt (units_ofInt_le_neg_two_pow hi hword) hbounds.1)
      (lt_of_le_of_lt ?_ hbounds.1)
    rw [← Int.neg_mul]
    exact Int.mul_le_mul_of_nonneg_right hi hpos.le
  · have hi : 2 ^ 53 ≤ i.toInt := by omega
    exact compare_eq_of_gt (lt_of_lt_of_le hbounds.2 (two_pow_le_units_ofInt hi hword))
      (lt_of_lt_of_le hbounds.2 (Int.mul_le_mul_of_nonneg_right hi hpos.le))

/-- The comparison loses nothing, but for the integers that are rounded up to the limit. -/
theorem compareInt?_exact (hx : x.isNaN = false) (hlimit : x = limit → i.toInt < 2 ^ 63 - 512) :
    compareInt? i x = some (compare (i.toInt * unitsPerOne) x.units) := by
  -- Where the integer is rounded, the float does not lie between it and what it is rounded to.
  cases hwhole : x.isIntegral with
  | true =>
      by_cases hrange : -2 ^ 63 ≤ x.truncate ∧ x.truncate < 2 ^ 63
      · exact compareInt?_of_integral hx hwhole hrange
      rw [compareInt?_of_rounded hx fun _ => hrange]
      by_cases hbelow : x.truncate < -2 ^ 63
      · rw [compare_rounded_of_below hwhole hbelow]
      · rw [compare_rounded_of_above hwhole (by omega) hlimit]
  | false =>
      rw [compareInt?_of_rounded hx (fun h => by simp [hwhole] at h),
        compare_rounded_of_fraction hwhole]

theorem compareInt?_limit (hi : 2 ^ 63 - 512 ≤ i.toInt) : compareInt? i limit = some .eq := by
  have hround : (ofInt i.toInt).units = 2 ^ 63 * (unitsPerOne : Int) :=
    (units_ofInt_eq_limit_iff i.toInt_lt i.le_toInt).mpr hi
  have htruncate : limit.truncate = 2 ^ 63 := by
    rw [truncate, units_limit]
    exact Int.mul_tdiv_cancel _ (by exact_mod_cast unitsPerOne_pos.ne')
  rw [compareInt?_of_rounded rfl fun _ => by omega, hround, units_limit]
  simp

/-! ## Units and numbers -/

def endOfLadder : Nat := (infinity false).magnitude

def numberOf (u : Int) : Extended :=
  if endOfLadder ≤ u then ⊤
  else if u ≤ -endOfLadder then ⊥
  else ((u / unitsPerOne : ℚ) : WithTop ℚ)

theorem magnitude_lt_of_isFinite (h : x.isFinite = true) : x.magnitude < endOfLadder := by
  refine magnitude_lt_of_exponentField_lt ?_
  have hexponent : x.exponentField < 2048 := Nat.mod_lt _ (by decide)
  have hne : x.exponentField ≠ 2047 := by simpa [isFinite] using h
  rw [show (infinity false).exponentField = 2047 by decide]
  omega

theorem magnitude_of_infinite (hx : x.isNaN = false) (h : x.isFinite = false) :
    x.magnitude = endOfLadder := by
  have hexponent : x.exponentField = 2047 := by simpa [isFinite] using h
  have hfraction : x.fraction = 0 := by simpa [isNaN, hexponent] using hx
  have hinfinity : (infinity false).exponentField = 2047 ∧ (infinity false).fraction = 0 := by
    decide
  rw [endOfLadder, magnitude, magnitude, significand, significand, scale, scale, hexponent,
    hfraction, hinfinity.1, hinfinity.2]

theorem natAbs_units (x : Binary64) : x.units.natAbs = x.magnitude := by
  rw [units]
  split <;> simp

theorem limit_lt_endOfLadder : 2 ^ 63 * (unitsPerOne : Int) < endOfLadder := by
  have hlt : limit.magnitude < endOfLadder := magnitude_lt_of_isFinite rfl
  rw [← natAbs_units, units_limit] at hlt
  omega

theorem number?_eq (x : Binary64) :
    x.number? = if x.isNaN then none else some (numberOf x.units) := by
  unfold number?
  split
  case isTrue => rfl
  case isFalse hx =>
      rw [Bool.not_eq_true] at hx
      split
      case isTrue hfinite =>
          have hlt := magnitude_lt_of_isFinite hfinite
          have habs := natAbs_units x
          rw [numberOf, if_neg (by omega), if_neg (by omega)]
      case isFalse hfinite =>
          have hend := magnitude_of_infinite hx (Bool.not_eq_true _ ▸ hfinite)
          have hpos := limit_lt_endOfLadder
          rw [numberOf, units, hend]
          split
          · rw [if_neg (by omega), if_pos (by omega)]
          · rw [if_pos (by omega)]

theorem numberOf_lt {u v : Int} (hu : -endOfLadder ≤ u) (hv : v ≤ endOfLadder) (h : u < v) :
    numberOf u < numberOf v := by
  have hpos : (0 : ℚ) < unitsPerOne := by exact_mod_cast unitsPerOne_pos
  unfold numberOf
  rw [if_neg (by omega)]
  by_cases htop : endOfLadder ≤ v
  · rw [if_pos htop]
    split
    · exact bot_lt_top
    · exact WithBot.coe_lt_coe.mpr (WithTop.coe_lt_top _)
  · rw [if_neg htop, if_neg (show ¬v ≤ -endOfLadder by omega)]
    split
    · exact WithBot.bot_lt_coe _
    · have hlt : (u : ℚ) < v := by exact_mod_cast h
      exact WithBot.coe_lt_coe.mpr (WithTop.coe_lt_coe.mpr (div_lt_div_of_pos_right hlt hpos))

theorem compare_numberOf {u v : Int} (hu : u.natAbs ≤ endOfLadder) (hv : v.natAbs ≤ endOfLadder) :
    compare (numberOf u) (numberOf v) = compare u v :=
  compare_map (numberOf_lt (by omega) (by omega)) (numberOf_lt (by omega) (by omega))

end Binary64

namespace Value

def number? : Value → Option Extended
  | int i => some ((i.toInt : ℚ) : WithTop ℚ)
  | float x => x.number?
  | _ => none

def units? : Value → Option Int
  | int i => some (i.toInt * Binary64.unitsPerOne)
  | float x => if x.isNaN then none else some x.units
  | _ => none

theorem natAbs_units_int (i : Int64) :
    (i.toInt * Binary64.unitsPerOne : Int).natAbs < Binary64.endOfLadder := by
  have hend := Binary64.limit_lt_endOfLadder
  have hpos : (0 : Int) < Binary64.unitsPerOne := by exact_mod_cast Binary64.unitsPerOne_pos
  have hhigh := Int.mul_lt_mul_of_pos_right i.toInt_lt hpos
  have hlow := Int.mul_le_mul_of_nonneg_right i.le_toInt hpos.le
  omega

theorem natAbs_units?_le {x : Value} {u : Int} (h : x.units? = some u) :
    u.natAbs ≤ Binary64.endOfLadder := by
  cases x with
  | int i =>
      obtain rfl := Option.some.inj h
      exact (natAbs_units_int i).le
  | float x =>
      rw [units?] at h
      split at h
      case isTrue => cases h
      case isFalse hx =>
          obtain rfl := Option.some.inj h
          rw [Bool.not_eq_true] at hx
          rw [Binary64.natAbs_units]
          cases hfinite : x.isFinite with
          | true => exact (Binary64.magnitude_lt_of_isFinite hfinite).le
          | false => exact (Binary64.magnitude_of_infinite hx hfinite).le
  | _ => cases h

theorem number?_eq (x : Value) : x.number? = x.units?.map Binary64.numberOf := by
  cases x with
  | int i =>
      have hbound := natAbs_units_int i
      have hunits : (Binary64.unitsPerOne : ℚ) ≠ 0 := by
        exact_mod_cast Binary64.unitsPerOne_pos.ne'
      rw [units?, Option.map_some, Binary64.numberOf, if_neg (by omega), if_neg (by omega),
        Int.cast_mul, Int.cast_natCast, mul_div_cancel_right₀ _ hunits]
      rfl
  | float x =>
      rw [number?, units?, Binary64.number?_eq]
      split <;> rfl
  | _ => rfl

/-- One of the last 512 integers beside the float `2 ^ 63`. -/
def Blurred (x y : Value) : Prop :=
  ∃ i : Int64, 2 ^ 63 - 512 ≤ i.toInt ∧
    (x = int i ∧ y = float Binary64.limit ∨ x = float Binary64.limit ∧ y = int i)

end Value

namespace Arena

variable {x y : Value}

theorem order_units {u v : Int} (hu : x.units? = some u) (hv : y.units? = some v)
    (hclear : ¬Value.Blurred x y) (a : Arena) : a.order x y = some (compare u v) := by
  have hpos : (0 : Int) < Binary64.unitsPerOne := by exact_mod_cast Binary64.unitsPerOne_pos
  have hfloat {f : Binary64} {w : Int} (hw : (Value.float f).units? = some w) :
      f.isNaN = false ∧ f.units = w := by
    simpa [Value.units?] using hw
  cases x with
  | int i =>
      obtain rfl := Option.some.inj hu
      cases y with
      | int j =>
          obtain rfl := Option.some.inj hv
          rw [Binary64.compare_mul_right _ _ hpos]
          rfl
      | float f =>
          obtain ⟨hf, rfl⟩ := hfloat hv
          refine Binary64.compareInt?_exact hf fun hlimit => ?_
          by_contra hlast
          exact hclear ⟨i, by omega, .inl ⟨rfl, congrArg _ hlimit⟩⟩
      | _ => cases hv
  | float f =>
      obtain ⟨hf, rfl⟩ := hfloat hu
      cases y with
      | int j =>
          obtain rfl := Option.some.inj hv
          have hexact := Binary64.compareInt?_exact (i := j) hf fun hlimit => by
            by_contra hlast
            exact hclear ⟨j, by omega, .inr ⟨congrArg _ hlimit, rfl⟩⟩
          have horder : a.order (.float f) (.int j) =
              (Binary64.compareInt? j f).map Ordering.swap := rfl
          rw [horder, hexact, Option.map_some, ← Std.OrientedCmp.eq_swap]
      | float g =>
          obtain ⟨hg, rfl⟩ := hfloat hv
          have horder : a.order (.float f) (.float g) = Binary64.compare? f g := rfl
          rw [horder, Binary64.compare?, hf, hg, Bool.or_self, if_neg Bool.false_ne_true]
      | _ => cases hv
  | _ => cases hu

theorem equal_iff_order (hx : x.units? ≠ none) (y : Value) (a : Arena) :
    a.equal .numeric x y = true ↔ a.order x y = some .eq := by
  refine (Traversal.answer_orderValues_eq_iff fun i j hi _ => ?_).symm
  subst hi
  exact absurd rfl hx

theorem order_of_blurred (h : Value.Blurred x y) (a : Arena) : a.order x y = some .eq := by
  obtain ⟨i, hi, ⟨rfl, rfl⟩ | ⟨rfl, rfl⟩⟩ := h
  · exact Binary64.compareInt?_limit hi
  · exact congrArg (Option.map Ordering.swap) (Binary64.compareInt?_limit hi)

theorem units?_of_blurred (h : Value.Blurred x y) : x.units? ≠ none := by
  obtain ⟨i, -, ⟨rfl, -⟩ | ⟨rfl, -⟩⟩ := h <;> exact Option.some_ne_none _

/-- Numbers are ordered, and told apart, by what they stand for, integers and floats
together, but for the last 512 integers beside the float `2 ^ 63`, which equal it.  Among
numbers without such a pair the order is total, and what it finds equal is equal. -/
theorem order_exact (a : Arena) :
    (∀ x y r s, x.number? = some r → y.number? = some s → ¬Value.Blurred x y →
      a.order x y = some (compare r s) ∧ (a.equal .numeric x y = true ↔ r = s)) ∧
    (∀ x y, Value.Blurred x y → a.order x y = some .eq ∧ a.equal .numeric x y = true) ∧
    ∀ S : Value → Prop, (∀ x, S x → x.number? ≠ none) →
      (∀ x y, S x → S y → ¬Value.Blurred x y) → Sorting.Consistent a.order S ∧
        ∀ x y, S x → S y →
          ∃ o, a.order x y = some o ∧ (o = .eq ↔ a.equal .numeric x y = true) := by
  have hexact : ∀ x y r s, x.number? = some r → y.number? = some s → ¬Value.Blurred x y →
      a.order x y = some (compare r s) ∧ (a.equal .numeric x y = true ↔ r = s) := by
    intro x y r s hr hs hclear
    rw [Value.number?_eq, Option.map_eq_some_iff] at hr hs
    obtain ⟨u, hu, rfl⟩ := hr
    obtain ⟨v, hv, rfl⟩ := hs
    have horder : a.order x y = some (compare (Binary64.numberOf u) (Binary64.numberOf v)) := by
      rw [Binary64.compare_numberOf (Value.natAbs_units?_le hu) (Value.natAbs_units?_le hv)]
      exact order_units hu hv hclear a
    refine ⟨horder, ?_⟩
    rw [equal_iff_order (by simp [hu]), horder, Option.some_inj, compare_eq_iff_eq]
  refine ⟨hexact, ?_, ?_⟩
  · intro x y hblurred
    have horder := order_of_blurred hblurred a
    exact ⟨horder, (equal_iff_order (units?_of_blurred hblurred) y a).mpr horder⟩
  · intro S hnumbers hclear
    have hboth : ∀ {x y}, S x → S y → ∃ r s, x.number? = some r ∧ y.number? = some s ∧
        a.order x y = some (compare r s) ∧ (a.equal .numeric x y = true ↔ r = s) := by
      intro x y hx hy
      obtain ⟨r, hr⟩ := Option.ne_none_iff_exists'.mp (hnumbers x hx)
      obtain ⟨s, hs⟩ := Option.ne_none_iff_exists'.mp (hnumbers y hy)
      exact ⟨r, s, hr, hs, hexact x y r s hr hs (hclear x y hx hy)⟩
    constructor
    · have hkey : Sorting.Consistent (Sorting.byKey Value.number?) S :=
        (Sorting.consistent_byKey Value.number?).mono fun _ _ => trivial
      refine hkey.congr fun hx hy => ?_
      obtain ⟨r, s, hr, hs, horder, -⟩ := hboth hx hy
      rw [horder, Sorting.byKey, hr, hs]
      rfl
    · intro x y hx hy
      obtain ⟨r, s, -, -, horder, hequal⟩ := hboth hx hy
      exact ⟨_, horder, by rw [hequal, compare_eq_iff_eq]⟩

/-- The first integer that is no float, and the float that it would be rounded to. -/
theorem order_exact_odd :
    let a : Arena := {}
    let odd : Value := .int 9007199254740993
    let even : Value := .float ⟨0x4340000000000000⟩
    (a.order odd even = some .gt ∧ a.equal .numeric odd even = false) ∧
      Sorting.Consistent a.order fun v => v = odd ∨ v = even := by
  intro a odd even
  have hodd : odd.number? = some (Binary64.numberOf (9007199254740993 * Binary64.unitsPerOne)) := by
    rw [Value.number?_eq]
    rfl
  have heven : even.number? =
      some (Binary64.numberOf (9007199254740992 * Binary64.unitsPerOne)) := by
    have hunits : even.units? = some (9007199254740992 * (Binary64.unitsPerOne : Int)) := by
      decide +kernel
    rw [Value.number?_eq, hunits]
    rfl
  have hlimit : ¬(Value.float Binary64.limit = odd ∨ Value.float Binary64.limit = even) := by
    decide
  have hclear : ∀ x y, x = odd ∨ x = even → y = odd ∨ y = even → ¬Value.Blurred x y := by
    rintro x y hx hy ⟨i, -, ⟨-, rfl⟩ | ⟨rfl, -⟩⟩
    · exact hlimit hy
    · exact hlimit hx
  have hless : Binary64.numberOf (9007199254740992 * Binary64.unitsPerOne) <
      Binary64.numberOf (9007199254740993 * Binary64.unitsPerOne) :=
    Binary64.numberOf_lt (by decide +kernel) (by decide +kernel) (by decide +kernel)
  obtain ⟨hexact, -, hconsistent⟩ := order_exact a
  obtain ⟨horder, hequal⟩ := hexact odd even _ _ hodd heven (hclear _ _ (.inl rfl) (.inr rfl))
  refine ⟨⟨by rw [horder, compare_gt_iff_gt.mpr hless], ?_⟩, (hconsistent _ ?_ hclear).1⟩
  · exact Bool.eq_false_iff.mpr fun heq => hless.ne' (hequal.mp heq)
  · rintro x (rfl | rfl)
    · simp [hodd]
    · simp [heven]

/-- The last integer, and the one before it, are less than the float `2 ^ 63` and equal it,
though they do not equal each other. -/
theorem order_inexact_last :
    let a : Arena := {}
    let last : Value := .int 9223372036854775807
    let beyond : Value := .float Binary64.limit
    (∃ r s, last.number? = some r ∧ beyond.number? = some s ∧ r < s) ∧
      a.order last beyond = some .eq ∧ a.equal .numeric last beyond = true ∧
      a.equal .numeric beyond (.int 9223372036854775806) = true ∧
      a.equal .numeric last (.int 9223372036854775806) = false := by
  refine ⟨?_, by decide +kernel, by decide +kernel, by decide +kernel, by decide +kernel⟩
  refine ⟨Binary64.numberOf (9223372036854775807 * Binary64.unitsPerOne),
    Binary64.numberOf (2 ^ 63 * Binary64.unitsPerOne), ?_, ?_,
    Binary64.numberOf_lt (by decide +kernel) (by decide +kernel) (by decide +kernel)⟩
  · rw [Value.number?_eq]
    rfl
  · have hunits : (Value.float Binary64.limit).units? =
        some (2 ^ 63 * (Binary64.unitsPerOne : Int)) := by
      decide +kernel
    rw [Value.number?_eq, hunits]
    rfl

end Arena

end AdaptiveArray
