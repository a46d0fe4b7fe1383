import Mathlib.Algebra.Order.Field.Power
import Mathlib.Data.Rat.Cast.Order
import Mathlib.Tactic.Ring
import TypedSchema.Binary64.Basic

/-!
The exact values of double precision numbers. Every finite number is a whole multiple of the least
positive one, so that exact values are compared as natural numbers; and an integer that has a number
of its value is not changed when it becomes a number.
-/

namespace TypedSchema

namespace Binary64

/-- The exact value of a finite number. -/
def value (x : Binary64) : ℚ :=
  (if x.isNegative then -1 else 1) * (x.significand * 2 ^ x.scale)

/-! ## Magnitudes -/

/-- The exponent that a magnitude is stored with; the least numbers share that of the next ones. -/
def exponentOf (magnitude : Nat) : Nat :=
  max (magnitude / leadingBit) 1

/-- How often the least positive number goes into a finite one of the magnitude. -/
def stepsOf (magnitude : Nat) : Nat :=
  (magnitude - (exponentOf magnitude - 1) * leadingBit) * 2 ^ (exponentOf magnitude - 1)

theorem leadingBit_eq : leadingBit = 2 ^ 52 := rfl

theorem exponentOf_pos (magnitude : Nat) : 0 < exponentOf magnitude :=
  lt_of_lt_of_le Nat.zero_lt_one (le_max_right _ _)

/-- The digits behind an exponent are those of the significand. -/
theorem significand_eq (x : Binary64) :
    x.significand = x.magnitude - (exponentOf x.magnitude - 1) * leadingBit := by
  unfold significand exponentOf
  have split := Nat.div_add_mod x.magnitude leadingBit
  split
  · rename_i small
    rw [Nat.div_eq_of_lt small]
    simp
  · rename_i large
    have stored : 1 ≤ x.magnitude / leadingBit :=
      (Nat.one_le_div_iff (by decide)).mpr (Nat.not_lt.mp large)
    rw [max_eq_left stored]
    unfold leadingBit at *
    omega

theorem significand_lt (x : Binary64) : x.significand < 2 * leadingBit := by
  unfold significand
  have below := Nat.mod_lt x.magnitude (show 0 < leadingBit by decide)
  split <;> omega

theorem scale_eq (x : Binary64) : x.scale = (exponentOf x.magnitude - 1 : Nat) + (-1074 : Int) := by
  have positive := exponentOf_pos x.magnitude
  unfold scale
  unfold exponentOf at *
  omega

/-- The value of a number without its sign, in steps. -/
theorem size_eq (x : Binary64) :
    (x.significand * 2 ^ x.scale : ℚ) = stepsOf x.magnitude * 2 ^ (-1074 : Int) := by
  rw [scale_eq, zpow_add₀ two_ne_zero, stepsOf, ← significand_eq, zpow_natCast, Nat.cast_mul,
    Nat.cast_pow, Nat.cast_two, mul_assoc]

/-- Larger magnitudes are larger numbers. -/
theorem stepsOf_strictMono : StrictMono stepsOf := by
  intro low high less
  have ordered : exponentOf low ≤ exponentOf high :=
    max_le_max_right 1 (Nat.div_le_div_right (Nat.le_of_lt less))
  have lowSplit := Nat.div_add_mod low leadingBit
  have highSplit := Nat.div_add_mod high leadingBit
  have lowRest := Nat.mod_lt low (show 0 < leadingBit by decide)
  have highRest := Nat.mod_lt high (show 0 < leadingBit by decide)
  unfold stepsOf
  rcases ordered.eq_or_lt with same | larger
  · rw [← same]
    refine Nat.mul_lt_mul_of_pos_right ?_ (Nat.two_pow_pos _)
    unfold exponentOf leadingBit at *
    omega
  · -- the significand of the larger exponent has its leading bit, which outweighs all of the other
    have shorter : low - (exponentOf low - 1) * leadingBit < 2 * leadingBit := by
      unfold exponentOf leadingBit at *
      omega
    have leading : leadingBit ≤ high - (exponentOf high - 1) * leadingBit := by
      unfold exponentOf leadingBit at *
      omega
    have apart : exponentOf low - 1 + 1 ≤ exponentOf high - 1 := by
      have := exponentOf_pos low
      omega
    calc (low - (exponentOf low - 1) * leadingBit) * 2 ^ (exponentOf low - 1)
        < 2 * leadingBit * 2 ^ (exponentOf low - 1) :=
          Nat.mul_lt_mul_of_pos_right shorter (Nat.two_pow_pos _)
      _ = leadingBit * 2 ^ (exponentOf low - 1 + 1) := by rw [Nat.pow_succ]; ring
      _ ≤ leadingBit * 2 ^ (exponentOf high - 1) :=
          Nat.mul_le_mul_left _ (Nat.pow_le_pow_right (by decide) apart)
      _ ≤ (high - (exponentOf high - 1) * leadingBit) * 2 ^ (exponentOf high - 1) :=
          Nat.mul_le_mul_right _ leading

theorem stepsOf_zero : stepsOf 0 = 0 := rfl

/-! ## Equal numbers -/

theorem equal_comm (x y : Binary64) : x.equal y = y.equal x := by
  unfold equal
  rw [Bool.and_comm (!x.isNaN), Bool.and_comm x.isZero, decide_eq_decide.mpr eq_comm]

theorem equal_self {x : Binary64} (number : x.isNaN = false) : x.equal x = true := by
  simp [equal, number]

theorem bits_eq_iff {x y : Binary64} :
    x.bits = y.bits ↔ x.isNegative = y.isNegative ∧ x.magnitude = y.magnitude := by
  rw [← UInt64.toNat_inj, isNegative, isNegative, magnitude, magnitude, decide_eq_decide]
  have left := x.bits.toNat_lt
  have right := y.bits.toNat_lt
  unfold signBit
  omega

theorem not_isNaN_of_isFinite {x : Binary64} (finite : x.isFinite = true) : x.isNaN = false := by
  simp only [isFinite, isNaN, decide_eq_true_eq, decide_eq_false_iff_not] at *
  omega

theorem size_inj {x y : Binary64} :
    (x.significand * 2 ^ x.scale : ℚ) = y.significand * 2 ^ y.scale ↔
      x.magnitude = y.magnitude := by
  have least : (2 ^ (-1074 : Int) : ℚ) ≠ 0 := zpow_ne_zero _ two_ne_zero
  rw [size_eq, size_eq, mul_left_inj' least, Nat.cast_inj, stepsOf_strictMono.injective.eq_iff]

theorem size_nonneg (x : Binary64) : (0 : ℚ) ≤ x.significand * 2 ^ x.scale :=
  mul_nonneg (Nat.cast_nonneg _) (zpow_nonneg zero_le_two _)

theorem size_eq_zero_iff (x : Binary64) :
    (x.significand * 2 ^ x.scale : ℚ) = 0 ↔ x.magnitude = 0 := by
  have least : (2 ^ (-1074 : Int) : ℚ) ≠ 0 := zpow_ne_zero _ two_ne_zero
  rw [size_eq, mul_eq_zero, or_iff_left least, Nat.cast_eq_zero]
  exact stepsOf_strictMono.injective.eq_iff' stepsOf_zero

/-- Finite numbers are equal if they have one value. -/
theorem equal_iff_value {x y : Binary64} (left : x.isFinite = true) (right : y.isFinite = true) :
    x.equal y = true ↔ x.value = y.value := by
  have zero_left := size_eq_zero_iff x
  have zero_right := size_eq_zero_iff y
  have nonneg_left := size_nonneg x
  have nonneg_right := size_nonneg y
  have same := @size_inj x y
  simp only [equal, not_isNaN_of_isFinite left, not_isNaN_of_isFinite right, bits_eq_iff, value,
    isZero, Bool.not_false, Bool.true_and, Bool.or_eq_true, Bool.and_eq_true, decide_eq_true_eq]
  generalize (x.significand * 2 ^ x.scale : ℚ) = sizeX at *
  generalize (y.significand * 2 ^ y.scale : ℚ) = sizeY at *
  rw [← same, ← zero_left, ← zero_right]
  -- with one sign the sizes decide, with two signs both numbers have to be zero
  cases x.isNegative <;> cases y.isNegative <;> simp <;> grind

/-! ## Integers -/

theorem magnitude_ofMagnitude {negative : Bool} {magnitude : Nat} (small : magnitude < signBit) :
    (ofMagnitude negative magnitude).magnitude = magnitude := by
  unfold ofMagnitude Binary64.magnitude
  rw [UInt64.toNat_ofNat']
  unfold signBit at *
  split <;> omega

theorem isNegative_ofMagnitude {negative : Bool} {magnitude : Nat} (small : magnitude < signBit) :
    (ofMagnitude negative magnitude).isNegative = negative := by
  unfold ofMagnitude isNegative
  rw [UInt64.toNat_ofNat']
  unfold signBit at *
  cases negative <;> simp <;> omega

theorem nearestEven_mul {quotient denominator : Nat} (positive : 0 < denominator) :
    nearestEven (quotient * denominator) denominator = quotient := by
  unfold nearestEven
  rw [Nat.mul_mod_left, Nat.mul_div_cancel _ positive]
  simp [positive]

theorem log2_one : Nat.log2 1 = 0 := by decide

/-- The magnitude that a natural number rounds to, before it is cut to an infinite one. -/
theorem ofRatio_one {negative : Bool} {size : Nat} (positive : size ≠ 0) :
    ofRatio negative size 1 =
      ofMagnitude negative (min ((size.log2 + 1022) * leadingBit +
        nearestMultiple size 1 (size.log2 - 52)) infiniteMagnitude) := by
  have reached : reaches size 1 (size.log2 : Int) = true := by
    simp [reaches, Nat.log2_self_le positive]
  unfold ofRatio
  simp only [positive, if_false, log2_one, Nat.cast_zero, Int.sub_zero, reached, if_true]
  rw [max_eq_left (by omega)]
  congr 5
  omega

/-- A natural number with 53 leading binary digits and zeros behind them, less than those that
become infinite. -/
def Short (size : Nat) : Prop :=
  size.log2 < 1024 ∧ ∃ digits power, digits < 2 ^ 53 ∧ size = digits * 2 ^ power

/-- How long a number is that becomes one of a few digits once both are scaled. -/
theorem log2_lt_of_scaled {size digits length power high low : Nat} (positive : size ≠ 0)
    (few : digits < 2 ^ length) (wide : length + power ≤ high + low)
    (scaled : digits * 2 ^ power = size * 2 ^ low) : size.log2 < high := by
  refine (Nat.log2_lt positive).mpr (Nat.lt_of_mul_lt_mul_right (a := 2 ^ low) ?_)
  calc size * 2 ^ low = digits * 2 ^ power := scaled.symm
    _ < 2 ^ length * 2 ^ power := Nat.mul_lt_mul_of_pos_right few (Nat.two_pow_pos _)
    _ = 2 ^ (length + power) := (Nat.pow_add ..).symm
    _ ≤ 2 ^ (high + low) := Nat.pow_le_pow_right Nat.two_pos wide
    _ = 2 ^ high * 2 ^ low := Nat.pow_add ..

/-- A number that becomes some digits once both are scaled has no more digits itself. -/
theorem digits_of_scaled {size digits power low : Nat}
    (scaled : digits * 2 ^ power = size * 2 ^ low) :
    ∃ kept shift, kept ≤ digits ∧ size = kept * 2 ^ shift := by
  rcases Nat.lt_or_ge power low with small | large
  · refine ⟨size, 0, Nat.le_of_mul_le_mul_right ?_ (Nat.two_pow_pos power), (Nat.mul_one _).symm⟩
    rw [scaled]
    exact Nat.mul_le_mul_left _ (pow_le_pow_right₀ one_le_two small.le)
  · refine ⟨digits, power - low, le_rfl, Nat.eq_of_mul_eq_mul_right (Nat.two_pow_pos low) ?_⟩
    rw [← scaled, Nat.mul_assoc, ← Nat.pow_add, Nat.sub_add_cancel large]

theorem Short.dvd {size : Nat} (short : Short size) (positive : size ≠ 0) :
    2 ^ (size.log2 - 52) ∣ size := by
  obtain ⟨-, digits, power, few, rfl⟩ := short
  have := log2_lt_of_scaled positive few (show 53 + power ≤ 53 + power + 0 by omega)
    (Nat.mul_one _).symm
  exact (Nat.pow_dvd_pow 2 (by omega)).trans (Nat.dvd_mul_left _ _)

/-- A short number is a multiple of the power of two that it is rounded to. -/
theorem Short.nearestMultiple {size : Nat} (short : Short size) (positive : size ≠ 0) :
    nearestMultiple size 1 (size.log2 - 52) * 2 ^ size.log2 = size * 2 ^ 52 := by
  rcases Nat.lt_or_ge size.log2 52 with small | large
  · have scale : (size.log2 - 52 : Int) = Int.negSucc (51 - size.log2) := by omega
    have scaled := @nearestEven_mul (size * 2 ^ (51 - size.log2 + 1)) 1 Nat.zero_lt_one
    rw [Nat.mul_one] at scaled
    rw [scale]
    show nearestEven (size * 2 ^ (51 - size.log2 + 1)) 1 * 2 ^ size.log2 = size * 2 ^ 52
    rw [scaled, Nat.mul_assoc, ← Nat.pow_add]
    congr 2
    omega
  · have scale : (size.log2 - 52 : Int) = Int.ofNat (size.log2 - 52) := by
      rw [Int.ofNat_eq_natCast]
      omega
    obtain ⟨quotient, exact⟩ := short.dvd positive
    have scaled := @nearestEven_mul quotient _ (Nat.two_pow_pos (size.log2 - 52))
    rw [Nat.mul_comm, ← exact] at scaled
    rw [scale]
    show nearestEven size (1 * 2 ^ (size.log2 - 52)) * 2 ^ size.log2 = size * 2 ^ 52
    rw [Nat.one_mul, scaled]
    conv_rhs => rw [exact]
    rw [Nat.mul_comm _ quotient, Nat.mul_assoc, ← Nat.pow_add]
    congr 2
    omega

/-- The magnitude of a short number is finite, and in steps the number itself. -/
theorem Short.steps {size : Nat} (short : Short size) (positive : size ≠ 0) :
    let magnitude := (size.log2 + 1022) * leadingBit +
      Binary64.nearestMultiple size 1 (size.log2 - 52)
    magnitude < infiniteMagnitude ∧ stepsOf magnitude = size * 2 ^ 1074 := by
  have rounds := short.nearestMultiple positive
  have least : 2 ^ size.log2 ≤ size := Nat.log2_self_le positive
  have most : size < 2 ^ (size.log2 + 1) := Nat.lt_log2_self
  generalize Binary64.nearestMultiple size 1 (size.log2 - 52) = rounded at *
  have low : leadingBit ≤ rounded := by
    refine Nat.le_of_mul_le_mul_right ?_ (Nat.two_pow_pos size.log2)
    rw [rounds, Nat.mul_comm]
    exact Nat.mul_le_mul_right _ least
  have high : rounded < 2 * leadingBit := by
    refine Nat.lt_of_mul_lt_mul_right (a := 2 ^ size.log2) ?_
    rw [rounds, leadingBit_eq, show 2 * 2 ^ 52 * 2 ^ size.log2 = 2 ^ (size.log2 + 1) * 2 ^ 52 by
      rw [Nat.pow_succ]; ring]
    exact Nat.mul_lt_mul_of_pos_right most (Nat.two_pow_pos _)
  have exponent : exponentOf ((size.log2 + 1022) * leadingBit + rounded) = size.log2 + 1023 := by
    unfold exponentOf leadingBit at *
    omega
  have bounded := short.1
  refine ⟨by unfold infiniteMagnitude leadingBit at *; omega, ?_⟩
  unfold stepsOf
  rw [exponent, show size.log2 + 1023 - 1 = size.log2 + 1022 by omega, Nat.add_sub_cancel_left,
    show 1074 = 52 + 1022 from rfl, Nat.pow_add, Nat.pow_add, ← Nat.mul_assoc, rounds,
    Nat.mul_assoc]

/-- The least positive number goes into one as often as it says. -/
theorem least_steps : (2 ^ (-1074 : Int) * 2 ^ (1074 : Nat) : ℚ) = 1 := by
  rw [← zpow_natCast, ← zpow_add₀ two_ne_zero]
  rfl

theorem abs_value (x : Binary64) : |x.value| = x.significand * 2 ^ x.scale := by
  have nonneg := size_nonneg x
  unfold value
  split <;> simp [abs_of_nonneg nonneg]

/-- An integer that is short does not change when it becomes a number. -/
theorem value_ofInt {value : Int} (short : Short value.natAbs) :
    (ofInt value).isFinite = true ∧ (ofInt value).value = value := by
  rcases eq_or_ne value.natAbs 0 with none | positive
  · obtain rfl := Int.natAbs_eq_zero.mp none
    exact ⟨by decide, by simp [ofInt, ofRatio, Binary64.value, size_eq, zero,
      magnitude_ofMagnitude (show 0 < signBit by decide), stepsOf_zero]⟩
  · obtain ⟨finite, steps⟩ := short.steps positive
    unfold ofInt
    rw [ofRatio_one positive, min_eq_left (Nat.le_of_lt finite)]
    have small := finite.trans (show infiniteMagnitude < signBit by decide)
    refine ⟨by rw [isFinite, magnitude_ofMagnitude small]; exact decide_eq_true finite, ?_⟩
    rw [Binary64.value, size_eq, isNegative_ofMagnitude small, magnitude_ofMagnitude small, steps,
      Nat.cast_mul, Nat.cast_pow, Nat.cast_two, mul_assoc, mul_comm (2 ^ (1074 : Nat)), least_steps,
      mul_one, Nat.cast_natAbs]
    rcases lt_or_ge value 0 with negative | nonnegative
    · simp [negative, abs_of_neg negative]
    · simp [not_lt.mpr nonnegative, abs_of_nonneg nonnegative]

/-- An integer that has a number of its value is short. -/
theorem short_of_value {x : Binary64} (finite : x.isFinite = true) {value : Int}
    (same : x.value = value) : Short value.natAbs := by
  have steps : stepsOf x.magnitude = value.natAbs * 2 ^ 1074 := by
    have sizes := abs_value x
    rw [same, size_eq, ← Int.cast_abs, Int.abs_eq_natAbs, Int.cast_natCast] at sizes
    rw [← Nat.cast_inj (R := ℚ), Nat.cast_mul, Nat.cast_pow, Nat.cast_two, sizes, mul_assoc,
      least_steps, mul_one]
  rw [stepsOf, ← significand_eq] at steps
  have few : x.significand < 2 ^ 53 := significand_lt x
  have bounded : exponentOf x.magnitude - 1 ≤ 2045 := by
    have := of_decide_eq_true finite
    unfold exponentOf infiniteMagnitude leadingBit at *
    omega
  generalize exponentOf x.magnitude - 1 = power at steps bounded
  refine ⟨?_, ?_⟩
  · rcases eq_or_ne value.natAbs 0 with none | positive
    · rw [none]
      decide
    · refine log2_lt_of_scaled positive few ?_ steps
      omega
  · obtain ⟨kept, shift, fewer, same⟩ := digits_of_scaled steps
    exact ⟨kept, shift, fewer.trans_lt few, same⟩

/-- Integers of 53 binary digits are short. -/
theorem short_of_small {size : Nat} (small : size ≤ 2 ^ 53) : Short size := by
  refine ⟨?_, ?_⟩
  · rcases eq_or_ne size 0 with rfl | positive
    · decide
    · have few : size < 2 ^ 54 := small.trans_lt (by decide)
      exact log2_lt_of_scaled positive few (show 54 + 0 ≤ 1024 + 0 by decide) rfl
  · rcases small.eq_or_lt with rfl | less
    · exact ⟨1, 53, by decide, (Nat.one_mul _).symm⟩
    · exact ⟨size, 0, less, (Nat.mul_one _).symm⟩

/-- A number has the value of an integer only if the integer becomes that number. -/
theorem equal_ofInt_of_value {x : Binary64} (finite : x.isFinite = true) {value : Int}
    (same : x.value = value) : (ofInt value).equal x = true := by
  obtain ⟨again, exact⟩ := value_ofInt (short_of_value finite same)
  rw [equal_iff_value again finite, exact, same]

/-- Rounding makes a number of every integer. -/
theorem not_isNaN_ofInt (value : Int) : (ofInt value).isNaN = false := by
  unfold ofInt
  rcases eq_or_ne value.natAbs 0 with none | positive
  · rw [none]
    cases decide (value < 0) <;> decide
  · rw [ofRatio_one positive, isNaN, decide_eq_false_iff_not, not_lt, magnitude_ofMagnitude]
    · exact min_le_right _ _
    · exact lt_of_le_of_lt (min_le_right _ _) (by decide)

end Binary64

end TypedSchema
