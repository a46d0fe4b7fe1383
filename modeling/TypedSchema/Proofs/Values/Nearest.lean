import Mathlib.Tactic.Linarith
import TypedSchema.Proofs.Values.Exact

/-!
Integers that no number is exactly. Such an integer has more binary digits than a significand holds;
it becomes a multiple of the power of two that cuts off the digits behind, and among all finite
numbers none is nearer to it.
-/

namespace TypedSchema

namespace Binary64

/-! ## Quotients -/

theorem nearestEven_cases (numerator denominator : Nat) :
    (nearestEven numerator denominator = numerator / denominator ∧
        2 * (numerator % denominator) ≤ denominator) ∨
      (nearestEven numerator denominator = numerator / denominator + 1 ∧
        denominator ≤ 2 * (numerator % denominator)) := by
  unfold nearestEven
  simp only
  split
  · exact .inl ⟨rfl, by omega⟩
  · split
    · exact .inr ⟨rfl, by omega⟩
    · -- half way between, so it is the even quotient
      rcases Nat.mod_two_eq_zero_or_one (numerator / denominator) with even | odd
      · exact .inl ⟨by omega, by omega⟩
      · exact .inr ⟨by omega, by omega⟩

/-- No multiple is nearer than the one that is rounded to. -/
theorem nearestEven_nearest (numerator : Nat) {denominator : Nat} (positive : 0 < denominator)
    (factor : Nat) :
    |(nearestEven numerator denominator * denominator : Int) - numerator| ≤
      |(factor * denominator : Int) - numerator| := by
  have split := Nat.div_add_mod numerator denominator
  have below := Nat.mod_lt numerator positive
  rw [Nat.mul_comm] at split
  -- other multiples are not above the one below, or not below the one above
  have apart : factor * denominator ≤ numerator / denominator * denominator ∨
      numerator / denominator * denominator + denominator ≤ factor * denominator := by
    rcases Nat.lt_or_ge (numerator / denominator) factor with above | notAbove
    · refine .inr ?_
      rw [← Nat.succ_mul]
      exact Nat.mul_le_mul_right _ above
    · exact .inl (Nat.mul_le_mul_right _ notAbove)
  have distance := abs_cases ((factor * denominator : Nat) - numerator : Int)
  rw [← Nat.cast_mul, ← Nat.cast_mul]
  rcases nearestEven_cases numerator denominator with ⟨same, near⟩ | ⟨same, near⟩
  · rw [same, abs_le]
    omega
  · rw [same, Nat.succ_mul, abs_le]
    omega

theorem nearestEven_bounds {numerator denominator low : Nat} (positive : 0 < denominator)
    (least : low * denominator ≤ numerator) (most : numerator < 2 * low * denominator) :
    low ≤ nearestEven numerator denominator ∧ nearestEven numerator denominator ≤ 2 * low := by
  have above : low ≤ numerator / denominator := (Nat.le_div_iff_mul_le positive).mpr least
  have under : numerator / denominator < 2 * low := (Nat.div_lt_iff_lt_mul positive).mpr most
  rcases nearestEven_cases numerator denominator with ⟨same, -⟩ | ⟨same, -⟩ <;> omega

/-! ## Rounded integers -/

/-- A significand that is rounded up to one more digit is the leading digit of the next exponent. -/
theorem stepsOf_rounded {exponent rounded : Nat} (low : leadingBit ≤ rounded)
    (high : rounded ≤ 2 * leadingBit) :
    stepsOf (exponent * leadingBit + rounded) = rounded * 2 ^ exponent := by
  have positive : 0 < leadingBit := by decide
  unfold stepsOf
  rcases Nat.lt_or_ge rounded (2 * leadingBit) with fits | carries
  · have stored : exponentOf (exponent * leadingBit + rounded) = exponent + 1 := by
      unfold exponentOf leadingBit at *
      omega
    rw [stored, Nat.add_sub_cancel, Nat.add_sub_cancel_left]
  · have whole : rounded = 2 * leadingBit := by omega
    have stored : exponentOf (exponent * leadingBit + rounded) = exponent + 2 := by
      unfold exponentOf leadingBit at *
      omega
    have rest : exponent * leadingBit + rounded - (exponent + 1) * leadingBit = leadingBit := by
      rw [whole, Nat.add_mul exponent 1]
      omega
    rw [stored, show exponent + 2 - 1 = exponent + 1 by omega, rest, whole, Nat.pow_succ]
    ring

/-- A long natural number is cut to its first 53 binary digits. -/
theorem value_ofInt_long {size : Nat} (long : 52 ≤ size.log2) (bounded : size.log2 < 1023) :
    (ofInt size).isFinite = true ∧
      (ofInt size).value =
        (nearestEven size (2 ^ (size.log2 - 52)) * 2 ^ (size.log2 - 52) : Nat) := by
  have positive : size ≠ 0 := by
    rintro rfl
    simp at long
  have unit : 0 < 2 ^ (size.log2 - 52) := Nat.two_pow_pos _
  have least : leadingBit * 2 ^ (size.log2 - 52) ≤ size := by
    rw [leadingBit_eq, ← Nat.pow_add, Nat.add_sub_cancel' long]
    exact Nat.log2_self_le positive
  have most : size < 2 * leadingBit * 2 ^ (size.log2 - 52) := by
    have wide : 2 * leadingBit * 2 ^ (size.log2 - 52) = 2 ^ (size.log2 + 1) := by
      rw [leadingBit_eq, ← Nat.pow_succ', ← Nat.pow_add]
      congr 1
      omega
    rw [wide]
    exact Nat.lt_log2_self
  obtain ⟨low, high⟩ := nearestEven_bounds unit least most
  have scale : (size.log2 - 52 : Int) = Int.ofNat (size.log2 - 52) := by
    rw [Int.ofNat_eq_natCast]
    omega
  have rounds : nearestMultiple size 1 (size.log2 - 52) =
      nearestEven size (2 ^ (size.log2 - 52)) := by
    rw [scale]
    show nearestEven size (1 * 2 ^ (size.log2 - 52)) = _
    rw [Nat.one_mul]
  have sign : decide ((size : Int) < 0) = false := decide_eq_false (by omega)
  unfold ofInt
  rw [sign, Int.natAbs_natCast, ofRatio_one positive, rounds]
  generalize nearestEven size (2 ^ (size.log2 - 52)) = rounded at *
  have finite : (size.log2 + 1022) * leadingBit + rounded < infiniteMagnitude := by
    unfold infiniteMagnitude leadingBit at *
    omega
  have small := finite.trans (show infiniteMagnitude < signBit by decide)
  rw [min_eq_left (Nat.le_of_lt finite)]
  refine ⟨by rw [isFinite, magnitude_ofMagnitude small]; exact decide_eq_true finite, ?_⟩
  have steps : stepsOf ((size.log2 + 1022) * leadingBit + rounded) =
      rounded * 2 ^ (size.log2 - 52) * 2 ^ 1074 := by
    rw [stepsOf_rounded low high, Nat.mul_assoc, ← Nat.pow_add]
    congr 2
    omega
  rw [value, size_eq, isNegative_ofMagnitude small, magnitude_ofMagnitude small, steps]
  generalize rounded * 2 ^ (size.log2 - 52) = whole
  rw [Nat.cast_mul, Nat.cast_pow, Nat.cast_two, mul_assoc, mul_comm (2 ^ (1074 : Nat)), least_steps]
  simp

/-- A number beyond a power of two is a multiple of what the last digit of a significand is worth
there. -/
theorem value_multiple {x : Binary64} {top : Nat} (long : 52 ≤ top) (large : 2 ^ top < x.value) :
    ∃ factor : Nat, x.value = (factor * 2 ^ (top - 52) : Nat) := by
  have size := abs_value x
  have positive : (0 : ℚ) < x.value := lt_trans (pow_pos two_pos top) large
  rw [abs_of_pos positive] at size
  rw [size] at large ⊢
  have few : (x.significand : ℚ) < 2 ^ (53 : Int) := by exact_mod_cast significand_lt x
  have scaled : (top - 52 : Int) ≤ x.scale := by
    by_contra less
    refine absurd large (not_lt.mpr ?_)
    calc (x.significand * 2 ^ x.scale : ℚ)
        ≤ 2 ^ (53 : Int) * 2 ^ x.scale := by gcongr
      _ = 2 ^ (53 + x.scale) := (zpow_add₀ two_ne_zero ..).symm
      _ ≤ 2 ^ (top : Int) := zpow_le_zpow_right₀ one_le_two (by omega)
      _ = 2 ^ top := zpow_natCast ..
  obtain ⟨more, grown⟩ := Int.eq_ofNat_of_zero_le (Int.sub_nonneg_of_le scaled)
  have whole : x.scale = (more + (top - 52) : Nat) := by omega
  refine ⟨x.significand * 2 ^ more, ?_⟩
  rw [whole, zpow_natCast, pow_add, ← mul_assoc]
  push_cast
  rfl

/-- No finite number is nearer to a long natural number than the one that it becomes. -/
theorem ofInt_nearest {size : Nat} (long : 52 ≤ size.log2) (bounded : size.log2 < 1023)
    (x : Binary64) : |(ofInt size).value - size| ≤ |x.value - size| := by
  have unit : 0 < 2 ^ (size.log2 - 52) := Nat.two_pow_pos _
  have nearest := nearestEven_nearest size unit
  rw [(value_ofInt_long long bounded).2]
  rcases le_or_gt x.value (2 ^ size.log2) with below | above
  · -- the power of two is a multiple itself, and lies between
    have between := nearest (2 ^ 52)
    have least : (2 ^ size.log2 : ℚ) ≤ size := by
      exact_mod_cast Nat.log2_self_le (n := size) (by rintro rfl; simp at long)
    have power : (2 ^ 52 * 2 ^ (size.log2 - 52) : Nat) = 2 ^ size.log2 := by
      rw [← Nat.pow_add, Nat.add_sub_cancel' long]
    rw [← Nat.cast_mul, ← Nat.cast_mul, power] at between
    have farther : |(2 ^ size.log2 : ℚ) - size| ≤ |x.value - size| := by
      rw [abs_of_nonpos (sub_nonpos.mpr least), abs_of_nonpos (by linarith)]
      linarith
    refine le_trans ?_ farther
    exact_mod_cast between
  · obtain ⟨factor, same⟩ := value_multiple long above
    rw [same]
    exact_mod_cast nearest factor

theorem isFinite_zero (negative : Bool) : (zero negative).isFinite = true := by
  cases negative <;> decide

/-- No natural number of 64 bits is too large for a number. -/
theorem isFinite_ofRatio {size : Nat} (bounded : size < 2 ^ 64) (negative : Bool) :
    (ofRatio negative size 1).isFinite = true := by
  rcases eq_or_ne size 0 with rfl | positive
  · exact isFinite_zero negative
  have finite : (ofInt size).isFinite = true := by
    have log : size.log2 < 64 := (Nat.log2_lt positive).mpr bounded
    rcases Nat.lt_or_ge size.log2 52 with short | long
    · refine (value_ofInt ⟨by simp; omega, size, 0, ?_, by simp⟩).1
      exact ((Nat.log2_lt positive).mp short).trans (by decide)
    · exact (value_ofInt_long long (by omega)).1
  have sign : decide ((size : Int) < 0) = false := decide_eq_false (by omega)
  unfold ofInt at finite
  rw [sign, Int.natAbs_natCast, ofRatio_one positive] at finite
  rw [ofRatio_one positive]
  generalize (size.log2 + 1022) * leadingBit + nearestMultiple size 1 (size.log2 - 52) = magnitude
    at *
  have small : min magnitude infiniteMagnitude < signBit :=
    (Nat.min_le_right _ _).trans_lt (by decide)
  rw [isFinite, magnitude_ofMagnitude small] at finite ⊢
  exact finite

end Binary64

end TypedSchema
