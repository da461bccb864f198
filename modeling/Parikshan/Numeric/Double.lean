import Mathlib.Data.Int.Log
import Mathlib.Data.Rat.Floor
import Mathlib.Algebra.Order.Field.Power
import Mathlib.Tactic.Linarith
import Mathlib.Tactic.Positivity
import Mathlib.Tactic.Ring

/-!
# Rounding to double precision

The result of an operation on doubles is the double that is nearest to the exact result, and of two
that are equally near the one with the even significand. Only normal numbers are needed here, so the
exponent is not bounded.

## Main definitions

* `roundEven`: the nearest integer.
* `double`: the nearest double.

## Main results

* `abs_double_sub_le`: the relative error.
* `double_eq_self`: doubles are not rounded.
* `double_pos`, `double_lt_one`: results that are not rounded to 0 or to 1.
-/

namespace Parikshan.Numeric

/-- The nearest integer, and of two that are equally near the even one. -/
def roundEven (x : ℚ) : ℤ :=
  if x - ⌊x⌋ < 1 / 2 ∨ x - ⌊x⌋ = 1 / 2 ∧ Even ⌊x⌋ then ⌊x⌋ else ⌊x⌋ + 1

theorem roundEven_intCast (n : ℤ) : roundEven n = n := by
  rw [roundEven, Int.floor_intCast, sub_self, if_pos (Or.inl (by norm_num))]

/-- The distance of the doubles next to a number, whose significands have 53 bits. -/
def ulp (x : ℚ) : ℚ := 2 ^ (Int.log 2 |x| - 52)

/-- The nearest double. -/
def double (x : ℚ) : ℚ := roundEven (x / ulp x) * ulp x

theorem abs_roundEven_sub_le (x : ℚ) : |roundEven x - x| ≤ 1 / 2 := by
  have hle := Int.floor_le x
  have hlt := Int.lt_floor_add_one x
  unfold roundEven
  split_ifs with h
  · rw [abs_le]
    rcases h with h | ⟨h, -⟩
    · exact ⟨by linarith, by linarith⟩
    · exact ⟨by linarith, by linarith⟩
  · have hhalf : 1 / 2 ≤ x - ⌊x⌋ := by
      by_contra hcon
      exact h (Or.inl (not_le.mp hcon))
    rw [abs_le]
    push_cast
    exact ⟨by linarith, by linarith⟩

theorem ulp_pos (x : ℚ) : 0 < ulp x := by
  unfold ulp
  positivity

theorem ulp_le {x : ℚ} (hx : x ≠ 0) : ulp x ≤ |x| / 2 ^ 52 := by
  have hlog : (2 : ℚ) ^ Int.log 2 |x| ≤ |x| := by
    simpa using Int.zpow_log_le_self (b := 2) (by norm_num) (abs_pos.mpr hx)
  rw [ulp, zpow_sub₀ two_ne_zero]
  exact div_le_div_of_nonneg_right hlog (by positivity)

/-- **The relative error of a rounding.** -/
theorem abs_double_sub_le {x : ℚ} (hx : x ≠ 0) : |double x - x| ≤ |x| / 2 ^ 53 := by
  have hu := ulp_pos x
  have hsub : double x - x = (roundEven (x / ulp x) - x / ulp x) * ulp x := by
    rw [double, sub_mul, div_mul_cancel₀ x hu.ne']
  calc |double x - x| = |roundEven (x / ulp x) - x / ulp x| * ulp x := by
        rw [hsub, abs_mul, abs_of_pos hu]
    _ ≤ 1 / 2 * (|x| / 2 ^ 52) :=
        mul_le_mul (abs_roundEven_sub_le _) (ulp_le hx) hu.le (by norm_num)
    _ = |x| / 2 ^ 53 := by ring

/-- A double is not rounded. -/
theorem double_eq_self {x : ℚ} {n : ℤ} (h : x = n * ulp x) : double x = x := by
  have hdiv : x / ulp x = n := by
    rw [div_eq_iff (ulp_pos x).ne']
    exact h
  rw [double, hdiv, roundEven_intCast]
  exact h.symm

theorem double_one : double 1 = 1 := by
  refine double_eq_self (n := 2 ^ 52) ?_
  rw [ulp, abs_one, Int.log_one_right]
  norm_num

theorem double_pos {x : ℚ} (hx : 0 < x) : 0 < double x := by
  have herr := (abs_le.mp (abs_double_sub_le hx.ne')).1
  rw [abs_of_pos hx] at herr
  linarith

theorem double_lt_one {x : ℚ} (hx : 0 < x) (hone : x ≤ 1 - 1 / 2 ^ 52) : double x < 1 := by
  have herr := (abs_le.mp (abs_double_sub_le hx.ne')).2
  rw [abs_of_pos hx] at herr
  linarith

end Parikshan.Numeric
