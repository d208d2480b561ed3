import Mathlib.Data.Int.Log
import Mathlib.Data.Rat.Floor
import Mathlib.Tactic

/-!
# Machinery/Rounding — the double nearest to a rational

A `double` has 53 significant binary digits.  An operation on doubles is the exact one, rounded to
the nearest of them, of two to the one whose last digit is even.  Exponents are unbounded here: what
follows is about numbers that neither overflow nor come down to the smallest doubles.

Rounding may reach a double from below (`le_roundDouble_of_lt`), but never passes one
(`le_roundDouble`), and what it adds is at most half a unit of the last digit
(`roundDouble_le_add`).
-/

namespace Sysbench

/-- The nearest integer, of two the even one. -/
def roundEven (y : ℚ) : ℤ :=
  if y - ⌊y⌋ < 1 / 2 then ⌊y⌋
  else if 1 / 2 < y - ⌊y⌋ then ⌊y⌋ + 1
  else if ⌊y⌋ % 2 = 0 then ⌊y⌋ else ⌊y⌋ + 1

/-- The unit of the last digit of `x`. -/
def ulp (x : ℚ) : ℚ := 2 ^ (Int.log 2 |x| - 52)

/-- The double nearest to `x`. -/
def roundDouble (x : ℚ) : ℚ := roundEven (x / ulp x) * ulp x

/-- `(double) x / y < r`, for integers: division by zero gives an infinity, or no number at all. -/
def quotientBelow (x y : ℤ) (r : ℚ) : Bool :=
  if y = 0 then x < 0 else roundDouble (x / y) < r

/-- `x` is the value of a double. -/
def IsDouble (x : ℚ) : Prop := roundDouble x = x

/-! ## The nearest integer -/

theorem le_roundEven {k : ℤ} {y : ℚ} (h : (k : ℚ) - 1 / 2 < y) : k ≤ roundEven y := by
  have hlt := Int.lt_floor_add_one y
  unfold roundEven
  split_ifs with hlow hhigh
  · have hk : (k : ℚ) < ⌊y⌋ + 1 := by linarith
    exact Int.lt_add_one_iff.mp (by exact_mod_cast hk)
  · have hk : (k : ℚ) < ⌊y⌋ + 1 + 1 := by linarith
    exact Int.lt_add_one_iff.mp (by exact_mod_cast hk)
  all_goals
    have hk : (k : ℚ) < ⌊y⌋ + 1 := by linarith
    have hk : k < ⌊y⌋ + 1 := by exact_mod_cast hk
    omega

theorem roundEven_le (y : ℚ) : (roundEven y : ℚ) ≤ y + 1 / 2 := by
  have hle := Int.floor_le y
  unfold roundEven
  split_ifs with hlow hhigh <;> push_cast <;> linarith

/-! ## The nearest double -/

theorem ulp_pos (x : ℚ) : 0 < ulp x := zpow_pos (by norm_num) _

/-- Rounding to units of the last digit. -/
theorem le_roundDouble_of_lt {k : ℤ} {x : ℚ} (h : (k : ℚ) - 1 / 2 < x / ulp x) :
    k * ulp x ≤ roundDouble x :=
  mul_le_mul_of_nonneg_right (by exact_mod_cast le_roundEven h) (ulp_pos x).le

theorem roundDouble_le_add (x : ℚ) : roundDouble x ≤ x + ulp x / 2 := by
  have hu := ulp_pos x
  calc roundDouble x ≤ (x / ulp x + 1 / 2) * ulp x :=
        mul_le_mul_of_nonneg_right (roundEven_le _) hu.le
    _ = x + ulp x / 2 := by field_simp

/-- The last digit of a number below a power of two. -/
theorem ulp_le_of_lt {x : ℚ} {e : ℤ} (hx : 0 < x) (h : x < 2 ^ e) : ulp x ≤ 2 ^ (e - 53) := by
  have hlog : Int.log 2 x < e := (Int.lt_zpow_iff_log_lt Nat.one_lt_two hx).mp (by exact_mod_cast h)
  rw [ulp, abs_of_pos hx]
  exact zpow_le_zpow_right₀ (by norm_num) (by omega)

/-- The first digit of a positive number has 52 others behind it. -/
theorem zpow_log_eq {x : ℚ} (hx : 0 < x) : (2 : ℚ) ^ Int.log 2 x = 2 ^ 52 * ulp x := by
  rw [ulp, abs_of_pos hx, ← zpow_natCast, ← zpow_add₀ (by norm_num)]
  congr 1
  push_cast
  ring

theorem mul_ulp_le {x : ℚ} (hx : 0 < x) : 2 ^ 52 * ulp x ≤ x := by
  rw [← zpow_log_eq hx]
  exact_mod_cast Int.zpow_log_le_self (R := ℚ) Nat.one_lt_two hx

/-- **The relative error of rounding up.** -/
theorem roundDouble_le_mul {x : ℚ} (hx : 0 < x) : roundDouble x ≤ x * (1 + 1 / 2 ^ 53) := by
  have hround := roundDouble_le_add x
  have hlead := mul_ulp_le hx
  linarith

/-- **Rounding passes no double** on the way down. -/
theorem le_roundDouble {r x : ℚ} (hr : IsDouble r) (h₀ : 0 ≤ r) (h : r ≤ x) :
    r ≤ roundDouble x := by
  rcases h₀.eq_or_lt with rfl | hpos
  · rcases h.eq_or_lt with rfl | hx
    · exact hr.ge
    · have hle := le_roundDouble_of_lt (k := 0) (x := x) (by
        have := div_pos hx (ulp_pos x)
        push_cast
        linarith)
      simpa using hle
  have hx : 0 < x := hpos.trans_le h
  have hu := ulp_pos x
  rcases (Int.log_mono_right (b := 2) hpos h).eq_or_lt with heq | hlt
  · -- both have the same last digit, and `r` is a whole number of its units
    have hulp : ulp r = ulp x := by rw [ulp, ulp, abs_of_pos hpos, abs_of_pos hx, heq]
    rw [IsDouble, roundDouble, hulp] at hr
    rw [← hr]
    refine le_roundDouble_of_lt ?_
    have hle : (roundEven (r / ulp x) : ℚ) ≤ x / ulp x := by
      rw [le_div_iff₀ hu, hr]
      exact h
    linarith
  · -- `x` has a leading digit above `r`
    have hlead : (2 : ℚ) ^ 52 * ulp x ≤ roundDouble x := by
      have hle := (le_div_iff₀ hu).mpr (mul_ulp_le hx)
      have hround := le_roundDouble_of_lt (k := 2 ^ 52) (x := x) (by
        push_cast
        linarith)
      push_cast at hround
      exact hround
    have hr_lt := Int.lt_zpow_succ_log_self (R := ℚ) Nat.one_lt_two r
    calc r ≤ 2 ^ (Int.log 2 r + 1) := by exact_mod_cast hr_lt.le
      _ ≤ 2 ^ Int.log 2 x := zpow_le_zpow_right₀ (by norm_num) (by omega)
      _ = 2 ^ 52 * ulp x := zpow_log_eq hx
      _ ≤ roundDouble x := hlead

/-- What rounds below a double is below it. -/
theorem lt_of_roundDouble_lt {r x : ℚ} (hr : IsDouble r) (h₀ : 0 ≤ r) (h : roundDouble x < r) :
    x < r :=
  not_le.mp fun hle => absurd (le_roundDouble hr h₀ hle) (not_le.mpr h)

end Sysbench
