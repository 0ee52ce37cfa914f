import Mathlib.Algebra.Order.Field.Rat
import Mathlib.Algebra.Order.Group.Unbundled.Abs
import Mathlib.Algebra.Order.AbsoluteValue.Basic
import Mathlib.Tactic.Linarith
import Mathlib.Tactic.NormNum

/-!
# Doubles by their values

A double is not a number, an infinity or a rational number; what it rounds is stated by values.

* `Binary64`, `Representable`: the doubles, and the finite values that they have;
* `Rounds`: a double is a nearest to a number, or the infinity past all of them;
* **`Rounds.le_finite`**: rounding does not go below a representable number that the rounded one is not below;
* `Binary64.times`: the product with a power of two, which is exact short of overflow.
-/

/-- A double. -/
inductive Binary64
  | nan
  | infinite (negative : Bool)
  | finite (value : ℚ)
  deriving DecidableEq

namespace Binary64

/-- A value of 53 bits, within the range of exponents. -/
def Representable (value : ℚ) : Prop :=
  ∃ (mantissa exponent : ℤ), |mantissa| < 2 ^ 53 ∧ -1074 ≤ exponent ∧ exponent ≤ 971 ∧ value = mantissa * 2 ^ exponent

/-- The least number that rounds to an infinity: half a unit past the largest finite double. -/
def overflow : ℚ := 2 ^ 1024 - 2 ^ 970

/-- A double is a correct rounding of a number. -/
def Rounds (number : ℚ) : Binary64 → Prop
  | nan => False
  | infinite negative => if negative then number ≤ -overflow else overflow ≤ number
  | finite value => |number| < overflow ∧ Representable value ∧
    ∀ other, Representable other → |number - value| ≤ |number - other|

/-- The product with a power of two, which is exact short of overflow. -/
def times (factor : Nat) : Binary64 → Binary64
  | nan => nan
  | infinite negative => infinite negative
  | finite value =>
    if |value * factor| < 2 ^ 1024 then finite (value * factor) else infinite (decide (value * factor < 0))

variable {number value : ℚ}

theorem representable_two_pow {k : Nat} (hk : k ≤ 971) : Representable (2 ^ k) :=
  ⟨1, k, by norm_num, by omega, by omega, by rw [Int.cast_one, one_mul, zpow_natCast]⟩

/-- A power of two is its own rounding. -/
theorem rounds_two_pow {k : Nat} (hk : k ≤ 971) : Rounds (2 ^ k) (finite (2 ^ k)) := by
  have hlt : (2 : ℚ) ^ k < overflow := by
    have hle : (2 : ℚ) ^ k ≤ 2 ^ 971 := pow_le_pow_right₀ (by norm_num) hk
    have hlarge : (2 : ℚ) ^ 970 * 2 * 2 ≤ 2 ^ 1024 := by
      rw [← pow_succ, ← pow_succ]
      exact pow_le_pow_right₀ (by norm_num) (by norm_num)
    have hlinear : ∀ power unit past : ℚ, power ≤ unit * 2 → unit * 2 * 2 ≤ past → 0 < unit → power < past - unit :=
      fun power unit past hpower hpast hpos => by linarith
    rw [pow_succ] at hle
    exact hlinear _ _ _ hle hlarge (by positivity)
  refine ⟨by rwa [abs_of_nonneg (by positivity)], representable_two_pow hk, fun other _ => ?_⟩
  rw [sub_self, abs_zero]
  exact abs_nonneg _

/-- **A number is rounded to nothing below a representable number that it is not below.** -/
theorem Rounds.le_finite {bound : ℚ} (h : Rounds number (finite value)) (hbound : Representable bound)
    (hle : bound ≤ number) : bound ≤ value := by
  by_contra hlt
  rw [not_le] at hlt
  have hnearer := h.2.2 bound hbound
  rw [abs_of_nonneg (by linarith), abs_of_nonneg (by linarith)] at hnearer
  linarith

end Binary64
