import Pilot.Lib.Rounding
import Mathlib.Algebra.Ring.Int.Parity
import Mathlib.Data.Int.Log
import Mathlib.Tactic.Positivity

/-!
# Rounding to significant digits

The quotient of two decimals is rounded to a number of significant digits, half to even. What a
number has beyond an integer may be lost then, and with it one step of its ceiling.
-/

namespace Pilot

/-- What the last of the significant digits of a number counts. -/
def unitOf (digits : ℕ) (x : ℚ) : ℚ := 10 ^ (Int.log 10 |x| + 1 - digits)

/-- The nearest number with so many significant digits, ties to the even last digit. -/
def roundDigits (digits : ℕ) (x : ℚ) : ℚ :=
  roundHalfEven (x / unitOf digits x) * unitOf digits x

/-- What a number has beyond the integer below its ceiling survives the rounding: it is more than
half of the last digit, or half of it above an odd integer. Where the last digit counts more than
one, the ceiling has so many significant digits. -/
def KeepsCeil (digits : ℕ) (x : ℚ) : Prop :=
  if unitOf digits x ≤ 1 then
    unitOf digits x < 2 * (x - (⌈x⌉ - 1)) ∨
      (unitOf digits x = 1 ∧ 2 * (x - (⌈x⌉ - 1)) = 1 ∧ Odd (⌈x⌉ - 1))
  else ∃ k : ℤ, (⌈x⌉ : ℚ) = k * unitOf digits x

/-! ### Rounding to an integer -/

/-- A unit of more than one is at least ten, and an integer. -/
theorem unitOf_of_one_lt {digits : ℕ} {x : ℚ} (h : 1 < unitOf digits x) :
    ∃ u : ℤ, unitOf digits x = u ∧ 10 ≤ unitOf digits x := by
  unfold unitOf at h ⊢
  have hexp : 0 < Int.log 10 |x| + 1 - digits := by
    by_contra hneg
    exact absurd h (not_lt.mpr (zpow_le_one_of_nonpos₀ (by norm_num) (not_lt.mp hneg)))
  obtain ⟨j, hj⟩ := Int.eq_succ_of_zero_lt hexp
  have hpow : (10 : ℚ) ^ (Int.log 10 |x| + 1 - digits) = 10 ^ (j + 1) := by
    rw [hj, ← zpow_natCast]
    rfl
  refine ⟨10 ^ (j + 1), by rw [hpow]; norm_cast, ?_⟩
  rw [hpow]
  exact le_self_pow₀ (by norm_num) (Nat.succ_ne_zero j)

/-- The ceiling of a positive number is kept where what the number has beyond the integer below is
more than its last digit can count. -/
theorem keepsCeil_of_lt {digits : ℕ} (hdigits : 1 ≤ digits) {x : ℚ} (hx : 0 < x)
    (hlast : x < 2 * (x - (⌈x⌉ - 1)) * 10 ^ (digits - 1)) : KeepsCeil digits x := by
  have hscale : unitOf digits x * 10 ^ (digits - 1) ≤ x := by
    have hlog := Int.zpow_log_le_self (b := 10) (by norm_num) hx
    have hexp : Int.log 10 |x| + 1 - digits + ((digits - 1 : ℕ) : ℤ) = Int.log 10 x := by
      rw [abs_of_pos hx]
      omega
    unfold unitOf
    rw [← zpow_natCast, ← zpow_add₀ (by norm_num), hexp]
    exact_mod_cast hlog
  have hunit : unitOf digits x < 2 * (x - (⌈x⌉ - 1)) :=
    lt_of_mul_lt_mul_right (hscale.trans_lt hlast) (by positivity)
  have hone : unitOf digits x ≤ 1 := by
    by_contra hlarge
    obtain ⟨-, -, hten⟩ := unitOf_of_one_lt (not_le.mp hlarge)
    linarith [Int.le_ceil x]
  rw [KeepsCeil, if_pos hone]
  exact Or.inl hunit

end Pilot
