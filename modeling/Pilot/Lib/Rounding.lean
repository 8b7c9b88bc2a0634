import Mathlib.Data.Rat.Floor
import Mathlib.Algebra.Order.Floor.Ring
import Mathlib.Tactic.Linarith
import Mathlib.Tactic.NormNum
import Mathlib.Tactic.FieldSimp
import Mathlib.Tactic.Ring

/-!
# Exact decimal rounding

Decimal arithmetic is exact arithmetic on rational numbers together with four
ways of returning to a grid: to the nearest point with ties to the even one, up,
down to an integer, and toward zero.
-/

namespace Pilot

/-- The nearest integer, ties to the even one. -/
def roundHalfEven (x : ℚ) : ℤ :=
  let f := ⌊x⌋
  if x - f < 1 / 2 then f
  else if 1 / 2 < x - f then f + 1
  else if f % 2 = 0 then f else f + 1

/-- The nearest multiple of `1 / scale`, ties to the even multiple. -/
def quantize (scale : ℕ) (x : ℚ) : ℚ := roundHalfEven (x * scale) / scale

/-- Truncation toward zero. -/
def truncInt (x : ℚ) : ℤ := if 0 ≤ x then ⌊x⌋ else ⌈x⌉

/-- The rational `x` is a multiple of `1 / scale`. -/
def OnGrid (scale : ℕ) (x : ℚ) : Prop := ∃ k : ℤ, x = k / scale

/-- A whole number is its own rounding. -/
@[simp] theorem roundHalfEven_intCast (k : ℤ) : roundHalfEven k = k := by
  simp [roundHalfEven]

/-- Rounding moves a number by at most one half. -/
theorem abs_roundHalfEven_sub_le (x : ℚ) : |(roundHalfEven x : ℚ) - x| ≤ 1 / 2 := by
  have hlow : (⌊x⌋ : ℚ) ≤ x := Int.floor_le x
  have hhigh : x < ⌊x⌋ + 1 := Int.lt_floor_add_one x
  unfold roundHalfEven
  dsimp only
  rw [abs_le]
  split_ifs <;> push_cast <;> constructor <;> linarith

/-- A quantized value is on the grid. -/
theorem onGrid_quantize (scale : ℕ) (x : ℚ) : OnGrid scale (quantize scale x) :=
  ⟨roundHalfEven (x * scale), rfl⟩

/-- A number already on the grid is left alone. -/
theorem quantize_of_onGrid {scale : ℕ} (hscale : scale ≠ 0) {x : ℚ} (hx : OnGrid scale x) :
    quantize scale x = x := by
  obtain ⟨k, rfl⟩ := hx
  have hne : (scale : ℚ) ≠ 0 := by exact_mod_cast hscale
  unfold quantize
  rw [div_mul_cancel₀ _ hne, roundHalfEven_intCast]

/-- Returning to the grid moves a number by at most half a step. -/
theorem abs_quantize_sub_le {scale : ℕ} (hscale : 0 < scale) (x : ℚ) :
    |quantize scale x - x| ≤ 1 / 2 / scale := by
  have hpos : (0 : ℚ) < scale := by exact_mod_cast hscale
  have hscaled : quantize scale x - x = (roundHalfEven (x * scale) - x * scale) / scale := by
    unfold quantize
    field_simp
  rw [hscaled, abs_div, abs_of_pos hpos]
  exact div_le_div_of_nonneg_right (abs_roundHalfEven_sub_le _) hpos.le

/-- Being on a grid is decided by returning to it. -/
instance OnGrid.decidable {scale : ℕ} [NeZero scale] (x : ℚ) : Decidable (OnGrid scale x) :=
  decidable_of_iff (quantize scale x = x)
    ⟨fun h => h ▸ onGrid_quantize scale x, quantize_of_onGrid (NeZero.ne scale)⟩

/-- The grid is closed under sums. -/
theorem OnGrid.add {scale : ℕ} {x y : ℚ} (hx : OnGrid scale x) (hy : OnGrid scale y) :
    OnGrid scale (x + y) := by
  obtain ⟨k, rfl⟩ := hx
  obtain ⟨l, rfl⟩ := hy
  exact ⟨k + l, by push_cast; ring⟩

/-- The grid is closed under differences. -/
theorem OnGrid.sub {scale : ℕ} {x y : ℚ} (hx : OnGrid scale x) (hy : OnGrid scale y) :
    OnGrid scale (x - y) := by
  obtain ⟨k, rfl⟩ := hx
  obtain ⟨l, rfl⟩ := hy
  exact ⟨k - l, by push_cast; ring⟩

/-- The smaller of two values on the grid is on it. -/
theorem OnGrid.min {scale : ℕ} {x y : ℚ} (hx : OnGrid scale x) (hy : OnGrid scale y) :
    OnGrid scale (min x y) := by
  rcases min_choice x y with h | h <;> rw [h] <;> assumption

/-- The larger of two values on the grid is on it. -/
theorem OnGrid.max {scale : ℕ} {x y : ℚ} (hx : OnGrid scale x) (hy : OnGrid scale y) :
    OnGrid scale (max x y) := by
  rcases max_choice x y with h | h <;> rw [h] <;> assumption

/-- Zero is on every grid. -/
theorem onGrid_zero (scale : ℕ) : OnGrid scale 0 := ⟨0, by simp⟩

/-- A sum of values on the grid is on it. -/
theorem onGrid_sum {scale : ℕ} {l : List ℚ} (h : ∀ x ∈ l, OnGrid scale x) :
    OnGrid scale l.sum := by
  induction l with
  | nil => exact onGrid_zero scale
  | cons x l ih =>
    rw [List.sum_cons]
    exact (h x (by simp)).add (ih fun y hy => h y (by simp [hy]))

/-- A whole number is on every grid. -/
theorem onGrid_intCast {scale : ℕ} (hscale : scale ≠ 0) (k : ℤ) : OnGrid scale k := by
  have hne : (scale : ℚ) ≠ 0 := by exact_mod_cast hscale
  exact ⟨k * scale, by push_cast; field_simp⟩

/-- A natural number is on every grid. -/
theorem onGrid_natCast {scale : ℕ} (hscale : scale ≠ 0) (k : ℕ) : OnGrid scale k := by
  simpa using onGrid_intCast hscale k

/-- A whole number is its own truncation. -/
@[simp] theorem truncInt_intCast (k : ℤ) : truncInt k = k := by
  unfold truncInt
  split <;> simp

/-- Truncation never raises a value that is not negative. -/
theorem truncInt_le {x : ℚ} (hx : 0 ≤ x) : (truncInt x : ℚ) ≤ x := by
  unfold truncInt
  rw [if_pos hx]
  exact Int.floor_le x

end Pilot
