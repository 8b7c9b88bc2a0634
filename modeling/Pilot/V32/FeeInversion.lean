import Pilot.V32.Feed
import Pilot.V33.LadderShape

/-!
# Inverting the fee

The wanted price of a rest is found by walking down from the smaller of the rounded budget
and the cap until the fee-inclusive cost fits. The walk ends at the greatest affordable price.
-/

namespace Pilot

/-- A whole-cent price under the cap whose cost, fee included, is within the budget. -/
def Affordable (budget cap n : ℚ) : Prop :=
  OnGrid 100 n ∧ cent ≤ n ∧ n ≤ cap ∧ n + fee n ≤ budget

theorem Affordable.mono {budget budget' cap cap' n : ℚ} (h : Affordable budget cap n)
    (hbudget : budget ≤ budget') (hcap : cap ≤ cap') : Affordable budget' cap' n := by
  obtain ⟨hgrid, hcent, hle, hcost⟩ := h
  exact ⟨hgrid, hcent, hle.trans hcap, hcost.trans hbudget⟩

/-- The fee of a price in the unit interval is never a rebate. -/
theorem fee_nonneg {n : ℚ} (hlow : 0 ≤ n) (hhigh : n ≤ 1) : 0 ≤ fee n := by
  have hrest : 0 ≤ 1 - n := by linarith
  have hraw : 0 ≤ (7 / 100 : ℚ) * n * (1 - n) * 10000 := by positivity
  have hceil : (0 : ℚ) ≤ ⌈(7 / 100 : ℚ) * n * (1 - n) * 10000⌉ := by
    exact_mod_cast Int.ceil_nonneg hraw
  unfold fee
  positivity

namespace V33

/-! ### The walk -/

/-- One more cent of room adds one price. -/
theorem affordable_succ_iff {budget n : ℚ} (k : ℕ) :
    Affordable budget ((k + 1 : ℕ) / 100) n ↔
      Affordable budget ((k : ℕ) / 100) n ∨
        n = (k + 1 : ℕ) / 100 ∧ n + fee n ≤ budget := by
  constructor
  · rintro ⟨⟨j, rfl⟩, hcent, hle, hcost⟩
    have hj : j ≤ k + 1 := by
      have : (j : ℚ) ≤ (k + 1 : ℕ) := (div_le_div_iff_of_pos_right (by norm_num)).mp hle
      exact_mod_cast this
    rcases hj.lt_or_eq with hlt | rfl
    · left
      refine ⟨⟨j, rfl⟩, hcent, ?_, hcost⟩
      have : (j : ℚ) ≤ k := by exact_mod_cast Int.lt_add_one_iff.mp hlt
      exact div_le_div_of_nonneg_right this (by norm_num)
    · right
      exact ⟨by push_cast; rfl, hcost⟩
  · rintro (h | ⟨rfl, hcost⟩)
    · refine h.mono le_rfl ?_
      push_cast
      linarith
    · refine ⟨⟨(k + 1 : ℕ), by push_cast; rfl⟩, ?_, le_rfl, hcost⟩
      have : (0 : ℚ) ≤ k := k.cast_nonneg
      rw [cent]
      push_cast
      linarith

theorem not_affordable_zero {budget n : ℚ} : ¬Affordable budget ((0 : ℕ) / 100) n := by
  rintro ⟨-, hcent, hle, -⟩
  rw [cent] at hcent
  norm_num at hle
  linarith

/-- The walk from `k` cents finds the greatest affordable price of at most `k` cents. -/
theorem solveFrom_isGreatest {budget n : ℚ} (k : ℕ) (h : solveFrom budget k = some n) :
    IsGreatest {x | Affordable budget ((k : ℕ) / 100) x} n := by
  induction k with
  | zero => simp [solveFrom] at h
  | succ k ih =>
    unfold solveFrom at h
    dsimp only at h
    split_ifs at h with hcost
    · obtain ⟨hmem, hupper⟩ := ih h
      refine ⟨(affordable_succ_iff k).mpr (Or.inl hmem), ?_⟩
      intro x hx
      rcases (affordable_succ_iff k).mp hx with hx | ⟨rfl, hle⟩
      · exact hupper hx
      · exact absurd hle (not_le.mpr hcost)
    · obtain rfl := Option.some.inj h
      refine ⟨(affordable_succ_iff k).mpr (Or.inr ⟨rfl, not_lt.mp hcost⟩), ?_⟩
      intro x hx
      obtain ⟨-, -, hle, -⟩ := hx
      exact hle

/-- A walk that finds nothing passed over every price. -/
theorem solveFrom_none {budget : ℚ} (k : ℕ) (h : solveFrom budget k = none) (n : ℚ) :
    ¬Affordable budget ((k : ℕ) / 100) n := by
  induction k with
  | zero => exact not_affordable_zero
  | succ k ih =>
    unfold solveFrom at h
    dsimp only at h
    split_ifs at h with hcost
    intro hn
    rcases (affordable_succ_iff k).mp hn with hn | ⟨rfl, hle⟩
    · exact ih h hn
    · exact absurd hle (not_le.mpr hcost)

/-! ### The start of the walk -/

/-- The cents the walk starts from. -/
def startCents (budget cap : ℚ) : ℕ := (min ⌈budget * 100⌉ ⌈cap * 100⌉).toNat

/-- No affordable price lies above the start of the walk. A price never costs less than
itself, so rounding the budget up loses nothing. -/
theorem affordable_startCents {budget cap : ℚ} (hgrid : OnGrid 100 cap) (hcap : cap ≤ 1) (n : ℚ) :
    Affordable budget cap n ↔ Affordable budget ((startCents budget cap : ℕ) / 100) n := by
  obtain ⟨c, rfl⟩ := hgrid
  have hc : ⌈((c : ℚ) / ((100 : ℕ) : ℚ)) * 100⌉ = c := by
    rw [Nat.cast_ofNat, div_mul_cancel₀ _ (by norm_num), Int.ceil_intCast]
  constructor
  · rintro ⟨⟨j, rfl⟩, hcent, hle, hcost⟩
    refine ⟨⟨j, rfl⟩, hcent, ?_, hcost⟩
    have hpos : (0 : ℚ) ≤ (j : ℚ) / ((100 : ℕ) : ℚ) := by
      rw [cent] at hcent
      linarith
    have hfee := fee_nonneg hpos (hle.trans hcap)
    have hjb : (j : ℚ) ≤ budget * 100 := by
      push_cast at hcost hfee
      linarith
    have hjc : j ≤ c := by
      have : (j : ℚ) ≤ c := (div_le_div_iff_of_pos_right (by norm_num)).mp hle
      exact_mod_cast this
    have hmin : j ≤ (startCents budget (c / ((100 : ℕ) : ℚ)) : ℕ) := by
      unfold startCents
      rw [hc]
      have hceil : j ≤ ⌈budget * 100⌉ := by
        have := hjb.trans (Int.le_ceil (budget * 100))
        exact_mod_cast this
      omega
    have : (j : ℚ) ≤ (startCents budget (c / ((100 : ℕ) : ℚ)) : ℕ) := by exact_mod_cast hmin
    exact div_le_div_of_nonneg_right this (by norm_num)
  · rintro ⟨hgrid, hcent, hle, hcost⟩
    refine ⟨hgrid, hcent, hle.trans ?_, hcost⟩
    have hpos : 0 < startCents budget (c / ((100 : ℕ) : ℚ)) := by
      by_contra hzero
      obtain hzero : startCents budget (c / ((100 : ℕ) : ℚ)) = 0 := by omega
      rw [hzero] at hle
      exact not_affordable_zero ⟨hgrid, hcent, hle, hcost⟩
    have hstart : (startCents budget (c / ((100 : ℕ) : ℚ)) : ℤ) ≤ c := by
      unfold startCents at hpos ⊢
      rw [hc] at hpos ⊢
      omega
    have : ((startCents budget (c / ((100 : ℕ) : ℚ)) : ℕ) : ℚ) ≤ c := by exact_mod_cast hstart
    exact div_le_div_of_nonneg_right this (by norm_num)

/-- Below one cent, of budget or of cap, nothing is affordable. -/
theorem not_affordable_of_lt {budget cap n : ℚ} (hcap : cap ≤ 1)
    (h : budget < cent ∨ cap < cent) : ¬Affordable budget cap n := by
  rintro ⟨-, hcent, hle, hcost⟩
  have hfee : 0 ≤ fee n := by
    apply fee_nonneg
    · rw [cent] at hcent
      linarith
    · exact hle.trans hcap
  rcases h with h | h <;> linarith

/-- The solution of a budget and a cap is the greatest affordable price. -/
theorem solveN_isGreatest {budget cap n : ℚ} (hgrid : OnGrid 100 cap) (hcap : cap ≤ 1)
    (h : solveN (some budget) (some cap) = some n) :
    IsGreatest {x | Affordable budget cap x} n := by
  unfold solveN at h
  dsimp only at h
  split_ifs at h
  have hset : {x | Affordable budget cap x} =
      {x | Affordable budget ((startCents budget cap : ℕ) / 100) x} :=
    Set.ext fun x => affordable_startCents hgrid hcap x
  rw [hset]
  exact solveFrom_isGreatest _ h

/-- Without a solution no price is affordable. -/
theorem solveN_none {budget cap : ℚ} (hgrid : OnGrid 100 cap) (hcap : cap ≤ 1)
    (h : solveN (some budget) (some cap) = none) (n : ℚ) : ¬Affordable budget cap n := by
  unfold solveN at h
  dsimp only at h
  split_ifs at h with hlow
  · exact not_affordable_of_lt hcap hlow
  · rw [affordable_startCents hgrid hcap]
    exact solveFrom_none _ h n

/-- A greater budget and a greater cap give a price at least as great. -/
theorem solveN_mono {budget budget' cap cap' n : ℚ} (hgrid : OnGrid 100 cap)
    (hgrid' : OnGrid 100 cap') (hcap' : cap' ≤ 1) (hbudget : budget ≤ budget')
    (hcap : cap ≤ cap') (h : solveN (some budget) (some cap) = some n) :
    ∃ n', solveN (some budget') (some cap') = some n' ∧ n ≤ n' := by
  have hn := (solveN_isGreatest hgrid (hcap.trans hcap') h).1
  have hn' := hn.mono hbudget hcap
  cases hsolve : solveN (some budget') (some cap') with
  | none => exact absurd hn' (solveN_none hgrid' hcap' hsolve n)
  | some n' => exact ⟨n', rfl, (solveN_isGreatest hgrid' hcap' hsolve).2 hn'⟩

end V33

namespace V32

open V33 (solveN validTwoSided)

/-! ### The cap of a bucket -/

/-- The cap is a whole-cent price of at most a dollar, under the complement of the YES bid
even where rounding moved it up. -/
theorem bucketCap_spec {st : V32State} {sd : ℤ} {cap : ℚ} (h : bucketCap st sd = some cap) :
    OnGrid 100 cap ∧ cap ≤ 1 ∧
      ∃ top bid, st.bucketTops.get? sd = some top ∧ top.yesBid = some bid ∧ cap < 1 - bid := by
  obtain ⟨q, hq, rfl⟩ := Option.map_eq_some_iff.mp h
  obtain ⟨top, htop, hvalid⟩ := Option.bind_eq_some_iff.mp hq
  have hbid : top.yesBid = some q.1 ∧ 0 ≤ q.1 := by
    unfold validTwoSided at hvalid
    grind
  have hround := abs_le.mp (@abs_quantize_sub_le 100 (by norm_num) (1 - q.1 - cent))
  rw [cent] at hround ⊢
  push_cast at hround
  refine ⟨onGrid_quantize 100 _, ?_, top, q.1, htop, hbid.1, ?_⟩
  · linarith [hbid.2]
  · linarith

/-- The bucket's NO ask, the complement of its YES bid, is above the price. -/
def UnderNoAsk (st : V32State) (sd : ℤ) (n : ℚ) : Prop :=
  ∃ top bid, st.bucketTops.get? sd = some top ∧ top.yesBid = some bid ∧ n < 1 - bid ∧
    ∀ b, top = topOfBook b → ∃ ask, top.noAsk = some ask ∧ n < ask

/-- A price of at most the cap is under the NO ask the mirror shows. -/
theorem underNoAsk_of_le {st : V32State} {sd : ℤ} {cap n : ℚ} (hcap : bucketCap st sd = some cap)
    (hn : n ≤ cap) : UnderNoAsk st sd n := by
  obtain ⟨-, -, top, bid, htop, hbid, hlt⟩ := bucketCap_spec hcap
  refine ⟨top, bid, htop, hbid, hn.trans_lt hlt, ?_⟩
  rintro b rfl
  have hbest : bestBid b.yesBids = some bid := hbid
  refine ⟨1 - bid, ?_, hn.trans_lt hlt⟩
  change (bestBid b.yesBids).map (fun y => 1 - y) = some (1 - bid)
  rw [hbest, Option.map_some]

/-- The fee inversion is optimal under every whole-cent cap of at most a dollar, the only caps
a bucket gives: it returns the greatest affordable price, nothing only where there is none, more
for more budget or cap, and under a bucket's cap a price under its NO ask. -/
theorem feeInversion_optimal {budget cap : ℚ} (hgrid : OnGrid 100 cap) (hcap : cap ≤ 1) :
    (∀ n, solveN (some budget) (some cap) = some n ↔
      IsGreatest {x | Affordable budget cap x} n) ∧
    (solveN (some budget) (some cap) = none ↔ ¬∃ n, Affordable budget cap n) ∧
    (∀ budget' cap' n, OnGrid 100 cap' → cap' ≤ 1 → budget ≤ budget' → cap ≤ cap' →
      solveN (some budget) (some cap) = some n →
      ∃ n', solveN (some budget') (some cap') = some n' ∧ n ≤ n') ∧
    (∀ st sd c, bucketCap st sd = some c → OnGrid 100 c ∧ c ≤ 1) ∧
    ∀ st sd n, bucketCap st sd = some cap → solveN (some budget) (some cap) = some n →
      UnderNoAsk st sd n := by
  refine ⟨?_, ?_, ?_, ?_, ?_⟩
  · intro n
    refine ⟨V33.solveN_isGreatest hgrid hcap, ?_⟩
    intro hn
    cases hsolve : solveN (some budget) (some cap) with
    | none => exact absurd hn.1 (V33.solveN_none hgrid hcap hsolve n)
    | some m => rw [(V33.solveN_isGreatest hgrid hcap hsolve).unique hn]
  · constructor
    · rintro hsolve ⟨n, hn⟩
      exact V33.solveN_none hgrid hcap hsolve n hn
    · intro hnone
      cases hsolve : solveN (some budget) (some cap) with
      | none => rfl
      | some n => exact absurd ⟨n, (V33.solveN_isGreatest hgrid hcap hsolve).1⟩ hnone
  · intro budget' cap' n hgrid' hcap' hbudget hle hsolve
    exact V33.solveN_mono hgrid hgrid' hcap' hbudget hle hsolve
  · intro st sd c hc
    exact ⟨(bucketCap_spec hc).1, (bucketCap_spec hc).2.1⟩
  · intro st sd n hc hsolve
    exact underNoAsk_of_le hc (V33.solveN_isGreatest hgrid hcap hsolve).1.2.2.1

/-- With 47.5 cents to spend under a cap of 46 cents the price is 45 cents: one cent more would
cost 47.74 cents. -/
theorem feeInversion_sample :
    (∀ n, solveN (some (475 / 1000)) (some (46 / 100)) = some n ↔
      IsGreatest {x | Affordable (475 / 1000) (46 / 100) x} n) ∧
    solveN (some (475 / 1000)) (some (46 / 100)) = some (45 / 100) := by
  refine ⟨(feeInversion_optimal ⟨46, by norm_num⟩ (by norm_num)).1, ?_⟩
  decide +kernel

end V32

end Pilot
