import Mathlib.Algebra.BigOperators.Ring.List
import Mathlib.Algebra.Order.BigOperators.Group.List
import Mathlib.Tactic.Linarith
import Pilot.V1.Ledger

/-!
# The books of a window

The row written at the close of a window and the row written once its legs are settled. For
the sources without floor and for the box the two rows add up to the true cash result; for
the sub-dollar flip the matched pairs stay at their floor.
-/

namespace Pilot.V1

/-- What the row of a window books. -/
structure WindowEntry where
  realizedDelta : ℚ
  realizedUnsettled : Bool
  unsettledLegs : List (String × Side × ℤ)
  /-- The floor booked for the matched pairs; a corridor row has no such field. -/
  floorBooked : Option ℚ
  deriving DecidableEq

/-- The row of a corridor window. -/
def buildLedgerEntry (ls : LedgerState) : WindowEntry :=
  if ls.hasAnyFill then
    ⟨ls.realizedAtClose, !ls.unsettledLegs.isEmpty, ls.unsettledLegs, none⟩
  else ⟨0, false, [], none⟩

/-- The row of a box window. -/
def buildBoxLedgerEntry (ls : LedgerState) : WindowEntry :=
  if ls.hasAnyFill then
    ⟨ls.realizedAtClose, !ls.unsettledLegs.isEmpty, ls.unsettledLegs, some (ls.matchedPairs * 1)⟩
  else ⟨0, false, [], some 0⟩

/-- The strategy of a window. -/
inductive Strategy where
  | corridor
  | box
  deriving DecidableEq

/-- The strategy that fires a source. -/
def Source.strategy : Source → Strategy
  | .subDollarFlip | .q1Strangle => .corridor
  | .wideBox => .box

/-- The row written at the close of a window. -/
def finalizeEntry (strategy : Strategy) (ls : LedgerState) : WindowEntry :=
  match strategy with
  | .box => buildBoxLedgerEntry ls
  | .corridor => buildLedgerEntry ls

/-- What one leg pays under the results; a result that is missing or no side raises. -/
def legPayoff (results : String → Option Side) (leg : String × Side × ℤ) : Option ℚ :=
  (results leg.1).map fun res => if res = leg.2.1 then (leg.2.2 : ℚ) * minPairPayout else 0

/-- What the legs pay under the results. -/
def settlementPayoff (legs : List (String × Side × ℤ)) (results : String → Option Side) :
    Option ℚ :=
  (legs.mapM (legPayoff results)).map List.sum

/-- What the row of a settlement books. -/
structure BackfillEntry where
  realizedDelta : ℚ
  settlementPayoff : ℚ
  floorNetted : ℚ

/-- The row of a settlement: the payoff, less the floor that is already booked. -/
def buildBackfillEntry (entry : WindowEntry) (payoff : ℚ) : BackfillEntry :=
  ⟨payoff - entry.floorBooked.getD 0, payoff, entry.floorBooked.getD 0⟩

/-- The row the backfill appends: none for a window without unsettled legs. -/
def backfill (entry : WindowEntry) (results : String → Option Side) : Option BackfillEntry :=
  if entry.unsettledLegs = [] then none
  else (settlementPayoff entry.unsettledLegs results).map (buildBackfillEntry entry)

/-- What the two rows of a window book together. -/
def booked (ls : LedgerState) (results : String → Side) : ℚ :=
  (finalizeEntry ls.source.strategy ls).realizedDelta +
    ((backfill (finalizeEntry ls.source.strategy ls) fun t => some (results t)).map
      BackfillEntry.realizedDelta).getD 0

/-! ### The true result -/

/-- What a held lot pays. -/
def payoutOf (results : String → Side) (key : String × Side) : ℚ :=
  if results key.1 = key.2 then minPairPayout else 0

/-- The cash of the fills and the payoff of every lot still held. -/
def trueCash (fills : List Fill) (results : String → Side) : ℚ :=
  (fills.map Fill.cash).sum + (fills.map fun f => f.lots * payoutOf results f.key).sum

/-- What a lot of a leg pays. -/
def legPayout (s : LedgerState) (results : String → Side) (which : Which) : ℚ :=
  (s.legKey which).elim 0 (payoutOf results)

/-- What the matched pairs of a flip pay above their floor. -/
def aboveFloor (s : LedgerState) (results : String → Side) : ℚ :=
  if s.source = .subDollarFlip then
    s.matchedPairs * (legPayout s results .high + legPayout s results .low - minPairPayout)
  else 0

/-- The history of a window, from an empty ledger on two markets. -/
structure History where
  window : String
  source : Source
  highTicker : String
  lowTicker : String
  distinct : highTicker ≠ lowTicker
  events : List LedgerEvent

namespace History

variable (h : History)

/-- The ledger at the start. -/
def start : LedgerState := newLedger h.window h.source h.highTicker h.lowTicker

/-- The ledger at the close. -/
def close : LedgerState := h.events.foldl record h.start

/-- The fills recorded. -/
def fills : List Fill := fillsOf h.start h.events

/-- Every fill is one of the two legs. -/
def OnTheLegs : Prop := ∀ f ∈ h.fills, ∃ which, h.close.legKey which = some f.key

/-- No leg is sold short. -/
def NetNonneg : Prop := ∀ which, 0 ≤ h.close.net which

/-- The lots that wait for settlement are whole. -/
def WholePending : Prop := ∀ which, ∃ n : ℤ, h.close.heldPending which = n

end History

/-! ### What is booked -/

section Pending

variable {s : LedgerState}

/-- What is pending is between nothing and the net. -/
theorem heldPending_bounds (hnet : ∀ which, 0 ≤ s.net which) (which : Which) :
    0 ≤ s.heldPending which ∧ s.heldPending which ≤ s.net which := by
  have hmatched : 0 ≤ s.matchedPairs := le_min (hnet .high) (hnet .low)
  unfold LedgerState.heldPending
  split_ifs
  · constructor
    · exact sub_nonneg.mpr (min_le_left _ _)
    · have hmin : 0 ≤ min (s.net which) s.matchedPairs := le_min (hnet which) hmatched
      exact sub_le_self _ hmin
  · exact ⟨hnet which, le_rfl⟩

/-- A leg is pending with its held lots, and otherwise none of its lots is pending. -/
theorem pendingLeg_cases (hkeyed : Keyed s) (hnet : ∀ which, 0 ≤ s.net which) (which : Which) :
    (s.pendingLeg which = none ∧ s.heldPending which = 0) ∨
      ∃ key, s.legKey which = some key ∧
        s.pendingLeg which = some (key.1, key.2, truncInt (s.heldPending which)) := by
  obtain ⟨hpos, hle⟩ := heldPending_bounds hnet which
  unfold LedgerState.pendingLeg
  cases hposition : s.position which with
  | none =>
    refine Or.inl ⟨rfl, le_antisymm (hle.trans ?_) hpos⟩
    unfold LedgerState.net
    rw [hposition]
    rfl
  | some pos =>
    have hnetpos : s.net which = pos.net := by
      unfold LedgerState.net
      rw [hposition]
      rfl
    rw [Option.bind_some]
    by_cases hnone : pos.net ≤ 0
    · rw [if_pos hnone]
      exact Or.inl ⟨rfl, le_antisymm (hle.trans (hnetpos.trans_le hnone)) hpos⟩
    · rw [if_neg hnone]
      by_cases hheld : 0 < s.heldPending which
      · rw [if_pos hheld]
        obtain ⟨key, hkey, hget⟩ := Option.bind_eq_some_iff.mp hposition
        have hname := hkeyed key pos hget
        refine Or.inr ⟨key, hkey, ?_⟩
        rw [← hname]
      · rw [if_neg hheld]
        exact Or.inl ⟨rfl, le_antisymm (not_lt.mp hheld) hpos⟩

/-- A pending leg with whole lots pays what its held lots pay. -/
theorem payoff_pendingLeg (hkeyed : Keyed s) (hnet : ∀ which, 0 ≤ s.net which)
    (hwhole : ∀ which, ∃ n : ℤ, s.heldPending which = n) (results : String → Side)
    (which : Which) :
    ((s.pendingLeg which).toList.mapM (legPayoff fun t => some (results t))).map List.sum =
      some (s.heldPending which * legPayout s results which) := by
  rcases pendingLeg_cases hkeyed hnet which with ⟨hnone, hzero⟩ | ⟨key, hkey, hsome⟩
  · rw [hnone, hzero]
    simp
  · rw [hsome]
    obtain ⟨n, hn⟩ := hwhole which
    unfold legPayout payoutOf
    rw [hkey, hn, truncInt_intCast]
    simp [legPayoff]

/-- Two holdings pay what each pays. -/
theorem settlementPayoff_append (xs ys : List (String × Side × ℤ)) (results : String → Option Side)
    {x y : ℚ} (hx : settlementPayoff xs results = some x)
      (hy : settlementPayoff ys results = some y) :
    settlementPayoff (xs ++ ys) results = some (x + y) := by
  obtain ⟨ps, hps, rfl⟩ := Option.map_eq_some_iff.mp hx
  obtain ⟨qs, hqs, rfl⟩ := Option.map_eq_some_iff.mp hy
  unfold settlementPayoff
  rw [List.mapM_append, hps]
  simp [hqs]

/-- The unsettled legs are the pending ones of both legs. -/
theorem unsettledLegs_eq (s : LedgerState) :
    s.unsettledLegs = (s.pendingLeg .high).toList ++ (s.pendingLeg .low).toList := by
  unfold LedgerState.unsettledLegs
  cases hhigh : s.pendingLeg .high <;> cases hlow : s.pendingLeg .low <;> simp [hhigh, hlow]

/-- The payoff of the unsettled legs is that of the lots pending on both legs. -/
theorem settlementPayoff_unsettledLegs (hkeyed : Keyed s) (hnet : ∀ which, 0 ≤ s.net which)
    (hwhole : ∀ which, ∃ n : ℤ, s.heldPending which = n) (results : String → Side) :
    settlementPayoff s.unsettledLegs (fun t => some (results t)) =
      some (s.heldPending .high * legPayout s results .high +
        s.heldPending .low * legPayout s results .low) := by
  rw [unsettledLegs_eq]
  apply settlementPayoff_append
  · exact payoff_pendingLeg hkeyed hnet hwhole results .high
  · exact payoff_pendingLeg hkeyed hnet hwhole results .low

/-- With no unsettled leg nothing is pending. -/
theorem heldPending_of_unsettledLegs_nil (hkeyed : Keyed s) (hnet : ∀ which, 0 ≤ s.net which)
    (hnil : s.unsettledLegs = []) (which : Which) : s.heldPending which = 0 := by
  rw [unsettledLegs_eq, List.append_eq_nil_iff] at hnil
  have hnone : s.pendingLeg which = none := by
    cases which with
    | high => exact Option.toList_eq_nil_iff.mp hnil.1
    | low => exact Option.toList_eq_nil_iff.mp hnil.2
  rcases pendingLeg_cases hkeyed hnet which with ⟨-, hzero⟩ | ⟨key, -, hsome⟩
  · exact hzero
  · rw [hnone] at hsome
    cases hsome

end Pending

/-! ### What the fills bring -/

/-- A sum over fills of two positions is that of the one and that of the other. -/
theorem sum_of_two_keys (g : Fill → ℚ) {high low : Option (String × Side)}
    (hne : ∀ key, high = some key → low ≠ some key) {fills : List Fill}
    (hmem : ∀ f ∈ fills, high = some f.key ∨ low = some f.key) :
    (fills.map g).sum = high.elim 0 (sumAt g fills) + low.elim 0 (sumAt g fills) := by
  induction fills with
  | nil =>
    cases high <;> cases low <;> simp [sumAt]
  | cons f fills ih =>
    have hcons (o : Option (String × Side)) : o.elim 0 (sumAt g (f :: fills)) =
        (if o = some f.key then g f else 0) + o.elim 0 (sumAt g fills) := by
      cases o with
      | none => simp
      | some key =>
        by_cases hkey : f.key = key
        · simp [sumAt, hkey]
        · simp [sumAt, hkey, Ne.symm hkey]
    rw [List.map_cons, List.sum_cons, ih fun f' hf' => hmem f' (by simp [hf']), hcons, hcons]
    rcases hmem f (by simp) with hhigh | hlow
    · rw [if_pos hhigh, if_neg (hne _ hhigh)]
      ring
    · have hnot : high ≠ some f.key := fun hhigh => hne _ hhigh hlow
      rw [if_neg hnot, if_pos hlow]
      ring

/-- A history changes neither the markets nor the source. -/
theorem ticker_run (s : LedgerState) (es : List LedgerEvent) (which : Which) :
    (es.foldl record s).ticker which = s.ticker which ∧ (es.foldl record s).source = s.source := by
  induction es generalizing s with
  | nil => exact ⟨rfl, rfl⟩
  | cons e es ih =>
    rw [List.foldl_cons, (ih (record s e)).1, (ih (record s e)).2]
    cases e with
    | intent intent => cases which <;> exact ⟨rfl, rfl⟩
    | response resp =>
      unfold record recordResponse
      dsimp only
      cases fillOf s resp <;> cases which <;> exact ⟨rfl, rfl⟩

namespace History

variable {h : History}

/-- At the close the positions are under their keys. -/
theorem keyed_close (h : History) : Keyed h.close := by
  apply keyed_run
  intro key pos hpos
  simp [start, newLedger] at hpos

/-- The legs of a window have different keys. -/
theorem legKey_ne (h : History) (key : String × Side) (hhigh : h.close.legKey .high = some key) :
    h.close.legKey .low ≠ some key := by
  intro hlow
  obtain ⟨side, -, rfl⟩ := Option.map_eq_some_iff.mp hhigh
  obtain ⟨side', -, heq⟩ := Option.map_eq_some_iff.mp hlow
  have hticker := (Prod.mk.inj heq).1
  unfold close at hticker
  rw [(ticker_run _ _ _).1, (ticker_run _ _ _).1] at hticker
  exact h.distinct hticker.symm

/-- What the fills of one leg add up to. -/
def legSum (h : History) (g : Fill → ℚ) (which : Which) : ℚ :=
  (h.close.legKey which).elim 0 (sumAt g h.fills)

/-- A sum over the fills on the legs is the sum of both legs. -/
theorem sum_fills (hlegs : h.OnTheLegs) (g : Fill → ℚ) :
    (h.fills.map g).sum = h.legSum g .high + h.legSum g .low := by
  apply sum_of_two_keys g h.legKey_ne
  intro f hf
  obtain ⟨which, hwhich⟩ := hlegs f hf
  cases which with
  | high => exact Or.inl hwhich
  | low => exact Or.inr hwhich

/-- What the position of a leg shows is what the fills of the leg add up to. -/
theorem position_close {obs : LegPosition → ℚ} {g : Fill → ℚ}
    (hempty : ∀ ticker side, obs ⟨ticker, side, 0, 0, 0, 0, 0, 0⟩ = 0)
    (hadd : ∀ pos f, obs (pos.add f) = obs pos + g f) (h : History) (which : Which) :
    ((h.close.position which).map obs).getD 0 = h.legSum g which := by
  unfold legSum LedgerState.position
  cases hkey : h.close.legKey which with
  | none => rfl
  | some key =>
    have hrun := positionAt_run hadd h.start h.events key
    have hstart : positionAt h.start key = ⟨key.1, key.2, 0, 0, 0, 0, 0, 0⟩ := rfl
    rw [hstart, hempty, zero_add] at hrun
    rw [Option.elim_some, Option.bind_some]
    unfold fills
    rw [← hrun]
    unfold positionAt Dict.getD close
    cases (h.events.foldl record h.start).positions.get? key with
    | none => exact (hempty _ _).symm
    | some pos => rfl

/-- The net of a leg at the close is the sum of its lots. -/
theorem net_close (h : History) (which : Which) : h.close.net which = h.legSum Fill.lots which :=
  position_close (by simp [LegPosition.net]) LegPosition.net_add h which

/-- The realized cash at the close is that of the fills of both legs. -/
theorem realizedCashflow_close (h : History) :
    h.close.realizedCashflow = h.legSum Fill.cash .high + h.legSum Fill.cash .low := by
  have hempty : ∀ ticker side, -(LegPosition.mk ticker side 0 0 0 0 0 0).netCashOut = 0 := by
    simp [LegPosition.netCashOut, LegPosition.boughtCost, LegPosition.soldProceeds]
  have hleg (which : Which) : -((h.close.position which).map LegPosition.netCashOut).getD 0 =
      h.legSum Fill.cash which := by
    have hclose : ((h.close.position which).map fun pos => -pos.netCashOut).getD 0 =
        h.legSum Fill.cash which := position_close hempty LegPosition.netCashOut_add h which
    rw [← hclose]
    cases h.close.position which <;> simp
  unfold LedgerState.realizedCashflow LedgerState.pairNetCashOut
  rw [neg_add, hleg, hleg]

/-- The payout of the fills of a leg is that of its net. -/
theorem legSum_payout (h : History) (results : String → Side) (which : Which) :
    h.legSum (fun f => f.lots * payoutOf results f.key) which =
      h.close.net which * legPayout h.close results which := by
  rw [net_close]
  unfold legSum legPayout
  cases h.close.legKey which with
  | none => simp
  | some key =>
    rw [Option.elim_some, Option.elim_some, Option.elim_some]
    unfold sumAt
    rw [← List.sum_map_mul_right]
    congr 1
    apply List.map_congr_left
    intro f hf
    rw [of_decide_eq_true (List.mem_filter.mp hf).2]

/-- The true result is the cash flow of the ledger and the payoff of the lots it holds. -/
theorem trueCash_eq (hlegs : h.OnTheLegs) (results : String → Side) :
    trueCash h.fills results = h.close.realizedCashflow +
      (h.close.net .high * legPayout h.close results .high +
        h.close.net .low * legPayout h.close results .low) := by
  unfold trueCash
  rw [sum_fills hlegs, sum_fills hlegs, realizedCashflow_close, legSum_payout, legSum_payout]

/-- A window whose legs show no fill has none. -/
theorem fills_eq_nil (hnone : h.close.hasAnyFill = false) : h.fills = [] := by
  apply List.eq_nil_iff_forall_not_mem.mpr
  intro f hf
  have hrun := positionAt_run LegPosition.volume_add h.start h.events f.key
  have hsum : 0 < sumAt Fill.volume h.fills f.key := by
    apply List.sum_pos
    · intro x hx
      obtain ⟨f', hf', rfl⟩ := List.mem_map.mp hx
      exact volume_pos_of_mem (List.mem_filter.mp hf').1
    · have hmem : f ∈ h.fills.filter fun f' => f'.key = f.key := by simp [hf]
      intro hnil
      rw [List.map_eq_nil_iff.mp hnil] at hmem
      cases hmem
  have hvolume : 0 < (positionAt h.close f.key).volume := by
    unfold close
    rw [hrun]
    have hstart : (positionAt h.start f.key).volume = 0 := by
      show (0 : ℚ) + 0 = 0
      norm_num
    rw [hstart, zero_add]
    exact hsum
  have hall : ∀ pos ∈ h.close.positions.values, ¬(0 < pos.bought ∨ 0 < pos.sold) := by
    intro pos hpos hor
    have hany : h.close.hasAnyFill = true := by
      unfold LedgerState.hasAnyFill
      rw [List.any_eq_true]
      exact ⟨pos, hpos, by simpa using hor⟩
    rw [hnone] at hany
    cases hany
  unfold positionAt Dict.getD at hvolume
  cases hget : h.close.positions.get? f.key with
  | none =>
    rw [hget] at hvolume
    exact absurd hvolume (by norm_num [LegPosition.volume])
  | some pos =>
    rw [hget] at hvolume
    have hnot := hall pos (Dict.mem_values_of_get? hget)
    rw [not_or, not_lt, not_lt] at hnot
    unfold LegPosition.volume at hvolume
    simp only [Option.getD_some] at hvolume
    linarith

/-- A window without fills has neither lots nor cash. -/
theorem close_of_fills_nil (hnil : h.fills = []) (which : Which) : h.close.net which = 0 := by
  rw [net_close]
  unfold legSum
  rw [hnil]
  cases h.close.legKey which <;> simp [sumAt]

/-- The backfill of a window with pending legs books their payoff less the booked floor. -/
theorem backfill_realized (hnet : h.NetNonneg) (hwhole : h.WholePending) (results : String → Side)
    {entry : WindowEntry} (hentry : entry.unsettledLegs = h.close.unsettledLegs)
    (hfloor : entry.unsettledLegs = [] → entry.floorBooked.getD 0 = 0) :
    ((backfill entry fun t => some (results t)).map BackfillEntry.realizedDelta).getD 0 =
      h.close.heldPending .high * legPayout h.close results .high +
        h.close.heldPending .low * legPayout h.close results .low -
          entry.floorBooked.getD 0 := by
  unfold backfill
  by_cases hnil : entry.unsettledLegs = []
  · have hzero := heldPending_of_unsettledLegs_nil h.keyed_close hnet (hentry.symm.trans hnil)
    rw [if_pos hnil, hzero, hzero, hfloor hnil]
    simp
  · rw [if_neg hnil, hentry,
      settlementPayoff_unsettledLegs h.keyed_close hnet hwhole results]
    simp [buildBackfillEntry]

end History

/-- The two rows of a window book its true cash result, with the matched pairs of a flip at their
floor. -/
theorem window_books_conserve (h : History) (hlegs : h.OnTheLegs) (hnet : h.NetNonneg)
    (hwhole : h.WholePending) (results : String → Side) :
    booked h.close results = trueCash h.fills results - aboveFloor h.close results := by
  have hmatched : 0 ≤ h.close.matchedPairs := le_min (hnet .high) (hnet .low)
  rw [h.trueCash_eq hlegs]
  cases hany : h.close.hasAnyFill with
  | false =>
    have hzero := fun which => History.close_of_fills_nil (History.fills_eq_nil hany) which
    have hcash : h.close.realizedCashflow = 0 := by
      have htrue := h.trueCash_eq hlegs results
      rw [History.fills_eq_nil hany, hzero, hzero] at htrue
      simpa [trueCash] using htrue.symm
    have hpairs : h.close.matchedPairs = 0 := by simp [LedgerState.matchedPairs, hzero]
    have hbooked : booked h.close results = 0 := by
      unfold booked finalizeEntry buildBoxLedgerEntry buildLedgerEntry
      rw [hany]
      cases h.close.source.strategy <;> simp [backfill]
    rw [hbooked, hcash, hzero, hzero]
    simp [aboveFloor, hpairs]
  | true =>
    unfold booked
    cases hsource : h.close.source with
    | subDollarFlip =>
      have hentry : finalizeEntry Source.subDollarFlip.strategy h.close =
          ⟨h.close.realizedAtClose, !h.close.unsettledLegs.isEmpty,
            h.close.unsettledLegs, none⟩ := by
        simp [finalizeEntry, Source.strategy, buildLedgerEntry, hany]
      rw [hentry, History.backfill_realized hnet hwhole results rfl fun _ => rfl]
      have hhigh : min (h.close.net .high) h.close.matchedPairs = h.close.matchedPairs :=
        min_eq_right (min_le_left _ _)
      have hlow : min (h.close.net .low) h.close.matchedPairs = h.close.matchedPairs :=
        min_eq_right (min_le_right _ _)
      simp only [LedgerState.realizedAtClose, LedgerState.heldPending, aboveFloor, hsource,
        Source.hasFloor, if_true, hhigh, hlow, Option.getD_none]
      ring
    | q1Strangle =>
      have hentry : finalizeEntry Source.q1Strangle.strategy h.close =
          ⟨h.close.realizedAtClose, !h.close.unsettledLegs.isEmpty,
            h.close.unsettledLegs, none⟩ := by
        simp [finalizeEntry, Source.strategy, buildLedgerEntry, hany]
      rw [hentry, History.backfill_realized hnet hwhole results rfl fun _ => rfl]
      simp [LedgerState.realizedAtClose, LedgerState.heldPending, aboveFloor, hsource,
        Source.hasFloor]
    | wideBox =>
      have hentry : finalizeEntry Source.wideBox.strategy h.close =
          ⟨h.close.realizedAtClose, !h.close.unsettledLegs.isEmpty, h.close.unsettledLegs,
            some (h.close.matchedPairs * 1)⟩ := by
        simp [finalizeEntry, Source.strategy, buildBoxLedgerEntry, hany]
      have hheld (which : Which) : h.close.heldPending which = h.close.net which := by
        simp [LedgerState.heldPending, hsource]
      have hfloor : h.close.unsettledLegs = [] → h.close.matchedPairs * 1 = 0 := by
        intro hnil
        have hzero := heldPending_of_unsettledLegs_nil h.keyed_close hnet hnil .high
        rw [hheld] at hzero
        rw [mul_one]
        exact le_antisymm ((min_le_left _ _).trans hzero.le) hmatched
      rw [hentry, History.backfill_realized hnet hwhole results rfl hfloor]
      simp only [LedgerState.realizedAtClose, hheld, aboveFloor, hsource, Source.hasFloor, if_true,
        minPairPayout, Option.getD_some]
      rw [if_neg (by decide)]
      ring

/-- A reply that fills an order. -/
def fillReply (cid : String) (count price fee : ℚ) : OrderResponse :=
  { clientOrderId := .text cid, orderId := .text "o", fillCount := count, remainingCount := 0,
    averageFillPrice := some price, averageFeePaid := some fee, tsMs := none }

/-- An entry on both legs of a flip. -/
def flipEntry (source : Source) : Intent where
  window := "2026-08-24T05:00:00Z"
  source := source
  purpose := .entry
  legs := [⟨"KXBTCD-HI", .no, .buy, 2, 2 / 5, "cid-hi", none, some 0⟩,
    ⟨"KXBTC15M-LO", .yes, .buy, 2, 2 / 5, "cid-lo", none, some 0⟩]

/-- A window whose legs fill some lots each. -/
def sampleHistory (source : Source) (high low : ℚ) : History where
  window := "2026-08-24T05:00:00Z"
  source := source
  highTicker := "KXBTCD-HI"
  lowTicker := "KXBTC15M-LO"
  distinct := by decide
  events := [.intent (flipEntry source), .response (fillReply "cid-hi" high (2 / 5) (1 / 100)),
    .response (fillReply "cid-lo" low (2 / 5) (1 / 100))]

/-- Results that pay the legs of the sample. -/
def pinned (ticker : String) : Side := if ticker = "KXBTCD-HI" then .no else .yes

/-- The fills of a sample history are on its legs. -/
theorem sampleHistory_onTheLegs {source : Source} {high low : ℚ} {f g : Fill}
    (hfills : (sampleHistory source high low).fills = [f, g])
    (hf : (sampleHistory source high low).close.legKey .high = some f.key)
    (hg : (sampleHistory source high low).close.legKey .low = some g.key) :
    (sampleHistory source high low).OnTheLegs := by
  intro x hx
  rw [hfills] at hx
  rcases List.mem_pair.mp hx with rfl | rfl
  · exact ⟨.high, hf⟩
  · exact ⟨.low, hg⟩

/-- Three halves and one half of a lot, settled with both legs paying. -/
theorem window_books_conserve_sample :
    booked (sampleHistory .subDollarFlip (3 / 2) (1 / 2)).close pinned =
      trueCash (sampleHistory .subDollarFlip (3 / 2) (1 / 2)).fills pinned -
        aboveFloor (sampleHistory .subDollarFlip (3 / 2) (1 / 2)).close pinned := by
  apply window_books_conserve
  · exact sampleHistory_onTheLegs
      (f := ⟨"KXBTCD-HI", .no, .buy, 3 / 2, 2 / 5, 3 / 200⟩)
      (g := ⟨"KXBTC15M-LO", .yes, .buy, 1 / 2, 2 / 5, 1 / 200⟩)
      (by decide +kernel) (by decide +kernel) (by decide +kernel)
  · intro which
    cases which <;> decide +kernel
  · intro which
    cases which with
    | high => exact ⟨1, by decide +kernel⟩
    | low => exact ⟨0, by decide +kernel⟩

/-- A history of the two legs whose rows do not add up to its true result. -/
def Diverges (h : History) (results : String → Side) : Prop :=
  h.OnTheLegs ∧ h.NetNonneg ∧ booked h.close results ≠ trueCash h.fills results

/-- A matched flip pair whose legs both pay is booked at its floor, and half lots of a box are not
paid out. -/
theorem rows_miss_cash :
    Diverges (sampleHistory .subDollarFlip 1 1) pinned ∧
      Diverges (sampleHistory .wideBox (1 / 2) (1 / 2)) pinned := by
  constructor
  · refine ⟨sampleHistory_onTheLegs (f := ⟨"KXBTCD-HI", .no, .buy, 1, 2 / 5, 1 / 100⟩)
      (g := ⟨"KXBTC15M-LO", .yes, .buy, 1, 2 / 5, 1 / 100⟩)
      (by decide +kernel) (by decide +kernel) (by decide +kernel), ?_, by decide +kernel⟩
    intro which
    cases which <;> decide +kernel
  · refine ⟨sampleHistory_onTheLegs (f := ⟨"KXBTCD-HI", .no, .buy, 1 / 2, 2 / 5, 1 / 200⟩)
      (g := ⟨"KXBTC15M-LO", .yes, .buy, 1 / 2, 2 / 5, 1 / 200⟩)
      (by decide +kernel) (by decide +kernel) (by decide +kernel), ?_, by decide +kernel⟩
    intro which
    cases which <;> decide +kernel

end Pilot.V1
