import Pilot.V33.NettingRuns
import Pilot.V33.Floor
import Mathlib.Algebra.BigOperators.Ring.List
import Mathlib.Data.List.Dedup

/-!
# The cash of a settled window

A window books its floor at close and its backfill corrects it once the markets have settled.
The two add up to the cash result if the lots its batches list are the lots its fills made,
market by market.
-/

namespace Pilot.V33

/-! ### Payoffs of held lots -/

/-- The lots of a position, those of YES counted negative. -/
def signedLots (l : HeldLeg) : ℚ := match l.side with | .yes => -l.count | .no => l.count

/-- The NO lots less the YES lots held on a market. -/
def netNo (legs : List HeldLeg) (t : String) : ℚ :=
  ((legs.filter fun l => l.ticker = t).map signedLots).sum

/-- What the YES lots pay if every market settles YES. -/
def yesLots (legs : List HeldLeg) : ℚ :=
  (legs.map fun l => if l.side = .yes then l.count else 0).sum

/-- One where a market settles NO. -/
def settledNo (results : String → Side) (t : String) : ℚ := if results t = .no then 1 else 0

section Payoff

variable {legs legs' : List HeldLeg} {results : String → Side}

theorem settlementPayoff_append :
    settlementPayoff (legs ++ legs') results =
      settlementPayoff legs results + settlementPayoff legs' results := by
  simp [settlementPayoff]

/-- A payoff is that of all markets settling YES, moved by those that settle NO. -/
theorem settlementPayoff_eq (legs : List HeldLeg) (results : String → Side) :
    settlementPayoff legs results =
      yesLots legs + (legs.map fun l => signedLots l * settledNo results l.ticker).sum := by
  rw [settlementPayoff, yesLots, ← List.sum_map_add]
  congr 1
  refine List.map_congr_left fun l _ => ?_
  cases hs : l.side <;> cases hr : results l.ticker <;> simp [signedLots, settledNo, hs, hr]

/-- What the markets that settle NO move is counted market by market. -/
theorem sum_signedLots {ts : List String} (hts : ts.Nodup) (hlegs : ∀ l ∈ legs, l.ticker ∈ ts) :
    (legs.map fun l => signedLots l * settledNo results l.ticker).sum =
      (ts.map fun t => netNo legs t * settledNo results t).sum := by
  rw [← Dict.sum_map_filter_key HeldLeg.ticker _ hts hlegs]
  congr 1
  refine List.map_congr_left fun t _ => ?_
  rw [netNo, ← List.sum_map_mul_right]
  congr 1
  refine List.map_congr_left fun l hl => ?_
  have ht : l.ticker = t := of_decide_eq_true (List.mem_filter.mp hl).2
  rw [ht]

/-- Two positions pay the same up to an amount under every result exactly if they hold the same
net lots of every market, and what they are paid on YES differs by the amount. -/
theorem payoffs_agree_iff (legs legs' : List HeldLeg) (c : ℚ) :
    (∀ results, settlementPayoff legs results = settlementPayoff legs' results + c) ↔
      (∀ t, netNo legs t = netNo legs' t) ∧ yesLots legs = yesLots legs' + c := by
  -- The markets of both positions.
  let ts := ((legs ++ legs').map HeldLeg.ticker).dedup
  have hts : ts.Nodup := List.nodup_dedup _
  have hleft : ∀ l ∈ legs, l.ticker ∈ ts := fun l hl =>
    List.mem_dedup.mpr (List.mem_map_of_mem (List.mem_append_left _ hl))
  have hright : ∀ l ∈ legs', l.ticker ∈ ts := fun l hl =>
    List.mem_dedup.mpr (List.mem_map_of_mem (List.mem_append_right _ hl))
  constructor
  · intro h
    have hyes : yesLots legs = yesLots legs' + c := by
      have hall := h fun _ => .yes
      simpa [settlementPayoff_eq, settledNo] using hall
    refine ⟨fun t => ?_, hyes⟩
    -- Only the market `t` settles NO.
    have hone : ∀ ls : List HeldLeg,
        (ls.map fun l => signedLots l *
          settledNo (fun t' => if t' = t then .no else .yes) l.ticker).sum = netNo ls t := by
      intro ls
      induction ls with
      | nil => rfl
      | cons l ls ih =>
        rw [List.map_cons, List.sum_cons, ih]
        by_cases ht : l.ticker = t <;> simp [netNo, settledNo, ht]
    have honly := h fun t' => if t' = t then .no else .yes
    rw [settlementPayoff_eq, settlementPayoff_eq, hone, hone, hyes] at honly
    linarith
  · rintro ⟨hnet, hyes⟩ results
    rw [settlementPayoff_eq, settlementPayoff_eq, sum_signedLots hts hleft,
      sum_signedLots hts hright, hyes]
    simp only [hnet]
    ring

end Payoff

/-! ### The cash result of a window -/

/-- The lots of an open wing. -/
def openLots (l : WingLeg) : Option HeldLeg :=
  if l.isOpen then some ⟨l.ticker, l.side, l.held⟩ else none

/-- The bucket NO lots of the fills, each on the market it was made on. -/
def filledLots (market : RungFill → String) (st : V33State) : List HeldLeg :=
  st.restFills.map fun f => ⟨market f, .no, f.count⟩

/-- The lots a window holds at close. -/
def lotsHeld (market : RungFill → String) (st : V33State) : List HeldLeg :=
  filledLots market st ++ st.wingLegs.filterMap openLots

/-- What the wings that were sold back cost. -/
def roundtrips (st : V33State) : ℚ :=
  (st.printThroughTriggers.map fun t => t.roundtripCost.getD 0).sum

/-- Everything a window paid. -/
def everythingPaid (st : V33State) : ℚ := cashPaid st + roundtrips st

/-- The cash result of a window: what its lots are paid at settlement and a dollar for each
netted lot, less everything paid. -/
def trueCash (market : RungFill → String) (st : V33State) (results : String → Side) : ℚ :=
  settlementPayoff (lotsHeld market st) results + nettedCredit st - everythingPaid st

/-- What the row of an armed window and its backfill book. -/
def bookedCash (closeTime : String) (st : V33State) (results : String → Side) : ℚ :=
  let row := buildV33LedgerRow closeTime (computeLadderMoneyMath st false)
  row.realizedDelta.getD 0 +
    ((v33SettlementBackfillSweep [row] fun t => some (results t)).map fun r =>
      r.realizedDelta.getD 0).sum

/-- The lots the batches are listed for, each batch on one market. -/
def batchLots (st : V33State) : List HeldLeg :=
  st.wingBatches.flatMap fun b =>
    (batchTicker st b).toList.map fun t => ⟨t, .no, b.totalCount⟩

/-- The lots of the batches are those of the fills and no wing was sold back at a cost; without
a fill the wings pay what they cost on either side. -/
structure Accounted (market : RungFill → String) (st : V33State) : Prop where
  filled : st.restFills ≠ [] →
    (∀ t, netNo (batchLots st) t = netNo (filledLots market st) t) ∧ roundtrips st = 0
  unfilled : st.restFills = [] →
    (∀ t, netNo (lotsHeld market st) t = 0) ∧
      yesLots (lotsHeld market st) + nettedCredit st = everythingPaid st

section Cash

variable {p : V33Params} {st : V33State} {market : RungFill → String}

theorem BatchesOk.openLots_eq (h : BatchesOk st) {l : WingLeg} (hl : l ∈ st.wingLegs) :
    heldWing l = openLots l := by
  have hgrid : OnGrid 100 l.held := (h.legs l hl).count.sub (h.legs l hl).netted
  rw [heldWing, openLots, qCount_of_onGrid hgrid]
  exact if_congr Iff.rfl rfl rfl

/-- The listed legs are paid as the lots of the batches and of the open wings. -/
theorem BatchesOk.payoff_listed (h : BatchesOk st) (results : String → Side) :
    settlementPayoff (st.wingBatches.flatMap (heldOfBatch st)) results =
      settlementPayoff (batchLots st) results +
        settlementPayoff (st.wingLegs.filterMap openLots) results := by
  have hgrid : ∀ legs ⊆ st.wingLegs, ∀ l ∈ legs, OnGrid 100 l.held := fun legs hsub l hl =>
    (h.legs l (hsub hl)).count.sub (h.legs l (hsub hl)).netted
  have hwings : settlementPayoff (st.wingLegs.filterMap openLots) results =
      (st.wingBatches.map fun b =>
        settlementPayoff ((batchLegs st b.index).filterMap heldWing) results).sum := by
    rw [← List.filterMap_congr fun l hl => h.openLots_eq hl,
      settlementPayoff_heldWings (hgrid _ (List.Subset.refl _)),
      ← sum_batchLegs h.batchIndex_nodup h.owned]
    congr 1
    refine List.map_congr_left fun b _ => ?_
    exact (settlementPayoff_heldWings (hgrid _ fun _ => List.mem_of_mem_filter) results).symm
  rw [hwings, batchLots, settlementPayoff_flatMap, settlementPayoff_flatMap, ← List.sum_map_add]
  congr 1
  refine List.map_congr_left fun b hb => ?_
  rw [heldOfBatch, settlementPayoff_append, qCount_of_onGrid (h.totalCount_onGrid hb)]

/-- A window without listed legs has no floor but its netted dollars. -/
theorem sum_batchFloor_of_nil (hheld : st.wingBatches.flatMap (heldOfBatch st) = []) :
    (st.wingBatches.map (batchFloor st)).sum = 0 := by
  refine List.sum_eq_zero fun x hx => ?_
  obtain ⟨b, hb, rfl⟩ := List.mem_map.mp hx
  have hnone : heldOfBatch st b = [] := List.flatMap_eq_nil_iff.mp hheld b hb
  rw [batchFloor, hnone]
  simp [v33SetFloorDollars]

theorem BatchesOk.sum_nettedSets (h : BatchesOk st) :
    ((st.nettedPairs.map fun np => (⟨np.ticker, qCount np.count, np.yesCost, np.noCost,
      np.realised⟩ : NettedSet)).map NettedSet.count).sum = nettedCredit st := by
  rw [nettedCredit, List.map_map]
  congr 1
  exact List.map_congr_left fun np hnp => qCount_of_onGrid (h.pairs np hnp)

/-- The backfill of one row alone. -/
theorem sweep_singleton (row : LedgerRow) (hnew : row.backfillOf = none)
    (results : String → Side) :
    v33SettlementBackfillSweep [row] (fun t => some (results t)) =
      if !row.drySim && row.realizedUnsettled && !row.legs.isEmpty then
        [buildV33BackfillRow row
          (settlementPayoff row.legs results + (row.nettedSets.map NettedSet.count).sum)
          (v33FloorBookedForEntry row row.legs)]
      else [] := by
  have hdone : backfilled [row] = [] := by simp [backfilled, hnew, truthy]
  have hback : backfillOf (fun t => some (results t)) row = some (buildV33BackfillRow row
      (settlementPayoff row.legs results + (row.nettedSets.map NettedSet.count).sum)
      (v33FloorBookedForEntry row row.legs)) := by
    simp [backfillOf]
  have hone : ∀ q : LedgerRow → Bool, [row].filter q = if q row then [row] else [] := fun q => by
    by_cases hq : q row <;> simp [hq]
  unfold v33SettlementBackfillSweep pendingRows
  rw [hdone, hone]
  split_ifs
  · simp [Dict.ofList, Dict.set, Dict.empty, assocSet, hback]
  · simp [Dict.ofList, Dict.empty]

/-- A window without a fill books nothing, neither at close nor later. -/
theorem bookedCash_of_nil (hfills : st.restFills = []) (closeTime : String)
    (results : String → Side) : bookedCash closeTime st results = 0 := by
  have hrow : computeLadderMoneyMath st false =
      ⟨false, [], [], none, none, st.oneLegged, false, 0, []⟩ := by
    simp [computeLadderMoneyMath, hfills]
  unfold bookedCash
  dsimp only
  rw [sweep_singleton _ rfl, hrow]
  simp [buildV33LedgerRow]

/-- A window with a fill books what its listed legs are paid and the netted dollars, less the
cash it paid. -/
theorem BatchesOk.bookedCash (h : BatchesOk st) (hfills : st.restFills ≠ []) (closeTime : String)
    (results : String → Side) :
    bookedCash closeTime st results =
      settlementPayoff (st.wingBatches.flatMap (heldOfBatch st)) results + nettedCredit st -
        cashPaid st := by
  have hsome : ¬st.restFills.isEmpty = true := fun hempty => hfills (List.isEmpty_iff.mp hempty)
  unfold V33.bookedCash
  dsimp only
  rw [sweep_singleton _ rfl, computeLadderMoneyMath, if_neg hsome]
  by_cases hheld : st.wingBatches.flatMap (heldOfBatch st) = []
  · -- Nothing is listed: the floor stands and there is no backfill.
    simp [buildV33LedgerRow, hheld, sum_batchFloor_of_nil hheld, settlementPayoff]
  · have hsets := h.sum_nettedSets
    rw [List.map_map] at hsets
    simp [buildV33LedgerRow, hheld, buildV33BackfillRow, LedgerRow.legs, v33FloorBookedForEntry,
      hsets]
    ring

/-- The bucket NO lots all pay on NO. -/
theorem yesLots_filledLots : yesLots (filledLots market st) = 0 :=
  List.sum_eq_zero fun x hx => by
    obtain ⟨l, hl, rfl⟩ := List.mem_map.mp hx
    obtain ⟨f, -, rfl⟩ := List.mem_map.mp hl
    rfl

theorem yesLots_batchLots : yesLots (batchLots st) = 0 :=
  List.sum_eq_zero fun x hx => by
    obtain ⟨l, hl, rfl⟩ := List.mem_map.mp hx
    obtain ⟨b, -, hl⟩ := List.mem_flatMap.mp hl
    obtain ⟨t, -, rfl⟩ := List.mem_map.mp hl
    rfl

/-- Along every run, what a window books at close and at its backfill is its cash result under
every settlement result exactly if its lots are accounted for. -/
theorem cash_conserved_iff {ok : V33State → Event → Prop} {evs : List Event}
    (hrun : Reached p ok evs st) (closeTime : String) (market : RungFill → String) :
    (∀ results, bookedCash closeTime st results = trueCash market st results) ↔
      Accounted market st := by
  have hok : BatchesOk st := BatchesOk.reached hrun
  by_cases hfills : st.restFills = []
  · have hagree := payoffs_agree_iff (lotsHeld market st) [] (everythingPaid st - nettedCredit st)
    have hbooked : (∀ results, bookedCash closeTime st results = trueCash market st results) ↔
        ∀ results, settlementPayoff (lotsHeld market st) results =
          settlementPayoff [] results + (everythingPaid st - nettedCredit st) := by
      refine forall_congr' fun results => ?_
      rw [bookedCash_of_nil hfills, trueCash]
      constructor <;> intro h <;> simp [settlementPayoff] at h ⊢ <;> linarith
    have hlots : Accounted market st ↔ (∀ t, netNo (lotsHeld market st) t = 0) ∧
        yesLots (lotsHeld market st) + nettedCredit st = everythingPaid st :=
      ⟨fun h => h.unfilled hfills, fun h => ⟨fun hne => absurd hfills hne, fun _ => h⟩⟩
    rw [hbooked, hagree, hlots]
    refine and_congr Iff.rfl ?_
    constructor <;> intro h <;> simp [yesLots] at h ⊢ <;> linarith
  · have hagree := payoffs_agree_iff (batchLots st) (filledLots market st) (-roundtrips st)
    have hbooked : (∀ results, bookedCash closeTime st results = trueCash market st results) ↔
        ∀ results, settlementPayoff (batchLots st) results =
          settlementPayoff (filledLots market st) results + -roundtrips st := by
      refine forall_congr' fun results => ?_
      rw [hok.bookedCash hfills, trueCash, hok.payoff_listed, lotsHeld, settlementPayoff_append,
        everythingPaid]
      constructor <;> intro h <;> linarith
    have hlots : Accounted market st ↔
        (∀ t, netNo (batchLots st) t = netNo (filledLots market st) t) ∧ roundtrips st = 0 :=
      ⟨fun h => h.filled hfills, fun h => ⟨fun _ => h, fun heq => absurd heq hfills⟩⟩
    rw [hbooked, hagree, hlots, yesLots_batchLots, yesLots_filledLots]
    refine and_congr Iff.rfl ?_
    constructor <;> intro h <;> linarith

end Cash

/-! ### A window with a fill that is not hedged yet -/

/-- The market recorded with a fill. -/
def recordedMarket (f : RungFill) : String := f.bucketTicker.getD ""

/-- The window of two batches books its cash result whatever the markets settle at. -/
theorem cash_conserved_sample :
    bookedCash "T" (after plainPolicy (sampleWindow plainPolicy) netRun) =
      trueCash recordedMarket (after plainPolicy (sampleWindow plainPolicy) netRun) := by
  have hrun : Reached plainPolicy (fun _ _ => True) netRun
      (after plainPolicy (sampleWindow plainPolicy) netRun) :=
    reached_sample (allAlong_of_forall fun _ _ _ => trivial)
  have hlots : batchLots (after plainPolicy (sampleWindow plainPolicy) netRun) =
      filledLots recordedMarket (after plainPolicy (sampleWindow plainPolicy) netRun) := by
    decide +kernel
  have hfills : (after plainPolicy (sampleWindow plainPolicy) netRun).restFills ≠ [] := by
    decide +kernel
  have hsold : roundtrips (after plainPolicy (sampleWindow plainPolicy) netRun) = 0 := by
    decide +kernel
  refine funext ((cash_conserved_iff hrun "T" recordedMarket).mpr
    ⟨fun _ => ⟨fun t => ?_, hsold⟩, fun hnil => absurd hnil hfills⟩)
  rw [hlots]

/-- A rung fills and the window closes before its group does. -/
def openGroupRun : List Event :=
  sampleOpening ++ [reportedFill "c-1" 1 (59 / 100) .no 1002 "B100"]

/-- The fill of the open group is paid a dollar on NO, which no row books. -/
theorem cash_is_not_conserved :
    ¬∀ (p : V33Params) (evs : List Event) (st : V33State) (market : RungFill → String)
      (closeTime : String) (results : String → Side), Reached p (fun _ _ => True) evs st →
        st.shakedown = false → (∀ f ∈ st.restFills, f.bucketTicker = some (market f)) →
          bookedCash closeTime st results = trueCash market st results := by
  intro h
  have hcash := h samplePolicy openGroupRun _ recordedMarket "T" (fun _ => .no)
    (reached_sample (allAlong_of_forall fun _ _ _ => trivial)) (by decide +kernel)
    (by decide +kernel)
  have hdiffer : bookedCash "T" (after samplePolicy (sampleWindow samplePolicy) openGroupRun)
      (fun _ => .no) ≠ trueCash recordedMarket
        (after samplePolicy (sampleWindow samplePolicy) openGroupRun) fun _ => .no := by
    decide +kernel
  exact hdiffer hcash

end Pilot.V33
