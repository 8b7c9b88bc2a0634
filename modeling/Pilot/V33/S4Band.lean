import Pilot.V33.DayGuard
import Pilot.V33.PendingCredit
import Pilot.V33.Settlement

/-!
# The band of the day's loss

A row says within which band its window is still owed settlement cash. The band holds at a
settlement as long as the lots that the paid wings have left, and what the fills are paid beside
the lots counted for their batches, stay within the room of the batches; the verdict on the
day's loss then holds.
-/

namespace Pilot.V33

/-! ### Closed windows -/

/-- A window at its close, with the market each fill was made on and the results its markets
settle at. -/
structure ClosedWindow where
  closeTime : String
  st : V33State
  market : RungFill → String
  results : String → Side

/-- The row of the window. -/
def ClosedWindow.row (w : ClosedWindow) : LedgerRow :=
  buildV33LedgerRow w.closeTime (computeLadderMoneyMath w.st false)

/-- The settlement cash that the venue owes for the lots held. -/
def ClosedWindow.owed (w : ClosedWindow) : ℚ := settlementPayoff (lotsHeld w.market w.st) w.results

/-- The band of the window's row. -/
def ClosedWindow.band (w : ClosedWindow) : ℚ × ℚ :=
  v33PendingCredit [w.row] (utcDayOf w.closeTime)

/-- What the window is owed lies in the band of its row. -/
def BandHolds (w : ClosedWindow) : Prop := w.band.1 ≤ w.owed ∧ w.owed ≤ w.band.2

/-- The rows a ledger awaits settlement of on a day are those of some windows. -/
def Awaits (rows : List LedgerRow) (utcDay : String) (ws : List ClosedWindow) : Prop :=
  (∀ w ∈ ws, utcDayOf w.closeTime = utcDay) ∧
    owedRows rows utcDay = (ws.map ClosedWindow.row).filter (unsettledOn utcDay)

/-- The loss of the day once its windows have settled. -/
def settledLoss (balanceStart balanceNow : ℚ) (ws : List ClosedWindow) : ℚ :=
  balanceStart - (balanceNow + (ws.map ClosedWindow.owed).sum)

/-- The verdict on the day's loss is that of the loss once the windows have settled. -/
def VerdictHolds (rows : List LedgerRow) (utcDay : String) (ws : List ClosedWindow) : Prop :=
  ∀ balanceStart balanceNow,
    let kind := (v33S4Decision balanceStart balanceNow (v33PendingCredit rows utcDay)).kind
    (kind = .latch → v33S4DayLossCapDollars ≤ settledLoss balanceStart balanceNow ws) ∧
      (kind = .clear → settledLoss balanceStart balanceNow ws < v33S4DayLossCapDollars)

/-! ### From the band to the verdict -/

section Verdict

variable {rows : List LedgerRow} {utcDay : String} {ws : List ClosedWindow}

theorem ClosedWindow.band_eq (w : ClosedWindow) :
    w.band = if unsettledOn (utcDayOf w.closeTime) w.row then rowCredit w.row else 0 := by
  have hdone : backfilled [w.row] = [] := by
    simp [backfilled, ClosedWindow.row, buildV33LedgerRow, truthy]
  have hone : ∀ q : LedgerRow → Bool,
      (([w.row].filter q).map rowCredit).sum = if q w.row then rowCredit w.row else 0 := by
    intro q
    by_cases hq : q w.row <;> simp [hq]
  rw [ClosedWindow.band, v33PendingCredit, hdone, hone]
  simp

/-- The credit of a ledger is the sum of the bands of the windows it awaits. -/
theorem Awaits.credit_eq (h : Awaits rows utcDay ws) :
    v33PendingCredit rows utcDay = (ws.map ClosedWindow.band).sum := by
  obtain ⟨hday, howed⟩ := h
  have hcredit : v33PendingCredit rows utcDay =
      (((ws.map ClosedWindow.row).filter (unsettledOn utcDay)).map rowCredit).sum := by
    rw [← howed]
    rfl
  rw [hcredit]
  clear howed hcredit
  induction ws with
  | nil => rfl
  | cons w ws ih =>
    have hrest := ih fun w' hw' => hday w' (List.mem_cons_of_mem w hw')
    rw [List.map_cons, List.map_cons, List.sum_cons, ← hrest, w.band_eq,
      hday w List.mem_cons_self]
    by_cases hw : unsettledOn utcDay w.row
    · rw [List.filter_cons_of_pos hw, List.map_cons, List.sum_cons, if_pos hw]
    · rw [List.filter_cons_of_neg hw, if_neg hw, zero_add]

theorem sum_band (ws : List ClosedWindow) :
    (ws.map ClosedWindow.band).sum =
      ((ws.map fun w => w.band.1).sum, (ws.map fun w => w.band.2).sum) := by
  induction ws with
  | nil => rfl
  | cons w ws ih =>
    rw [List.map_cons, List.sum_cons, ih]
    rfl

/-- The verdict holds if what every window is owed lies in its band. -/
theorem Awaits.verdictHolds (h : Awaits rows utcDay ws) (hband : ∀ w ∈ ws, BandHolds w) :
    VerdictHolds rows utcDay ws := by
  have hleast : (ws.map fun w => w.band.1).sum ≤ (ws.map ClosedWindow.owed).sum :=
    List.sum_le_sum fun w hw => (hband w hw).1
  have hmost : (ws.map ClosedWindow.owed).sum ≤ (ws.map fun w => w.band.2).sum :=
    List.sum_le_sum fun w hw => (hband w hw).2
  intro balanceStart balanceNow
  dsimp only
  rw [h.credit_eq, sum_band, v33S4Decision, s4BalanceDecision, settledLoss]
  dsimp only
  split_ifs with hlatch hclear
  · refine ⟨fun _ => ?_, False.elim⟩
    linarith
  · refine ⟨False.elim, fun _ => ?_⟩
    linarith
  · exact ⟨False.elim, False.elim⟩

/-- The ledger of one window. -/
theorem awaits_singleton (w : ClosedWindow) : Awaits [w.row] (utcDayOf w.closeTime) [w] := by
  refine ⟨by simp, ?_⟩
  have hdone : backfilled [w.row] = [] := by
    simp [backfilled, ClosedWindow.row, buildV33LedgerRow, truthy]
  rw [owedRows, hdone]
  simp

end Verdict

/-! ### One batch -/

section Batch

variable {p : V33Params} {bucketMarket strikeMarket : ℤ → String} {st : V33State}
  {results : String → Side} {x : ℚ}

/-- The legs of a batch that are paid: its open wings on the winning side and its bucket NO. -/
def paidLegs (st : V33State) (results : String → Side) (b : WingBatch) : ℕ :=
  (paidWings st results b).length + if BucketNoPaid st results b then 1 else 0

/-- A batch has room for another leg to be paid if fewer than two of its legs are, and not all
that are held. -/
def roomOf (st : V33State) (results : String → Side) (lots : ℚ) (b : WingBatch) : ℚ :=
  if paidLegs st results b < min (openLegs st b) 2 then lots else 0

/-- Outside the bucket a paid wing is on the far side of it. -/
theorem side_of_paid {sd : ℤ} (hsettles : SettlesAt p bucketMarket strikeMarket x results sd)
    (hno : results (bucketMarket sd) = .no) {l : WingLeg}
    (hstrike : l.ticker = strikeMarket (wingStrike p sd l.side))
    (hpaid : results l.ticker = l.side) : l.side = if x < sd then .no else .yes := by
  have hout : ¬((sd : ℚ) ≤ x ∧ x < sd + p.bucketWidth) := by
    intro hin
    rw [hsettles.bucket, if_pos hin] at hno
    cases hno
  rw [hstrike, hsettles.strike] at hpaid
  cases hs : l.side with
  | yes =>
    rw [hs, wingStrike] at hpaid
    have hle : (sd : ℚ) ≤ x := by
      by_contra hlt
      rw [if_neg hlt] at hpaid
      cases hpaid
    rw [if_neg (not_lt.mpr hle)]
  | no =>
    rw [hs, wingStrike] at hpaid
    have hlt : x < sd + p.bucketWidth := by
      by_contra hge
      rw [if_pos (by push_cast; linarith)] at hpaid
      cases hpaid
    rw [if_pos (not_le.mp fun hle => hout ⟨hle, hlt⟩)]

/-- Outside the bucket at most one wing of a batch is paid. -/
theorem length_paidWings_le (hshape : PinShape p bucketMarket strikeMarket st)
    (hsettles : Settles p bucketMarket strikeMarket st x results) {b : WingBatch}
    (hb : b ∈ st.wingBatches) (hno : BucketNoPaid st results b) :
    (paidWings st results b).length ≤ 1 := by
  obtain ⟨sd, hsd, hmarket, hlegs⟩ := hshape.bucket b hb
  rw [bucketNoPaid_iff hmarket] at hno
  rw [paidWings, ← List.countP_eq_length_filter]
  exact (List.countP_mono_left fun l hl hpaid => decide_eq_true
    (side_of_paid (hsettles b hb sd hsd) hno (hlegs l hl) (of_decide_eq_true hpaid).2)).trans
      (hshape.wings b hb _)

/-- A batch has at most one wing on each side. -/
theorem length_batchLegs_le (hshape : PinShape p bucketMarket strikeMarket st) {b : WingBatch}
    (hb : b ∈ st.wingBatches) : (batchLegs st b.index).length ≤ 2 := by
  have hsides := List.length_eq_countP_add_countP (fun l : WingLeg => decide (l.side = .yes))
    (l := batchLegs st b.index)
  have hother : (batchLegs st b.index).countP (fun l => decide ¬decide (l.side = .yes) = true) =
      (batchLegs st b.index).countP fun l => decide (l.side = .no) := by
    refine List.countP_congr fun l _ => ?_
    cases l.side <;> simp
  have hyes := hshape.wings b hb .yes
  have hno := hshape.wings b hb .no
  omega

/-- Two legs of a batch may be paid at the most: what its paid legs are counted for, with its
room, is the upper end of its band. -/
theorem counted_le_eq (hshape : PinShape p bucketMarket strikeMarket st)
    (hsettles : Settles p bucketMarket strikeMarket st x results) {b : WingBatch}
    (hb : b ∈ st.wingBatches) (lots : ℚ) :
    (if BucketNoPaid st results b then lots else 0) +
        ((paidWings st results b).map WingLeg.held).sum +
        shortOf lots (paidWings st results b) + roomOf st results lots b =
      (min (openLegs st b) 2 : ℕ) * lots := by
  have hlost := length_lostWings_le hshape hsettles hb
  have hlegs := length_batchLegs_le hshape hb
  have hpaid : (paidWings st results b).length ≤ (batchLegs st b.index).length :=
    List.length_filter_le _ _
  have hcount : paidLegs st results b + (if paidLegs st results b < min (openLegs st b) 2
      then 1 else 0) = min (openLegs st b) 2 := by
    have hone := length_paidWings_le hshape hsettles hb
    rw [openLegs_eq st results b]
    unfold paidLegs
    split_ifs at hlost ⊢ <;> grind
  have hroom : roomOf st results lots b =
      ((if paidLegs st results b < min (openLegs st b) 2 then 1 else 0 : ℕ) : ℚ) * lots := by
    unfold roomOf
    split_ifs <;> simp
  have hbucket : (if BucketNoPaid st results b then lots else 0) =
      ((if BucketNoPaid st results b then 1 else 0 : ℕ) : ℚ) * lots := by
    split_ifs <;> simp
  have hsum : (paidLegs st results b : ℚ) * lots +
      ((if paidLegs st results b < min (openLegs st b) 2 then 1 else 0 : ℕ) : ℚ) * lots =
        (min (openLegs st b) 2 : ℕ) * lots := by
    rw [← add_mul, ← Nat.cast_add, hcount]
  have hlegs' : (paidLegs st results b : ℚ) * lots =
      (paidWings st results b).length * lots +
        ((if BucketNoPaid st results b then 1 else 0 : ℕ) : ℚ) * lots := by
    rw [paidLegs, Nat.cast_add, add_mul]
  rw [add_assoc _ _ (shortOf _ _), sum_add_shortOf, hroom, hbucket]
  linarith

end Batch

/-! ### One window -/

/-- A window of hedged batches whose legs are in order and whose markets settle at a price. -/
structure WindowShape (p : V33Params) (bucketMarket strikeMarket : ℤ → String) (x : ℚ)
    (w : ClosedWindow) : Prop where
  legs : StLegsOk w.st
  shape : PinShape p bucketMarket strikeMarket w.st
  settles : Settles p bucketMarket strikeMarket w.st x w.results

/-- What the bucket NO lots of a fill are paid. -/
def fillPayoff (w : ClosedWindow) (f : RungFill) : ℚ :=
  if w.results (w.market f) = .no then f.count else 0

/-- The lots a batch is recorded with; none reads as one. -/
def recordedLots (b : WingBatch) : ℚ := if b.totalCount = 0 then 1 else b.totalCount

/-- The lots a batch is counted for: those it is recorded with, in a window with fills. -/
def countedLots (st : V33State) (b : WingBatch) : ℚ :=
  if st.restFills = [] then 0 else recordedLots b

/-- What the fills of a window are paid beside the lots its batches are counted for. -/
def paidBeside (w : ClosedWindow) : ℚ :=
  (w.st.restFills.map (fillPayoff w)).sum -
    (w.st.wingBatches.map fun b =>
      if BucketNoPaid w.st w.results b then countedLots w.st b else 0).sum

/-- The lots by which the paid wings of a window fall short of what is counted for them. -/
def shortLots (w : ClosedWindow) : ℚ :=
  (w.st.wingBatches.map fun b =>
    shortOf (countedLots w.st b) (paidWings w.st w.results b)).sum

/-- What a window is short of stays within what its fills are paid beside its batches and what
these have to spare, and what the fills are paid within what it is short of and has room for. -/
def WithinRoom (w : ClosedWindow) : Prop :=
  shortLots w ≤ paidBeside w +
      (w.st.wingBatches.map fun b => spareOf w.st w.results (countedLots w.st b) b).sum ∧
    paidBeside w ≤ shortLots w +
      (w.st.wingBatches.map fun b => roomOf w.st w.results (countedLots w.st b) b).sum

instance (w : ClosedWindow) : Decidable (WithinRoom w) := inferInstanceAs (Decidable (_ ∧ _))

section Window

variable {p : V33Params} {bucketMarket strikeMarket : ℤ → String} {x : ℚ} {w : ClosedWindow}

/-- A window is owed what its fills and its paid wings are paid. -/
theorem WindowShape.owed_eq (h : WindowShape p bucketMarket strikeMarket x w) :
    w.owed = (w.st.restFills.map (fillPayoff w)).sum +
      (w.st.wingBatches.map fun b =>
        ((paidWings w.st w.results b).map WingLeg.held).sum).sum := by
  have hopen : settlementPayoff (w.st.wingLegs.filterMap openLots) w.results =
      (w.st.wingLegs.map (wingPayoff w.results)).sum := by
    rw [← settlementPayoff_heldWings fun l hl => h.legs.heldGrid hl]
    congr 1
    refine List.filterMap_congr fun l hl => ?_
    rw [heldWing, openLots, qCount_of_onGrid (h.legs.heldGrid hl)]
    rfl
  have hfilled : settlementPayoff (filledLots w.market w.st) w.results =
      (w.st.restFills.map (fillPayoff w)).sum := by
    rw [settlementPayoff, filledLots, List.map_map]
    rfl
  rw [ClosedWindow.owed, lotsHeld, settlementPayoff_append, hopen, hfilled,
    ← sum_batchLegs h.shape.indices h.shape.owned]
  simp only [sum_wingPayoff]

/-- A window without a fill or without a batch has no band. -/
theorem band_of_nothing (h : w.st.restFills = [] ∨ w.st.wingBatches = []) : w.band = 0 := by
  have hrow : w.row.realizedUnsettled = false := by
    unfold ClosedWindow.row buildV33LedgerRow computeLadderMoneyMath
    by_cases hfills : w.st.restFills = []
    · simp [hfills]
    · simp [hfills, h.resolve_left hfills]
  rw [w.band_eq, if_neg]
  simp [unsettledOn, hrow]

/-- The band of a window is that of its batches for the lots they are counted for. -/
theorem WindowShape.band_eq (h : WindowShape p bucketMarket strikeMarket x w) :
    w.band = (w.st.wingBatches.map fun b => creditBand (openLegs w.st b)
      (countedLots w.st b)).sum := by
  by_cases hfills : w.st.restFills = []
  · rw [band_of_nothing (Or.inl hfills)]
    refine (List.sum_eq_zero fun band hband => ?_).symm
    obtain ⟨b, -, rfl⟩ := List.mem_map.mp hband
    simp [creditBand, countedLots, hfills, v33SetFloorDollars]
  by_cases hbatches : w.st.wingBatches = []
  · rw [band_of_nothing (Or.inr hbatches), hbatches]
    rfl
  have hlisted : ∀ b ∈ w.st.wingBatches, (heldOfBatch w.st b).length = openLegs w.st b := by
    intro b hb
    obtain ⟨sd, -, hmarket, -⟩ := h.shape.bucket b hb
    exact length_heldOfBatch hmarket
  have hsome : ¬w.st.restFills.isEmpty = true := fun hempty => hfills (List.isEmpty_iff.mp hempty)
  have hheld : w.st.wingBatches.flatMap (heldOfBatch w.st) ≠ [] := by
    intro hnil
    obtain ⟨b, hb⟩ := List.exists_mem_of_ne_nil _ hbatches
    have hlength := hlisted b hb
    rw [List.flatMap_eq_nil_iff.mp hnil b hb] at hlength
    exact Nat.succ_ne_zero _ hlength.symm
  have hrow : w.row.realizedUnsettled = true ∧ w.row.drySim = false ∧
      w.row.closeTime = w.closeTime ∧
        w.row.wingBatchSets = w.st.wingBatches.map (batchSet w.st) := by
    unfold ClosedWindow.row buildV33LedgerRow computeLadderMoneyMath
    rw [if_neg hsome]
    simp [hheld]
  obtain ⟨hunsettled, hdry, hclose, hsets⟩ := hrow
  have hempty : w.row.wingBatchSets.isEmpty = false := by
    rw [hsets]
    simpa using hbatches
  rw [w.band_eq, if_pos (by simp [unsettledOn, hunsettled, hdry, hclose]), rowCredit,
    if_neg (by simp [hempty]), hsets, List.map_map]
  congr 1
  refine List.map_congr_left fun b hb => ?_
  rw [Function.comp_apply, BatchSet.lots, batchSet, qCount_of_onGrid (onGrid_totalCount h.shape hb),
    hlisted b hb, countedLots, if_neg hfills, recordedLots]

theorem sum_creditBand (bands : List (ℕ × ℚ)) :
    (bands.map fun band => creditBand band.1 band.2).sum =
      ((bands.map fun band => v33SetFloorDollars band.1 band.2).sum,
        (bands.map fun band => ((min band.1 2 : ℕ) : ℚ) * band.2).sum) := by
  induction bands with
  | nil => rfl
  | cons band bands ih =>
    rw [List.map_cons, List.sum_cons, ih]
    rfl

/-- The two ends of a window's band. -/
theorem WindowShape.band_ends (h : WindowShape p bucketMarket strikeMarket x w) :
    w.band.1 = (w.st.wingBatches.map fun b =>
        v33SetFloorDollars (openLegs w.st b) (countedLots w.st b)).sum ∧
      w.band.2 = (w.st.wingBatches.map fun b =>
        ((min (openLegs w.st b) 2 : ℕ) : ℚ) * countedLots w.st b).sum := by
  have hends := sum_creditBand
    (w.st.wingBatches.map fun b => (openLegs w.st b, countedLots w.st b))
  simp only [List.map_map, Function.comp_def] at hends
  rw [h.band_eq, hends]
  exact ⟨rfl, rfl⟩

/-- What a window is owed lies in its band exactly if the window stays within its room. -/
theorem WindowShape.bandHolds_iff (h : WindowShape p bucketMarket strikeMarket x w) :
    BandHolds w ↔ WithinRoom w := by
  obtain ⟨hleast, hmost⟩ := h.band_ends
  have hlower : (w.st.wingBatches.map fun b =>
      (if BucketNoPaid w.st w.results b then countedLots w.st b else 0) +
        ((paidWings w.st w.results b).map WingLeg.held).sum +
        shortOf (countedLots w.st b) (paidWings w.st w.results b)).sum =
      (w.st.wingBatches.map fun b => v33SetFloorDollars (openLegs w.st b) (countedLots w.st b) +
        spareOf w.st w.results (countedLots w.st b) b).sum := by
    congr 1
    exact List.map_congr_left fun b hb => counted_eq h.shape h.settles hb _
  have hupper : (w.st.wingBatches.map fun b =>
      (if BucketNoPaid w.st w.results b then countedLots w.st b else 0) +
        ((paidWings w.st w.results b).map WingLeg.held).sum +
        shortOf (countedLots w.st b) (paidWings w.st w.results b) +
        roomOf w.st w.results (countedLots w.st b) b).sum =
      (w.st.wingBatches.map fun b =>
        ((min (openLegs w.st b) 2 : ℕ) : ℚ) * countedLots w.st b).sum := by
    congr 1
    exact List.map_congr_left fun b hb => counted_le_eq h.shape h.settles hb _
  simp only [List.sum_map_add] at hlower hupper
  unfold BandHolds WithinRoom paidBeside shortLots
  rw [hleast, hmost, h.owed_eq]
  constructor
  · rintro ⟨hlow, hhigh⟩
    constructor <;> linarith
  · rintro ⟨hlow, hhigh⟩
    constructor <;> linarith

/-- The fills of batches of one bucket each are paid as the lots of the batches are. -/
theorem sum_fillPayoff (hshape : PinShape p bucketMarket strikeMarket w.st)
    (hbucket : SingleBucket w.st)
    (hmarket : ∀ f ∈ w.st.restFills, ∀ sd ∈ f.bucketSd, w.market f = bucketMarket sd)
    (hfills : w.st.restFills.Perm (w.st.wingBatches.flatMap WingBatch.fills)) :
    (w.st.restFills.map (fillPayoff w)).sum = (w.st.wingBatches.map fun b =>
      if BucketNoPaid w.st w.results b then b.totalCount else 0).sum := by
  rw [(hfills.map _).sum_eq, sum_map_flatMap]
  congr 1
  refine List.map_congr_left fun b hb => ?_
  obtain ⟨sd, hsd, hticker, -⟩ := hshape.bucket b hb
  have hpaid : b.fills.map (fillPayoff w) =
      b.fills.map fun f => if w.results (bucketMarket sd) = .no then f.count else 0 := by
    refine List.map_congr_left fun f hf => ?_
    have hin : f ∈ w.st.restFills :=
      hfills.mem_iff.mpr (List.mem_flatMap.mpr ⟨b, hb, hf⟩)
    rw [fillPayoff, hmarket f hin sd (by rw [hbucket b hb f hf, hsd]; rfl)]
  rw [hpaid]
  simp only [bucketNoPaid_iff hticker]
  split_ifs
  · rfl
  · simp

/-- A batch whose legs are closed has neither paid nor lost wings. -/
theorem wings_of_closed {st : V33State} (results : String → Side) {b : WingBatch}
    (hclosed : ∀ l ∈ batchLegs st b.index, ¬l.isOpen) :
    paidWings st results b = [] ∧ lostWings st results b = [] := by
  constructor <;> exact List.filter_eq_nil_iff.mpr fun l hl ho =>
    hclosed l hl (of_decide_eq_true ho).1

/-- A batch has its lots counted, or has neither lots nor open wings. -/
theorem countedLots_of_sized {st : V33State} (hok : StLegsOk st)
    (hfills : st.restFills.Perm (st.wingBatches.flatMap WingBatch.fills)) {b : WingBatch}
    (hb : b ∈ st.wingBatches) (hsized : Sized st b) :
    countedLots st b = b.totalCount ∨ b.totalCount = 0 ∧ 0 ≤ countedLots st b ∧
      ∀ l ∈ batchLegs st b.index, ¬l.isOpen := by
  by_cases hnone : b.totalCount = 0
  · right
    refine ⟨hnone, ?_, ?_⟩
    · unfold countedLots recordedLots
      split_ifs <;> norm_num
    · rintro l hl ⟨hf, hheld⟩
      have hnonneg := (hok.each l (List.mem_of_mem_filter hl)).nonneg
      rw [WingLeg.held] at hheld
      rcases hsized l hl hf with hcount | hcount <;> linarith
  · left
    have hsome : st.restFills ≠ [] := by
      intro hnil
      rw [hnil, List.nil_perm, List.flatMap_eq_nil_iff] at hfills
      exact hnone (by rw [WingBatch.totalCount, hfills b hb]; rfl)
    rw [countedLots, if_neg hsome, recordedLots, if_neg hnone]

/-- A window stays within its room if every fill is in a batch of its bucket and every filled wing
has the lots of its batch. -/
theorem WindowShape.withinRoom_of_sized (h : WindowShape p bucketMarket strikeMarket x w)
    (hbucket : SingleBucket w.st)
    (hmarket : ∀ f ∈ w.st.restFills, ∀ sd ∈ f.bucketSd, w.market f = bucketMarket sd)
    (hfills : w.st.restFills.Perm (w.st.wingBatches.flatMap WingBatch.fills))
    (hsized : ∀ b ∈ w.st.wingBatches, Sized w.st b) : WithinRoom w := by
  have hcovers := leftCovers_of_sized h.legs h.shape hsized h.settles
  -- A batch without lots has no open wing: what it is counted for is spared on its bucket NO.
  have hlower : (w.st.wingBatches.map fun b =>
      shortOf (countedLots w.st b) (paidWings w.st w.results b) +
        (if BucketNoPaid w.st w.results b then countedLots w.st b else 0) +
        spareOf w.st w.results b.totalCount b).sum =
      (w.st.wingBatches.map fun b =>
        shortOf b.totalCount (paidWings w.st w.results b) +
          (if BucketNoPaid w.st w.results b then b.totalCount else 0) +
          spareOf w.st w.results (countedLots w.st b) b).sum := by
    congr 1
    refine List.map_congr_left fun b hb => ?_
    rcases countedLots_of_sized h.legs hfills hb (hsized b hb) with heq | ⟨hnone, -, hclosed⟩
    · rw [heq]
    · obtain ⟨hpaid, hlost⟩ := wings_of_closed w.results hclosed
      simp [hpaid, hlost, hnone, shortOf, spareOf]
  have hupper : (w.st.wingBatches.map fun b =>
        if BucketNoPaid w.st w.results b then b.totalCount else 0).sum ≤
      (w.st.wingBatches.map fun b =>
        (if BucketNoPaid w.st w.results b then countedLots w.st b else 0) +
          shortOf (countedLots w.st b) (paidWings w.st w.results b) +
          roomOf w.st w.results (countedLots w.st b) b).sum := by
    refine List.sum_le_sum fun b hb => ?_
    have hlots := totalCount_nonneg h.shape hb
    have hroom : 0 ≤ countedLots w.st b → 0 ≤ roomOf w.st w.results (countedLots w.st b) b := by
      intro hle
      unfold roomOf
      split_ifs
      · exact hle
      · exact le_rfl
    rcases countedLots_of_sized h.legs hfills hb (hsized b hb) with heq | ⟨hnone, hle, hclosed⟩
    · have hshort : 0 ≤ shortOf b.totalCount (paidWings w.st w.results b) := by
        refine List.sum_nonneg fun y hy => ?_
        obtain ⟨l, hl, rfl⟩ := List.mem_map.mp hy
        obtain ⟨hmem, hwin⟩ := List.mem_filter.mp hl
        have hnonneg := (h.legs.each l (List.mem_of_mem_filter hmem)).nonneg
        rw [WingLeg.held]
        rcases hsized b hb l hmem (of_decide_eq_true hwin).1.1 with hcount | hcount <;> linarith
      rw [heq] at hroom ⊢
      have hfree := hroom hlots
      linarith
    · obtain ⟨hpaid, -⟩ := wings_of_closed w.results hclosed
      have hspare := hroom hle
      rw [hpaid, hnone]
      split_ifs <;> simp [shortOf] <;> linarith
  unfold LeftCovers at hcovers
  simp only [List.sum_map_add] at hlower hupper
  unfold WithinRoom paidBeside shortLots
  rw [sum_fillPayoff h.shape hbucket hmarket hfills]
  constructor <;> linarith

end Window

/-! ### Every ledger -/

/-- In every ledger the bands of the windows and the verdict hold at a joint settlement exactly if
every window stays within its room there. -/
theorem s4_band_sound_iff {rows : List LedgerRow} {utcDay : String} {ws : List ClosedWindow}
    (hawaits : Awaits rows utcDay ws)
    (hshape : ∀ w ∈ ws, ∃ p bucketMarket strikeMarket x,
      WindowShape p bucketMarket strikeMarket x w) :
    ((∀ w ∈ ws, BandHolds w) ∧ VerdictHolds rows utcDay ws) ↔ ∀ w ∈ ws, WithinRoom w := by
  have hband : ∀ w ∈ ws, (BandHolds w ↔ WithinRoom w) := by
    intro w hw
    obtain ⟨p, bucketMarket, strikeMarket, x, hw'⟩ := hshape w hw
    exact hw'.bandHolds_iff
  constructor
  · rintro ⟨hbands, -⟩ w hw
    exact (hband w hw).mp (hbands w hw)
  · intro hwithin
    have hbands : ∀ w ∈ ws, BandHolds w := fun w hw => (hband w hw).mpr (hwithin w hw)
    exact ⟨hbands, hawaits.verdictHolds hbands⟩

/-- A window at its close whose fills were made on their recorded markets. -/
def closedAt (st : V33State) (results : String → Side) : ClosedWindow :=
  ⟨"2026-10-09T20:00:00Z", st, recordedMarket, results⟩

/-- Two lots of a wing are netted away in the window below, and the batch above covers them. -/
theorem s4_band_sound_sample :
    (∀ w ∈ [closedAt (longWindow 2 2) resultsAt150], BandHolds w) ∧
      VerdictHolds [(closedAt (longWindow 2 2) resultsAt150).row] "2026-10-09"
        [closedAt (longWindow 2 2) resultsAt150] := by
  have htwo : OnGrid 100 (2 : ℚ) := ⟨200, by norm_num⟩
  have hshape : WindowShape samplePolicy bucketName strikeName 150
      (closedAt (longWindow 2 2) resultsAt150) :=
    ⟨(netted_longWindow two_pos htwo).legsOk,
      pinShape_longWindow zero_le_two htwo zero_le_two htwo, settles_longWindow 2 2⟩
  refine (s4_band_sound_iff (awaits_singleton (closedAt (longWindow 2 2) resultsAt150))
    (by simpa using ⟨_, _, _, _, hshape⟩)).mpr ?_
  simp only [List.forall_mem_singleton]
  decide +kernel

/-- The markets of a window settle at a price. -/
def SettledAt (st : V33State) (x : ℚ) (results : String → Side) : Prop :=
  (∀ e ∈ st.bucketMap.entries, results e.1 = if e.2.1 ≤ x ∧ x < e.2.2 then .yes else .no) ∧
    ∀ e ∈ st.strikeFloorMap.entries, results e.1 = if (e.2 : ℚ) ≤ x then .yes else .no

instance (st : V33State) (x : ℚ) (results : String → Side) : Decidable (SettledAt st x results) :=
  inferInstanceAs (Decidable (_ ∧ _))

/-- A window closes with a fill in its open group: the venue owes a dollar that no row knows of,
and the day is latched although its loss stays below the cap. -/
theorem s4_band_is_not_sound :
    ¬∀ (p : V33Params) (evs : List Event) (st : V33State) (x : ℚ) (results : String → Side),
      Reached p (fun _ _ => True) evs st → st.shakedown = false →
        (∀ f ∈ st.restFills, f.bucketTicker = some (recordedMarket f)) → SettledAt st x results →
          BandHolds (closedAt st results) ∧
            VerdictHolds [(closedAt st results).row] "2026-10-09" [closedAt st results] := by
  intro h
  have hrun : Reached samplePolicy (fun _ _ => True) openGroupRun
      (after samplePolicy (sampleWindow samplePolicy) openGroupRun) :=
    reached_sample (allAlong_of_forall fun _ _ _ => trivial)
  obtain ⟨-, hverdict⟩ := h _ _ _ 50 (fun _ => .no) hrun (by decide +kernel) (by decide +kernel)
    (by decide +kernel)
  have hlatch := (hverdict 100 (945 / 10)).1 (by decide +kernel)
  revert hlatch
  decide +kernel

end Pilot.V33
