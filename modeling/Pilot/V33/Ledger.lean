import Pilot.V33.Decide

/-!
# The window ledger

Each window appends one row with its money: the floor its held legs guarantee, the cash
it paid and the legs that still await settlement. A later process appends a backfill row
once their markets have settled. Until then the window's credit is owed within a band.
-/

namespace Pilot.V33

/-! ### Rows -/

/-- Lots of one side of a market held to settlement. -/
structure HeldLeg where
  ticker : String
  side : Side
  count : ℚ
  deriving DecidableEq

/-- The record of a wing batch. -/
structure BatchSet where
  index : ℕ
  fillCount : ℚ
  completed : Bool
  oneLegged : Bool
  heldLegs : ℕ
  deriving DecidableEq

/-- The record of lots the venue netted. -/
structure NettedSet where
  ticker : String
  count : ℚ
  yesCost : ℚ
  noCost : ℚ
  realised : ℚ
  deriving DecidableEq

/-- A row of the ledger: the money of a window, or the backfill of one. -/
structure LedgerRow where
  closeTime : String
  backfillOf : Option String := none
  drySim : Bool := false
  realizedUnsettled : Bool := false
  wingBatchSets : List BatchSet := []
  heldLegs : List HeldLeg := []
  unsettledLegs : List HeldLeg := []
  nettedSets : List NettedSet := []
  floorBooked : Option ℚ := none
  realizedDelta : Option ℚ := none
  deriving DecidableEq

/-! ### The money of a window -/

/-- What the legs of a pin guarantee: a dollar for each lot of every leg but one. -/
def v33SetFloorDollars (held : ℕ) (count : ℚ) : ℚ := (held - 1 : ℕ) * count

/-- The taker fee of a fill, rounded up once to the fourth decimal. -/
def feeTotal (price count : ℚ) : ℚ :=
  (⌈(7 / 100 : ℚ) * price * (1 - price) * count * 10000⌉ : ℚ) / 10000

/-- The bucket market a fill rested on: the recorded one, else that of its bucket, else that
of the ladder's bucket or the spot. -/
def bucketTickerForFill (st : V33State) (rf : Option RungFill) : Option String :=
  let tickerOf (sd : Option ℤ) : Option String := truthy (sd.bind st.bucketTickers.get?)
  ((rf.bind fun f => (truthy f.bucketTicker).or (tickerOf f.bucketSd)).or
    (tickerOf st.restBucketSd)).or (tickerOf st.spotSd)

/-- The bucket market a batch is listed under: that of its first fill. -/
def batchTicker (st : V33State) (b : WingBatch) : Option String :=
  bucketTickerForFill st b.fills.head?

/-- A filled wing leg with lots left, as it is listed. -/
def heldWing (l : WingLeg) : Option HeldLeg :=
  if l.status = .filled ∧ 0 < l.held then some ⟨l.ticker, l.side, qCount l.held⟩ else none

/-- The legs a batch holds to settlement: its bucket NO and its wings that are not netted. -/
def heldOfBatch (st : V33State) (b : WingBatch) : List HeldLeg :=
  (batchTicker st b).toList.map (fun t => ⟨t, .no, qCount b.totalCount⟩) ++
    (batchLegs st b.index).filterMap heldWing

/-- The floor of a batch. -/
def batchFloor (st : V33State) (b : WingBatch) : ℚ :=
  v33SetFloorDollars (heldOfBatch st b).length b.totalCount

/-- What a rung fill cost; only a taker pays a fee. -/
def fillCost (f : RungFill) : ℚ :=
  f.price * f.count + if f.taker then feeTotal f.price f.count else 0

/-- What a wing leg cost, with the lots the venue netted since. -/
def legCost (l : WingLeg) : ℚ :=
  match l.status, l.fillPrice with
  | .filled, some price => price * l.count + feeTotal price l.count
  | _, _ => 0

/-- The cash a window paid. -/
def cashPaid (st : V33State) : ℚ := (st.restFills.map fillCost).sum + (st.wingLegs.map legCost).sum

/-- A dollar for each netted lot. -/
def nettedCredit (st : V33State) : ℚ := (st.nettedPairs.map NettedPair.count).sum

/-- The money of a window. -/
structure Money where
  drySim : Bool
  wingBatchSets : List BatchSet
  heldLegs : List HeldLeg
  floorBooked : Option ℚ
  realizedDelta : Option ℚ
  oneLegged : Bool
  realizedUnsettled : Bool
  lotsFilled : ℚ
  nettedSets : List NettedSet
  deriving DecidableEq

/-- The record of a batch. -/
def batchSet (st : V33State) (b : WingBatch) : BatchSet :=
  ⟨b.index, qCount b.totalCount, wingsFilled st b.index, b.oneLegged, (heldOfBatch st b).length⟩

/-- The money of a window, nothing if no rung filled. -/
def computeLadderMoneyMath (st : V33State) (drySim : Bool) : Money :=
  if st.restFills.isEmpty then
    ⟨drySim, [], [], none, none, st.oneLegged, false, 0, []⟩
  else
    let held := st.wingBatches.flatMap (heldOfBatch st)
    let floor := (st.wingBatches.map (batchFloor st)).sum + nettedCredit st
    { drySim := drySim
      wingBatchSets := st.wingBatches.map (batchSet st)
      heldLegs := held
      floorBooked := some floor
      realizedDelta := some (floor - cashPaid st)
      oneLegged := st.oneLegged
      realizedUnsettled := !held.isEmpty && !drySim
      lotsFilled := qCount (filledContracts st)
      nettedSets := st.nettedPairs.map fun np =>
        ⟨np.ticker, qCount np.count, np.yesCost, np.noCost, np.realised⟩ }

/-- The row of a window. -/
def buildV33LedgerRow (closeTime : String) (m : Money) : LedgerRow where
  closeTime := closeTime
  drySim := m.drySim
  realizedUnsettled := m.realizedUnsettled
  wingBatchSets := m.wingBatchSets
  heldLegs := m.heldLegs
  unsettledLegs := if m.realizedUnsettled then m.heldLegs else []
  nettedSets := m.nettedSets
  floorBooked := m.floorBooked
  realizedDelta := m.realizedDelta

/-! ### The backfill -/

/-- What held legs pay: a dollar for each lot on the side of the result. -/
def settlementPayoff (legs : List HeldLeg) (results : String → Side) : ℚ :=
  (legs.map fun l => if results l.ticker = l.side then l.count else 0).sum

/-- The legs of a row that await settlement. -/
def LedgerRow.legs (r : LedgerRow) : List HeldLeg :=
  if r.unsettledLegs.isEmpty then r.heldLegs else r.unsettledLegs

/-- The smallest count of some legs, one if there is none. -/
def minCount (legs : List HeldLeg) : ℚ := ((legs.map HeldLeg.count).min?).getD 1

/-- A recorded lot count; zero reads as one. -/
def BatchSet.lots (b : BatchSet) : ℚ := if b.fillCount = 0 then 1 else b.fillCount

/-- The floor a row booked: the explicit one, else that of its batches, else that of its
legs. -/
def v33FloorBookedForEntry (entry : LedgerRow) (legs : List HeldLeg) : ℚ :=
  match entry.floorBooked with
  | some floor => floor
  | none =>
    if entry.wingBatchSets.isEmpty then v33SetFloorDollars legs.length (minCount legs)
    else (entry.wingBatchSets.map fun b => v33SetFloorDollars b.heldLegs b.lots).sum

/-- The backfill row of a window. -/
def buildV33BackfillRow (entry : LedgerRow) (payoff floor : ℚ) : LedgerRow where
  closeTime := entry.closeTime
  backfillOf := some entry.closeTime
  heldLegs := entry.legs
  realizedDelta := some (payoff - floor)

/-- The close times that have a backfill row. -/
def backfilled (rows : List LedgerRow) : List String :=
  rows.filterMap fun r => truthy r.backfillOf

/-- The armed rows with unsettled legs, the last of each close time where its first stood. -/
def pendingRows (rows : List LedgerRow) : Dict String LedgerRow :=
  Dict.ofList <| (rows.filter fun r =>
    !r.drySim && r.realizedUnsettled && !r.legs.isEmpty).map fun r => (r.closeTime, r)

/-- The backfill row of a window whose markets have all settled. -/
def backfillOf (fetchResult : String → Option Side) (entry : LedgerRow) : Option LedgerRow :=
  if entry.legs.all fun l => (fetchResult l.ticker).isSome then
    let payoff := settlementPayoff entry.legs fun t => (fetchResult t).getD .no
    let credit := (entry.nettedSets.map NettedSet.count).sum
    some (buildV33BackfillRow entry (payoff + credit) (v33FloorBookedForEntry entry entry.legs))
  else none

/-- The backfill rows of every unsettled window whose markets have settled. -/
def v33SettlementBackfillSweep (rows : List LedgerRow) (fetchResult : String → Option Side) :
    List LedgerRow :=
  ((pendingRows rows).entries.filter fun e => e.1 ∉ backfilled rows).filterMap fun e =>
    backfillOf fetchResult e.2

/-! ### The credit still owed -/

/-- The UTC day of a close time. -/
def utcDayOf (closeTime : String) : String := String.ofList (closeTime.toList.take 10)

/-- An armed window of the day that still awaits settlement. -/
def unsettledOn (utcDay : String) (r : LedgerRow) : Bool :=
  r.realizedUnsettled && !r.drySim && utcDayOf r.closeTime == utcDay

/-- The least and the most some held legs of `count` lots each may be paid. -/
def creditBand (held : ℕ) (count : ℚ) : ℚ × ℚ :=
  (v33SetFloorDollars held count, (min held 2 : ℕ) * count)

/-- The least and the most a row may still be paid. -/
def rowCredit (r : LedgerRow) : ℚ × ℚ :=
  if r.wingBatchSets.isEmpty then creditBand r.legs.length (minCount r.legs)
  else (r.wingBatchSets.map fun b => creditBand b.heldLegs b.lots).sum

/-- The pessimistic and the optimistic credit that rows are still owed on a day. -/
def v33PendingCredit (rows : List LedgerRow) (utcDay : String) : ℚ × ℚ :=
  ((rows.filter fun r => unsettledOn utcDay r && !(backfilled rows).contains r.closeTime).map
    rowCredit).sum

/-- The credit owed on the account: this roster's rows and the sibling's, read as one ledger. -/
def accountPendingCredit (rows sibling : List LedgerRow) (utcDay : String) : ℚ × ℚ :=
  v33PendingCredit (rows ++ sibling) utcDay

end Pilot.V33
