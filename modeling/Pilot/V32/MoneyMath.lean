import Pilot.V32.Driver
import Pilot.V33.Ledger

/-!
# The money of a single-order window

The executor keeps a list of the fills it was told of, from which the costs of a window are
read; the lots it holds are read from the batches of the core. The row of the window and its
backfill are those of the ladder's ledger, without dry runs and without netted lots.
-/

namespace Pilot.V32

open V33 (BatchSet HeldLeg LedgerRow feeTotal v33SetFloorDollars buildV33BackfillRow
  v33FloorBookedForEntry v33SettlementBackfillSweep)

/-! ### The fills of the executor -/

/-- The leg a fill belongs to. -/
inductive FillLeg where
  | rest
  | wing
  deriving DecidableEq

/-- A fill as the executor keeps it for the ledger. -/
structure FillRecord where
  leg : FillLeg
  side : Side
  ticker : String
  price : ℚ
  /-- The fee of one lot. -/
  fee : Option ℚ
  count : ℚ
  bucketSd : Option ℤ
  deriving DecidableEq

/-- The fills of a window, and the orders that are among them. -/
structure Capture where
  fills : List FillRecord
  bookedRestOids : List String
  deriving DecidableEq

/-- Keep a fill of an order, once for each order id. -/
def noteRest (k : Capture) (oid : Option String) (r : FillRecord) : Capture :=
  match oid with
  | none => { k with fills := k.fills ++ [r] }
  | some oid =>
    if oid ∈ k.bookedRestOids then k else ⟨k.fills ++ [r], oid :: k.bookedRestOids⟩

/-- Keep a fill a private frame or the poll reports, at the price the order rested at. -/
def recordFill (k : Capture) (rec : RestRecord) (execFee : Option ℚ) (count : ℚ) : Capture :=
  noteRest k rec.orderId ⟨.rest, .no, rec.ticker, rec.price, execFee, count, rec.bucketSd⟩

/-- Keep the lots a cancel confirm reports; a maker pays no fee. -/
def recordCancelRace (k : Capture) (rec : RestRecord) (filled : ℚ) : Capture :=
  if 0 < filled ∧ rec.orderId.isSome then recordFill k rec (some 0) filled else k

/-- Keep the lots an amend crossed, at the average price of the reply. -/
def recordAmend (k : Capture) (rec : RestRecord) (crossed : ℚ) (average fee : Option ℚ) : Capture :=
  if 0 < crossed then
    noteRest k rec.orderId
      ⟨.rest, .no, rec.ticker, average.getD rec.price, some (fee.getD 0), crossed, rec.bucketSd⟩
  else k

/-- Keep the lots of a taker leg. -/
def recordWing (k : Capture) (leg : WingLeg) (lots : ℚ) (average fee : Option ℚ) : Capture :=
  if 0 < lots then
    { k with
      fills := k.fills ++
        [⟨.wing, leg.side, leg.ticker, average.getD leg.limit, fee, lots, none⟩] }
  else k

/-! ### The costs -/

/-- The fee of all lots of a fill: the one of a single lot as it stands, that of any other
count by the fee law, and none where the fee is zero or absent. -/
def fillTotalFee (f : FillRecord) : ℚ :=
  let per := f.fee.getD 0
  if per = 0 then 0 else if f.count = 1 then per else feeTotal f.price f.count

/-- What a fill cost. -/
def fillCost (f : FillRecord) : ℚ := f.price * f.count + fillTotalFee f

/-! ### The legs held -/

/-- The fills of the rest. -/
def restRecords (fills : List FillRecord) : List FillRecord := fills.filter fun f => f.leg = .rest

/-- The market of a fill, else that of its bucket. -/
def recordTicker (st : V32State) (f : FillRecord) : Option String :=
  (truthy (some f.ticker)).or (truthy (f.bucketSd.bind fun sd => st.bucketTickers.get? sd))

/-- The bucket market of a batch no fill is left for: that of the spot, else the first one
recorded, else that of the rest's bucket. -/
def fallbackTicker (st : V32State) (records : List FillRecord) : Option String :=
  ((st.spotSd.bind fun sd => st.bucketTickers.get? sd).or
    ((records.find? fun f => f.ticker ≠ "").map FillRecord.ticker)).or
    (st.restBucketSd.bind fun sd => st.bucketTickers.get? sd)

/-- The lots of the next record. -/
def headLots : List FillRecord → ℚ
  | [] => 0
  | f :: _ => f.count

/-- Pass over the records whose lots are used up; `left` are those of the first. -/
def skipSpent : List FillRecord → ℚ → List FillRecord × ℚ
  | [], left => ([], left)
  | f :: records, left =>
    if left ≤ 0 then skipSpent records (headLots records) else (f :: records, left)

/-- The bucket market of each batch: the records are used up in order, batch after batch. -/
def batchTickers (st : V32State) (fallback : Option String) :
    List WingBatch → List FillRecord → ℚ → List (Option String)
  | [], _, _ => []
  | b :: batches, records, left =>
    match skipSpent records left with
    | ([], left) => fallback :: batchTickers st fallback batches [] left
    | (f :: records, left) =>
      (recordTicker st f).or fallback ::
        batchTickers st fallback batches (f :: records) (left - b.fillCount)

/-- A filled wing, as it is listed. -/
def heldWing (l : WingLeg) : Option HeldLeg :=
  if l.status = .filled then some ⟨l.ticker, l.side, qCount l.count⟩ else none

/-- The legs a batch holds to settlement: its bucket NO under a market, and its filled wings. -/
def heldOfBatch (st : V32State) (b : WingBatch) (ticker : Option String) : List HeldLeg :=
  ((truthy ticker).toList.map fun t => ⟨t, .no, qCount b.fillCount⟩) ++
    (batchLegs st b.index).filterMap heldWing

/-- What the legs of a set guarantee: a dollar for each lot of every leg but one. -/
def v32SetFloorDollars (held : ℕ) (count : ℚ) : ℚ := v33SetFloorDollars held count

/-- The batches, each with its bucket market. -/
def batchesOnMarkets (st : V32State) (fills : List FillRecord) : List (WingBatch × Option String) :=
  let records := restRecords fills
  st.wingBatches.zip
    (batchTickers st (fallbackTicker st records) st.wingBatches records (headLots records))

/-- What the filled wings of some legs cost for one lot. -/
def wingsPaid (legs : List WingLeg) : ℚ :=
  ((legs.filter fun l => l.status = .filled).map fun l =>
    (l.fillPrice.map fun price => price + fee price).getD 0).sum

/-- The lock a completed batch realized. -/
def batchLock (st : V32State) (b : WingBatch) : Option ℚ :=
  if wingsFilled st b.index then
    some (V33.lockValue b.fillPrice (wingsPaid (batchLegs st b.index)))
  else none

/-- The record of a batch; its bucket NO always counts among its legs. -/
def batchSetRecord (st : V32State) (b : WingBatch) : BatchSet :=
  ⟨b.index, qCount b.fillCount, wingsFilled st b.index, b.oneLegged,
    1 + ((batchLegs st b.index).filter fun l => l.status = .filled).length⟩

/-- The money of a window. -/
structure Money where
  heldLegs : List HeldLeg
  realizedLock : Option ℚ
  oneLegged : Bool
  realizedUnsettled : Bool
  realizedDelta : ℚ
  floorBooked : ℚ
  wingBatchSets : List BatchSet
  lotsFilled : ℚ
  lotsUnfilledAtQuoteEnd : ℚ
  partialFills : ℕ

/-- The money of a window, nothing without a fill. -/
def computeMoneyMath (st : V32State) (fills : List FillRecord) (contracts : ℕ) : Option Money :=
  if fills.isEmpty ∨ st.restFill.isNone then none
  else
    let markets := batchesOnMarkets st fills
    let held := markets.flatMap fun e => heldOfBatch st e.1 e.2
    let floor := (markets.map fun e =>
      v32SetFloorDollars (heldOfBatch st e.1 e.2).length e.1.fillCount).sum
    let lots := (st.restFills.map RestFill.count).sum
    some
      { heldLegs := held
        realizedLock := (st.wingBatches.filterMap (batchLock st)).head?
        oneLegged := st.oneLegged
        realizedUnsettled := !held.isEmpty
        realizedDelta := floor - (fills.map fillCost).sum
        floorBooked := floor
        wingBatchSets := st.wingBatches.map (batchSetRecord st)
        lotsFilled := qCount lots
        lotsUnfilledAtQuoteEnd := max 0 (qCount (contracts - lots))
        partialFills := st.partialFills }

/-! ### The rows -/

/-- The row of a window. -/
def buildV32LedgerRow (closeTime : String) (m : Option Money) : LedgerRow where
  closeTime := closeTime
  realizedUnsettled := m.any Money.realizedUnsettled
  wingBatchSets := (m.map Money.wingBatchSets).getD []
  heldLegs := (m.map Money.heldLegs).getD []
  unsettledLegs :=
    if m.any Money.realizedUnsettled then (m.map Money.heldLegs).getD [] else []
  floorBooked := m.map Money.floorBooked
  realizedDelta := m.map Money.realizedDelta

/-- The floor a row booked. -/
def v32FloorBookedForEntry (entry : LedgerRow) (legs : List HeldLeg) : ℚ :=
  v33FloorBookedForEntry entry legs

/-- The backfill row of a window. -/
def buildV32BackfillRow (entry : LedgerRow) (payoff floor : ℚ) : LedgerRow :=
  buildV33BackfillRow entry payoff floor

/-- The backfill rows of every unsettled window whose markets have settled. -/
def v32SettlementBackfillSweep (rows : List LedgerRow) (fetchResult : String → Option Side) :
    List LedgerRow :=
  v33SettlementBackfillSweep rows fetchResult

end Pilot.V32
