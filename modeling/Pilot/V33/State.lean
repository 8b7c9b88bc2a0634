import Pilot.Lib.Lists
import Pilot.V33.Vocabulary

/-!
# The window state

The records the core carries and its state, grouped by what they describe: the
market, the quote context, the ladder, the fills, the wings, the latches and the
pacing. Every decision returns a new state and a list of actions.
-/

namespace Pilot.V33

/-! ### Records -/

/-- A fill of one rung. -/
structure RungFill where
  rung : ℤ
  eRung : ℚ
  price : ℚ
  count : ℚ
  serverTs : ℚ
  coid : Option String
  orderId : Option String
  W : Option ℚ
  nTop : Option ℚ
  bucketTicker : Option String
  /-- The bucket the rung rested on. -/
  bucketSd : Option ℤ
  bucketSu : Option ℤ
  /-- Bought by the stall branch as a taker. -/
  taker : Bool
  /-- The configured lots of the fill's rung. -/
  weight : Option ℕ
  /-- The price is no rung of the current ladder. -/
  orphan : Bool
  deriving DecidableEq

/-- The state of a wing leg. -/
inductive LegStatus where
  | pending
  | filled
  | unfilled
  deriving DecidableEq

/-- One taker completion leg of the batch with the given index. -/
structure WingLeg where
  ticker : String
  side : Side
  count : ℚ
  limit : ℚ
  clientOrderId : String
  status : LegStatus
  fillPrice : Option ℚ
  fillFee : Option ℚ
  batch : ℕ
  lastRetryTs : Option ℚ
  /-- The lots the venue netted against the opposite side. -/
  netted : ℚ
  deriving DecidableEq

/-- The rung fills coalesced into one pair of wings. -/
structure WingBatch where
  index : ℕ
  serverTs : ℚ
  fills : List RungFill
  taken : Bool
  completed : Bool
  oneLegged : Bool
  printThrough : Bool
  /-- The lots pre-hedged by a print-through batch. -/
  takenCount : ℚ
  resolved : Bool
  /-- The bucket the batch's rungs filled on. -/
  bucketSd : Option ℤ
  retries : ℕ
  deriving DecidableEq

/-- The lots of the fills of a batch. -/
def WingBatch.totalCount (b : WingBatch) : ℚ := (b.fills.map RungFill.count).sum

/-- The lots the legs of a batch were sized to. -/
def WingBatch.legCount (b : WingBatch) : ℚ := if b.printThrough then b.takenCount else b.totalCount

/-- Lots of a YES and a NO leg on one market that the venue netted. -/
structure NettedPair where
  ticker : String
  count : ℚ
  yesCost : ℚ
  noCost : ℚ
  realised : ℚ
  yesBatch : ℕ
  noBatch : ℕ
  serverTs : ℚ
  deriving DecidableEq

/-- How a print-through trigger ended. -/
inductive Resolution where
  | filled
  | complete
  | unwind
  | partialFill
  deriving DecidableEq

/-- One early hedge: the batch it took and the rungs it pre-hedged. -/
structure PrintThroughTrigger where
  batchIndex : ℕ
  rungCoids : List String
  rungPrices : List ℚ
  count : ℚ
  triggerTs : ℚ
  yesPrint : ℚ
  wAtTrigger : Option ℚ
  nTopAtTrigger : Option ℚ
  lockAtTrigger : Option ℚ
  yesAskAtTrigger : Option ℚ
  noAskAtTrigger : Option ℚ
  filledCoids : List String
  resolved : Bool
  resolution : Option Resolution
  shortfall : ℚ
  completePrice : Option ℚ
  lockAtCompletion : Option ℚ
  roundtripCost : Option ℚ
  resolvedTs : Option ℚ
  /-- The rests are being cancelled; the resolution waits for the confirms. -/
  stallPending : Bool
  pendingCancels : List String
  completeCoid : Option String
  deriving DecidableEq

/-- The rung fills that will share the next batch. -/
structure CoalesceGroup where
  index : ℕ
  firstTs : ℚ
  fills : List RungFill
  deriving DecidableEq

/-- One amend in flight. -/
structure RollPending where
  orderId : Option String
  oldCoid : String
  newCoid : String
  targetPrice : ℚ
  targetMargin : ℤ
  startedTs : ℚ
  deriving DecidableEq

/-- What is remembered of a cancelled order. -/
structure CancelCtx where
  coid : String
  price : ℚ
  rung : ℤ
  eRung : ℚ
  bucketSd : Option ℤ
  deriving DecidableEq

/-- The desired state of a margin slot. -/
inductive MarginSlot where
  | noOrder
  | openOrder
  | filled
  deriving DecidableEq

/-- A shadow fill, completed when both wings price. -/
structure ShadowFill where
  E : ℚ
  n : ℚ
  offer : ℚ
  printPrice : ℚ
  count : ℚ
  serverTs : ℚ
  wAtCompletion : Option ℚ
  lock : Option ℚ
  deriving DecidableEq

/-- The shadow of one margin. -/
structure ShadowSub where
  E : ℚ
  n : Option ℚ
  filled : Bool
  fill : Option ShadowFill
  awaitingCompletion : Bool
  deriving DecidableEq

/-- Why the wing gate gave no price. -/
inductive WingCause where
  | feedDead
  | wingMissingSd
  | wingMissingSu
  | wingSuspectSd
  | wingSuspectSu
  | wingTooOldSd
  | wingTooOldSu
  | wingNoAskSd
  | wingNoAskSu
  | wingPriceInvalidSd
  | wingPriceInvalidSu
  | unknown
  deriving DecidableEq

/-! ### The state -/

/-- The window: its close and the markets found at discovery. -/
structure Window where
  closeTime : String
  closeEpoch : ℤ
  bucketMap : Dict String (ℚ × ℚ)
  shakedown : Bool
  strikeFloorMap : Dict String ℤ
  coidPrefix : String

/-- The books seen so far. -/
structure Books where
  strikeTops : Dict ℤ TopOfBook
  strikeTs : Dict ℤ ℚ
  strikeTickers : Dict ℤ String
  bucketTops : Dict ℤ TopOfBook
  bucketTs : Dict ℤ ℚ
  bucketTickers : Dict ℤ String
  /-- The latest time of any strike frame. -/
  strikeFeedTs : Option ℚ

/-- The quote context of the last recompute. -/
structure Quote where
  spotSd : Option ℤ
  spotSu : Option ℤ
  W : Option ℚ
  cap : Option ℚ
  nTop : Option ℚ
  spotBucketStale : Bool
  pendingSwitchSd : Option ℤ
  pendingSwitchSince : Option ℚ
  pendingSwitchHystMet : Bool
  wingSubCause : Option WingCause

/-- The ladder, its amends in flight and its cancels. -/
structure Ladder where
  ladder : List RestOrder
  marginState : List MarginSlot
  filledAt : Dict ℤ RungFill
  rollsInFlight : List RollPending
  awaitingReplace : Bool
  outstandingCancels : ℕ
  cancelPendingPx : Dict String ℚ
  restBucketSd : Option ℤ
  cancelCtx : Dict String CancelCtx

/-- The rung fills and what the channels reported. -/
structure FillLog where
  restFills : List RungFill
  rungsFilled : ℕ
  restBookedByCoid : Dict String ℚ
  amendCrossPending : Dict String ℚ
  fillSeenByCoid : Dict String ℚ

/-- The wing batches and their legs. -/
structure Wings where
  coalesceOpen : Option CoalesceGroup
  wingBatches : List WingBatch
  wingLegs : List WingLeg
  nextBatchIndex : ℕ
  setsDone : ℚ
  oneLegged : Bool
  nettedPairs : List NettedPair
  printThroughTriggers : List PrintThroughTrigger
  ptOneLegged : Bool

/-- The latches of the window. -/
structure Latches where
  bucketUnknown : Bool
  restAllotmentDone : Bool
  ptStoodDown : Bool
  stoodDown : Bool

/-- Pacing, stand-down labels and the shadow: nothing here names an order. -/
structure Pacing where
  convergingDir : ℤ
  lastReplaceTs : Option ℚ
  replaceCount : ℕ
  replaceTimes : List ℚ
  rollCount : ℕ
  rollSingleOrderCount : ℕ
  standDownReason : Option Reason
  lastStanddownReason : Option Reason
  holdReason : Option Reason
  holdSince : Option ℚ
  holdSubCause : Option WingCause
  shadows : List ShadowSub

/-- The state of one window. -/
structure V33State extends
    Window, Books, Quote, Ladder, FillLog, Wings, Latches, Pacing where
  coidSeq : ℕ

/-- What a decision returns: the new state and the actions, in order. -/
structure Outcome where
  st : V33State
  acts : List V33Action

/-- The outcome without actions. -/
def V33State.quiet (st : V33State) : Outcome := ⟨st, []⟩

/-- Run the next part of a decision on the state of the first. -/
def Outcome.andThen (r : Outcome) (next : V33State → Outcome) : Outcome :=
  ⟨(next r.st).st, r.acts ++ (next r.st).acts⟩

/-- Change the state of an outcome. -/
def Outcome.mapSt (r : Outcome) (f : V33State → V33State) : Outcome := ⟨f r.st, r.acts⟩

/-- A loop over `xs` that threads the state and collects the actions. -/
def forEach {α : Type} (xs : List α) (body : α → V33State → Outcome) (st : V33State) : Outcome :=
  match xs with
  | [] => st.quiet
  | x :: rest => (body x st).andThen (forEach rest body)

/-! ### Small helpers -/

/-- `E_min` in whole cents: the margin index of the top rung. -/
def eMinCents (p : V33Params) : ℤ := roundHalfEven (p.eMin / cent)

/-- The configured lots of rung `k`, zero out of range. -/
def weightOfRung (p : V33Params) (k : ℤ) : ℕ :=
  if 0 ≤ k ∧ k < p.rungLots.length then p.rungLots.getD k.toNat 0 else 0

/-- The configured lots of margin slot `m`. -/
def weightOfMargin (p : V33Params) (m : ℤ) : ℕ := weightOfRung p (m - eMinCents p)

/-- The contracts of the hour. -/
def allotment (p : V33Params) : ℕ := p.rungLots.sum

/-- The margin label of a price. -/
def eRungOf (p : V33Params) (nTop price : ℚ) : ℚ := p.eMin + (nTop - price)

/-- The rung of a price: its distance from the top in cents, negative above the top. -/
def rungOf (nTop price : ℚ) : ℤ := roundHalfEven ((nTop - price) / cent)

/-- The margin index of a price. -/
def marginOf (p : V33Params) (nTop price : ℚ) : ℤ := eMinCents p + rungOf nTop price

/-- The price of margin slot `m`. -/
def priceOfMargin (p : V33Params) (nTop : ℚ) (m : ℤ) : ℚ := nTop - (m - eMinCents p : ℤ) * cent

/-- The margins at which an order is wanted, ascending. -/
def openSlots (st : V33State) : List ℕ :=
  (List.range st.marginState.length).filter fun m => st.marginState[m]? = some .openOrder

/-- The contracts resting on the ladder. -/
def restingContracts (st : V33State) : ℚ := (st.ladder.map RestOrder.count).sum

/-- The contracts filled this hour. -/
def filledContracts (st : V33State) : ℚ := (st.restFills.map RungFill.count).sum

/-- Re-derive the `oneLegged` mirror from the batches. -/
def syncWingMirrors (st : V33State) : V33State :=
  { st with oneLegged := st.wingBatches.any WingBatch.oneLegged || st.ptOneLegged }

/-- The first ladder order with the given client order id. -/
def orderOf (st : V33State) (coid : String) : Option RestOrder :=
  st.ladder.find? fun o => o.clientOrderId == coid

/-- Update the order with the given client order id. -/
def replaceOrder (ladder : List RestOrder) (coid : String) (f : RestOrder → RestOrder) :
    List RestOrder :=
  replaceFirst (fun o => o.clientOrderId == coid) f ladder

/-- The ladder without the order of the given client order id. -/
def dropOrder (ladder : List RestOrder) (coid : String) : List RestOrder :=
  ladder.filter fun o => o.clientOrderId ≠ coid

/-- The next client order id and the state that has minted it. -/
def mintCoid (st : V33State) : String × V33State :=
  (st.coidPrefix ++ st.closeTime ++ "-" ++ Nat.repr (st.coidSeq + 1),
    { st with coidSeq := st.coidSeq + 1 })

/-- An action in the given mode: an order-bearing kind becomes its twin in shakedown. -/
def mk (shakedown : Bool) (a : V33Action) : V33Action :=
    { a with kind := twinKind a.kind shakedown }

/-- The state at the start of a window. -/
def V33State.new (closeTime : String) (closeEpoch : ℤ) (bucketMap : Dict String (ℚ × ℚ))
    (p : V33Params) (shakedown : Bool) (strikeFloorMap : Dict String ℤ) (coidPrefix : String) :
    V33State where
  closeTime := closeTime
  closeEpoch := closeEpoch
  bucketMap := bucketMap
  shakedown := shakedown
  strikeFloorMap := strikeFloorMap
  coidPrefix := coidPrefix
  strikeTops := Dict.empty
  strikeTs := Dict.empty
  strikeTickers := Dict.empty
  bucketTops := Dict.empty
  bucketTs := Dict.empty
  bucketTickers := Dict.empty
  strikeFeedTs := none
  spotSd := none
  spotSu := none
  W := none
  cap := none
  nTop := none
  spotBucketStale := false
  pendingSwitchSd := none
  pendingSwitchSince := none
  pendingSwitchHystMet := false
  wingSubCause := none
  ladder := []
  marginState := (List.range (eMinCents p + p.rungs).toNat).map fun m =>
    if eMinCents p ≤ m ∧ (m : ℤ) ≤ eMinCents p + p.rungs - 1 ∧
        0 < weightOfRung p (m - eMinCents p) then .openOrder
    else .noOrder
  filledAt := Dict.empty
  rollsInFlight := []
  awaitingReplace := false
  outstandingCancels := 0
  cancelPendingPx := Dict.empty
  restBucketSd := none
  cancelCtx := Dict.empty
  restFills := []
  rungsFilled := 0
  restBookedByCoid := Dict.empty
  amendCrossPending := Dict.empty
  fillSeenByCoid := Dict.empty
  coalesceOpen := none
  wingBatches := []
  wingLegs := []
  nextBatchIndex := 0
  setsDone := 0
  oneLegged := false
  nettedPairs := []
  printThroughTriggers := []
  ptOneLegged := false
  bucketUnknown := false
  restAllotmentDone := false
  ptStoodDown := false
  stoodDown := false
  convergingDir := 0
  lastReplaceTs := none
  replaceCount := 0
  replaceTimes := []
  rollCount := 0
  rollSingleOrderCount := 0
  standDownReason := none
  lastStanddownReason := none
  holdReason := none
  holdSince := none
  holdSubCause := none
  shadows := p.shadowEs.map fun E => ⟨E, none, false, none, false⟩
  coidSeq := 0

end Pilot.V33
