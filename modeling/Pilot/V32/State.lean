import Pilot.Lib.Lists
import Pilot.V33.Context

/-!
# The single-order window

The policy, the records and the state of the core that rests one bucket-NO order at a
time. Events, legs, tickers and the money primitives are those the ladder core shares.
-/

namespace Pilot.V32

open V33 (ActionKind LegOrder LegStatus Reason twinKind)

/-- The policy. -/
structure V32Params where
  /-- The margin of the rest. -/
  E : ℚ
  /-- A replace moves the price by at least this. -/
  tol : ℚ
  /-- The debounce of a replace, in milliseconds. -/
  debMs : ℤ
  /-- Quoting starts this many seconds before the close. -/
  quoteStartS : ℤ
  /-- Quoting ends this many seconds before the close. -/
  quoteEndS : ℤ
  /-- The lots of the hour. -/
  contracts : ℕ
  /-- What a wing limit adds to the ask. -/
  wingMargin : ℚ
  /-- The lowest projected lock at which a wing is retried. -/
  lockFloor : ℚ
  /-- No wing order later than this many seconds before the close. -/
  noOrdersAfterSToSettle : ℤ
  /-- The age bound of a strike book. -/
  freshnessMaxAgeS : ℚ
  /-- The age bound of the spot bucket's own book. -/
  bucketFreshnessMaxAgeS : ℚ
  /-- The lowest price of the rest. -/
  nMin : ℚ
  /-- More replacements than this in a trailing minute stand the core down. -/
  replaceRateAlarmPerMin : ℤ
  /-- The distance between neighbouring strikes. -/
  bucketWidth : ℤ

/-! ### Records -/

/-- One resting bucket-NO order. -/
structure RestOrder where
  clientOrderId : String
  orderId : Option String
  price : ℚ
  count : ℚ
  placedTs : ℚ
  /-- Acknowledged and fillable. -/
  live : Bool
  /-- Placed, awaiting its acknowledgement. -/
  pending : Bool
  bucketSd : Option ℤ
  deriving DecidableEq

/-- A fill of the rest. -/
structure RestFill where
  price : ℚ
  count : ℚ
  serverTs : ℚ
  deriving DecidableEq

/-- One taker completion leg of the batch with the given index. -/
structure WingLeg where
  ticker : String
  side : Side
  count : ℚ
  limit : ℚ
  clientOrderId : String
  status : LegStatus
  fillPrice : Option ℚ
  fillFee : Option ℚ
  batch : ℕ
  deriving DecidableEq

/-- The completion of one fill of the rest. -/
structure WingBatch where
  index : ℕ
  fillPrice : ℚ
  fillCount : ℚ
  serverTs : ℚ
  taken : Bool
  completed : Bool
  oneLegged : Bool
  deriving DecidableEq

/-! ### The state -/

/-- The window: its close and the markets found at discovery. -/
structure Window where
  closeTime : String
  closeEpoch : ℤ
  bucketMap : Dict String (ℚ × ℚ)
  shakedown : Bool
  strikeFloorMap : Dict String ℤ

/-- The books seen so far. -/
structure Books where
  strikeTops : Dict ℤ TopOfBook
  strikeTs : Dict ℤ ℚ
  strikeTickers : Dict ℤ String
  bucketTops : Dict ℤ TopOfBook
  bucketTs : Dict ℤ ℚ
  bucketTickers : Dict ℤ String

/-- The quote context of the last recompute. -/
structure Quote where
  spotSd : Option ℤ
  spotSu : Option ℤ
  W : Option ℚ
  cap : Option ℚ
  desiredN : Option ℚ
  spotBucketStale : Bool

/-- The one order slot, what it still has to fill and what was booked of it. -/
structure RestSlot where
  restLive : Option RestOrder
  restPending : Option RestOrder
  cancelInFlight : Bool
  amendInFlight : Bool
  awaitingReplace : Bool
  restBucketSd : Option ℤ
  /-- The lots of the allotment still resting; all of them while absent. -/
  restRemaining : Option ℚ
  restAllotmentDone : Bool
  /-- The lots booked of each client order id. -/
  restBookedByCoid : Dict String ℚ
  /-- The id and the price of an order whose slot was cleared with its cancel. -/
  cancelCtx : Dict String (String × ℚ)
  /-- The lots of an order booked from an amend that may be reported once more. -/
  amendCrossPending : Dict String ℚ

/-- When orders were replaced. -/
structure Pacing where
  lastReplaceTs : Option ℚ
  replaceCount : ℕ
  replaceTimes : List ℚ

/-- The fills of the rest, one batch of wings for each, and the mirrors of the batches. -/
structure Wings where
  restFills : List RestFill
  wingBatches : List WingBatch
  wingLegs : List WingLeg
  nextBatchIndex : ℕ
  partialFills : ℕ
  setsDone : ℕ
  restFill : Option RestFill
  wingsNeeded : Bool
  wingTaken : Bool
  oneLegged : Bool

/-- The stand-down latch and its labels. -/
structure StandDown where
  stoodDown : Bool
  standDownReason : Option Reason
  lastStanddownReason : Option Reason

/-- The state of one window. -/
structure V32State extends Window, Books, Quote, RestSlot, Pacing, Wings, StandDown where
  coidSeq : ℕ

/-- A decision of the core. -/
structure V32Action where
  kind : ActionKind
  ticker : Option String := none
  side : Option Side := none
  count : ℚ := 0
  price : Option ℚ := none
  expirationEpoch : Option ℤ := none
  clientOrderId : Option String := none
  orderId : Option String := none
  updatedClientOrderId : Option String := none
  legs : List LegOrder := []
  reason : Option Reason := none
  lock : Option ℚ := none
  deriving DecidableEq

/-- What a decision returns: the new state and the actions, in order. -/
structure Outcome where
  st : V32State
  acts : List V32Action

/-- The outcome without actions. -/
def V32State.quiet (st : V32State) : Outcome := ⟨st, []⟩

/-- Run the next part of a decision on the state of the first. -/
def Outcome.andThen (r : Outcome) (next : V32State → Outcome) : Outcome :=
  ⟨(next r.st).st, r.acts ++ (next r.st).acts⟩

/-- Change the state of an outcome. -/
def Outcome.mapSt (r : Outcome) (f : V32State → V32State) : Outcome := ⟨f r.st, r.acts⟩

/-- A loop over `xs` that threads the state and collects the actions. -/
def forEach {α : Type} (xs : List α) (body : α → V32State → Outcome) (st : V32State) : Outcome :=
  match xs with
  | [] => st.quiet
  | x :: rest => (body x st).andThen (forEach rest body)

/-! ### Small helpers -/

/-- The lots still resting: the allotment until a fill reduces it. -/
def restSize (p : V32Params) (st : V32State) : ℚ := qCount (st.restRemaining.getD p.contracts)

/-- The whole lots a place or an amend asks for. -/
def restPlaceCount (p : V32Params) (st : V32State) : ℤ := truncInt (restSize p st)

/-- The next client order id and the state that has minted it. -/
def mintCoid (st : V32State) : String × V32State :=
  ("v32-" ++ st.closeTime ++ "-" ++ Nat.repr (st.coidSeq + 1),
    { st with coidSeq := st.coidSeq + 1 })

/-- An action in the given mode: an order-bearing kind becomes its twin in shakedown. -/
def mk (shakedown : Bool) (a : V32Action) : V32Action :=
    { a with kind := twinKind a.kind shakedown }

/-- Update the batch of an index. -/
def replaceBatch (batches : List WingBatch) (index : ℕ) (f : WingBatch → WingBatch) :
    List WingBatch :=
  replaceFirst (fun b => b.index == index) f batches

/-- Re-derive the mirrors from the fills and the batches. -/
def syncWingMirrors (st : V32State) : V32State :=
  { st with
    restFill := st.restFills.getLast?
    wingsNeeded := st.wingBatches.any fun b => !b.completed
    wingTaken := match st.wingBatches.getLast? with
      | none => false
      | some b => b.taken
    oneLegged := st.wingBatches.any WingBatch.oneLegged }

/-- The state at the start of a window. -/
def V32State.new (closeTime : String) (closeEpoch : ℤ) (bucketMap : Dict String (ℚ × ℚ))
    (shakedown : Bool) (strikeFloorMap : Dict String ℤ) : V32State where
  closeTime := closeTime
  closeEpoch := closeEpoch
  bucketMap := bucketMap
  shakedown := shakedown
  strikeFloorMap := strikeFloorMap
  strikeTops := Dict.empty
  strikeTs := Dict.empty
  strikeTickers := Dict.empty
  bucketTops := Dict.empty
  bucketTs := Dict.empty
  bucketTickers := Dict.empty
  spotSd := none
  spotSu := none
  W := none
  cap := none
  desiredN := none
  spotBucketStale := false
  restLive := none
  restPending := none
  cancelInFlight := false
  amendInFlight := false
  awaitingReplace := false
  restBucketSd := none
  restRemaining := none
  restAllotmentDone := false
  restBookedByCoid := Dict.empty
  cancelCtx := Dict.empty
  amendCrossPending := Dict.empty
  lastReplaceTs := none
  replaceCount := 0
  replaceTimes := []
  restFills := []
  wingBatches := []
  wingLegs := []
  nextBatchIndex := 0
  partialFills := 0
  setsDone := 0
  restFill := none
  wingsNeeded := false
  wingTaken := false
  oneLegged := false
  stoodDown := false
  standDownReason := none
  lastStanddownReason := none
  coidSeq := 0

end Pilot.V32
