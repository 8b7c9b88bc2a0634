import Pilot.Lib.Dict
import Pilot.Lib.Rounding

/-!
# Policy, events and actions

The frozen policy the core reads, the events it consumes and the decisions it
emits. Money and lot counts are exact decimals, times are epoch seconds.
-/

namespace Pilot

/-- The whole-cent grid of prices, and the 0.01 grid of lot counts. -/
def cent : ℚ := 1 / 100

/-- The highest price of a taker limit. -/
def limitCeiling : ℚ := 99 / 100

/-- A lot count at two decimals. -/
def qCount (c : ℚ) : ℚ := quantize 100 c

/-- A count with two decimals is left as it is. -/
theorem qCount_of_onGrid {c : ℚ} (h : OnGrid 100 c) : qCount c = c :=
  quantize_of_onGrid (by norm_num) h

/-- A whole count is left as it is. -/
@[simp] theorem qCount_natCast (n : ℕ) : qCount n = n :=
  qCount_of_onGrid (onGrid_natCast (by norm_num) n)

/-- A quantized count has two decimals. -/
theorem onGrid_qCount (c : ℚ) : OnGrid 100 (qCount c) := onGrid_quantize 100 c

/-- Quantizing a count makes it no negative one. -/
theorem qCount_nonneg {c : ℚ} (h : 0 ≤ c) : 0 ≤ qCount c := by
  unfold qCount quantize
  have hround := abs_le.mp (abs_roundHalfEven_sub_le (c * 100))
  have hlow : (-1 : ℚ) < roundHalfEven (c * 100) := by
    have : 0 ≤ c * 100 := by positivity
    linarith [hround.1]
  have hint : 0 ≤ roundHalfEven (c * 100) := by
    have : (-1 : ℤ) < roundHalfEven (c * 100) := by exact_mod_cast hlow
    omega
  have : (0 : ℚ) ≤ roundHalfEven (c * 100) := by exact_mod_cast hint
  push_cast
  positivity

/-- Quantizing twice is quantizing once. -/
@[simp] theorem qCount_qCount (c : ℚ) : qCount (qCount c) = qCount c :=
  qCount_of_onGrid (onGrid_qCount c)

/-- The taker fee of one leg per contract, rounded up to the fourth decimal. -/
def fee (price : ℚ) : ℚ := (⌈(7 / 100 : ℚ) * price * (1 - price) * 10000⌉ : ℚ) / 10000

/-- A text that is there and not empty. -/
def truthy (id : Option String) : Option String := id.filter (· ≠ "")

/-- The side of a binary market. -/
inductive Side where
  | yes
  | no
  deriving DecidableEq, Repr

/-- The top of one market's book. -/
structure TopOfBook where
  /-- The best YES bid. -/
  yesBid : Option ℚ
  /-- The best YES ask, one minus the best NO bid. -/
  yesAsk : Option ℚ
  /-- The best NO bid. -/
  noBid : Option ℚ
  /-- The best NO ask, one minus the best YES bid. -/
  noAsk : Option ℚ
  /-- The book saw a gap or a malformed delta since its last snapshot. -/
  suspect : Bool
  deriving DecidableEq

namespace V33

/-- The stall policy of the print-through trigger. -/
inductive PrintThroughPolicy where
  | completeElseUnwind
  | complete
  | unwind
  deriving DecidableEq

/-- The policy. The four propositions are checks of `load_v33_params`; the weights are
the resolved vector, so their number is the ladder depth. -/
structure V33Params where
  /-- The margin of the ladder's top rung. -/
  eMin : ℚ
  /-- The ladder depth `K`. -/
  rungs : ℕ
  /-- The lots of each rung, top first; a rung of weight zero is never placed. -/
  rungLots : List ℕ
  /-- The debounce of the start of a convergence, in milliseconds. -/
  debMs : ℤ
  /-- Quoting starts this many seconds before the close. -/
  quoteStartS : ℤ
  /-- Quoting ends this many seconds before the close. -/
  quoteEndS : ℤ
  /-- What a wing limit adds to the ask. -/
  wingMargin : ℚ
  /-- The lowest projected lock per contract at which a wing is retried. -/
  lockFloor : ℚ
  /-- No wing order later than this many seconds before the close. -/
  noOrdersAfterSToSettle : ℤ
  /-- The age bound of the shadow completion. -/
  freshnessMaxAgeS : ℚ
  /-- The age bound of the spot bucket's own book. -/
  bucketFreshnessMaxAgeS : ℚ
  /-- Fills within this of the first share one wing batch, in milliseconds. -/
  wingCoalesceMs : ℤ
  /-- The number of amends in flight at once. -/
  maxAmendsInFlight : ℕ
  /-- Quoting stops after this many rung fills. -/
  maxSetsPerHour : ℤ
  /-- The lowest price of a rung. -/
  nMin : ℚ
  /-- More replacements than this in a trailing minute stand the core down. -/
  replaceRateAlarmPerMin : ℤ
  /-- The distance between neighbouring strikes. -/
  bucketWidth : ℤ
  /-- The debounce of a bucket switch, in milliseconds. -/
  bucketSwitchDebMs : ℤ
  /-- How far inside the new bucket the implied spot must sit. -/
  bucketSwitchHysteresisUsd : ℤ
  /-- A switch pending this long commits without the hysteresis. -/
  bucketSwitchMaxPendingMs : ℤ
  /-- How long a stale wing holds the rests before they are cancelled. -/
  standDownHoldMs : ℤ
  /-- The strike connection is dead after this many seconds of silence. -/
  strikeFeedDeadS : ℚ
  /-- The loose age bound of one wing's book. -/
  wingBookMaxAgeS : ℚ
  /-- Whether wings are taken early off a bucket print. -/
  printThrough : Bool
  /-- How close to a rung's offer a print must land, in cents. -/
  printThroughTicks : ℤ
  /-- What the early wing limit adds to the ask, in cents. -/
  printThroughSlackC : ℤ
  /-- A trigger without a rung fill for this long has stalled, in milliseconds. -/
  printThroughStallMs : ℤ
  /-- The lowest lock at which a stalled trigger is completed, in cents. -/
  printThroughMinLockC : ℤ
  /-- What a stalled trigger does. -/
  printThroughPolicy : PrintThroughPolicy
  /-- The margins the shadow tracks. -/
  shadowEs : List ℚ
  rungs_pos : 1 ≤ rungs
  rungLots_length : rungLots.length = rungs
  maxAmendsInFlight_pos : 1 ≤ maxAmendsInFlight
  maxPending_ge_deb : bucketSwitchDebMs ≤ bucketSwitchMaxPendingMs

/-! ### Events -/

/-- A top-of-book update of one market. `bookTs` is the frame's own time. -/
structure BookUpdate where
  marketTicker : String
  top : TopOfBook
  serverTs : ℚ
  bookTs : Option ℚ

/-- A public print. -/
structure Trade where
  marketTicker : String
  yesPrice : ℚ
  takerSide : Side
  count : ℚ
  serverTs : ℚ

/-- The channel that reported a fill. -/
inductive FillSource where
  | ws
  | poll
  deriving DecidableEq

/-- A private fill of one of our orders. -/
structure Fill where
  orderId : Option String
  clientOrderId : String
  count : ℚ
  price : Option ℚ
  side : Side
  serverTs : ℚ
  marketTicker : Option String
  source : Option FillSource

/-- A create is acknowledged: the order rests. -/
structure OrderAck where
  clientOrderId : String
  orderId : String
  serverTs : ℚ

/-- An order is off the book; the count is its cumulative fill. -/
structure OrderCancelled where
  orderId : Option String
  serverTs : ℚ
  filledCountBeforeCancel : ℚ
  clientOrderId : Option String
  price : Option ℚ
  marketTicker : Option String

/-- An amend is confirmed; the order id persists, the client order id is the new one. -/
structure OrderAmended where
  orderId : String
  clientOrderId : String
  price : Option ℚ
  serverTs : ℚ
  fillCount : ℚ
  averageFillPrice : Option ℚ

/-- What the core consumes. -/
inductive Event where
  | bookUpdate (e : BookUpdate)
  | trade (e : Trade)
  | orderAck (e : OrderAck)
  | orderAmended (e : OrderAmended)
  | orderCancelled (e : OrderCancelled)
  | fill (e : Fill)
  | clockTick (serverTs : ℚ)

/-- The only clock of the core. -/
def Event.serverTs : Event → ℚ
  | .bookUpdate e => e.serverTs
  | .trade e => e.serverTs
  | .orderAck e => e.serverTs
  | .orderAmended e => e.serverTs
  | .orderCancelled e => e.serverTs
  | .fill e => e.serverTs
  | .clockTick t => t

/-! ### Rests -/

/-- One resting bucket-NO rung. The rung and its margin are labels derived from the price. -/
structure RestOrder where
  clientOrderId : String
  orderId : Option String
  price : ℚ
  /-- The lots still resting. -/
  count : ℚ
  placedTs : ℚ
  /-- Acknowledged and fillable. -/
  live : Bool
  /-- Placed, awaiting its acknowledgement. -/
  pending : Bool
  bucketSd : Option ℤ
  rung : ℤ
  eRung : ℚ
  deriving DecidableEq

/-! ### Actions -/

/-- The kinds of `ActionKind` and `V33ActionKind`, with the shakedown twins. -/
inductive ActionKind where
  | placeRest
  | cancelRest
  | amendRest
  | takeWings
  | retryWing
  | standDown
  | shadowFillOutsideWindow
  | shadowFillBelowMin
  | wouldPlaceRest
  | wouldCancelRest
  | wouldAmendRest
  | wouldTakeWings
  | takeBucketNo
  | unwindWings
  | wouldTakeBucketNo
  | wouldUnwindWings
  | wingNetted
  | alarm
  deriving DecidableEq

/-- The kind emitted in the given mode: in shakedown an order-bearing kind becomes its twin. -/
def twinKind (kind : ActionKind) (shakedown : Bool) : ActionKind :=
  if shakedown then
    match kind with
    | .placeRest => .wouldPlaceRest
    | .cancelRest => .wouldCancelRest
    | .amendRest => .wouldAmendRest
    | .takeWings => .wouldTakeWings
    | .retryWing => .wouldTakeWings
    | .takeBucketNo => .wouldTakeBucketNo
    | .unwindWings => .wouldUnwindWings
    | k => k
  else kind

/-- Why the core stands down, holds or raises an alarm. -/
inductive Reason where
  | stoodDown
  | pastQuoteEnd
  | noSpotBucket
  | staleBucket
  | staleOrMissingWing
  | nBelowMin
  | replaceRate
  | staleOrMissingWingHold
  | staleOrMissingWingCancel
  | staleOrMissingWingResume
  | fillBucketUnknown
  | printThroughPartial
  | printThroughCompleteShort
  | cancelUnattributed
  | orphanRungFillUnpriced
  | orphanFillNotBucket
  | orphanRungFillHedged
  deriving DecidableEq

/-- What a leg order does: buy it, sell it back, or record that the venue netted it. -/
inductive LegAction where
  | buy
  | sell
  | net
  deriving DecidableEq

/-- One taker leg of an action; a deferred leg has no limit yet. -/
structure LegOrder where
  ticker : String
  side : Side
  action : LegAction
  count : ℚ
  limit : Option ℚ
  deriving DecidableEq

/-- A decision of the core. -/
structure V33Action where
  kind : ActionKind
  ticker : Option String := none
  side : Option Side := none
  count : ℚ := 0
  price : Option ℚ := none
  expirationEpoch : Option ℤ := none
  clientOrderId : Option String := none
  orderId : Option String := none
  updatedClientOrderId : Option String := none
  legs : List LegOrder := []
  reason : Option Reason := none
  lock : Option ℚ := none
  shadowE : Option ℚ := none
  offer : Option ℚ := none
  printPrice : Option ℚ := none
  tToClose : Option ℚ := none
  /-- Ghost: the ladder entry a cancel or an amend is about. The source's action has no such
  field and nothing reads it but the statements about cancels and amends. -/
  rest : Option RestOrder := none
  deriving DecidableEq

end V33

end Pilot
