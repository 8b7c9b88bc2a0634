import Mathlib.Algebra.Order.Floor.Ring
import Mathlib.Data.List.Sort
import Pilot.Lib.SignificantDigits
import Pilot.V32.OrderCalls

/-!
# Taking the wings on the wire

A wing leg is taken in chunks of at most the cap of the proxy, sent in sub-batches that fit the
write bucket. Each chunk is read from the reply of its sub-batch. For a leg with a chunk whose
outcome is not known, the fills of the venue are asked for, and what they show beyond the chunks
that were read is booked on the leg.
-/

namespace Pilot.V33.Takes

open V1 (Json OrderResponse toDecimal normalizeFillToSide parseSingleResponse parseBatchResponse)
open V32.Calls (Net post)

/-! ### The executor -/

/-- A leg of a batch. -/
abbrev LegKey := ℕ × Side

/-- The batch and the side of a leg. -/
def legKey (leg : WingLeg) : LegKey := (leg.batch, leg.side)

/-- A wing fill as the executor records it. -/
structure WingFill where
  side : Side
  ticker : String
  price : ℚ
  fee : Option ℚ
  count : ℚ
  ts : ℚ
  path : String
  clientOrderId : Option String
  deriving DecidableEq

/-- What a take of the wings reads and writes. -/
structure WingExecutor where
  wingCap : ℕ
  one_le_wingCap : 1 ≤ wingCap
  bucketSize : ℚ
  exchByTicker : Dict String ℤ
  wingCoidPrefix : String
  wingCoidSeq : ℕ
  /-- The orders whose fills are attributed. -/
  wingOrderIds : List String
  /-- The lots taken for each leg. -/
  wingFilled : LegKey → ℚ
  wingNotional : LegKey → ℚ
  fills : List WingFill

/-- The lots of a leg not yet taken. -/
def remaining (x : WingExecutor) (leg : WingLeg) : ℚ := leg.count - x.wingFilled (legKey leg)

/-! ### Chunks -/

/-- An order that takes a part of a leg, and its count and price as they are sent. -/
structure WingChunk where
  clientOrderId : String
  owner : LegKey
  ticker : String
  exchangeIndex : ℤ
  count : ℚ
  wireCount : ℚ
  wirePrice : ℚ
  deriving DecidableEq

/-- The digits that a decimal result is rounded to. -/
def decimalPrecision : ℕ := 28

/-- The lots of the chunks of a count. The quotient is rounded before its ceiling is taken; the
differences of a count of so many digits and of multiples of the cap are exact. -/
def chunkCounts (cap : ℕ) (count : ℚ) : List ℚ :=
  (List.range ⌈roundDigits decimalPrecision (count / cap)⌉.toNat).map fun c : ℕ =>
    min (cap : ℚ) (count - c * cap)

/-- The order of one chunk of a leg. -/
def wingChunkEntry (leg : WingLeg) (exch : ℤ) (count : ℚ) (coid : String) : WingChunk where
  clientOrderId := coid
  owner := legKey leg
  ticker := leg.ticker
  exchangeIndex := exch
  count := count
  wireCount := V32.Calls.countOut count
  wirePrice := quantize 10000 (match leg.side with
    | .yes => leg.limit
    | .no => 1 - leg.limit)

/-- The chunks of one leg, numbered on from the last id. -/
def legChunks (x : WingExecutor) (seq : ℕ) (leg : WingLeg) : List WingChunk :=
  match x.exchByTicker.get? leg.ticker with
  | none => []
  | some exch =>
    if remaining x leg ≤ 0 then []
    else (chunkCounts x.wingCap (remaining x leg)).mapIdx fun i count =>
      wingChunkEntry leg exch count (x.wingCoidPrefix ++ toString (seq + i + 1))

/-- The chunks of the legs, and the last id used. -/
def wingChunks (x : WingExecutor) : ℕ → List WingLeg → List WingChunk
  | _, [] => []
  | seq, leg :: rest =>
    let chunks := legChunks x seq leg
    chunks ++ wingChunks x (seq + chunks.length) rest

/-- The chunks of a leg that one is sent for make up what remains of it. -/
def chunksAddUp (x : WingExecutor) (leg : WingLeg) : Bool :=
  (x.exchByTicker.get? leg.ticker).isNone || remaining x leg ≤ 0 ||
    (chunkCounts x.wingCap (remaining x leg)).sum = remaining x leg

/-- Every order costs this many tokens of the write bucket. -/
def costCreate : ℕ := 10

/-- A sub-batch has at most this many orders, whatever the bucket. -/
def wingBatchCap : ℕ := 8

/-- Orders of a wing sub-batch. -/
def wingBatchMaxOrders (bucketSize : ℚ) : ℕ :=
  max 1 (min wingBatchCap ⌊bucketSize / costCreate⌋.toNat)

/-- The chunks leg by leg in turn, so that no leg waits for another, in sub-batches. -/
def splitWingBatches (chunks : List WingChunk) (maxOrders : ℕ) : List (List WingChunk) :=
  let groups := (chunks.map WingChunk.owner).reverse.dedup.reverse.map fun key =>
    chunks.filter fun c => c.owner = key
  ((List.range chunks.length).flatMap fun i => groups.filterMap fun g => g[i]?).toChunks maxOrders

/-! ### Sending -/

/-- What the replies to the sub-batches say: the results read, the chunks of the sub-batches that
were not carried out, and those of them the venue turned away unexecuted. -/
structure Outcomes where
  parsed : List OrderResponse
  failed : List String
  rateLimited : List String

/-- The outcomes of two takes together. -/
def Outcomes.append (a b : Outcomes) : Outcomes :=
  ⟨a.parsed ++ b.parsed, a.failed ++ b.failed, a.rateLimited ++ b.rateLimited⟩

/-- The results in the reply to a sub-batch; nothing when reading it raises. -/
def readSubBatch (body : Json) : List WingChunk → Option (List OrderResponse)
  | [chunk] => (parseSingleResponse body chunk.owner.2).map fun r => [r]
  | _ => parseBatchResponse body

/-- Too many requests. -/
def httpTooManyRequests : ℤ := 429

/-- Send the sub-batches one after the other. -/
def sendSubBatches : List (List WingChunk) → Net (Option Outcomes)
  | [] => pure (some ⟨[], [], []⟩)
  | sub :: rest => do
    let reply ← post
    let coids := sub.map WingChunk.clientOrderId
    let outcome : Option Outcomes :=
      if reply.ok then (readSubBatch reply.body sub).map fun parsed => ⟨parsed, [], []⟩
      else some ⟨[], coids, if reply.status = some httpTooManyRequests then coids else []⟩
    match outcome with
    | none => pure none
    | some outcome => do
      let later ← sendSubBatches rest
      pure (later.map outcome.append)

/-! ### Reading the outcomes -/

/-- The result of a chunk, the last one that names it. -/
def byCoid (o : Outcomes) (coid : String) : Option OrderResponse :=
  o.parsed.reverse.find? fun r => r.clientOrderId.isText coid

/-- The outcome of the chunk is not known. -/
def outcomeUnknown (o : Outcomes) (chunk : WingChunk) : Bool :=
  chunk.clientOrderId ∉ o.rateLimited &&
    (chunk.clientOrderId ∈ o.failed ||
      ((byCoid o chunk.clientOrderId).map fun r => r.error.isSome).getD true)

/-- The result of a chunk that reports a fill. -/
def readFill (o : Outcomes) (chunk : WingChunk) : Option OrderResponse :=
  if chunk.clientOrderId ∈ o.failed then none
  else (byCoid o chunk.clientOrderId).filter fun r => r.error.isNone ∧ 0 < r.fillCount

/-- The order behind a chunk whose result was read. -/
def readOrder (o : Outcomes) (chunk : WingChunk) : Option String :=
  if chunk.clientOrderId ∈ o.rateLimited ∨ outcomeUnknown o chunk then none
  else (byCoid o chunk.clientOrderId).bind fun r => r.orderId.name?

/-- What a take books on the legs. -/
structure Booking where
  count : LegKey → ℚ
  notional : LegKey → ℚ
  orderIds : List String
  fills : List WingFill

/-- Book lots on a leg at a price. -/
def Booking.add (b : Booking) (key : LegKey) (count price : ℚ) (fill : WingFill) : Booking :=
  { b with
    count := Function.update b.count key (b.count key + count)
    notional := Function.update b.notional key (b.notional key + price * count)
    fills := b.fills ++ [fill] }

@[simp] theorem Booking.add_count (b : Booking) (key : LegKey) (count price : ℚ)
    (fill : WingFill) : (b.add key count price fill).count =
      Function.update b.count key (b.count key + count) := rfl

/-- The leg a key names. -/
def legByKey (pending : List WingLeg) (key : LegKey) : Option WingLeg :=
  pending.reverse.find? fun leg => legKey leg = key

/-- Book the fill the result of a chunk reports. -/
def bookChunk (pending : List WingLeg) (o : Outcomes) (now : ℚ) (b : Booking)
    (chunk : WingChunk) : Booking :=
  match readFill o chunk, legByKey pending chunk.owner with
  | some r, some leg =>
    let nr := normalizeFillToSide r chunk.owner.2
    let price := nr.averageFillPrice.getD leg.limit
    b.add chunk.owner nr.fillCount price
      { side := chunk.owner.2, ticker := leg.ticker, price, fee := nr.averageFeePaid,
        count := nr.fillCount, ts := now, path := "wing_chunk",
        clientOrderId := some chunk.clientOrderId }
  | _, _ => b

/-- What the results that were read book. -/
def readOutcomes (x : WingExecutor) (pending : List WingLeg) (chunks : List WingChunk)
    (o : Outcomes) (now : ℚ) : Booking :=
  chunks.foldl (bookChunk pending o now)
    { count := fun _ => 0
      notional := fun _ => 0
      orderIds := chunks.filterMap (readOrder o) ++ x.wingOrderIds
      fills := x.fills }

/-! ### Asking the venue -/

/-- The fills are asked for from this many seconds before the send. -/
def wingConfirmSkewS : ℚ := 5

/-- A side in the words of the wire. -/
def sideWord : Side → String
  | .yes => "yes"
  | .no => "no"

/-- What the venue lists of our fills. -/
structure VenueFills where
  /-- The body of the reply for a market; nothing when the call raises. -/
  body : String → Option Json
  /-- The time a text denotes. -/
  isoToEpoch : String → Option ℚ

/-- The fills listed for a market. -/
def VenueFills.listed (v : VenueFills) (ticker : String) : List Json :=
  match ((v.body ticker).getD .null).field "fills" with
  | .array fills => fills
  | _ => []

/-- The order of a fill. -/
def fillOrder (fill : Json) : Option String := (fill.field "order_id").name?

/-- The lots of a fill of a side of a market since the send. -/
def fillLots (v : VenueFills) (ticker : String) (side : Side) (sinceTs : ℚ) (fill : Json) :
    Option ℚ :=
  if (fill.field "ticker").isText ticker ∧ (fill.field "side").isText (sideWord side) ∧
      ¬((fill.field "created_time").name?.bind v.isoToEpoch).any
        (fun ts => ts < sinceTs - wingConfirmSkewS) then
    ((toDecimal (fill.field "count_fp")).or (toDecimal (fill.field "count"))).filter (0 < ·)
  else none

/-- Count a fill unless its order is attributed, and attribute its order. -/
def countFill (v : VenueFills) (ticker : String) (side : Side) (sinceTs : ℚ)
    (acc : ℚ × List String) (fill : Json) : ℚ × List String :=
  if (fillOrder fill).any (· ∈ acc.2) then acc
  else
    match fillLots v ticker side sinceTs fill with
    | none => acc
    | some lots => (acc.1 + lots, (fillOrder fill).toList ++ acc.2)

/-- The lots the venue filled since the send beyond the orders already attributed, and the orders
attributed then. -/
def venueWingFills (v : VenueFills) (ids : List String) (ticker : String) (side : Side)
    (sinceTs : ℚ) : ℚ × List String :=
  (v.listed ticker).foldl (countFill v ticker side sinceTs) (0, ids)

/-- The lots this take may still book on a leg. -/
def room (x : WingExecutor) (b : Booking) (leg : WingLeg) : ℚ :=
  remaining x leg - b.count (legKey leg)

/-- Book on a leg what the venue shows, up to the room of the leg. -/
def confirmLeg (x : WingExecutor) (v : VenueFills) (sinceTs now : ℚ) (b : Booking)
    (leg : WingLeg) : Booking :=
  if room x b leg ≤ 0 then b
  else
    let (venue, orderIds) := venueWingFills v b.orderIds leg.ticker leg.side sinceTs
    let extra := min venue (room x b leg)
    let b := { b with orderIds }
    if 0 < extra then
      b.add (legKey leg) extra leg.limit
        { side := leg.side, ticker := leg.ticker, price := leg.limit, fee := none, count := extra,
          ts := now, path := "wing_venue_confirm", clientOrderId := none }
    else b

/-- Batch by batch, the NO leg of a batch first. -/
def keyLe (a b : LegKey) : Bool :=
  a.1 < b.1 || (a.1 = b.1 && (a.2 = .no || b.2 = .yes))

/-- The legs with a chunk whose outcome is not known, in the order of their keys. -/
def unknownLegs (pending : List WingLeg) (chunks : List WingChunk) (o : Outcomes) :
    List WingLeg :=
  (((chunks.filter (outcomeUnknown o)).map WingChunk.owner).dedup.insertionSort
    fun a b => keyLe a b).filterMap (legByKey pending)

/-- Ask the venue about every leg whose outcome is not known. -/
def confirmLegs (x : WingExecutor) (v : VenueFills) (sinceTs now : ℚ) (legs : List WingLeg)
    (b : Booking) : Booking :=
  legs.foldl (confirmLeg x v sinceTs now) b

/-! ### The take -/

/-- A leg reported without fill. -/
def unfilled (leg : WingLeg) (now : ℚ) : Event :=
  .fill ⟨none, leg.clientOrderId, 0, some leg.limit, leg.side, now, none, none⟩

/-- The legs no chunk can be sent for. -/
def unroutable (x : WingExecutor) (pending : List WingLeg) (chunks : List WingChunk) :
    List WingLeg :=
  pending.filter fun leg =>
    legKey leg ∉ chunks.map WingChunk.owner ∧ (x.exchByTicker.get? leg.ticker).isNone

/-- Add what the take booked on a leg to the lots taken, and report the leg. -/
def bookLeg (b : Booking) (now : ℚ) (acc : WingExecutor × List Event) (leg : WingLeg) :
    WingExecutor × List Event :=
  let (x, events) := acc
  let key := legKey leg
  let got := b.count key
  let total := x.wingFilled key + got
  let notional := x.wingNotional key + b.notional key
  let x := { x with
    wingFilled := Function.update x.wingFilled key total
    wingNotional := Function.update x.wingNotional key notional }
  let event : Event :=
    if leg.count ≤ total ∧ 0 < got then
      .fill ⟨none, leg.clientOrderId, total,
        some (if total ≠ 0 then notional / total else leg.limit), leg.side, now, none, none⟩
    else unfilled leg now
  (x, events ++ [event])

/-- The executor and the events after the outcomes are in. -/
def settleTake (x : WingExecutor) (v : VenueFills) (pending : List WingLeg)
    (chunks : List WingChunk) (o : Outcomes) (sinceTs now : ℚ) : WingExecutor × List Event :=
  let b := confirmLegs x v sinceTs now (unknownLegs pending chunks o)
    (readOutcomes x pending chunks o now)
  pending.foldl (bookLeg b now)
    ({ x with wingOrderIds := b.orderIds, fills := b.fills },
      (unroutable x pending chunks).map fun leg => unfilled leg now)

/-- Take the pending legs. Chunks that do not add up raise, and a reply that cannot be read. -/
def takeWingsSend (x : WingExecutor) (v : VenueFills) (pending : List WingLeg) (sinceTs now : ℚ) :
    Net (Option (WingExecutor × List Event)) := do
  let chunks := wingChunks x x.wingCoidSeq pending
  if ¬pending.all (chunksAddUp x) then pure none
  else if chunks.isEmpty then
    pure (some (x, (unroutable x pending chunks).map fun leg => unfilled leg now))
  else
    let outcomes ← sendSubBatches (splitWingBatches chunks (wingBatchMaxOrders x.bucketSize))
    pure (outcomes.map fun o =>
      let (x, events) := settleTake x v pending chunks o sinceTs now
      ({ x with wingCoidSeq := x.wingCoidSeq + chunks.length }, events))

end Pilot.V33.Takes
