import Pilot.V1.Envelope
import Pilot.V32.MoneyMath

/-!
# The calls behind a cancel and an amend

The executor reads what became of an order from the replies of the venue: the body of the delete,
the body of the amend, and the order's status. The replies come from a script, each call taking
the next reply of its kind.
-/

namespace Pilot.V32.Calls

open V1 (Json toDecimal singleSlot parseSingleResponse)
open V33 (Event)

/-! ### Replies -/

/-- The reply to a post or a delete. -/
structure Response where
  status : Option ℤ
  body : Json

/-- The call was carried out. -/
def Response.ok (r : Response) : Bool :=
  r.status.any fun s => 200 ≤ s ∧ s < 300

/-- What the venue will reply, call by call. A read that fails raises, here it gives nothing. -/
structure Replies where
  posts : List Response
  deletes : List Response
  reads : List (Option Json)

/-- Code that makes calls. -/
abbrev Net := StateM Replies

/-- A call no reply came to. -/
def lost : Response := ⟨none, .object []⟩

/-- The reply to a post. -/
def post : Net Response := fun r => (r.posts.headD lost, { r with posts := r.posts.tail })

/-- The reply to a delete. -/
def delete : Net Response := fun r => (r.deletes.headD lost, { r with deletes := r.deletes.tail })

/-- The body a read gives. -/
def read : Net (Option Json) := fun r => (r.reads.head?.join, { r with reads := r.reads.tail })

@[simp] theorem run_post (r : Replies) :
    post.run r = pure (r.posts.headD lost, { r with posts := r.posts.tail }) := rfl

@[simp] theorem run_delete (r : Replies) :
    delete.run r = pure (r.deletes.headD lost, { r with deletes := r.deletes.tail }) := rfl

@[simp] theorem run_read (r : Replies) :
    read.run r = pure (r.reads.head?.join, { r with reads := r.reads.tail }) := rfl

/-! ### The status of an order -/

/-- A status read, with the fills as a whole number and exactly. -/
structure OrderStatus where
  orderId : Json
  status : Json
  filledCount : ℤ
  remainingCount : Option ℤ
  available : Bool
  filledCountFp : ℚ := 0

/-- A read that gave no order. -/
def OrderStatus.unavailable (oid : String) : OrderStatus :=
  ⟨.text oid, .null, 0, none, false, 0⟩

section Fields

variable {α : Type} [Zero α] [Add α] [Sub α] [Max α] [DecidableEq α]

/-- The lots that remain, from the first field that is readable. -/
def statedRemaining (field : String → Option α) : Option α :=
  (field "remaining_count_fp").or (field "remaining_count")

/-- The fills of the two sides of an order. -/
def sideFills (field : String → Option α) : Option α :=
  let mk := (field "maker_fill_count").getD 0
  let tk := (field "taker_fill_count").getD 0
  if mk ≠ 0 ∨ tk ≠ 0 then some (mk + tk) else none

/-- What was placed and does not remain. -/
def placedLessRemaining (field : String → Option α) : Option α :=
  match (field "initial_count_fp").or (field "place_count"), statedRemaining field with
  | some initial, some remaining => some (max 0 (initial - remaining))
  | _, _ => none

/-- The lots filled, from the first fields that state them. -/
def statedFill (field : String → Option α) : Option α :=
  ((field "fill_count_fp").or (field "fill_count")).or
    ((sideFills field).or (placedLessRemaining field))

end Fields

/-- A field of an order as a decimal, if it is a finite number; the source also keeps a `NaN` and
an infinity, which no venue sends. -/
def exactField (order : Json) (key : String) : Option ℚ := toDecimal (order.field key)

/-- A field of an order as a whole number. -/
def wholeField (order : Json) (key : String) : Option ℤ := (exactField order key).map truncInt

/-- Read the body of a status read: the wrapped order, or the body itself. -/
def parseOrderStatus (body : Json) (oid : String) : OrderStatus :=
  match singleSlot body with
  | .object fields =>
    let order := Json.object fields
    let id := order.field "order_id"
    let filled := (statedFill (wholeField order)).getD 0
    { orderId := if id.truthy then id else .text oid
      status := order.field "status"
      filledCount := filled
      remainingCount := statedRemaining (wholeField order)
      available := true
      filledCountFp := (statedFill (exactField order)).getD filled }
  | _ => .unavailable oid

/-- The statuses of an order off the book. -/
def terminalStatuses : List String := ["canceled", "cancelled", "executed", "expired"]

/-- The order is off the book. -/
def OrderStatus.terminal (st : OrderStatus) : Bool := terminalStatuses.any st.status.isText

/-- The read is one the confirm ends with: the order does not rest, or nothing remains. -/
def OrderStatus.settled (st : OrderStatus) : Bool :=
  (match st.status with
    | .null => false
    | s => !s.isText "resting") || st.remainingCount = some 0

/-- A value that is no object is read as an empty one. -/
def asObject (v : Json) : Json :=
  match v with
  | .object fields => .object fields
  | _ => .object []

/-- Read the status of an order. -/
def orderStatus (oid : String) : Net OrderStatus := do
  match ← read with
  | none => pure (.unavailable oid)
  | some body => pure (parseOrderStatus (asObject body) oid)

/-! ### The executor -/

/-- An order the executor sent. -/
structure RestRecord extends V32.RestRecord where
  exchangeIndex : Option ℤ
  expirationEpoch : Option ℤ
  deriving DecidableEq

/-- A fill as the executor records it. -/
structure RecordedFill extends FillRecord where
  execPrice : Option ℚ
  path : String
  clientOrderId : String
  deriving DecidableEq

/-- What the calls of a window read and write. -/
structure LiveExecutor where
  bucketMap : Dict String (ℚ × ℚ)
  exchByTicker : Dict String ℤ
  closeEpoch : ℤ
  quoteEndS : ℤ
  restBook : Dict String RestRecord
  byOrderId : Dict String String
  fills : List RecordedFill
  bookedRestOids : List String
  standDownReason : Option ExecutorStop
  lastConfirmedGoneOid : Option String
  /-- The exact fill of the last status read of a confirm. -/
  lastConfirmStatusFp : ℚ

/-- What a handler leaves behind: the executor and its events. -/
abbrev Handled := LiveExecutor × List Event

/-- The order a client order id names, else the order an order id names. -/
def attributeOrder (x : LiveExecutor) (coid oid : Option String) : Option RestRecord :=
  ((truthy coid).bind fun c => x.restBook.get? c).or
    (((truthy oid).bind fun o => x.byOrderId.get? o).bind fun c => x.restBook.get? c)

/-- The order placed under a client order id. -/
def bookedUnder (x : LiveExecutor) (coid : Option String) : Option RestRecord :=
  coid.bind fun c => x.restBook.get? c

/-- The order id an action is about: its own, else that of the order it names. -/
def targetOf (x : LiveExecutor) (coid : Option String) (a : V32Action) : Option String :=
  a.orderId.or ((bookedUnder x coid).bind fun rec => rec.orderId)

/-- The bucket of a ticker. -/
def bucketSd (x : LiveExecutor) (ticker : String) : Option ℤ :=
  (x.bucketMap.get? ticker).map fun fc => roundHalfEven fc.1

/-- Seconds an order outlives the end of quoting. -/
def expirationGraceS : ℤ := 60

/-- When the venue takes an order off by itself. -/
def expirationEpoch (x : LiveExecutor) (a : V32Action) : ℤ :=
  a.expirationEpoch.getD (x.closeEpoch - x.quoteEndS) + expirationGraceS

/-- A count as it is recorded. -/
def countOut (count : ℚ) : ℚ := quantize 100 count

/-- Rewrite an order of the book. -/
def rewrite (x : LiveExecutor) (record : Option RestRecord) (f : RestRecord → RestRecord) :
    LiveExecutor :=
  match record with
  | none => x
  | some rec => { x with restBook := x.restBook.set rec.clientOrderId (f rec) }

/-- Record a fill, once for each order id. -/
def noteFill (x : LiveExecutor) (oid : String) (fill : RecordedFill) : LiveExecutor :=
  if oid ∈ x.bookedRestOids then x
  else { x with fills := x.fills ++ [fill], bookedRestOids := oid :: x.bookedRestOids }

/-! ### Cancels -/

/-- Fills are counted exactly, not in whole lots. -/
def fractionalCounts : Bool := true

/-- This many status reads confirm a delete. -/
def cancelConfirmPolls : ℕ := 3

/-- The order is off the book with the given fill. -/
def finishCancel (x : LiveExecutor) (record : Option RestRecord) (oid : String) (filled : ℤ)
    (filledFp : Option ℚ) (now : ℚ) : Handled :=
  let eventFilled := filledFp.getD filled
  let x := rewrite x record fun rec =>
    { rec with
      status := if 0 < eventFilled then .filled else .cancelled
      cancelConfirmedTs := some now }
  let x :=
    match record, record.bind fun rec => rec.orderId with
    | some rec, some id =>
      if 0 < eventFilled then
        noteFill x id
          { leg := .rest, side := .no, ticker := rec.ticker, price := rec.price, fee := some 0,
            count := countOut eventFilled, bucketSd := rec.bucketSd, execPrice := none,
            path := "cancel_race", clientOrderId := rec.clientOrderId }
      else x
    | _, _ => x
  (x, [cancelEvent (record.map RestRecord.toRestRecord) oid
    (record.map fun rec => rec.clientOrderId) eventFilled now])

/-- Read the status until a read settles the order, at most so often. The last readable fill
stands. -/
def confirmPolls (oid : String) : ℕ → ℤ → LiveExecutor → Net (ℤ × LiveExecutor)
  | 0, filled, x => pure (filled, x)
  | polls + 1, filled, x => do
    let st ← orderStatus oid
    if st.available then
      let x := { x with lastConfirmStatusFp := st.filledCountFp }
      if st.settled then pure (st.filledCount, x)
      else confirmPolls oid polls st.filledCount x
    else confirmPolls oid polls filled x

/-- The fill the status reads after a delete report. -/
def confirmCancelFilled (x : LiveExecutor) (oid : String) : Net (ℤ × LiveExecutor) :=
  confirmPolls oid cancelConfirmPolls 0 { x with lastConfirmStatusFp := 0 }

/-- The lots a delete took off the book, if the reply tells. -/
def reducedBy (reply : Response) : Option ℚ := toDecimal (reply.body.field "reduced_by")

/-- The fill by the remembered size: what was not taken off. -/
def fillOfReduction (record : Option RestRecord) (rb : Option ℚ) : ℚ :=
  match record, rb with
  | some rec, some rb => max 0 (rec.count - rb)
  | _, _ => 0

/-- The same in whole lots. -/
def wholeFillOfReduction (record : Option RestRecord) (rb : Option ℚ) : ℤ :=
  match record, rb with
  | some rec, some rb => max 0 (rec.count - truncInt rb)
  | _, _ => 0

/-- A delete was carried out: the larger of what its reply and the status reads say. -/
def resolveCancelSuccess (x : LiveExecutor) (reply : Response) (record : Option RestRecord)
    (oid : String) (now : ℚ) : Net Handled := do
  let rb := reducedBy reply
  let (filledStatus, x) ← confirmCancelFilled x oid
  let filled := max (wholeFillOfReduction record rb) filledStatus
  let x := { x with lastConfirmedGoneOid := some oid }
  let filledFp :=
    if fractionalCounts then some (max (fillOfReduction record rb) x.lastConfirmStatusFp) else none
  pure (finishCancel x record oid filled filledFp now)

/-- A status read shows the order off the book. -/
def resolveCancelFromStatus (x : LiveExecutor) (st : OrderStatus) (record : Option RestRecord)
    (oid : String) (now : ℚ) : Option Handled :=
  if st.available && st.terminal then
    let x := { x with lastConfirmedGoneOid := some oid }
    some (finishCancel x record oid st.filledCount
      (if fractionalCounts then some st.filledCountFp else none) now)
  else none

/-- The order still rests after every attempt: the hour stops. -/
def failCancel (x : LiveExecutor) (record : Option RestRecord) (oid : String)
    (coid : Option String) (now : ℚ) : Handled :=
  let x := rewrite x record fun rec => { rec with status := .cancelFailed }
  ({ x with standDownReason := x.standDownReason.or (some .cancelFailed) },
    [cancelEvent (record.map RestRecord.toRestRecord) oid
      ((record.map fun rec => rec.clientOrderId).or coid) 0 now])

/-- Try the delete again, reading the status after each one that is not carried out. -/
def retryCancel (x : LiveExecutor) (record : Option RestRecord) (oid : String)
    (coid : Option String) (now : ℚ) : ℕ → Net Handled
  | 0 => pure (failCancel x record oid coid now)
  | attempts + 1 => do
    let reply ← delete
    if reply.ok then resolveCancelSuccess x reply record oid now
    else
      let st ← orderStatus oid
      match resolveCancelFromStatus x st record oid now with
      | some handled => pure handled
      | none => retryCancel x record oid coid now attempts

/-- A delete was not carried out: the status decides, else the delete is tried again. -/
def cancelNonok (x : LiveExecutor) (record : Option RestRecord) (oid : String)
    (coid : Option String) (now : ℚ) : Net Handled := do
  let st ← orderStatus oid
  match resolveCancelFromStatus x st record oid now with
  | some handled => pure handled
  | none => retryCancel x record oid coid now cancelRetryAttempts

/-- Delete an order and resolve the delete. -/
def deleteAndResolve (x : LiveExecutor) (record : Option RestRecord) (oid : String)
    (coid : Option String) (now : ℚ) : Net Handled := do
  let reply ← delete
  if reply.ok then resolveCancelSuccess x reply record oid now
  else cancelNonok x record oid coid now

/-- Cancel the order of an action. -/
def cancelRest (x : LiveExecutor) (a : V32Action) (now : ℚ) : Net Handled :=
  match targetOf x a.clientOrderId a with
  | none => pure (x, [goneUnplaced a.clientOrderId now])
  | some oid =>
    deleteAndResolve x
      ((bookedUnder x a.clientOrderId).or (attributeOrder x a.clientOrderId (some oid))) oid
      a.clientOrderId now

/-! ### Amends -/

/-- An amend that cannot be made, or was not: cancel. -/
def amendFallback (x : LiveExecutor) (record : Option RestRecord) (oid : Option String)
    (coid : Option String) (now : ℚ) : Net Handled :=
  match oid with
  | none => pure (x, [goneUnplaced coid now])
  | some oid => deleteAndResolve x record oid coid now

/-- The book after an amend was carried out: the order id stays, under the new client order id. -/
def bookAmend (x : LiveExecutor) (record : Option RestRecord) (a : V32Action) (oid : String)
    (now : ℚ) : LiveExecutor × RestRecord :=
  let coidNew := ((truthy a.updatedClientOrderId).or a.clientOrderId).getD ""
  let ticker := ((truthy a.ticker).or (record.map fun rec => rec.ticker)).getD ""
  let newRec : RestRecord :=
    { clientOrderId := coidNew
      orderId := some oid
      price := (a.price.or (record.map fun rec => rec.price)).getD 0
      count := if a.count ≠ 0 then truncInt a.count else (record.map fun rec => rec.count).getD 1
      ticker
      bucketSd := bucketSd x ticker
      placedTs := now
      status := .live
      cancelConfirmedTs := none
      exchangeIndex := (record.bind fun rec => rec.exchangeIndex).or (x.exchByTicker.get? ticker)
      expirationEpoch := (record.map fun rec => rec.expirationEpoch).getD (expirationEpoch x a) }
  let x := rewrite x (record.filter fun _ => a.clientOrderId ≠ some coidNew) fun rec =>
    { rec with status := .amended }
  ({ x with
      restBook := x.restBook.set coidNew newRec
      byOrderId := x.byOrderId.set oid coidNew }, newRec)

/-- The lots an amend filled at once, and what the core hears of it. -/
def finishAmend (x : LiveExecutor) (rec : RestRecord) (oid : String) (fillCount : ℚ)
    (avgPrice avgFee : Option ℚ) (now : ℚ) : Handled :=
  let x :=
    if 0 < fillCount then
      noteFill
        { x with restBook := x.restBook.set rec.clientOrderId { rec with status := .filled } }
        oid
        { leg := .rest, side := .no, ticker := rec.ticker, price := avgPrice.getD rec.price,
          fee := some (avgFee.getD 0), count := countOut fillCount, bucketSd := rec.bucketSd,
          execPrice := avgPrice, path := "amend", clientOrderId := rec.clientOrderId }
    else x
  (x, [.orderAmended ⟨oid, rec.clientOrderId, some rec.price, now, fillCount,
    if 0 < fillCount then avgPrice else none⟩])

/-- Amend the order of an action; an amend that is not carried out falls back to the cancel. A
reply that cannot be parsed raises. -/
def amendRest (x : LiveExecutor) (a : V32Action) (now : ℚ) : Net (Option Handled) :=
  let record := bookedUnder x (truthy a.clientOrderId)
  match targetOf x (truthy a.clientOrderId) a with
  | none => some <$> amendFallback x record none a.clientOrderId now
  | some oid => do
    let reply ← post
    if reply.ok then
      pure <| (parseSingleResponse reply.body .no).map fun parsed =>
        let (x, rec) := bookAmend x record a oid now
        finishAmend x rec oid parsed.fillCount parsed.averageFillPrice parsed.averageFeePaid now
    else some <$> amendFallback x record (some oid) a.clientOrderId now

/-- One order of two lots rests. -/
def restingPair : LiveExecutor where
  bucketMap := .ofList [("B", (70000, 70250))]
  exchByTicker := .ofList [("B", 2)]
  closeEpoch := 3600
  quoteEndS := 300
  restBook := .ofList [("v32-1", ⟨⟨"v32-1", some "O", 9 / 20, 2, "B", some 70000, 100, .live, none⟩,
    some 2, some 3360⟩)]
  byOrderId := .ofList [("O", "v32-1")]
  fills := []
  bookedRestOids := []
  standDownReason := none
  lastConfirmedGoneOid := none
  lastConfirmStatusFp := 0

end Pilot.V32.Calls
