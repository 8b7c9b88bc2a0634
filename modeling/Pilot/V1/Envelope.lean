import Pilot.V1.Wire

/-!
# Order responses

The answers of the venue to an order: the fills of one order, and the parsing of the bodies
that carry them. A response that reports no fill is made for every failure on the way.
-/

namespace Pilot.V1

/-- Why an order is not sent. -/
inductive Refusal where
  | stopAuthorizedNonFlatten
  | notArmed
  | nonPositiveCount (ticker : String) (count : ℤ)
  | countOver (ticker : String) (count : ℤ)
  | tickerPrefix (ticker : String)
  | noExchangeIndex (tickers : List String)
  | noOrdersAfterSToSettle (tMinusS : ℚ)
  | windowAlreadyEntered
  | singleFlight
  | rateBudgetExhausted

/-- Why a response carries an error. -/
inductive OrderError where
  /-- `post_exception:<name>`. -/
  | postException (name : String)
  /-- `http_<status>`. -/
  | http (status : ℤ)
  /-- `malformed_response_slot:<type>`. -/
  | malformedSlot
  /-- `malformed_batch_body:<type>`. -/
  | malformedBatchBody
  /-- `batch_response_missing_orders_list`. -/
  | missingOrdersList
  /-- `no_matching_batch_slot`. -/
  | noMatchingBatchSlot
  /-- `refused:<reason>`. -/
  | refused (reason : Refusal)
  /-- The text of the error value of a slot. -/
  | reported (err : Json)

/-- The parsed result of one order; the average fill price is that of the side of the order. -/
structure OrderResponse where
  clientOrderId : Json
  orderId : Json
  fillCount : ℚ
  remainingCount : ℚ
  averageFillPrice : Option ℚ
  averageFeePaid : Option ℚ
  tsMs : Option ℤ
  /-- The price as the venue reported it, a YES price. -/
  rawReportedPrice : Option ℚ := none
  error : Option OrderError := none
  noFill : Bool := false

/-- A response without fill. -/
def noFillResponse (clientOrderId : Json) (error : OrderError) : OrderResponse :=
  { clientOrderId, orderId := .null, fillCount := 0, remainingCount := 0, averageFillPrice := none,
    averageFeePaid := none, tsMs := none, error := some error, noFill := true }

/-- A YES price in the prices of a side. -/
def sidePrice (side : Side) (raw : ℚ) : ℚ :=
  match side with
  | .yes => raw
  | .no => 1 - raw

/-- The response with its price in the prices of a side, always from the reported price. -/
def normalizeFillToSide (resp : OrderResponse) (side : Side) : OrderResponse :=
  match resp.rawReportedPrice.or resp.averageFillPrice with
  | none => resp
  | some raw =>
    { resp with averageFillPrice := some (sidePrice side raw), rawReportedPrice := some raw }

/-- The result one slot of a body reports; nothing when reading it raises. -/
def parseEntryResponse (slot : Json) : Option OrderResponse :=
  match slot with
  | .object _ =>
    let rawPrice := toDecimal (slot.field "average_fill_price")
    let err := slot.field "error"
    (toInt (slot.field "ts_ms")).map fun tsMs =>
      { clientOrderId := slot.field "client_order_id"
        orderId := slot.field "order_id"
        fillCount := (toDecimal (slot.field "fill_count")).getD 0
        remainingCount := (toDecimal (slot.field "remaining_count")).getD 0
        averageFillPrice := rawPrice
        averageFeePaid := toDecimal (slot.field "average_fee_paid")
        tsMs
        rawReportedPrice := rawPrice
        error := if err.truthy then some (.reported err) else none
        noFill := err.truthy }
  | _ => some (noFillResponse .null .malformedSlot)

/-- The slot of the body of a single order: the wrapped order, or the body itself. -/
def singleSlot (body : Json) : Json :=
  match body.field "order" with
  | .object fields => .object fields
  | _ => body

/-- The response to a single order of a side. -/
def parseSingleResponse (body : Json) (side : Side) : Option OrderResponse :=
  (parseEntryResponse (singleSlot body)).map fun resp => normalizeFillToSide resp side

/-- The slots of the body of a batch, or the error it is. -/
def batchSlots (body : Json) : List Json ⊕ OrderError :=
  match body with
  | .object _ =>
    match body.field "orders" with
    | .array slots => .inl slots
    | _ => .inr .missingOrdersList
  | _ => .inr .malformedBatchBody

/-- The responses to a batch, one for each slot of the body. -/
def parseBatchResponse (body : Json) : Option (List OrderResponse) :=
  match batchSlots body with
  | .inl slots => slots.mapM parseEntryResponse
  | .inr error => some [noFillResponse .null error]

end Pilot.V1
