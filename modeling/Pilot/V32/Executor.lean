import Pilot.V32.Decide

/-!
# The executor and the venue

The armed executor sends the orders of an action and turns the venue's replies into
events. The venue's book is part of the model: its lists and order reads tell the truth,
and what it decides for itself is the weather of a call. A create that is neither accepted
nor refused is not among the outcomes.
-/

namespace Pilot.V32

open V33 (ActionKind Event OrderCancelled)

/-! ### The venue -/

/-- An order as the venue holds it. -/
structure VenueOrder where
  clientOrderId : String
  /-- It can still fill. -/
  resting : Bool
  remaining : ℚ
  filled : ℚ
  deriving DecidableEq

/-- The orders of ours the venue has known, by order id. -/
abbrev Venue := Dict String VenueOrder

/-- The lots of an order that can still fill. -/
def VenueOrder.fillable (o : VenueOrder) : ℚ := if o.resting then o.remaining else 0

/-- The lots filled. -/
def filledLots (v : Venue) : ℚ := (v.values.map VenueOrder.filled).sum

/-- The lots that can still fill. -/
def fillableLots (v : Venue) : ℚ := (v.values.map VenueOrder.fillable).sum

/-- The ids of the orders that rest. -/
def restingIds (v : Venue) : List String := (v.entries.filter fun e => e.2.resting).map Prod.fst

/-- What the venue decides in one call. -/
structure Weather where
  /-- The id it would give a create. -/
  orderId : String
  /-- Whether it accepts a create or an amend. -/
  accepts : Bool
  /-- The lots an accepted amend fills at once, and their average price. -/
  crossed : ℚ
  averagePrice : Option ℚ
  /-- Whether it carries out the delete of the given attempt. -/
  deletes : ℕ → Bool
  /-- The lots and the average price of each taker leg; nothing where the slot failed. -/
  wings : String → Option (ℚ × Option ℚ)

/-! ### The executor -/

/-- What became of an order in the executor's book. -/
inductive RestStatus where
  | live
  | cancelled
  | filled
  | rejected
  | amended
  | cancelFailed
  deriving DecidableEq

/-- One order placed this window, kept after it is gone. -/
structure RestRecord where
  clientOrderId : String
  orderId : Option String
  price : ℚ
  count : ℤ
  ticker : String
  bucketSd : Option ℤ
  placedTs : ℚ
  status : RestStatus
  /-- When the order was confirmed off the book. -/
  cancelConfirmedTs : Option ℚ
  deriving DecidableEq

/-- Why the executor stops the hour. -/
inductive ExecutorStop where
  | restRejected (consecutive : ℕ)
  | cancelFailed
  | restInvariantViolation
  deriving DecidableEq

/-- The executor of one window. -/
structure Executor where
  bucketMap : Dict String (ℚ × ℚ)
  /-- The shard of each market; an order for any other market is not sent. -/
  exchByTicker : Dict String ℤ
  restBook : Dict String RestRecord
  byOrderId : Dict String String
  wingCoids : List String
  consecutiveRejects : ℕ
  standDownReason : Option ExecutorStop
  lastConfirmedGoneOid : Option String

/-- What a call leaves behind: the executor, the venue and the events it reports. -/
structure Routed where
  exec : Executor
  venue : Venue
  events : List Event

/-- The order a client order id names, else the order an order id names. -/
def attributeOrder (x : Executor) (coid oid : Option String) : Option RestRecord :=
  ((truthy coid).bind fun c => x.restBook.get? c).or
    (((truthy oid).bind fun o => x.byOrderId.get? o).bind fun c => x.restBook.get? c)

/-- The first reason to stop stays. -/
def stop (x : Executor) (reason : ExecutorStop) : Executor :=
  { x with standDownReason := x.standDownReason.or (some reason) }

/-- Rewrite the status of a known order. -/
def setStatus (x : Executor) (record : Option RestRecord)
    (f : RestRecord → RestRecord) : Executor :=
  match record with
  | none => x
  | some rec => { x with restBook := x.restBook.set rec.clientOrderId (f rec) }

/-- The bucket of a ticker. -/
def bucketSdOf (x : Executor) (ticker : String) : Option ℤ :=
  (x.bucketMap.get? ticker).map fun fc => roundHalfEven fc.1

/-! ### Creates -/

/-- This many refused creates in a row stop the hour. -/
def consecutiveRejectStanddown : ℕ := 3

/-- The confirm of an order that never rested. -/
def goneUnplaced (coid : Option String) (now : ℚ) : Event :=
  .orderCancelled ⟨none, now, 0, coid, none, none⟩

/-- A refused create. -/
def rejectPlace (x : Executor) (v : Venue) (coid : String) (now : ℚ) : Routed :=
  let rejects := x.consecutiveRejects + 1
  let x := setStatus { x with consecutiveRejects := rejects } (x.restBook.get? coid)
    fun rec => { rec with status := .rejected }
  ⟨if consecutiveRejectStanddown ≤ rejects then stop x (.restRejected rejects) else x, v,
    [goneUnplaced (some coid) now]⟩

/-- How long an order that was just confirmed gone may still be listed. -/
def cancelSettleS : ℚ := 5

/-- A listed order that was just confirmed gone. -/
def phantom (x : Executor) (oid : String) (now : ℚ) : Bool :=
  match attributeOrder x none (some oid) with
  | none => false
  | some rec =>
    match rec.cancelConfirmedTs with
    | none => false
    | some t =>
      (rec.status = .cancelled ∨ rec.status = .filled) && decide (now - t ≤ cancelSettleS)

/-- The orders of ours the venue lists as resting before a create. -/
def strays (x : Executor) (v : Venue) (now : ℚ) : List String :=
  (v.entries.filter fun e =>
    e.2.resting && "v32-".toList.isPrefixOf e.2.clientOrderId.toList &&
      some e.1 ≠ x.lastConfirmedGoneOid && !phantom x e.1 now).map Prod.fst

/-- The order leaves the venue's book. -/
def takeOff (v : Venue) (oid : String) : Venue :=
  match v.get? oid with
  | none => v
  | some o => v.set oid { o with resting := false }

/-- Before a create none of our orders may rest: each one that does is cancelled and the hour
stops. A listed order rests, so each of them counts. -/
def prePlaceInvariant (x : Executor) (v : Venue) (w : Weather) (coid : String) (now : ℚ) :
    Option Routed :=
  let found := strays x v now
  if found.isEmpty then none
  else
    some ⟨stop x .restInvariantViolation,
      (found.zipIdx.filter fun e => w.deletes e.2).foldl (fun v e => takeOff v e.1) v,
      [goneUnplaced (some coid) now]⟩

/-- Send a create. It is post-only, so it fills nothing on arrival. -/
def placeRest (x : Executor) (v : Venue) (w : Weather) (a : V32Action) (now : ℚ) : Routed :=
  let coid := a.clientOrderId.getD ""
  let ticker := a.ticker.getD ""
  if (x.exchByTicker.get? ticker).isNone then rejectPlace x v coid now
  else
    match prePlaceInvariant x v w coid now with
    | some r => r
    | none =>
      if !w.accepts then rejectPlace x v coid now
      else
        ⟨{ x with
            restBook := x.restBook.set coid
              ⟨coid, some w.orderId, a.price.getD 0, truncInt a.count, ticker,
                bucketSdOf x ticker, now, .live, none⟩
            byOrderId := x.byOrderId.set w.orderId coid
            consecutiveRejects := 0 },
          v.set w.orderId ⟨coid, true, truncInt a.count, 0⟩,
          [.orderAck ⟨coid, w.orderId, now⟩]⟩

/-! ### Cancels -/

/-- A delete that leaves the order resting is tried this often again. -/
def cancelRetryAttempts : ℕ := 3

/-- The confirm of a cancel with its cumulative fill. -/
def cancelEvent (record : Option RestRecord) (oid : String) (coid : Option String)
    (filled now : ℚ) : Event :=
  .orderCancelled ⟨some oid, now, filled, coid, record.map RestRecord.price,
    record.map RestRecord.ticker⟩

/-- The order is off the book with the given cumulative fill. -/
def finishCancel (x : Executor) (v : Venue) (record : Option RestRecord) (oid : String)
    (filled now : ℚ) : Routed :=
  let x := setStatus x record fun rec =>
    { rec with
      status := if 0 < filled then .filled else .cancelled
      cancelConfirmedTs := some now }
  ⟨{ x with lastConfirmedGoneOid := some oid }, v,
    [cancelEvent record oid (record.map RestRecord.clientOrderId) filled now]⟩

/-- The order still rests after every attempt: the hour stops. -/
def failCancel (x : Executor) (v : Venue) (record : Option RestRecord) (oid : String)
    (coid : Option String) (now : ℚ) : Routed :=
  let x := setStatus x record fun rec => { rec with status := .cancelFailed }
  ⟨stop x .cancelFailed, v,
    [cancelEvent record oid ((record.map RestRecord.clientOrderId).or coid) 0 now]⟩

/-- The fill a carried-out delete reports: what the reduction leaves of the record's count, or
the order's own count where that is more. -/
def filledOnDelete (record : Option RestRecord) (o : VenueOrder) : ℚ :=
  match record with
  | none => o.filled
  | some rec => max (max 0 (rec.count - o.remaining)) o.filled

/-- Delete an order until the venue carries it out or shows it gone. -/
def pullOrder (x : Executor) (v : Venue) (w : Weather) (record : Option RestRecord) (oid : String)
    (coid : Option String) (now : ℚ) : Routed :=
  match v.get? oid with
  | none => failCancel x v record oid coid now
  | some o =>
    if !o.resting then finishCancel x v record oid o.filled now
    else if (List.range (1 + cancelRetryAttempts)).any w.deletes then
      finishCancel x (takeOff v oid) record oid (filledOnDelete record o) now
    else failCancel x v record oid coid now

/-- Cancel the order of an action. -/
def cancelRest (x : Executor) (v : Venue) (w : Weather) (a : V32Action) (now : ℚ) : Routed :=
  let record := a.clientOrderId.bind fun c => x.restBook.get? c
  match a.orderId.or (record.bind RestRecord.orderId) with
  | none => ⟨x, v, [goneUnplaced a.clientOrderId now]⟩
  | some oid =>
    pullOrder x v w (record.or (attributeOrder x a.clientOrderId (some oid)))
      oid a.clientOrderId now

/-! ### Amends -/

/-- The lots an amend asks to keep resting. -/
def amendCount (a : V32Action) : ℤ := if a.count = 0 then 1 else truncInt a.count

/-- The order the venue would amend, if it still rests. -/
def restingOrder (v : Venue) (oid : String) : Option VenueOrder :=
  (v.get? oid).filter VenueOrder.resting

/-- An amended order: the new count rests, less what crosses at once. -/
def VenueOrder.amended (o : VenueOrder) (coid : String) (count : ℤ) (crossed : ℚ) : VenueOrder :=
  ⟨coid, 0 < count - crossed, count - crossed, o.filled + crossed⟩

/-- Amend the order of an action; a refused amend falls back to the cancel. -/
def amendRest (x : Executor) (v : Venue) (w : Weather) (a : V32Action) (now : ℚ) : Routed :=
  let record := (truthy a.clientOrderId).bind fun c => x.restBook.get? c
  let coidNew := ((truthy a.updatedClientOrderId).or a.clientOrderId).getD ""
  match a.orderId.or (record.bind RestRecord.orderId) with
  | none => ⟨x, v, [goneUnplaced a.clientOrderId now]⟩
  | some oid =>
    match (restingOrder v oid).filter fun _ => w.accepts with
    | none => pullOrder x v w record oid a.clientOrderId now
    | some o =>
      let ticker := ((truthy a.ticker).or (record.map RestRecord.ticker)).getD ""
      let price := (a.price.or (record.map RestRecord.price)).getD 0
      let x := setStatus x
        (record.filter fun rec => rec.clientOrderId ≠ coidNew)
        fun rec => { rec with status := .amended }
      ⟨{ x with
          restBook := x.restBook.set coidNew
            ⟨coidNew, some oid, price, amendCount a, ticker, bucketSdOf x ticker, now,
              if 0 < w.crossed then .filled else .live, none⟩
          byOrderId := x.byOrderId.set oid coidNew },
        v.set oid (o.amended coidNew (amendCount a) w.crossed),
        [.orderAmended ⟨oid, coidNew, some price, now, w.crossed,
          if 0 < w.crossed then w.averagePrice else none⟩]⟩

/-! ### Wings -/

/-- What the venue reports of a taker leg. -/
def wingEvent (x : Executor) (w : Weather) (leg : WingLeg) (now : ℚ) : Event :=
  let report := (w.wings leg.clientOrderId).filter fun r =>
    0 < r.1 ∧ (x.exchByTicker.get? leg.ticker).isSome
  .fill ⟨none, leg.clientOrderId, (report.map Prod.fst).getD 0,
    some ((report.bind Prod.snd).getD leg.limit), leg.side, now, none, none⟩

/-- Send every pending leg as a taker order; those without a shard are reported unfilled
first. -/
def takeWings (x : Executor) (v : Venue) (w : Weather) (st : V32State) (now : ℚ) : Routed :=
  let pending := st.wingLegs.filter fun l => l.status = .pending
  let routed := pending.filter fun l => (x.exchByTicker.get? l.ticker).isSome
  let unrouted := pending.filter fun l => (x.exchByTicker.get? l.ticker).isNone
  ⟨{ x with wingCoids := x.wingCoids ++ routed.map WingLeg.clientOrderId }, v,
    (unrouted ++ routed).map fun l => wingEvent x w l now⟩

/-- Route an action. A twin never reaches the armed executor: it stops on one. -/
def onAction (x : Executor) (v : Venue) (w : Weather) (st : V32State) (a : V32Action) (now : ℚ) :
    Routed :=
  match a.kind with
  | .placeRest => placeRest x v w a now
  | .cancelRest => cancelRest x v w a now
  | .amendRest => amendRest x v w a now
  | .takeWings => takeWings x v w st now
  | .retryWing => takeWings x v w st now
  | _ => ⟨x, v, []⟩

end Pilot.V32
