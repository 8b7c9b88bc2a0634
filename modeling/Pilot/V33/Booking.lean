import Pilot.V33.Wings

/-!
# Booking rung fills

A fill is attributed to the bucket its rung rested on, recorded, taken off the
ladder and handed to the wings: to the batch of the trigger that pre-hedged it, or
to the coalescing group. A fill whose bucket cannot be named stands the hour down.
-/

namespace Pilot.V33

/-- The bucket a market ticker names among the bucket books seen. -/
def sdForBucketTicker (st : V33State) (ticker : Option String) : Option ℤ :=
  match ticker with
  | none => none
  | some t =>
    if t = "" then none
    else (st.bucketTickers.entries.find? fun e => e.2 == t).map Prod.fst

/-- The bucket a fill hedges: the live order's own, else the retained one, else the one its
market names. -/
def fillBucket (st : V33State) (order : Option RestOrder) (retainedSd : Option ℤ)
    (fillTicker : Option String) : Option ℤ :=
  ((order.bind RestOrder.bucketSd).or retainedSd).or (sdForBucketTicker st fillTicker)

/-- The first unresolved trigger that pre-hedged a rung, with its position. -/
def ptTriggerForCoid (st : V33State) (coid : String) : Option PrintThroughTrigger :=
  st.printThroughTriggers.find? fun t => !t.resolved && t.rungCoids.contains coid

/-- One fill to book: the order it names and the labels its caller knows. -/
structure FillReport where
  coid : String
  price : ℚ
  delta : ℚ
  /-- The labels used while the ladder top is unknown. -/
  rung : ℤ
  eRung : ℚ
  retainedSd : Option ℤ := none
  fillTicker : Option String := none
  orphan : Bool := false
  orderId : Option String := none

/-- The margin slot of a fill: derived from its price, or the caller's label. -/
def fillMargin (p : V33Params) (st : V33State) (r : FillReport) : ℤ :=
  match st.nTop with
  | some nTop => marginOf p nTop r.price
  | none => eMinCents p + r.rung

/-- The record of a fill. -/
def rungFillOf (p : V33Params) (st : V33State) (r : FillReport) (now : ℚ) : RungFill :=
  let order := orderOf st r.coid
  let fillSd := fillBucket st order r.retainedSd r.fillTicker
  let m := fillMargin p st r
  let rung := m - eMinCents p
  { rung := rung
    eRung := if st.nTop.isSome then p.eMin + rung * cent else r.eRung
    price := r.price
    count := qCount (qCount r.delta)
    serverTs := now
    coid := some r.coid
    orderId := match order with
      | some o => o.orderId
      | none => r.orderId
    W := st.W
    nTop := st.nTop
    bucketTicker := fillSd.bind st.bucketTickers.get?
    bucketSd := fillSd
    bucketSu := fillSd.map (· + p.bucketWidth)
    taker := false
    weight := if !r.orphan ∧ 0 ≤ rung ∧ rung < p.rungLots.length then some (weightOfRung p rung)
      else none
    orphan := r.orphan }

/-- The ladder after `delta` lots of an order filled: the remainder rests on, an order
without remainder leaves. -/
def reduceOrder (ladder : List RestOrder) (coid : String) (delta : ℚ) : List RestOrder :=
  match ladder.find? fun o => o.clientOrderId == coid with
  | none => ladder
  | some o =>
    let remaining := qCount (o.count - delta)
    if remaining ≤ 0 then dropOrder ladder coid
    else replaceOrder ladder coid fun o => { o with count := remaining }

/-- Mark a margin slot consumed. -/
def consumeSlot (slots : List MarginSlot) (m : ℤ) : List MarginSlot :=
  if 0 ≤ m ∧ m < slots.length then slots.set m.toNat .filled else slots

/-- Record a fill: the ladder, the margin array, the fill list and the booked count. -/
def recordFill (p : V33Params) (st : V33State) (r : FillReport) (now : ℚ) : V33State :=
  let delta := qCount r.delta
  let rf := rungFillOf p st r now
  let m := fillMargin p st r
  let onArray := !r.orphan ∧ 0 ≤ m ∧ m < st.marginState.length
  { st with
    ladder := reduceOrder st.ladder r.coid delta
    restFills := st.restFills ++ [rf]
    rungsFilled := st.rungsFilled + 1
    restBookedByCoid := st.restBookedByCoid.set r.coid
      (qCount (st.restBookedByCoid.getD r.coid 0 + delta))
    marginState := if onArray then consumeSlot st.marginState m else st.marginState
    filledAt := if onArray then st.filledAt.set m rf else st.filledAt }

/-- A fill on no known bucket: no wings, and the hour stands down. -/
def failBucketUnknown (st : V33State) : Outcome :=
  let st := { st with bucketUnknown := true, stoodDown := true, restAllotmentDone := true }
  let r := if st.ladder.isEmpty then st.quiet else cancelAll st false
  (r.andThen fun st => standdown st .fillBucketUnknown).mapSt syncWingMirrors

/-- Append a fill to the batch of the trigger that pre-hedged its rung. The batch of an
unresolved trigger exists. -/
def attachFill (st : V33State) (t : PrintThroughTrigger) (coid : String) (rf : RungFill) :
    V33State :=
  maybeCloseSet
    { st with
      wingBatches := replaceBatch st.wingBatches t.batchIndex fun b =>
        { b with fills := b.fills ++ [rf] }
      printThroughTriggers := replaceFirst (fun t => !t.resolved && t.rungCoids.contains coid)
        (fun t => { t with filledCoids := t.filledCoids ++ [coid] }) st.printThroughTriggers }
    t.batchIndex

/-- Hand a recorded fill to the wings. -/
def hedgeFill (p : V33Params) (st : V33State) (coid : String) (rf : RungFill) (now : ℚ) :
    V33State :=
  match ptTriggerForCoid st coid with
  | some t => attachFill st t coid rf
  | none => coalesceAdd p st rf now

/-- Stop quoting once every rung filled or the hour's sets are done. -/
def latchIfDone (p : V33Params) (st : V33State) : V33State :=
  if p.maxSetsPerHour ≤ st.rungsFilled ∨
      (st.ladder.isEmpty ∧ !st.awaitingReplace ∧ st.rollsInFlight.isEmpty ∧
        st.outstandingCancels = 0) then
    { st with restAllotmentDone := true }
  else st

/-- Book a fill and hand it to the wings. -/
def bookRungFill (p : V33Params) (st : V33State) (r : FillReport) (now : ℚ) : Outcome :=
  let rf := rungFillOf p st r now
  let st := recordFill p st r now
  match rf.bucketSd with
  | none => failBucketUnknown st
  | some _ =>
    let st := latchIfDone p (hedgeFill p st r.coid rf now)
    (wingStep p st now).mapSt syncWingMirrors

/-- An informational alarm. -/
def alarmAction (reason : Reason) (coid orderId ticker : Option String) (count : ℚ)
    (price : Option ℚ) : V33Action :=
  { kind := .alarm, reason := some reason, clientOrderId := coid, orderId := orderId,
    ticker := ticker, count := count, price := price }

/-- The rung of an orphan fill, its margin, and whether the ladder has such a rung. -/
def orphanLabels (p : V33Params) (st : V33State) (price : ℚ) : ℤ × ℚ × Bool :=
  match st.nTop with
  | some nTop =>
    let rung := rungOf nTop price
    (rung, eRungOf p nTop price, decide (0 ≤ rung ∧ rung < p.rungs))
  | none => (0, p.eMin, false)

/-- Book a fill of an order the core lost, with an alarm. -/
def bookOrphanFill (p : V33Params) (st : V33State) (coid : String) (orderId : Option String)
    (price delta : ℚ) (ticker : Option String) (now : ℚ) (retainedSd : Option ℤ) : Outcome :=
  let (rung, eRung, legit) := orphanLabels p st price
  let alarm := alarmAction .orphanRungFillHedged (some coid) orderId ticker delta (some price)
  let r := bookRungFill p st
    { coid := coid, price := price, delta := delta, rung := rung, eRung := eRung,
      retainedSd := retainedSd, fillTicker := ticker, orphan := !legit, orderId := orderId } now
  ⟨r.st, alarm :: r.acts⟩

/-- Add an increment to the lots seen for a client order id. -/
def noteSeen (st : V33State) (coid : String) (count : ℚ) : V33State :=
  { st with
    fillSeenByCoid := st.fillSeenByCoid.set coid
      (qCount (st.fillSeenByCoid.getD coid 0 + count)) }

/-- The remembered cancel of a client order id, with its venue id. -/
def ctxOfCoid (st : V33State) (coid : String) : Option (String × CancelCtx) :=
  st.cancelCtx.entries.find? fun e => e.2.coid == coid

/-- A fill that names no ladder order and no wing leg. An increment books only what exceeds
the booked lots, a poll delta is booked as it is. -/
def applyOrphanFill (p : V33Params) (st : V33State) (ev : Fill) (now : ℚ) : Outcome :=
  let count := qCount ev.count
  let coid := ev.clientOrderId
  if count ≤ 0 then st.quiet
  else
    match ev.price with
    | none => ⟨st, [alarmAction .orphanRungFillUnpriced (some coid) ev.orderId ev.marketTicker
        count none]⟩
    | some price =>
      let ctx := ctxOfCoid st coid
      let namesTicker : Bool := match ev.marketTicker with
        | some t => t != ""
        | none => false
      if ctx.isNone ∧ namesTicker ∧ sdForBucketTicker st ev.marketTicker = none then
        ⟨st, [alarmAction .orphanFillNotBucket (some coid) ev.orderId ev.marketTicker count
          (some price)]⟩
      else
        let booked := qCount (st.restBookedByCoid.getD coid 0)
        let polled := ev.source = some .poll
        let st := if polled then st else noteSeen st coid count
        let delta := if polled then count else min count (st.fillSeenByCoid.getD coid 0 - booked)
        if delta ≤ 0 then st.quiet
        else
          bookOrphanFill p st coid (ev.orderId.or (ctx.map Prod.fst)) price delta ev.marketTicker
            now (ctx.bind fun c => c.2.bucketSd)

/-- Skip the lots an amend cross already booked for the venue id: the rest of the fill and
the state with the remaining cross. -/
def skipCrossed (st : V33State) (orderId : Option String) (delta : ℚ) : ℚ × V33State :=
  match orderId with
  | none => (delta, st)
  | some oid =>
    if 0 < delta ∧ 0 < st.amendCrossPending.getD oid 0 then
      let pending := qCount (st.amendCrossPending.getD oid 0)
      let skip := min pending delta
      (delta - skip,
        { st with
          amendCrossPending :=
            if 0 < pending - skip then st.amendCrossPending.set oid (pending - skip)
            else st.amendCrossPending.pop oid })
    else (delta, st)

/-- A fill of an order on the ladder, booked at its resting price. -/
def applyRungFill (p : V33Params) (st : V33State) (order : RestOrder) (ev : Fill) (now : ℚ) :
    Outcome :=
  let delta := qCount ev.count
  let st := if 0 < delta ∧ ev.source ≠ some .poll then noteSeen st ev.clientOrderId delta else st
  let (delta, st) := skipCrossed st (order.orderId.or ev.orderId) delta
  if 0 < delta then
    bookRungFill p st
      { coid := order.clientOrderId, price := order.price, delta := delta, rung := order.rung,
        eRung := order.eRung, retainedSd := order.bucketSd, fillTicker := ev.marketTicker } now
  else st.quiet

end Pilot.V33
