import Pilot.V33.Converge

/-!
# The decision

The order lifecycle events and the decision on every event: the new state and the
actions, with no other input than the event's own time.
-/

namespace Pilot.V33

/-! ### Acknowledgements and amends -/

/-- A pending create is acknowledged: the first order of that client order id that still
waits makes the order of that id live. -/
def applyAck (st : V33State) (ev : OrderAck) : V33State :=
  if st.ladder.any fun o => o.clientOrderId == ev.clientOrderId && o.pending then
    { st with
      ladder := replaceOrder st.ladder ev.clientOrderId fun o =>
        { o with orderId := some ev.orderId, live := true, pending := false } }
  else st

/-- The roll an amend confirm names. -/
def rollOfAmend (st : V33State) (ev : OrderAmended) : Option RollPending :=
  st.rollsInFlight.find? fun r =>
    r.orderId == some ev.orderId || r.oldCoid == ev.clientOrderId || r.newCoid == ev.clientOrderId

/-- The labels of an amended order. -/
def amendLabels (p : V33Params) (st : V33State) (rp : RollPending) (newPrice : ℚ) : ℤ × ℚ :=
  match st.nTop with
  | some nTop => (rungOf nTop newPrice, eRungOf p nTop newPrice)
  | none =>
    let rung := rp.targetMargin - eMinCents p
    (rung, p.eMin + rung * cent)

/-- Carry the booked lots of the old client order id over to the new one. -/
def transferBooked (booked : Dict String ℚ) (oldCoid newCoid : String) : Dict String ℚ :=
  if newCoid = oldCoid then booked
  else
    match booked.get? oldCoid with
    | none => booked
    | some v => (booked.pop oldCoid).set newCoid (booked.getD newCoid 0 + v)

/-- Move an order to its new price and client order id. -/
def confirmRoll (p : V33Params) (st : V33State) (rp : RollPending) (newPrice now : ℚ) : V33State :=
  let labels := amendLabels p st rp newPrice
  { st with
    ladder := replaceOrder st.ladder rp.oldCoid fun o =>
      { o with
        price := newPrice
        clientOrderId := rp.newCoid
        rung := labels.1
        eRung := labels.2 }
    restBookedByCoid := transferBooked st.restBookedByCoid rp.oldCoid rp.newCoid
    lastReplaceTs := some now
    replaceCount := st.replaceCount + 1
    replaceTimes := recentTimes st now ++ [now]
    rollCount := st.rollCount + 1
    rollSingleOrderCount := st.rollSingleOrderCount + 1 }

/-- Book the lots an amend reports as crossed, and remember them for the fills to come. -/
def bookAmendCross (p : V33Params) (st : V33State) (rp : RollPending) (newPrice : ℚ)
    (ev : OrderAmended) (now : ℚ) : Outcome :=
  let delta := qCount ev.fillCount
  if 0 < delta then
    match orderOf st rp.newCoid with
    | none => st.quiet
    | some moved =>
      (bookRungFill p st
        { coid := moved.clientOrderId, price := ev.averageFillPrice.getD newPrice, delta := delta,
          rung := moved.rung, eRung := moved.eRung, retainedSd := moved.bucketSd } now).mapSt
        fun st =>
          if (orderOf st rp.newCoid).isSome then
            { st with
              amendCrossPending := st.amendCrossPending.set ev.orderId
                (st.amendCrossPending.getD ev.orderId 0 + delta) }
          else st
  else st.quiet

/-- An amend confirm up to its convergence: the order moves and a cross is booked. An order
that has left the ladder only drops its roll. -/
def confirmAmend (p : V33Params) (st : V33State) (rp : RollPending) (ev : OrderAmended) (now : ℚ) :
    Outcome :=
  let st := dropRoll st rp.oldCoid
  match orderOf st rp.oldCoid with
  | none => st.quiet
  | some _ =>
    let newPrice := ev.price.getD rp.targetPrice
    bookAmendCross p (confirmRoll p st rp newPrice now) rp newPrice ev now

/-- An amend confirm: the roll ends and the ladder converges on. -/
def applyAmended (p : V33Params) (st : V33State) (ev : OrderAmended) (now : ℚ) : Outcome :=
  match rollOfAmend st ev with
  | none => st.quiet
  | some rp => (confirmAmend p st rp ev now).andThen fun st => converge p st now

/-! ### Cancel confirms -/

/-- The ladder order a cancel confirm names: by venue id if it carries one, else by client
order id, and none if it carries neither. -/
def cancelledOrder (st : V33State) (ev : OrderCancelled) : Option RestOrder :=
  match ev.orderId, ev.clientOrderId with
  | some oid, _ => st.ladder.find? fun o => o.orderId == some oid
  | none, some coid => st.ladder.find? fun o => o.clientOrderId == coid
  | none, none => none

/-- The remembered cancel a confirm names. -/
def cancelledCtx (st : V33State) (ev : OrderCancelled) : Option CancelCtx :=
  (ev.orderId.bind st.cancelCtx.get?).or
    (ev.clientOrderId.bind fun coid => (ctxOfCoid st coid).map Prod.snd)

/-- What the core knows of a cancelled order: the live order, else the remembered one. -/
def cancelledOf (st : V33State) (ev : OrderCancelled) : Option CancelCtx :=
  match cancelledOrder st ev with
  | some o => some ⟨o.clientOrderId, o.price, o.rung, o.eRung, o.bucketSd⟩
  | none => cancelledCtx st ev

/-- The client order id an unknown cancelled order is booked under. -/
def orphanCoid (ev : OrderCancelled) : Option String :=
  match ev.clientOrderId, ev.orderId with
  | some coid, _ => some coid
  | none, some oid => if oid = "" then none else some ("orphan-oid-" ++ oid)
  | none, none => none

/-- Book the lots of a cumulative count that are not booked yet. -/
def bookCancelFill (p : V33Params) (st : V33State) (ev : OrderCancelled) (now : ℚ) : Outcome :=
  let filled := qCount ev.filledCountBeforeCancel
  let unbooked (coid : String) : ℚ := filled - qCount (st.restBookedByCoid.getD coid 0)
  if 0 < filled then
    match cancelledOf st ev with
    | some c =>
      if 0 < unbooked c.coid then
        bookRungFill p st
          { coid := c.coid, price := c.price, delta := unbooked c.coid, rung := c.rung,
            eRung := c.eRung, retainedSd := c.bucketSd } now
      else st.quiet
    | none =>
      match orphanCoid ev, ev.price with
      | some coid, some price =>
        if 0 < unbooked coid then
          bookOrphanFill p st coid ev.orderId price (unbooked coid) ev.marketTicker now none
        else st.quiet
      | _, _ => ⟨st, [alarmAction .orphanRungFillUnpriced ev.clientOrderId ev.orderId none filled
          none]⟩
  else st.quiet

/-- The roll a cancel confirm names. -/
def rollOfCancel (st : V33State) (ev : OrderCancelled) : Option RollPending :=
  match ev.orderId, ev.clientOrderId with
  | some oid, _ => st.rollsInFlight.find? fun r => r.orderId == some oid
  | none, some coid => st.rollsInFlight.find? fun r => r.oldCoid == coid
  | none, none => none

/-- The price of a fallback re-place: the roll's target under the current cap. -/
def fallbackPrice (st : V33State) (rp : RollPending) : ℚ :=
  match st.cap with
  | some cap => if cap < rp.targetPrice then cap else rp.targetPrice
  | none => rp.targetPrice

/-- The amend failed and its order was cancelled: drop the order and re-place the lots that
still rested at the roll's target. -/
def rollFallback (p : V33Params) (st : V33State) (rp : RollPending) (now : ℚ) : Outcome :=
  let lots : ℤ := match orderOf st rp.oldCoid with
    | some mover => truncInt mover.count
    | none => 0
  let st := dropRoll st rp.oldCoid
  let st := { st with ladder := dropOrder st.ladder rp.oldCoid }
  let target := fallbackPrice st rp
  match st.nTop with
  | none => st.quiet
  | some nTop =>
    if ¬st.restAllotmentDone ∧ ¬st.stoodDown ∧ 0 < lots ∧ inWindow p st now ∧ p.nMin ≤ target ∧
        filledContracts st + restingContracts st + lots ≤ allotment p then
      placeOne p st target (rungOf nTop target) (eRungOf p nTop target) now lots
    else st.quiet

/-- Take a cancelled order off the ladder, and count its cancel as resolved if the core
counted it. -/
def dropCancelled (st : V33State) (ev : OrderCancelled) (live : Option RestOrder) : V33State :=
  let st := match live with
    | some o => { st with ladder := dropOrder st.ladder o.clientOrderId }
    | none => st
  match ev.orderId with
  | none => st
  | some oid =>
    if (live.isSome ∨ st.cancelCtx.contains oid) ∧ 0 < st.outstandingCancels then
      { st with outstandingCancels := st.outstandingCancels - 1 }
    else st

/-- A cancel confirm up to the booking of what it reports: its price is released, and a
confirm that names no order raises an alarm. -/
def reportCancel (p : V33Params) (st : V33State) (ev : OrderCancelled) (now : ℚ) : Outcome :=
  let st := clearCancelPending st ev.orderId
  let unattributed : Outcome :=
    if ev.orderId.isNone ∧ ev.clientOrderId.isNone then
      ⟨st, [alarmAction .cancelUnattributed none none none (qCount ev.filledCountBeforeCancel)
        none]⟩
    else st.quiet
  unattributed.andThen fun st => bookCancelFill p st ev now

/-- What a cancel confirm does once its fill is booked: finish a failed amend, or drop the
order it named when it arrived. -/
def finishCancel (p : V33Params) (live : Option RestOrder) (ev : OrderCancelled) (now : ℚ)
    (st : V33State) : Outcome :=
  match rollOfCancel st ev with
  | some rp => rollFallback p st rp now
  | none => ptOnCancelConfirmed p (dropCancelled st ev live) ev.orderId now

/-- A cancel confirm: book what it reports, drop the order, and converge. -/
def applyCancelled (p : V33Params) (st : V33State) (ev : OrderCancelled) (now : ℚ) : Outcome :=
  ((reportCancel p st ev now).andThen
    (finishCancel p (cancelledOrder (clearCancelPending st ev.orderId) ev) ev now)).andThen
      fun st => converge p st now

/-! ### Fills -/

/-- The response of a wing leg: filled at its price, or missed. `none` where the source
raises: a filled response without a price. -/
def applyWingFill (p : V33Params) (st : V33State) (leg : WingLeg) (ev : Fill) (now : ℚ) :
    Option Outcome :=
  let setLeg (f : WingLeg → WingLeg) : V33State :=
    { st with
      wingLegs := replaceFirst (fun l => l.clientOrderId == ev.clientOrderId) f st.wingLegs }
  if 0 < ev.count then
    ev.price.map fun price =>
      (netWings (setLeg fun l =>
        { l with status := .filled, fillPrice := some price, fillFee := some (fee price) })
        ev.clientOrderId now).mapSt fun st => maybeCloseSet st leg.batch
  else
    let st := setLeg fun l => { l with status := .unfilled }
    some <|
      match batchOf st leg.batch with
      | some b =>
        if b.printThrough ∧ !b.resolved then ptFailClosed p st b.index now
        else (maybeCloseSet st leg.batch).quiet
      | none => (maybeCloseSet st leg.batch).quiet

/-- A private fill: of a taker completion, of a wing leg, of a resting rung, or of an order
the core lost. A decision that raises leaves the state as it was. -/
def applyFill (p : V33Params) (st : V33State) (ev : Fill) (now : ℚ) : Outcome :=
  let cleared := clearCancelPending st ev.orderId
  match ptApplyCompleteFill p cleared ev now with
  | some r => r
  | none =>
    match legOf cleared ev.clientOrderId with
    | some leg => (applyWingFill p cleared leg ev now).getD st.quiet
    | none =>
      match orderOf cleared ev.clientOrderId with
      | some order => applyRungFill p cleared order ev now
      | none => applyOrphanFill p cleared ev now

/-! ### The decision -/

/-- The quote context, the wings and the stalls of a book update or a tick. -/
def serveWings (p : V33Params) (st : V33State) (now : ℚ) : Outcome :=
  (wingStep p (shadowComplete p (recomputeContext p st now) now) now).andThen
    fun st => ptStallStep p st now

/-- A book update or a tick: the wings, the stalls and the ladder. -/
def serveWindow (p : V33Params) (st : V33State) (now : ℚ) : Outcome :=
  (serveWings p st now).andThen fun st => converge p st now

/-- A public print: the shadow, the wings, an early take, and the stalls. -/
def applyTrade (p : V33Params) (st : V33State) (ev : Trade) (now : ℚ) : Outcome :=
  ((((shadowOnTrade p st ev).mapSt fun st => shadowComplete p st now).andThen
    fun st => wingStep p st now).andThen fun st => printThroughStep p st ev now).andThen
      fun st => ptStallStep p st now

/-- The decision on an event. -/
def decideV33 (p : V33Params) (st : V33State) (ev : Event) : Outcome :=
  match ev with
  | .bookUpdate e => serveWindow p (stampStrikeFeed (foldBook st e) e) e.serverTs
  | .trade e => applyTrade p st e e.serverTs
  | .orderAck e => (applyAck st e).quiet
  | .orderAmended e => applyAmended p st e e.serverTs
  | .orderCancelled e => applyCancelled p st e e.serverTs
  | .fill e => applyFill p st e e.serverTs
  | .clockTick now => serveWindow p st now

end Pilot.V33
