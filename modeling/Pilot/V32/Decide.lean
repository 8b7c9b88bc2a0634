import Pilot.V32.Wings

/-!
# The decision of the single-order core

Booking the fills of the rest, the events of its life, and the requote gate: at most one
order is wanted at a time, and a replace amends it in place.
-/

namespace Pilot.V32

open V33 (ActionKind BookUpdate Event Fill OrderAck OrderAmended OrderCancelled Reason)

/-! ### Booking -/

/-- The state with `delta` lots of the order `coid` booked at `price`: the fill gets its own
batch, and the allotment is done when nothing of it remains. -/
def settleRest (p : V32Params) (st : V32State) (coid : String) (price delta now : ℚ) : V32State :=
  let delta := qCount delta
  let remaining := max 0 (qCount (restSize p st - delta))
  let st : V32State :=
    { st with
      restFills := st.restFills ++ [⟨price, delta, now⟩]
      wingBatches := st.wingBatches ++ [⟨st.nextBatchIndex, price, delta, now, false, false, false⟩]
      nextBatchIndex := st.nextBatchIndex + 1
      restBookedByCoid :=
        st.restBookedByCoid.set coid (qCount (st.restBookedByCoid.getD coid 0 + delta))
      restRemaining := some remaining
      partialFills := if 0 < remaining then st.partialFills + 1 else st.partialFills }
  if remaining ≤ 0 then
    { st with
      restAllotmentDone := true
      restLive := none
      restPending := none
      cancelInFlight := false
      amendInFlight := false }
  else
    { st with
      restLive := st.restLive.map fun o =>
        if o.clientOrderId = coid then { o with count := remaining } else o }

/-- Book `delta` lots of the order `coid` at `price` and step the wings. -/
def bookRestDelta (p : V32Params) (st : V32State) (coid : String) (price delta now : ℚ) :
    Outcome :=
  (wingStep p (settleRest p st coid price delta now) now).mapSt syncWingMirrors

/-! ### The life of the rest -/

/-- An acknowledged create becomes the live rest. -/
def applyAck (st : V32State) (ev : OrderAck) : V32State :=
  match st.restPending with
  | none => st
  | some o =>
    if o.clientOrderId ≠ ev.clientOrderId then st
    else
      { st with
        restLive := some { o with orderId := some ev.orderId, live := true, pending := false }
        restPending := none
        cancelInFlight := false }

/-- The order a cancel confirm names, and the state with its slot cleared. -/
def matchCancelled (st : V32State) (orderId : Option String) : Option RestOrder × V32State :=
  match st.restLive.filter fun o => o.orderId = orderId with
  | some o => (some o, { st with restLive := none })
  | none =>
    match st.restPending.filter fun o => o.orderId = orderId with
    | some o => (some o, { st with restPending := none })
    | none => (none, st)

/-- The id and the price the lots of a cancel are booked under: those of the slot it cleared,
or those remembered when the slot was cleared early. -/
def cancelAttribution (st : V32State) (matched : Option RestOrder) (orderId : Option String) :
    Option (String × ℚ) :=
  match matched with
  | some o => some (o.clientOrderId, o.price)
  | none => orderId.bind fun oid => st.cancelCtx.get? oid

/-- The text of an order id, as the source prints an absent one. -/
def orderIdText (orderId : Option String) : String := orderId.getD "None"

/-- A confirmed cancel clears the slot; its count is cumulative, so only the lots beyond
those booked are booked. -/
def applyCancelled (p : V32Params) (st : V32State) (ev : OrderCancelled) (now : ℚ) : Outcome :=
  let matched := (matchCancelled st ev.orderId).1
  let st := (matchCancelled st ev.orderId).2
  let st :=
    if matched.isSome ∨ st.cancelInFlight ∨ st.amendInFlight then
      { st with cancelInFlight := false, amendInFlight := false }
    else st
  let filled := qCount ev.filledCountBeforeCancel
  if filled ≤ 0 then st.quiet
  else
    match cancelAttribution st matched ev.orderId with
    | some (coid, price) =>
      let delta := qCount (filled - qCount (st.restBookedByCoid.getD coid 0))
      if 0 < delta then bookRestDelta p st coid price delta now else st.quiet
    | none =>
      if st.restFills.isEmpty then
        bookRestDelta p st ("__cxl__" ++ orderIdText ev.orderId) (st.desiredN.getD 0) filled now
      else st.quiet

/-- The order of the slot a private fill names. -/
def matchFill (st : V32State) (coid : String) : Option RestOrder :=
  (st.restLive.filter fun o => o.clientOrderId = coid).or
    (st.restPending.filter fun o => o.clientOrderId = coid)

/-- The lots a fill of the order adds, after those an amend of it already booked, and the
state that has used up that guard. -/
def skipAmendCross (st : V32State) (oid : Option String) (delta : ℚ) : ℚ × V32State :=
  match oid with
  | none => (delta, st)
  | some oid =>
    let pending := qCount (st.amendCrossPending.getD oid 0)
    if 0 < delta ∧ 0 < pending then
      let skip := min pending delta
      let left := qCount (pending - skip)
      (qCount (delta - skip),
        { st with
          amendCrossPending :=
            if 0 < left then st.amendCrossPending.set oid left
            else st.amendCrossPending.pop oid })
    else (delta, st)

/-- Record what a fill says of a wing leg. -/
def applyLegFill (st : V32State) (leg : WingLeg) (ev : Fill) : V32State :=
  let close (l : WingLeg) : WingLeg :=
    if 0 < ev.count then
      { l with
        status := .filled, fillPrice := ev.price, fillFee := ev.price.map fee }
    else { l with status := .unfilled }
  maybeCloseSet
    { st with
      wingLegs := replaceFirst (fun l => l.clientOrderId == ev.clientOrderId) close st.wingLegs }
    leg.batch

/-- A private fill: of a wing leg, or of the order in the slot. -/
def applyFill (p : V32Params) (st : V32State) (ev : Fill) (now : ℚ) : Outcome :=
  match st.wingLegs.find? fun l => l.clientOrderId == ev.clientOrderId with
  | some leg => (applyLegFill st leg ev).quiet
  | none =>
    match matchFill st ev.clientOrderId with
    | none => st.quiet
    | some o =>
      let r := skipAmendCross st (o.orderId.or ev.orderId) (qCount ev.count)
      if 0 < r.1 then
        bookRestDelta p r.2 o.clientOrderId (ev.price.getD o.price) r.1 now
      else r.2.quiet

/-- Move the lots booked under the old id to the new one. -/
def carryBooked (booked : Dict String ℚ) (old new : String) : Dict String ℚ :=
  match booked.get? old with
  | none => booked
  | some lots =>
    if new = old then booked else (booked.pop old).set new (qCount (booked.getD new 0 + lots))

/-- The replace times of the trailing minute, and now. -/
def stampReplace (st : V32State) (now : ℚ) : List ℚ :=
  st.replaceTimes.filter (fun t => now - t ≤ 60) ++ [now]

/-- A confirmed amend moves the live rest to its new price and id in place; what the amend
itself filled is booked at once. -/
def applyAmended (p : V32Params) (st : V32State) (ev : OrderAmended) (now : ℚ) : Outcome :=
  match st.restLive.filter fun o =>
      o.orderId = some ev.orderId ∨ o.clientOrderId = ev.clientOrderId with
  | none => { st with amendInFlight := false }.quiet
  | some o =>
    let newCoid := if ev.clientOrderId = "" then o.clientOrderId else ev.clientOrderId
    let updated := { o with price := ev.price.getD o.price, clientOrderId := newCoid }
    let st :=
      { st with
        restLive := some updated
        amendInFlight := false
        restBookedByCoid := carryBooked st.restBookedByCoid o.clientOrderId newCoid
        lastReplaceTs := some now
        replaceCount := st.replaceCount + 1
        replaceTimes := stampReplace st now }
    let delta := qCount ev.fillCount
    if 0 < delta then
      -- a partial cross may be reported once more by the fill channel
      (bookRestDelta p st newCoid (ev.averageFillPrice.getD updated.price) delta now).mapSt
        fun st =>
          if st.restLive.isSome then
            { st with
              amendCrossPending := st.amendCrossPending.set ev.orderId
                (qCount (st.amendCrossPending.getD ev.orderId 0 + delta)) }
          else st
    else st.quiet

/-! ### The requote gate -/

/-- The cancel of an order. -/
def cancelAction (st : V32State) (o : RestOrder) : V32Action :=
  mk st.shakedown
    { kind := .cancelRest, orderId := o.orderId, clientOrderId := some o.clientOrderId }

/-- The ticker of the spot bucket, empty if it was never seen. -/
def spotTicker (st : V32State) : String :=
  (st.spotSd.bind fun sd => st.bucketTickers.get? sd).getD ""

/-- The create of the rest, for the whole lots of the remainder. -/
def placeAction (p : V32Params) (st : V32State) (coid : String) (n : ℚ) : V32Action :=
  mk st.shakedown
    { kind := .placeRest, ticker := some (spotTicker st), side := some .no,
      count := qCount (restPlaceCount p st), price := some n,
      expirationEpoch := some (st.closeEpoch - p.quoteEndS), clientOrderId := some coid }

/-- Place an order at the wanted price; it waits for its acknowledgement. -/
def emitPlace (p : V32Params) (st : V32State) (n now : ℚ) : Outcome :=
  let coid := (mintCoid st).1
  let st := (mintCoid st).2
  let order : RestOrder :=
    ⟨coid, none, n, qCount (restPlaceCount p st), now, false, true, st.spotSd⟩
  let st :=
    { st with
      restPending := some order
      restBucketSd := st.spotSd
      lastReplaceTs := some now
      replaceCount := st.replaceCount + 1
      replaceTimes := stampReplace st now }
  ⟨st, [placeAction p st coid n]⟩

/-- The amend of an order, for the whole lots of the remainder. -/
def amendAction (p : V32Params) (st : V32State) (o : RestOrder) (newCoid : String) (n : ℚ) :
    V32Action :=
  mk st.shakedown
    { kind := .amendRest, orderId := o.orderId, ticker := some (spotTicker st), side := some .no,
      count := qCount (restPlaceCount p st), price := some n,
      expirationEpoch := some (st.closeEpoch - p.quoteEndS),
      clientOrderId := some o.clientOrderId, updatedClientOrderId := some newCoid }

/-- Amend the live rest to the wanted price; nothing else is sent until it resolves. -/
def emitAmend (p : V32Params) (st : V32State) (o : RestOrder) (n : ℚ) : Outcome :=
  let newCoid := (mintCoid st).1
  let st := { (mintCoid st).2 with amendInFlight := true }
  ⟨st, [amendAction p st o newCoid n]⟩

/-- Stand down for a reason; the action is emitted when the reason changes. -/
def standdown (st : V32State) (reason : Reason) : Outcome :=
  if st.lastStanddownReason = some reason then { st with standDownReason := some reason }.quiet
  else
    ⟨{ st with lastStanddownReason := some reason, standDownReason := some reason },
      [{ kind := .standDown, reason := some reason }]⟩

/-- Remember the id and the price of an order whose slot is cleared early. -/
def rememberCancelCtx (st : V32State) (o : RestOrder) : V32State :=
  match o.orderId with
  | none => st
  | some oid => { st with cancelCtx := st.cancelCtx.set oid (o.clientOrderId, o.price) }

/-- The cancel of the live rest, its slot cleared early, unless one is in flight. -/
def cancelLive (st : V32State) : Outcome :=
  match st.restLive with
  | some o =>
    if st.cancelInFlight then st.quiet
    else
      ⟨{ rememberCancelCtx st o with restLive := none, cancelInFlight := true },
        [cancelAction st o]⟩
  | none => st.quiet

/-- The cancel of a create that was not acknowledged. -/
def cancelPending (st : V32State) : Outcome :=
  match st.restPending with
  | some o => ⟨{ st with restPending := none }, [cancelAction st o]⟩
  | none => st.quiet

/-- Cancel whatever is in the slot. -/
def cancelLiveIfAny (st : V32State) : Outcome := (cancelLive st).andThen cancelPending

/-- Cancel whatever is in the slot and stand down. -/
def cancelAndStandDown (st : V32State) (reason : Reason) : Outcome :=
  (cancelLiveIfAny st).andThen fun st => standdown st reason

/-- On a bucket change cancel what is in the slot; the place waits for the confirm. -/
def changeBucket (st : V32State) : Outcome :=
  let r := cancelLiveIfAny st
  ⟨{ r.st with
      restLive := none
      cancelInFlight := st.cancelInFlight || !r.acts.isEmpty
      awaitingReplace := true
      restBucketSd := none }, r.acts⟩

/-- Replace the live rest if the price moved enough and the debounce is over. -/
def replaceRest (p : V32Params) (st : V32State) (o : RestOrder) (n now : ℚ) : Outcome :=
  let since := (now - st.lastReplaceTs.getD (-10 ^ 18)) * 1000
  if p.tol ≤ |n - o.price| ∧ (p.debMs : ℚ) ≤ since ∧ n ≠ o.price then
    match o.orderId with
    | none =>
      ⟨{ st with cancelInFlight := true, awaitingReplace := true }, [cancelAction st o]⟩
    | some _ => emitAmend p st o n
  else st.quiet

/-- Place, replace or hold in a healthy quote context with the wanted price `n`. -/
def quoteRest (p : V32Params) (st : V32State) (n now : ℚ) : Outcome :=
  if st.restBucketSd.isSome ∧ st.restBucketSd ≠ st.spotSd ∧ ¬st.amendInFlight then
    changeBucket st
  else if st.restPending.isSome ∨ (st.awaitingReplace ∧ st.cancelInFlight) ∨ st.amendInFlight then
    st.quiet
  else if restPlaceCount p st < 1 then st.quiet
  else
    match st.restLive with
    | none => emitPlace p { st with awaitingReplace := false } n now
    | some o => replaceRest p st o n now

/-- Why no quote may be held, in the order of the checks; in the warm-up nothing is done. -/
inductive Gate where
  | stop (reason : Reason)
  | warmup
  | quote (n : ℚ)

/-- The checks before a quote is held. -/
def quoteGate (p : V32Params) (st : V32State) (now : ℚ) : Gate :=
  let tToClose := (st.closeEpoch : ℚ) - now
  if st.stoodDown then .stop .stoodDown
  else if tToClose < p.quoteEndS then .stop .pastQuoteEnd
  else if p.quoteStartS < tToClose then .warmup
  else if st.spotSd.isNone then .stop .noSpotBucket
  else if st.spotBucketStale then .stop .staleBucket
  else if st.W.isNone then .stop .staleOrMissingWing
  else
    match st.desiredN with
    | none => .stop .nBelowMin
    | some n => if n < p.nMin then .stop .nBelowMin else .quote n

/-- The requote gate: the allotment latch, the replace-rate alarm, the reasons not to quote,
then the quote. -/
def requote (p : V32Params) (st : V32State) (now : ℚ) : Outcome :=
  let recent := st.replaceTimes.filter fun t => now - t ≤ 60
  if st.restAllotmentDone then cancelLiveIfAny st
  else if p.replaceRateAlarmPerMin < recent.length ∧ !st.stoodDown then
    (cancelLiveIfAny st).andThen fun st => standdown { st with stoodDown := true } .replaceRate
  else
    match quoteGate p st now with
    | .stop reason => cancelAndStandDown st reason
    | .warmup => st.quiet
    | .quote n =>
      quoteRest p { st with lastStanddownReason := none, standDownReason :=
        if st.lastStanddownReason.isSome then none else st.standDownReason } n now

/-! ### The decision -/

/-- Re-derive the context, then step the wings and the quote. -/
def refresh (p : V32Params) (st : V32State) (now : ℚ) : Outcome :=
  (wingStep p (recomputeContext p st now) now).andThen fun st => requote p st now

/-- The decision on one event. A print moves only the shadow, which is not part of the
state. -/
def decideV32 (p : V32Params) (st : V32State) (ev : Event) : Outcome :=
  match ev with
  | .bookUpdate e => refresh p (foldBook st e) e.serverTs
  | .trade _ => st.quiet
  | .orderAck e => (applyAck st e).quiet
  | .orderAmended e => applyAmended p st e e.serverTs
  | .orderCancelled e => applyCancelled p st e e.serverTs
  | .fill e => applyFill p st e e.serverTs
  | .clockTick now => refresh p st now

/-- Book a fill of an order the core no longer tracks, once, on the bucket it rested on; the
allotment is done. -/
def bookLateRestFill (p : V32Params) (st : V32State) (price count serverTs : ℚ)
    (bucketSd : Option ℤ) : Outcome :=
  if st.restFill.isSome then st.quiet
  else
    let sd := bucketSd.or st.spotSd
    let st :=
      { st with
        restFills := st.restFills ++ [⟨price, qCount count, serverTs⟩]
        wingBatches := st.wingBatches ++
          [⟨st.nextBatchIndex, price, qCount count, serverTs, false, false, false⟩]
        nextBatchIndex := st.nextBatchIndex + 1
        restAllotmentDone := true
        restLive := none
        restPending := none
        cancelInFlight := false
        spotSd := sd
        spotSu := match sd with
          | some sd => some (sd + p.bucketWidth)
          | none => st.spotSu }
    (wingStep p st serverTs).mapSt syncWingMirrors

end Pilot.V32
