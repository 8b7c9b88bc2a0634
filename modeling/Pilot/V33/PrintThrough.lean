import Pilot.V33.Booking

/-!
# Print-through wings

A bucket print close to a resting rung takes its wings early. The trigger ends when
its rungs fill, or by the stall policy: its rests are cancelled first, then the
shortfall is bought or the wings are sold back. Wings that did not both fill are
sold back at once and the hour stands down.
-/

namespace Pilot.V33

/-- The rungs pre-hedged by unresolved triggers. -/
def ptCoveredCoids (st : V33State) : List String :=
  (st.printThroughTriggers.filter fun t => !t.resolved).flatMap PrintThroughTrigger.rungCoids

/-- Update the trigger at a position. -/
def replacePt (st : V33State) (idx : ℕ) (f : PrintThroughTrigger → PrintThroughTrigger) :
    V33State :=
  { st with printThroughTriggers := st.printThroughTriggers.modify idx f }

/-- The current bids of the spot's two wings. -/
def ptWingBids (st : V33State) : Option ℚ × Option ℚ :=
  ((st.spotSd.bind st.strikeTops.get?).bind TopOfBook.yesBid,
    (st.spotSu.bind st.strikeTops.get?).bind TopOfBook.noBid)

/-- The bid on a side. -/
def bidOf (bids : Option ℚ × Option ℚ) (side : Side) : Option ℚ :=
  match side with
  | .yes => bids.1
  | .no => bids.2

/-- The bucket the ladder rests on, or the spot. -/
def ladderBucket (st : V33State) : Option ℤ := st.restBucketSd.or st.spotSd

/-- The NO ask of the ladder's bucket. -/
def ptBucketNoAsk (st : V33State) : Option ℚ :=
  ((ladderBucket st).bind st.bucketTops.get?).bind TopOfBook.noAsk

/-- What was paid for a filled leg per contract. -/
def WingLeg.paid (l : WingLeg) : ℚ := l.fillPrice.getD l.limit

/-- The wing cost in hand for a batch, per contract. -/
def batchWpaidHeld (st : V33State) (index : ℕ) : ℚ :=
  (((batchLegs st index).filter fun l => l.status = .filled).map fun l =>
    l.paid + fee l.paid).sum

/-! ### The trigger -/

/-- The rungs a print pre-hedges: live, not covered, not in flight, with the print within the
ticks below their offer. -/
def ptCandidates (p : V33Params) (st : V33State) (yesPrint : ℚ) : List RestOrder :=
  let eps : ℚ := 1 / 1000000000
  let threshold := p.printThroughTicks * cent
  st.ladder.filter fun o =>
    o.live && !o.pending && o.orderId.isSome && !(ptCoveredCoids st).contains o.clientOrderId &&
      !(st.rollsInFlight.map RollPending.oldCoid).contains o.clientOrderId &&
      decide (1 - o.price - threshold - eps ≤ yesPrint ∧ yesPrint ≤ 1 - o.price - cent + eps)

/-- Take the wings of the candidates early, in one batch. -/
def ptFire (p : V33Params) (st : V33State) (restSd : ℤ) (cands : List RestOrder)
    (ya na yesPrint now : ℚ) : Outcome :=
  let slack := p.printThroughSlackC * cent
  let yesLimit := takerLimit ya slack
  let noLimit := takerLimit na slack
  let count := qCount (cands.map RestOrder.count).sum
  let wPaid := wingCost yesLimit noLimit
  let lock := (cands.map fun o => o.count * lockValue o.price wPaid).sum
  let idx := st.nextBatchIndex
  let coidY := (mintCoid st).1
  let st := (mintCoid st).2
  let coidN := (mintCoid st).1
  let st := (mintCoid st).2
  let yes := strikeTicker st restSd
  let no := strikeTicker st (restSd + p.bucketWidth)
  let batch : WingBatch := ⟨idx, now, [], true, false, false, true, count, false, some restSd, 0⟩
  let trigger : PrintThroughTrigger :=
    { batchIndex := idx
      rungCoids := cands.map RestOrder.clientOrderId
      rungPrices := cands.map RestOrder.price
      count := count
      triggerTs := now
      yesPrint := yesPrint
      wAtTrigger := st.W
      nTopAtTrigger := st.nTop
      lockAtTrigger := some lock
      yesAskAtTrigger := some ya
      noAskAtTrigger := some na
      filledCoids := []
      resolved := false
      resolution := none
      shortfall := 0
      completePrice := none
      lockAtCompletion := none
      roundtripCost := none
      resolvedTs := none
      stallPending := false
      pendingCancels := []
      completeCoid := none }
  ⟨syncWingMirrors
    { st with
      wingBatches := st.wingBatches ++ [batch]
      wingLegs := st.wingLegs ++
        [sentLeg yes .yes count yesLimit coidY idx, sentLeg no .no count noLimit coidN idx]
      nextBatchIndex := idx + 1
      printThroughTriggers := st.printThroughTriggers ++ [trigger] },
    [mk st.shakedown
      { kind := .takeWings, count := count, lock := some lock,
        legs := [⟨yes, .yes, .buy, count, some yesLimit⟩, ⟨no, .no, .buy, count, some noLimit⟩] }]⟩

/-- Fire on a YES print of the ladder's bucket inside the window, if its wings price. -/
def printThroughStep (p : V33Params) (st : V33State) (ev : Trade) (now : ℚ) : Outcome :=
  match ladderBucket st with
  | none => st.quiet
  | some restSd =>
    if p.printThrough ∧ ev.takerSide = .yes ∧
        st.bucketTickers.get? restSd = some ev.marketTicker ∧
        ¬(st.restAllotmentDone ∨ st.stoodDown ∨ st.ptStoodDown) ∧ inWindow p st now then
      match wingPricesForBucket p st restSd (restSd + p.bucketWidth) now with
      | none => st.quiet
      | some (ya, na) =>
        let cands := ptCandidates p st ev.yesPrice
        if cands.isEmpty then st.quiet else ptFire p st restSd cands ya na ev.yesPrice now
    else st.quiet

/-! ### Resolution -/

/-- The bucket of a pre-hedged batch. -/
def ptBatchBucket (st : V33State) (b : WingBatch) : Option ℤ := b.bucketSd.or (ladderBucket st)

/-- The record of the lots a stalled trigger bought as a taker. -/
def takerFill (p : V33Params) (st : V33State) (b : WingBatch) (price count now : ℚ) : RungFill :=
  let restSd := ptBatchBucket st b
  let rung := (st.nTop.map fun n => rungOf n price).getD 0
  { rung := rung
    eRung := (st.nTop.map fun n => eRungOf p n price).getD p.eMin
    price := price
    count := count
    serverTs := now
    coid := none
    orderId := none
    W := st.W
    nTop := st.nTop
    bucketTicker := restSd.bind st.bucketTickers.get?
    bucketSd := restSd
    bucketSu := restSd.map (· + p.bucketWidth)
    taker := true
    weight := if 0 ≤ rung ∧ rung < p.rungLots.length then some (weightOfRung p rung) else none
    orphan := false }

/-- Book taker lots into the batch of a trigger. -/
def ptBookTakerComplete (p : V33Params) (st : V33State) (t : PrintThroughTrigger)
    (price count now : ℚ) : V33State :=
  let count := qCount count
  if count ≤ 0 then st
  else
    match batchOf st t.batchIndex with
    | none => st
    | some b =>
      let rf := takerFill p st b price count now
      { st with
        restFills := st.restFills ++ [rf]
        rungsFilled := st.rungsFilled + 1
        wingBatches := replaceBatch st.wingBatches b.index fun x =>
          { x with fills := x.fills ++ [rf] } }

/-- Cancel one pre-hedged rung that still rests: its slot is consumed and its cancel counted. -/
def ptCancelRung (p : V33Params) (coid : String) (st : V33State) : Outcome :=
  match orderOf st coid with
  | none => st.quiet
  | some o =>
    let act := cancelAction st o
    let st := retainCancelled st o
    ⟨{ st with
        marginState := match st.nTop with
          | some nTop => consumeSlot st.marginState (marginOf p nTop o.price)
          | none => st.marginState
        ladder := dropOrder st.ladder coid
        outstandingCancels := st.outstandingCancels + if o.orderId.isSome then 1 else 0 }, [act]⟩

/-- The venue ids of the pre-hedged rungs that still rest. -/
def ptRestingIds (st : V33State) (t : PrintThroughTrigger) : List String :=
  t.rungCoids.filterMap fun coid => (orderOf st coid).bind RestOrder.orderId

/-- Cancel every pre-hedged rung of a trigger that still rests. -/
def ptCancelUnfilledRungs (p : V33Params) (st : V33State) (t : PrintThroughTrigger) : Outcome :=
  forEach t.rungCoids (ptCancelRung p) st

/-- The sales of the filled legs of a batch: `size` lots of each leg with a bid. -/
def unwindSales (bids : Option ℚ × Option ℚ) (size : WingLeg → ℚ) (legs : List WingLeg) :
    List LegOrder :=
  legs.filterMap fun l =>
    if size l ≤ 0 then none
    else (bidOf bids l.side).map fun bid => ⟨l.ticker, l.side, .sell, qCount (size l), some bid⟩

/-- The round-trip cost of those sales; a leg without a bid is lost whole. -/
def unwindCost (bids : Option ℚ × Option ℚ) (size : WingLeg → ℚ) (legs : List WingLeg) : ℚ :=
  (legs.map fun l =>
    if size l ≤ 0 then 0
    else match bidOf bids l.side with
      | some bid => (l.paid + fee l.paid - (bid - fee bid)) * qCount (size l)
      | none => (l.paid + fee l.paid) * qCount (size l)).sum

/-- The action that sells the legs, if there is one. -/
def unwindAction (st : V33State) (sales : List LegOrder) (count : ℚ) : List V33Action :=
  if sales.isEmpty then []
  else [mk st.shakedown { kind := .unwindWings, legs := sales, count := count }]

/-- The filled legs of a batch shrink to `count`. -/
def shrinkLegs (index : ℕ) (count : ℚ) (legs : List WingLeg) : List WingLeg :=
  legs.map fun l => if l.batch = index ∧ l.status = .filled then { l with count := count } else l

/-- A trigger resolved by selling wings back. -/
def unwoundTrigger (shortfall roundtrip : ℚ) (resolution : Resolution) (now : ℚ)
    (t : PrintThroughTrigger) : PrintThroughTrigger :=
  { t with
    shortfall := shortfall
    roundtripCost := some roundtrip
    resolved := true
    resolution := some resolution
    resolvedTs := some now }

/-- What both wings have in excess of the rungs that filled, if both filled. -/
def excessEach (filledLegs : List WingLeg) (filledLots : ℚ) : Option ℚ :=
  if filledLegs.length = 2 then filledLegs.head?.map fun l => l.count - filledLots else none

/-- The legs and the size of a batch shrink to `count`. -/
def resizeBatch (st : V33State) (index : ℕ) (count : ℚ) : V33State :=
  { st with
    wingLegs := shrinkLegs index count st.wingLegs
    wingBatches := replaceBatch st.wingBatches index fun x => { x with takenCount := count } }

/-- A trigger with its round-trip cost. -/
def costTrigger (roundtrip : ℚ) (t : PrintThroughTrigger) : PrintThroughTrigger :=
  { t with roundtripCost := some roundtrip }

/-- The wings of a pre-hedged batch failed: the hour stands down. -/
def ptLatch (st : V33State) : V33State :=
  { st with ptStoodDown := true, stoodDown := true, ptOneLegged := true }

/-- The hedged sets of a batch are kept: its legs and its size shrink to the rungs that
filled. -/
def keepHedged (st : V33State) (idx : ℕ) (b : WingBatch)
    (resolve : PrintThroughTrigger → PrintThroughTrigger) : V33State :=
  maybeCloseSet (replacePt (resizeBatch st b.index b.totalCount) idx resolve) b.index

/-- A batch and its legs are dropped. -/
def dropUnhedged (st : V33State) (idx : ℕ) (b : WingBatch)
    (resolve : PrintThroughTrigger → PrintThroughTrigger) : V33State :=
  replacePt
    { st with
      wingBatches := st.wingBatches.filter fun x => x.index ≠ b.index
      wingLegs := st.wingLegs.filter fun l => l.batch ≠ b.index }
    idx resolve

/-- Sell the pre-taken wings of the trigger at position `idx` back. With both wings and some
rungs filled the hedged sets are kept, otherwise the batch and its legs are dropped. -/
def ptUnwind (st : V33State) (idx : ℕ) (t : PrintThroughTrigger) (b : WingBatch) (now : ℚ)
    (resolution : Resolution) : Outcome :=
  let filledLegs := (batchLegs st b.index).filter fun l => l.status = .filled
  let filledLots := b.totalCount
  let sellEach := excessEach filledLegs filledLots
  let size (l : WingLeg) : ℚ := sellEach.getD l.count
  let bids := ptWingBids st
  let sales := unwindSales bids size filledLegs
  let roundtrip := unwindCost bids size filledLegs
  let acts := unwindAction st sales ((sales.map LegOrder.count).foldr max 0)
  if filledLegs.length = 2 ∧ 0 < filledLots then
    ⟨keepHedged st idx b
      (unwoundTrigger (qCount (sellEach.getD 0)) roundtrip resolution now), acts⟩
  else
    ⟨dropUnhedged st idx b
      (unwoundTrigger (qCount (t.count - filledLots)) roundtrip resolution now), acts⟩

/-- The wings of a pre-hedged batch did not both fill: cancel its rests, sell what filled and
stand the hour down. -/
def ptFailClosed (p : V33Params) (st : V33State) (batchIndex : ℕ) (now : ℚ) : Outcome :=
  match st.printThroughTriggers.findIdx? fun t => t.batchIndex == batchIndex && !t.resolved with
  | none => st.quiet
  | some idx =>
    match st.printThroughTriggers[idx]?, batchOf st batchIndex with
    | some t, some b =>
      (((ptCancelUnfilledRungs p st t).andThen fun st =>
        ptUnwind st idx t b now .partialFill).mapSt ptLatch).andThen
        fun st => (standdown st .printThroughPartial).mapSt syncWingMirrors
    | _, _ => st.quiet

/-- Buy the shortfall of the trigger at position `idx` as a taker. In shakedown it is booked
at once, armed it waits for the response under a minted id. -/
def ptComplete (p : V33Params) (st : V33State) (idx : ℕ) (t : PrintThroughTrigger)
    (b : WingBatch) (shortfall noAsk lockPer now : ℚ) : Outcome :=
  let ticker := ((ptBatchBucket st b).bind st.bucketTickers.get?).getD ""
  let resolve (coid : Option String) (t : PrintThroughTrigger) : PrintThroughTrigger :=
    { t with
      resolved := true
      resolution := some .complete
      shortfall := shortfall
      completePrice := some noAsk
      lockAtCompletion := some lockPer
      resolvedTs := some now
      completeCoid := coid }
  let action (coid : Option String) : V33Action := mk st.shakedown
    { kind := .takeBucketNo, ticker := some ticker, side := some .no, count := shortfall,
      price := some noAsk, clientOrderId := coid,
      legs := [⟨ticker, .no, .buy, shortfall, some noAsk⟩] }
  if st.shakedown then
    let st := ptBookTakerComplete p st t noAsk shortfall now
    let st := replacePt st idx (resolve t.completeCoid)
    ⟨latchIfDone p (maybeCloseSet st b.index), [action none]⟩
  else
    let coid := (mintCoid st).1
    let st := (mintCoid st).2
    ⟨replacePt st idx (resolve (some coid)), [action (some coid)]⟩

/-- The ask and the lock at which the shortfall of a batch is bought, if it is worth it. -/
def ptCompletion (p : V33Params) (st : V33State) (b : WingBatch) : Option (ℚ × ℚ) :=
  (ptBucketNoAsk st).bind fun noAsk =>
    let lockPer := lockValue noAsk (batchWpaidHeld st b.index)
    if p.printThroughPolicy ≠ .unwind ∧
        (0 < b.totalCount ∨ p.printThroughMinLockC * cent ≤ lockPer) then
      some (noAsk, lockPer)
    else none

/-- A trigger whose rests are off the book. -/
def endStall (t : PrintThroughTrigger) : PrintThroughTrigger := { t with stallPending := false }

/-- The stall cancels are confirmed: complete the shortfall that remains, or unwind. -/
def ptFinalizeStall (p : V33Params) (st : V33State) (idx : ℕ) (now : ℚ) : Outcome :=
  match st.printThroughTriggers[idx]? with
  | none => st.quiet
  | some t =>
    if t.resolved then st.quiet
    else
      let st := replacePt st idx endStall
      match batchOf st t.batchIndex with
      | none => (ptMarkResolution st t.batchIndex .filled (some now)).quiet
      | some b =>
        let shortfall := t.count - b.totalCount
        if shortfall ≤ 0 then
          (syncWingMirrors
            (ptMarkResolution (maybeCloseSet st b.index) b.index .filled (some now))).quiet
        else
          match ptCompletion p st b with
          | some (noAsk, lockPer) =>
            (ptComplete p st idx t b (qCount shortfall) noAsk lockPer now).mapSt syncWingMirrors
          | none => (ptUnwind st idx t b now .unwind).mapSt syncWingMirrors

/-- A trigger whose rests are being cancelled. -/
def stallTrigger (pending : List String) (t : PrintThroughTrigger) : PrintThroughTrigger :=
  { t with stallPending := true, pendingCancels := pending }

/-- Cancel the unfilled rests of a stalled trigger and wait for the confirms. -/
def ptBeginStall (p : V33Params) (st : V33State) (idx : ℕ) (now : ℚ) : Outcome :=
  match st.printThroughTriggers[idx]? with
  | none => st.quiet
  | some t =>
    let oids := ptRestingIds st t
    ((ptCancelUnfilledRungs p st t).mapSt fun st =>
      replacePt st idx (stallTrigger oids)).andThen
        fun st => if oids.isEmpty then ptFinalizeStall p st idx now else st.quiet

/-- A trigger with the cancels it still waits for. -/
def awaitCancels (remaining : List String) (t : PrintThroughTrigger) : PrintThroughTrigger :=
  { t with pendingCancels := remaining }

/-- A stall cancel of the trigger at position `idx` confirmed. -/
def ptConfirmOne (p : V33Params) (orderId : String) (now : ℚ) (idx : ℕ) (st : V33State) :
    Outcome :=
  match st.printThroughTriggers[idx]? with
  | none => st.quiet
  | some t =>
    if t.stallPending ∧ !t.resolved ∧ orderId ∈ t.pendingCancels then
      let remaining := t.pendingCancels.filter (· ≠ orderId)
      let st := replacePt st idx (awaitCancels remaining)
      if remaining.isEmpty then ptFinalizeStall p st idx now else st.quiet
    else st.quiet

/-- A cancel confirmed: the triggers waiting for it may finalise. -/
def ptOnCancelConfirmed (p : V33Params) (st : V33State) (orderId : Option String) (now : ℚ) :
    Outcome :=
  match orderId with
  | none => st.quiet
  | some oid => forEach (List.range st.printThroughTriggers.length) (ptConfirmOne p oid now) st

/-- The missed lots of a taker completion: shrink the batch to what is hedged, sell the rest
of its wings and stand the hour down. -/
def ptCompleteShort (st : V33State) (idx : ℕ) (t : PrintThroughTrigger) (b : WingBatch)
    (short : ℚ) : Outcome :=
  let filledLegs := (batchLegs st b.index).filter fun l => l.status = .filled
  let bids := ptWingBids st
  let sales := unwindSales bids (fun _ => short) filledLegs
  let roundtrip := t.roundtripCost.getD 0 + (filledLegs.map fun l =>
    match bidOf bids l.side with
    | some bid => (l.paid + fee l.paid - (bid - fee bid)) * short
    | none => (l.paid + fee l.paid) * short).sum
  let st := resizeBatch st b.index b.totalCount
  let st := replacePt st idx (costTrigger roundtrip)
  (⟨ptLatch st, unwindAction st sales (truncInt short)⟩ : Outcome).andThen fun st =>
    standdown st .printThroughCompleteShort

/-- A trigger whose taker completion has been answered. -/
def endCompletion (t : PrintThroughTrigger) : PrintThroughTrigger :=
  { t with completeCoid := none }

/-- The response of an armed taker completion, if the fill is one. -/
def ptApplyCompleteFill (p : V33Params) (st : V33State) (ev : Fill) (now : ℚ) : Option Outcome :=
  match st.printThroughTriggers.findIdx? fun t => t.completeCoid == some ev.clientOrderId with
  | none => none
  | some idx =>
    (st.printThroughTriggers[idx]?).map fun t =>
      let got := qCount ev.count
      let price := (ev.price.or t.completePrice).getD 0
      let st := ptBookTakerComplete p st t price got now
      let st := replacePt st idx endCompletion
      let short := qCount t.shortfall - got
      let r := match batchOf st t.batchIndex with
        | some b => if 0 < short then ptCompleteShort st idx t b short else st.quiet
        | none => st.quiet
      r.mapSt fun st => syncWingMirrors (latchIfDone p (maybeCloseSet st t.batchIndex))

/-- Resolve the trigger at position `idx` if it has stalled. -/
def ptStallOne (p : V33Params) (now : ℚ) (idx : ℕ) (st : V33State) : Outcome :=
  match st.printThroughTriggers[idx]? with
  | none => st.quiet
  | some t =>
    if t.resolved ∨ t.stallPending then st.quiet
    else
      match batchOf st t.batchIndex with
      | none => st.quiet
      | some b =>
        if b.completed ∨ t.count ≤ b.totalCount ∨
            now - t.triggerTs < (p.printThroughStallMs : ℚ) / 1000 then st.quiet
        else if !wingsFilled st b.index then ptFailClosed p st b.index now
        else ptBeginStall p st idx now

/-- Run the stall policy of every trigger. -/
def ptStallStep (p : V33Params) (st : V33State) (now : ℚ) : Outcome :=
  if p.printThrough then
    forEach (List.range st.printThroughTriggers.length) (ptStallOne p now) st
  else st.quiet

end Pilot.V33
