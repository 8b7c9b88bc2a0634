import Pilot.V33.LadderOps

/-!
# Coalescing fills and taking the wings

Rung fills close in time share one batch. A batch takes a YES leg on the strike
at its bucket's floor and a NO leg on the next strike, both at once or, when only
one of them prices, one now and the other later. Missed legs are retried.
-/

namespace Pilot.V33

/-! ### Coalescing -/

/-- The open group's window has passed. -/
def groupExpired (p : V33Params) (g : CoalesceGroup) (now : ℚ) : Bool :=
  decide ((p.wingCoalesceMs : ℚ) / 1000 < now - g.firstTs)

/-- The bucket of the first fill that names one. -/
def fillsBucket (fills : List RungFill) : Option ℤ := fills.findSome? RungFill.bucketSd

/-- The batch a group closes into. -/
def batchOfGroup (g : CoalesceGroup) : WingBatch :=
  ⟨g.index, g.firstTs, g.fills, false, false, false, false, 0, false, fillsBucket g.fills, 0⟩

/-- Close the open group into a batch once its window has passed. -/
def coalesceFlush (p : V33Params) (st : V33State) (now : ℚ) : V33State :=
  match st.coalesceOpen with
  | none => st
  | some g =>
    if groupExpired p g now then
      { st with wingBatches := st.wingBatches ++ [batchOfGroup g], coalesceOpen := none }
    else st

/-- Put a fill into the open group, after closing an expired one. -/
def coalesceAdd (p : V33Params) (st : V33State) (rf : RungFill) (now : ℚ) : V33State :=
  let st := coalesceFlush p st now
  match st.coalesceOpen with
  | none =>
    { st with
      coalesceOpen := some ⟨st.nextBatchIndex, now, [rf]⟩
      nextBatchIndex := st.nextBatchIndex + 1 }
  | some g => { st with coalesceOpen := some { g with fills := g.fills ++ [rf] } }

/-! ### Batches and their legs -/

/-- The legs of a batch. -/
def batchLegs (st : V33State) (index : ℕ) : List WingLeg :=
  st.wingLegs.filter fun l => l.batch = index

/-- The batch of an index. -/
def batchOf (st : V33State) (index : ℕ) : Option WingBatch :=
  st.wingBatches.find? fun b => b.index == index

/-- Update the batch of an index. -/
def replaceBatch (batches : List WingBatch) (index : ℕ) (f : WingBatch → WingBatch) :
    List WingBatch :=
  replaceFirst (fun b => b.index == index) f batches

/-- The bucket a batch hedges: that of its fills, else the one stamped on it. -/
def batchBucket (b : WingBatch) : Option ℤ := (fillsBucket b.fills).or b.bucketSd

/-- Both asks of the strikes `sd` and `su`, on a live feed, under the loose age bound. -/
def wingPricesForBucket (p : V33Params) (st : V33State) (sd su : ℤ) (now : ℚ) : Option (ℚ × ℚ) :=
  if strikeFeedAlive p st now then wingPrices st sd su now p.wingBookMaxAgeS else none

/-- The ask of one wing leg in isolation. -/
def wingLegAsk (p : V33Params) (st : V33State) (strike : ℤ) (side : Side) (now : ℚ) : Option ℚ :=
  match st.strikeTops.get? strike with
  | none => none
  | some top =>
    if top.suspect then none
    else if !fresh now (st.strikeTs.get? strike) p.wingBookMaxAgeS then none
    else (match side with | .yes => top.yesAsk | .no => top.noAsk).filter fun ask =>
      0 < ask ∧ ask ≤ 1

/-- The ticker of a strike, empty if it was never seen. -/
def strikeTicker (st : V33State) (strike : ℤ) : String := (st.strikeTickers.get? strike).getD ""

/-- A taker limit: the ask plus a margin, under the ceiling. -/
def takerLimit (ask margin : ℚ) : ℚ := min (ask + margin) limitCeiling

/-- The lock of a batch against the wing cost paid, over its fills. -/
def batchLock (b : WingBatch) (wPaid : ℚ) : ℚ :=
  (b.fills.map fun f => f.count * lockValue f.price wPaid).sum

/-- A leg that has just been sent. -/
def sentLeg (ticker : String) (side : Side) (count limit : ℚ) (coid : String) (batch : ℕ) :
    WingLeg :=
  ⟨ticker, side, count, limit, coid, .pending, none, none, batch, none, 0⟩

/-- A leg that waits for its book: recorded as missed, with no order and no id. -/
def deferredLeg (ticker : String) (side : Side) (count : ℚ) (batch : ℕ) : WingLeg :=
  ⟨ticker, side, count, 0, "", .unfilled, none, none, batch, none, 0⟩

/-- Take both wings of a batch, sized to the batch. -/
def takeBatch (p : V33Params) (st : V33State) (b : WingBatch) (sd su : ℤ) (ya na : ℚ) : Outcome :=
  let wPaid := wingCost ya na
  let lock := batchLock b wPaid
  let count := qCount b.totalCount
  let coidY := (mintCoid st).1
  let st := (mintCoid st).2
  let coidN := (mintCoid st).1
  let st := (mintCoid st).2
  let yesLimit := takerLimit ya p.wingMargin
  let noLimit := takerLimit na p.wingMargin
  let yes := strikeTicker st sd
  let no := strikeTicker st su
  ⟨{ st with
      wingLegs := st.wingLegs ++
        [sentLeg yes .yes count yesLimit coidY b.index, sentLeg no .no count noLimit coidN b.index]
      wingBatches := replaceBatch st.wingBatches b.index fun b => { b with taken := true } },
    [mk st.shakedown
      { kind := .takeWings, count := count, lock := some lock,
        legs := [⟨yes, .yes, .buy, count, some yesLimit⟩, ⟨no, .no, .buy, count, some noLimit⟩] }]⟩

/-- Take the one wing that prices and record the other as missed. -/
def takeBatchPartial (p : V33Params) (st : V33State) (b : WingBatch) (sd su : ℤ) (now : ℚ) :
    Outcome :=
  let send (sendStrike missStrike : ℤ) (sendSide missSide : Side) (ask : ℚ) : Outcome :=
    let count := qCount b.totalCount
    let coid := (mintCoid st).1
    let st := (mintCoid st).2
    let limit := takerLimit ask p.wingMargin
    let sent := strikeTicker st sendStrike
    let missed := strikeTicker st missStrike
    ⟨{ st with
        wingLegs := st.wingLegs ++
          [sentLeg sent sendSide count limit coid b.index,
            deferredLeg missed missSide count b.index]
        wingBatches := replaceBatch st.wingBatches b.index fun b => { b with taken := true } },
      [mk st.shakedown
        { kind := .takeWings, count := count,
          legs := [⟨sent, sendSide, .buy, count, some limit⟩,
            ⟨missed, missSide, .buy, count, none⟩] }]⟩
  if strikeFeedAlive p st now then
    match wingLegAsk p st sd .yes now, wingLegAsk p st su .no now with
    | some ya, _ => send sd su .yes .no ya
    | none, some na => send su sd .no .yes na
    | none, none => st.quiet
  else st.quiet

/-- A missed leg is retried no more often than this, in milliseconds. -/
def wingRetryMinIntervalMs : ℚ := 250

/-- Whether a leg of the batch may be retried now. -/
def retryDue (index : ℕ) (now : ℚ) (leg : WingLeg) : Bool :=
  leg.batch == index && leg.status == .unfilled &&
    match leg.lastRetryTs with
    | none => true
    | some t => decide (wingRetryMinIntervalMs ≤ (now - t) * 1000)

/-- The ask a leg pays. -/
def askOf (side : Side) (ya na : ℚ) : ℚ := match side with | .yes => ya | .no => na

/-- The projected lock of a batch: its filled legs at their fills, the others at the asks. -/
def projectedLock (b : WingBatch) (legs : List WingLeg) (ya na : ℚ) : ℚ :=
  let nCost := (b.fills.map fun f => (f.price + fee f.price) * f.count).sum
  let legCost (leg : WingLeg) : ℚ :=
    let price := match leg.status, leg.fillPrice with
      | .filled, some paid => paid
      | _, _ => askOf leg.side ya na
    (price + fee price) * leg.count
  2 * qCount b.totalCount - nCost - (legs.map legCost).sum

/-- Retry the due legs of the batch one after the other. -/
def retryLegs (p : V33Params) (index : ℕ) (ya na now : ℚ) :
    List WingLeg → V33State → List WingLeg × Outcome
  | [], st => ([], st.quiet)
  | leg :: rest, st =>
    if retryDue index now leg then
      let limit := takerLimit (askOf leg.side ya na) p.wingMargin
      let coid := (mintCoid st).1
      let st := (mintCoid st).2
      let action := mk st.shakedown
        { kind := .retryWing, count := leg.count,
          legs := [⟨leg.ticker, leg.side, .buy, leg.count, some limit⟩] }
      let r := retryLegs p index ya na now rest st
      ({ leg with
          status := .pending, limit := limit, clientOrderId := coid, lastRetryTs := some now } ::
        r.1, ⟨r.2.st, action :: r.2.acts⟩)
    else
      let r := retryLegs p index ya na now rest st
      (leg :: r.1, r.2)

/-- Retry the missed legs of a batch at the fresh asks, if the projected lock allows it. -/
def retryBatch (p : V33Params) (st : V33State) (b : WingBatch) (ya na now : ℚ) : Outcome :=
  if projectedLock b (batchLegs st b.index) ya na < p.lockFloor * qCount b.totalCount then st.quiet
  else
    let r := retryLegs p b.index ya na now st.wingLegs st
    if r.2.acts.isEmpty then st.quiet
    else
      ⟨{ r.2.st with
          wingLegs := r.1
          wingBatches := replaceBatch st.wingBatches b.index fun x =>
            { x with retries := b.retries + r.2.acts.length } }, r.2.acts⟩

/-! ### Netting and closing -/

/-- The leg a client order id names. -/
def legOf (st : V33State) (coid : String) : Option WingLeg :=
  st.wingLegs.find? fun l => l.clientOrderId == coid

/-- The lots of a leg still held. -/
def WingLeg.held (l : WingLeg) : ℚ := l.count - l.netted

/-- The first filled leg on the other side of `l`'s market that still holds lots. -/
def oppositeLeg (st : V33State) (l : WingLeg) : Option WingLeg :=
  st.wingLegs.find? fun m =>
    m.ticker == l.ticker && m.side != l.side && m.status == .filled && m.fillPrice.isSome &&
      decide (0 < m.held)

/-- Net one pair: book the overlapping lots of `l` and `m` closed. -/
def netPair (st : V33State) (l m : WingLeg) (lPrice mPrice q now : ℚ) : Outcome :=
  let lCost := lPrice + fee lPrice
  let mCost := mPrice + fee mPrice
  let (yesCost, noCost) := match l.side with
    | .yes => (lCost, mCost)
    | .no => (mCost, lCost)
  let (yesLeg, noLeg) := match l.side with
    | .yes => (l, m)
    | .no => (m, l)
  let realised := q * (1 - yesCost - noCost)
  let pair : NettedPair :=
    ⟨l.ticker, q, yesCost, noCost, realised, yesLeg.batch, noLeg.batch, now⟩
  let close (x : WingLeg) : WingLeg :=
    if x.clientOrderId = l.clientOrderId ∨ x.clientOrderId = m.clientOrderId then
      { x with netted := qCount (x.netted + q) }
    else x
  ⟨{ st with
      wingLegs := st.wingLegs.map close
      nettedPairs := st.nettedPairs ++ [pair] },
    [mk st.shakedown
      { kind := .wingNetted, ticker := some l.ticker, count := q, lock := some realised,
        legs := [⟨yesLeg.ticker, .yes, .net, q, yesLeg.fillPrice⟩,
          ⟨noLeg.ticker, .no, .net, q, noLeg.fillPrice⟩] }]⟩

/-- Net the leg `coid` against opposite legs, at most `fuel` times. -/
def netLoop (coid : String) (now : ℚ) : ℕ → V33State → Outcome
  | 0, st => st.quiet
  | fuel + 1, st =>
    match legOf st coid with
    | none => st.quiet
    | some l =>
      if l.status = .filled ∧ 0 < l.held then
        match l.fillPrice, oppositeLeg st l with
        | some lPrice, some m =>
          let q := qCount (min l.held m.held)
          match m.fillPrice with
          | none => st.quiet
          | some mPrice =>
            if q ≤ 0 then st.quiet
            else (netPair st l m lPrice mPrice q now).andThen (netLoop coid now fuel)
        | _, _ => st.quiet
      else st.quiet

/-- Net the just-filled leg `coid`. -/
def netWings (st : V33State) (coid : String) (now : ℚ) : Outcome := netLoop coid now 64 st

/-- Mark the first unresolved trigger of the batch resolved. -/
def ptMarkResolution (st : V33State) (batchIndex : ℕ) (resolution : Resolution)
    (now : Option ℚ) : V33State :=
  { st with
    printThroughTriggers := replaceFirst (fun t => t.batchIndex == batchIndex && !t.resolved)
      (fun t => { t with resolved := true, resolution := some resolution, resolvedTs := now })
      st.printThroughTriggers }

/-- Every leg of the batch is filled, and there is one. -/
def wingsFilled (st : V33State) (index : ℕ) : Bool :=
  let legs := batchLegs st index
  !legs.isEmpty && legs.all fun l => l.status = .filled

/-- Count the batch as completed once its wings, and a pre-hedged batch's rungs, are filled. -/
def maybeCloseSet (st : V33State) (index : ℕ) : V33State :=
  match batchOf st index with
  | none => syncWingMirrors st
  | some b =>
    if b.completed ∨ !wingsFilled st index then syncWingMirrors st
    else if b.printThrough then
      if b.totalCount < b.takenCount then syncWingMirrors st
      else
        let st :=
          { st with
            setsDone := st.setsDone + b.takenCount
            wingBatches := replaceBatch st.wingBatches index fun b =>
              { b with completed := true, oneLegged := false, resolved := true } }
        syncWingMirrors (ptMarkResolution st index .filled none)
    else
      syncWingMirrors
        { st with
          setsDone := st.setsDone + b.totalCount
          wingBatches := replaceBatch st.wingBatches index fun b =>
            { b with completed := true, oneLegged := false } }

/-! ### The wing step -/

/-- At the cutoff a batch that is not complete becomes one-legged. -/
def cutoffBatch (now : ℚ) (b : WingBatch) (st : V33State) : Outcome :=
  if b.completed ∨ b.oneLegged then st.quiet
  else if b.printThrough then
    let st := { st with
      wingBatches := replaceBatch st.wingBatches b.index fun b =>
        { b with oneLegged := true, resolved := true } }
    (ptMarkResolution st b.index .partialFill (some now)).quiet
  else if wingsFilled st b.index then st.quiet
  else
    { st with
      wingBatches := replaceBatch st.wingBatches b.index fun b =>
        { b with oneLegged := true } }.quiet

/-- Take or retry the wings of the batch of one index. -/
def serveBatch (p : V33Params) (now : ℚ) (index : ℕ) (st : V33State) : Outcome :=
  match batchOf st index with
  | none => st.quiet
  | some b =>
    if b.completed ∨ b.printThrough then st.quiet
    else
      match batchBucket b with
      | none => st.quiet
      | some sd =>
        match wingPricesForBucket p st sd (sd + p.bucketWidth) now with
        | none =>
          if b.taken then st.quiet else takeBatchPartial p st b sd (sd + p.bucketWidth) now
        | some (ya, na) =>
          if b.taken then retryBatch p st b ya na now
          else takeBatch p st b sd (sd + p.bucketWidth) ya na

/-- Close an expired group, then serve every batch, or at the cutoff mark what is missing. -/
def wingStep (p : V33Params) (st : V33State) (now : ℚ) : Outcome :=
  let st := coalesceFlush p st now
  if st.wingBatches.isEmpty then (syncWingMirrors st).quiet
  else if (st.closeEpoch : ℚ) - now < p.noOrdersAfterSToSettle then
    (forEach st.wingBatches (cutoffBatch now) st).mapSt syncWingMirrors
  else
    (forEach (st.wingBatches.map WingBatch.index) (serveBatch p now) st).mapSt syncWingMirrors

end Pilot.V33
