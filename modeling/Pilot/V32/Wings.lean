import Pilot.V32.State

/-!
# The quote context and the wings

Folding a book into the state, re-deriving the spot bucket, `W`, the cap and the wanted
price, and completing every fill of the rest by its own pair of taker wings.
-/

namespace Pilot.V32

open V33 (BookUpdate LegOrder LegStatus classifyTicker fresh lockValue solveN validTwoSided
  wingCost)

/-! ### Books and the quote context -/

/-- Record a book under its floor, with the frame's own time and its ticker. -/
def foldBook (st : V32State) (ev : BookUpdate) : V32State :=
  let bookTs := ev.bookTs.getD ev.serverTs
  match classifyTicker ev.marketTicker st.bucketMap st.strikeFloorMap with
  | none => st
  | some (.strike floor) =>
    { st with
      strikeTops := st.strikeTops.set floor ev.top
      strikeTs := st.strikeTs.set floor bookTs
      strikeTickers := st.strikeTickers.set floor ev.marketTicker }
  | some (.bucket floor) =>
    { st with
      bucketTops := st.bucketTops.set floor ev.top
      bucketTs := st.bucketTs.set floor bookTs
      bucketTickers := st.bucketTickers.set floor ev.marketTicker }

/-- The bucket with the highest YES mid among the valid books; ties go to the lowest floor. -/
def selectSpot (st : V32State) : Option ℤ :=
  let best := (st.bucketTops.keys.insertionSort (· ≤ ·)).foldl
    (fun (best : Option (ℤ × ℚ)) floor =>
      match (st.bucketTops.get? floor).bind validTwoSided with
      | none => best
      | some (bid, ask) =>
        let mid := (bid + ask) / 2
        match best with
        | none => some (floor, mid)
        | some (f, m) => if m < mid then some (floor, mid) else some (f, m))
    none
  best.map Prod.fst

/-- The YES ask of the strike `sd` and the NO ask of the strike `su`, if both books are
trusted, fresh and quoted. -/
def strikeAsks (p : V32Params) (st : V32State) (sd su : ℤ) (now : ℚ) : Option (ℚ × ℚ) :=
  match st.strikeTops.get? sd, st.strikeTops.get? su with
  | some sdTop, some suTop =>
    if sdTop.suspect ∨ suTop.suspect then none
    else if !fresh now (st.strikeTs.get? sd) p.freshnessMaxAgeS then none
    else if !fresh now (st.strikeTs.get? su) p.freshnessMaxAgeS then none
    else
      match sdTop.yesAsk, suTop.noAsk with
      | some ya, some na => some (ya, na)
      | _, _ => none
  | _, _ => none

/-- `W` of the strikes `sd` and `su`. -/
def computeW (p : V32Params) (st : V32State) (sd su : ℤ) (now : ℚ) : Option ℚ :=
  ((strikeAsks p st sd su now).filter fun a => (0 < a.1 ∧ a.1 < 1) ∧ (0 < a.2 ∧ a.2 < 1)).map
    fun a => wingCost a.1 a.2

/-- The highest post-only price on the bucket: one cent under its NO ask. -/
def bucketCap (st : V32State) (sd : ℤ) : Option ℚ :=
  ((st.bucketTops.get? sd).bind validTwoSided).map fun q => quantize 100 (1 - q.1 - cent)

/-- Re-derive the spot bucket, `W`, the cap and the wanted price. A stale spot quotes
nothing, and no other bucket takes its place. -/
def recomputeContext (p : V32Params) (st : V32State) (now : ℚ) : V32State :=
  match selectSpot st with
  | none =>
    { st with
      spotSd := none, spotSu := none, W := none, cap := none, desiredN := none,
      spotBucketStale := false }
  | some sd =>
    let su := sd + p.bucketWidth
    if fresh now (st.bucketTs.get? sd) p.bucketFreshnessMaxAgeS then
      let W := computeW p st sd su now
      let cap := bucketCap st sd
      { st with
        spotSd := some sd, spotSu := some su, W := W, cap := cap,
        desiredN := solveN (W.map fun w => 2 - p.E - w) cap, spotBucketStale := false }
    else
      { st with
        spotSd := some sd, spotSu := some su, W := none, cap := none, desiredN := none,
        spotBucketStale := true }

/-! ### Wings -/

/-- Both asks of the spot's strikes. -/
def wingPrices (p : V32Params) (st : V32State) (now : ℚ) : Option (ℚ × ℚ) :=
  match st.spotSd, st.spotSu with
  | some sd, some su =>
    (strikeAsks p st sd su now).filter fun a => (0 < a.1 ∧ a.1 ≤ 1) ∧ (0 < a.2 ∧ a.2 ≤ 1)
  | _, _ => none

/-- The legs of a batch. -/
def batchLegs (st : V32State) (index : ℕ) : List WingLeg :=
  st.wingLegs.filter fun l => l.batch = index

/-- The batch of an index. -/
def batchOf (st : V32State) (index : ℕ) : Option WingBatch :=
  st.wingBatches.find? fun b => b.index == index

/-- The ticker of a strike, empty if it was never seen. -/
def strikeTicker (st : V32State) (strike : Option ℤ) : String :=
  (strike.bind fun s => st.strikeTickers.get? s).getD ""

/-- A taker limit: the ask plus the margin, under the ceiling. -/
def takerLimit (p : V32Params) (ask : ℚ) : ℚ := min (ask + p.wingMargin) limitCeiling

/-- Take both wings of a batch, sized to its fill. -/
def takeBatch (p : V32Params) (st : V32State) (b : WingBatch) (ya na : ℚ) : Outcome :=
  let lock := lockValue b.fillPrice (ya + fee ya + na + fee na)
  let count := b.fillCount
  let coidY := (mintCoid st).1
  let st := (mintCoid st).2
  let coidN := (mintCoid st).1
  let st := (mintCoid st).2
  let yes := strikeTicker st st.spotSd
  let no := strikeTicker st st.spotSu
  let yesLimit := takerLimit p ya
  let noLimit := takerLimit p na
  ⟨{ st with
      wingLegs := st.wingLegs ++
        [⟨yes, .yes, count, yesLimit, coidY, .pending, none, none, b.index⟩,
          ⟨no, .no, count, noLimit, coidN, .pending, none, none, b.index⟩]
      wingBatches := replaceBatch st.wingBatches b.index fun b => { b with taken := true } },
    [mk st.shakedown
      { kind := .takeWings, count := count, lock := some lock,
        legs := [⟨yes, .yes, .buy, count, some yesLimit⟩, ⟨no, .no, .buy, count, some noLimit⟩] }]⟩

/-- The ask a leg pays. -/
def askOf (side : Side) (ya na : ℚ) : ℚ := match side with | .yes => ya | .no => na

/-- The projected lock of a batch: its filled legs at their fills, the others at the asks. -/
def projectedLock (b : WingBatch) (legs : List WingLeg) (ya na : ℚ) : ℚ :=
  let legCost (leg : WingLeg) : ℚ :=
    let price := match leg.status, leg.fillPrice with
      | .filled, some paid => paid
      | _, _ => askOf leg.side ya na
    price + fee price
  2 - (b.fillPrice + fee b.fillPrice) - (legs.map legCost).sum

/-- Retry the missed legs of the batch one after the other. -/
def retryLegs (p : V32Params) (index : ℕ) (ya na : ℚ) :
    List WingLeg → V32State → List WingLeg × Outcome
  | [], st => ([], st.quiet)
  | leg :: rest, st =>
    if leg.batch = index ∧ leg.status = .unfilled then
      let limit := takerLimit p (askOf leg.side ya na)
      let coid := (mintCoid st).1
      let st := (mintCoid st).2
      let action := mk st.shakedown
        { kind := .retryWing, count := leg.count,
          legs := [⟨leg.ticker, leg.side, .buy, leg.count, some limit⟩] }
      let r := retryLegs p index ya na rest st
      ({ leg with status := .pending, limit := limit, clientOrderId := coid } :: r.1,
        ⟨r.2.st, action :: r.2.acts⟩)
    else
      let r := retryLegs p index ya na rest st
      (leg :: r.1, r.2)

/-- Retry the missed legs of a batch at the fresh asks, if the projected lock allows it. -/
def retryBatch (p : V32Params) (st : V32State) (b : WingBatch) (ya na : ℚ) : Outcome :=
  if projectedLock b (batchLegs st b.index) ya na < p.lockFloor then st.quiet
  else
    let r := retryLegs p b.index ya na st.wingLegs st
    ⟨{ r.2.st with wingLegs := r.1 }, r.2.acts⟩

/-- Every leg of the batch is filled, and there is one. -/
def wingsFilled (st : V32State) (index : ℕ) : Bool :=
  let legs := batchLegs st index
  !legs.isEmpty && legs.all fun l => l.status = .filled

/-- At the cutoff a batch that is not complete becomes one-legged. -/
def cutoffBatch (b : WingBatch) (st : V32State) : Outcome :=
  if b.completed ∨ b.oneLegged ∨ wingsFilled st b.index then st.quiet
  else
    { st with
      wingBatches := replaceBatch st.wingBatches b.index fun b => { b with oneLegged :=
        true } }.quiet

/-- Take or retry the wings of the batch of one index. -/
def serveBatch (p : V32Params) (ya na : ℚ) (index : ℕ) (st : V32State) : Outcome :=
  match batchOf st index with
  | none => st.quiet
  | some b =>
    if b.completed then st.quiet
    else if b.taken then retryBatch p st b ya na
    else takeBatch p st b ya na

/-- Serve every batch, or at the cutoff mark what is missing. -/
def wingStep (p : V32Params) (st : V32State) (now : ℚ) : Outcome :=
  if st.wingBatches.isEmpty then st.quiet
  else if (st.closeEpoch : ℚ) - now < p.noOrdersAfterSToSettle then
    (forEach st.wingBatches cutoffBatch st).mapSt syncWingMirrors
  else
    match wingPrices p st now with
    | none => st.quiet
    | some (ya, na) =>
      (forEach (st.wingBatches.map WingBatch.index) (serveBatch p ya na) st).mapSt syncWingMirrors

/-- Count the batch as completed once both its wings are filled. -/
def maybeCloseSet (st : V32State) (index : ℕ) : V32State :=
  match batchOf st index with
  | none => syncWingMirrors st
  | some b =>
    if b.completed ∨ !wingsFilled st index then syncWingMirrors st
    else
      syncWingMirrors
        { st with
          setsDone := st.setsDone + 1
          wingBatches := replaceBatch st.wingBatches index fun b =>
            { b with completed := true, oneLegged := false } }

end Pilot.V32
