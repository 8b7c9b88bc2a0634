import Pilot.V33.PrintThrough

/-!
# Converging the ladder

The place, converge, cancel or stand-down decision. It drives the resting orders
toward one order per placeable open slot: an order off the target is moved to a
vacant slot, an order without a slot is cancelled, a slot without an order is created.
-/

namespace Pilot.V33

/-! ### The gate -/

/-- What the quoting gate allows. -/
inductive QuoteGate where
  | warmup
  | noQuote (reason : Reason)
  | quote (nTop : ℚ)
  deriving DecidableEq

/-- The first reason not to quote, in the gate's order. -/
def quoteGate (p : V33Params) (st : V33State) (now : ℚ) : QuoteGate :=
  let tToClose := (st.closeEpoch : ℚ) - now
  if st.stoodDown then .noQuote .stoodDown
  else if tToClose < p.quoteEndS then .noQuote .pastQuoteEnd
  else if p.quoteStartS < tToClose then .warmup
  else if st.spotSd = none then .noQuote .noSpotBucket
  else if st.spotBucketStale then .noQuote .staleBucket
  else if st.W = none then .noQuote .staleOrMissingWing
  else
    match st.nTop with
    | none => .noQuote .nBelowMin
    | some nTop => if nTop < p.nMin then .noQuote .nBelowMin else .quote nTop

/-- A stand-down report. -/
def standdownAction (reason : Reason) : V33Action := { kind := .standDown, reason := some reason }

/-- Forget a hold. -/
def endHold (st : V33State) : V33State :=
  if st.holdSince.isSome then { st with holdReason := none, holdSince := none } else st

/-- Without a quote the ladder is cancelled; a missing wing holds its rests for a while first. -/
def noQuoteStep (p : V33Params) (st : V33State) (reason : Reason) (now : ℚ) : Outcome :=
  if reason = .staleOrMissingWing ∧ 0 < p.standDownHoldMs ∧
      ¬(st.ladder.isEmpty ∧ st.rollsInFlight.isEmpty) then
    match st.holdSince with
    | none =>
      ⟨{ st with
          holdReason := some reason
          holdSince := some now
          holdSubCause := st.wingSubCause }, [standdownAction .staleOrMissingWingHold]⟩
    | some since =>
      if (now - since) * 1000 < p.standDownHoldMs then st.quiet
      else
        (cancelAllThenReplace
          { endHold st with
            lastStanddownReason := some .staleOrMissingWing
            standDownReason := some .staleOrMissingWing }).andThen
          fun st => ⟨st, [standdownAction .staleOrMissingWingCancel]⟩
  else (cancelAllThenReplace (endHold st)).andThen fun st => standdown st reason

/-- Quoting is possible again: end a hold and clear the stand-down reason. -/
def resumeQuoting (st : V33State) : Outcome :=
  let acts := if st.holdSince.isSome then [standdownAction .staleOrMissingWingResume] else []
  let st := endHold st
  ⟨if st.lastStanddownReason.isSome then
      { st with lastStanddownReason := none, standDownReason := none }
    else st, acts⟩

/-! ### What to move -/

/-- The orders off the target: live, not in flight, not pre-hedged and without a fill. -/
def outOrders (st : V33State) (target : List (ℕ × ℚ)) : List RestOrder :=
  st.ladder.filter fun o =>
    o.live && o.orderId.isSome &&
      !(st.rollsInFlight.map RollPending.oldCoid).contains o.clientOrderId &&
      !(target.map Prod.snd).contains o.price &&
      !(ptCoveredCoids st).contains o.clientOrderId &&
      decide (st.restBookedByCoid.getD o.clientOrderId 0 = 0)

/-- The target slots with no order on them, none coming and none still leaving. -/
def vacantSlots (st : V33State) (target : List (ℕ × ℚ)) : List (ℕ × ℚ) :=
  target.filter fun s =>
    !(st.ladder.map RestOrder.price).contains s.2 &&
      !(st.rollsInFlight.map RollPending.targetPrice).contains s.2 &&
      !(heldCancelPrices st).contains s.2

/-- The direction of the need: down if more orders lie below the open span than above it. -/
def needDirection (p : V33Params) (st : V33State) (nTop : ℚ) (out : List RestOrder) : ℤ :=
  let span := openSlots st
  let minOpen : ℤ := (span.head?.map Int.ofNat).getD (eMinCents p)
  let maxOpen : ℤ := (span.getLast?.map Int.ofNat).getD (eMinCents p + p.rungs - 1)
  if out.isEmpty then
    if st.convergingDir ≠ 0 then st.convergingDir else 1
  else
    let below := out.countP fun o => marginOf p nTop o.price < minOpen
    let above := out.countP fun o => maxOpen < marginOf p nTop o.price
    if above ≤ below then -1 else 1

/-- A convergence that starts, or turns, waits out the debounce. -/
def debouncing (p : V33Params) (st : V33State) (direction : ℤ) (now : ℚ) : Bool :=
  let mid := st.convergingDir = direction ∧ (st.convergingDir ≠ 0 ∨ !st.rollsInFlight.isEmpty)
  let sinceMs := (now - st.lastReplaceTs.getD (-10 ^ 18)) * 1000
  decide (¬mid ∧ sinceMs < p.debMs)

/-! ### Moving -/

/-- Cancel an order that has no slot. -/
def shrinkOne (o : RestOrder) (st : V33State) : Outcome :=
  let act := cancelAction st o
  let st := retainCancelled st o
  ⟨{ st with
      ladder := dropOrder st.ladder o.clientOrderId
      outstandingCancels := st.outstandingCancels + if o.orderId.isSome then 1 else 0 }, [act]⟩

/-- Create an order on each vacant slot, until one would overrun the contracts of the hour. -/
def createSlots (p : V33Params) (now : ℚ) : List (ℕ × ℚ) → V33State → Outcome
  | [], st => st.quiet
  | (m, price) :: rest, st =>
    let w := weightOfMargin p m
    if w = 0 then createSlots p now rest st
    else if (allotment p : ℚ) < filledContracts st + restingContracts st + w then st.quiet
    else (placeSlot p st m price now).andThen (createSlots p now rest)

/-- Move `out` onto `vacant` pairwise by price within the budget; with budget left, cancel the
orders without a slot or create the slots without an order. -/
def moveOrders (p : V33Params) (st : V33State) (out : List RestOrder) (vacant : List (ℕ × ℚ))
    (budget : ℕ) (resumed : Bool) (now : ℚ) : Outcome :=
  let pairs := (out.zip vacant).take budget
  let rolls := forEach pairs (fun x st => emitRoll p st x.1 x.2.2 x.2.1 now) st
  let remaining := budget - pairs.length
  let extra :=
    if pairs.length < out.length then
      forEach ((out.drop pairs.length).take remaining) shrinkOne rolls.st
    else createSlots p now ((vacant.drop pairs.length).take remaining) rolls.st
  let st := extra.st
  let acts := rolls.acts ++ extra.acts
  if resumed ∨ !acts.isEmpty then
    ⟨{ st with
        lastReplaceTs := some now
        replaceTimes := recentTimes st now ++ List.replicate extra.acts.length now }, acts⟩
  else ⟨st, acts⟩

/-- Converge a ladder whose orders are all acknowledged. -/
def moveStage (p : V33Params) (nTop : ℚ) (resumed : Bool) (now : ℚ) (st : V33State) : Outcome :=
  let target := placeableOpenSlots p st nTop
  let out := outOrders st target
  let vacant := vacantSlots st target
  if out.isEmpty ∧ vacant.isEmpty then
    (if st.rollsInFlight.isEmpty then { st with convergingDir := 0 } else st).quiet
  else
    let direction := needDirection p st nTop out
    if debouncing p st direction now then st.quiet
    else
      let st := { st with convergingDir := direction }
      let budget := p.maxAmendsInFlight - st.rollsInFlight.length
      if budget = 0 then st.quiet
      else
        moveOrders p st (out.insertionSort fun a b => a.price ≤ b.price)
          (vacant.insertionSort fun a b => a.2 ≤ b.2) budget resumed now

/-- Place the open slots of an empty ladder, or latch the hour if none is left to place. -/
def placeStage (p : V33Params) (nTop now : ℚ) (st : V33State) : Outcome :=
  if st.awaitingReplace then placeAll p { st with awaitingReplace := false } nTop now
  else if 0 < st.rungsFilled ∧ (placeableOpenSlots p st nTop).isEmpty then
    { st with restAllotmentDone := true }.quiet
  else placeAll p st nTop now

/-- The ladder rests on another bucket than the spot, and nothing is in flight. -/
def bucketMoved (st : V33State) : Bool :=
  st.restBucketSd.isSome && decide (st.restBucketSd ≠ st.spotSd) && st.rollsInFlight.isEmpty &&
    !st.ladder.isEmpty

/-- Quote at `nTop`: leave the old bucket, await the cancels, place, or converge. -/
def quoteStep (p : V33Params) (nTop : ℚ) (resumed : Bool) (now : ℚ) (st : V33State) : Outcome :=
  if bucketMoved st then
    (cancelAllThenReplace st).mapSt fun st => { st with restBucketSd := none }
  else if st.awaitingReplace ∧ 0 < st.outstandingCancels then st.quiet
  else if st.ladder.isEmpty ∧ st.rollsInFlight.isEmpty then placeStage p nTop now st
  else if st.ladder.any RestOrder.pending then st.quiet
  else moveStage p nTop resumed now st

/-- More replacements in the trailing minute than the alarm allows. -/
def replaceRateAlarm (p : V33Params) (st : V33State) (now : ℚ) : Bool :=
  decide (p.replaceRateAlarmPerMin < (recentTimes st now).length)

/-- The place, converge, cancel or stand-down decision. -/
def converge (p : V33Params) (st : V33State) (now : ℚ) : Outcome :=
  if st.restAllotmentDone then cancelAll st false
  else if replaceRateAlarm p st now ∧ !st.stoodDown then
    ((cancelAll st false).mapSt fun st => { st with stoodDown := true }).andThen
      fun st => standdown st .replaceRate
  else
    match quoteGate p st now with
    | .warmup => st.quiet
    | .noQuote reason => noQuoteStep p st reason now
    | .quote nTop =>
      (resumeQuoting st).andThen (quoteStep p nTop st.holdSince.isSome now)

end Pilot.V33
