import Pilot.V33.Context

/-!
# Placing, rolling and cancelling rungs

The operations on the ladder: remembering and holding a cancelled rung, the
cancel-all, one place, one roll, and the initial placement of every open slot.
-/

namespace Pilot.V33

/-- Inside the quoting window. -/
def inWindow (p : V33Params) (st : V33State) (now : ℚ) : Bool :=
  decide ((p.quoteEndS : ℚ) ≤ st.closeEpoch - now ∧ (st.closeEpoch : ℚ) - now ≤ p.quoteStartS)

/-! ### Cancels -/

/-- The cancel of one order. -/
def cancelAction (st : V33State) (o : RestOrder) : V33Action :=
  mk st.shakedown
    { kind := .cancelRest, orderId := o.orderId, clientOrderId := some o.clientOrderId,
      rest := some o }

/-- Remember an order that has a venue id, so that a late fill stays attributable. -/
def rememberCancelCtx (st : V33State) (o : RestOrder) : V33State :=
  match o.orderId with
  | none => st
  | some oid =>
    { st with
      cancelCtx := st.cancelCtx.set oid ⟨o.clientOrderId, o.price, o.rung, o.eRung, o.bucketSd⟩ }

/-- Hold the price of an order that has a venue id until its cancel resolves. -/
def armCancelPending (st : V33State) (o : RestOrder) : V33State :=
  match o.orderId with
  | none => st
  | some oid => { st with cancelPendingPx := st.cancelPendingPx.set oid o.price }

/-- Release the price held for a venue id. -/
def clearCancelPending (st : V33State) (orderId : Option String) : V33State :=
  match orderId with
  | none => st
  | some oid => { st with cancelPendingPx := st.cancelPendingPx.pop oid }

/-- The prices held by unresolved cancels. -/
def heldCancelPrices (st : V33State) : List ℚ := st.cancelPendingPx.values

/-- Remember and hold one order of a cancel-all. -/
def retainCancelled (st : V33State) (o : RestOrder) : V33State :=
  armCancelPending (rememberCancelCtx st o) o

/-- Cancel every rung and every roll. The tracked form counts the orders with a venue id. -/
def cancelAll (st : V33State) (trackOutstanding : Bool) : Outcome :=
  let nLive := st.ladder.countP fun o => o.orderId.isSome
  let acts := st.ladder.map (cancelAction st)
  let st := st.ladder.foldl retainCancelled st
  ⟨{ st with
      ladder := []
      rollsInFlight := []
      convergingDir := 0
      outstandingCancels := st.outstandingCancels + if trackOutstanding then nLive else 0 }, acts⟩

/-- The tracked cancel-all; a re-place is awaited if there was anything to cancel. -/
def cancelAllThenReplace (st : V33State) : Outcome :=
  let hadOrders := !st.ladder.isEmpty
  (cancelAll st true).mapSt fun st =>
    if hadOrders then { st with awaitingReplace := true } else st

/-- Record a stand-down reason; only a new one is reported. -/
def standdown (st : V33State) (reason : Reason) : Outcome :=
  if st.lastStanddownReason = some reason then
    ⟨{ st with standDownReason := some reason }, []⟩
  else
    ⟨{ st with lastStanddownReason := some reason, standDownReason := some reason },
      [{ kind := .standDown, reason := some reason }]⟩

/-! ### Places -/

/-- The ticker of the spot bucket, empty if it was never seen. -/
def spotTicker (st : V33State) : String := (st.spotSd.bind st.bucketTickers.get?).getD ""

/-- The create of one rung on the spot bucket. -/
def placeAction (p : V33Params) (st : V33State) (coid : String) (n count : ℚ) : V33Action :=
  mk st.shakedown
    { kind := .placeRest, ticker := some (spotTicker st), side := some .no, count := count,
      price := some n, expirationEpoch := some (st.closeEpoch - p.quoteEndS),
      clientOrderId := some coid }

/-- Emit one create of `count` lots at `price` and put it, pending, on the ladder. -/
def placeOne (p : V33Params) (st : V33State) (price : ℚ) (rung : ℤ) (eRung now count : ℚ) :
    Outcome :=
  let c := qCount count
  let coid := (mintCoid st).1
  let st := (mintCoid st).2
  let order : RestOrder := ⟨coid, none, price, c, now, false, true, st.spotSd, rung, eRung⟩
  ⟨{ st with ladder := st.ladder ++ [order] }, [placeAction p st coid price c]⟩

/-- The margin and price of every open slot that may be quoted at `nTop`, top first. -/
def placeableOpenSlots (p : V33Params) (st : V33State) (nTop : ℚ) : List (ℕ × ℚ) :=
  ((openSlots st).map fun m : ℕ => (m, priceOfMargin p nTop m)).filter fun s =>
    p.nMin ≤ s.2 ∧ ∀ c ∈ st.cap, s.2 ≤ c

/-- Place the slot of margin `m` at `price` with its weight. -/
def placeSlot (p : V33Params) (st : V33State) (m : ℕ) (price now : ℚ) : Outcome :=
  let rung := (m : ℤ) - eMinCents p
  placeOne p st price rung (p.eMin + rung * cent) now (weightOfMargin p m)

/-- Place the slots one after the other while their weights fit the budget, skipping the
prices held by unresolved cancels. -/
def placeSlots (p : V33Params) (held : List ℚ) (budget now : ℚ) :
    List (ℕ × ℚ) → ℚ → V33State → Outcome
  | [], _, st => st.quiet
  | (m, price) :: rest, used, st =>
    let w := weightOfMargin p m
    if w = 0 ∨ budget < used + w ∨ price ∈ held then placeSlots p held budget now rest used st
    else (placeSlot p st m price now).andThen (placeSlots p held budget now rest (used + w))

/-- The times of the trailing minute. -/
def recentTimes (st : V33State) (now : ℚ) : List ℚ :=
  st.replaceTimes.filter fun t => now - t ≤ 60

/-- Place one order at each placeable open slot, within the contracts that remain. -/
def placeAll (p : V33Params) (st : V33State) (nTop now : ℚ) : Outcome :=
  let budget := (allotment p : ℚ) - filledContracts st - restingContracts st
  if budget ≤ 0 ∨ p.maxSetsPerHour ≤ st.rungsFilled then
    { st with restAllotmentDone := true }.quiet
  else
    let r := placeSlots p (heldCancelPrices st) budget now (placeableOpenSlots p st nTop) 0 st
    if r.acts.isEmpty then r
    else
      r.mapSt fun st =>
        { st with
          restBucketSd := st.spotSd
          convergingDir := 0
          lastReplaceTs := some now
          replaceCount := st.replaceCount + 1
          replaceTimes := recentTimes st now ++ [now] }

/-! ### Rolls -/

/-- Emit the amend of one order to a new price and register it. The order keeps its count,
the amend carries its whole lots. -/
def emitRoll (p : V33Params) (st : V33State) (o : RestOrder) (targetPrice : ℚ) (targetMargin : ℤ)
    (now : ℚ) : Outcome :=
  let newCoid := (mintCoid st).1
  let st := (mintCoid st).2
  let rp : RollPending := ⟨o.orderId, o.clientOrderId, newCoid, targetPrice, targetMargin, now⟩
  let action := mk st.shakedown
    { kind := .amendRest, orderId := o.orderId, ticker := some (spotTicker st), side := some .no,
      count := truncInt o.count, price := some targetPrice,
      expirationEpoch := some (st.closeEpoch - p.quoteEndS),
      clientOrderId := some o.clientOrderId, updatedClientOrderId := some newCoid,
      rest := some o }
  ⟨{ st with rollsInFlight := st.rollsInFlight ++ [rp] }, [action]⟩

/-- Forget the roll of an order. -/
def dropRoll (st : V33State) (oldCoid : String) : V33State :=
  { st with rollsInFlight := st.rollsInFlight.filter fun r => r.oldCoid ≠ oldCoid }

end Pilot.V33
