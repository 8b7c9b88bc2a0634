import Pilot.Box.Decide
import Pilot.V1.Reconciler

/-!
# The entry of the box and its flatten

A box that fires sends both legs at once. When exactly one of them fills, the lots held are sold
at the best bid: the first attempt follows the entry, the others are made on later frames of the
books, three in all.
-/

namespace Pilot.Box

open V1 (Executor ExecResult Intent IntentLeg LedgerState OrderResponse PostOutcome Purpose Refusal
  Which Recordable newLedger recordIntent recordResponse)

/-! ### The service -/

/-- What stays as it is over a window. -/
structure BoxWindow where
  closeTime : String
  /-- The state the window began with. -/
  boxState : BoxState
  boxPolicy : BoxParams
  /-- The shard of a market. -/
  exchangeIndex : String → Option ℤ

/-- The record of a flatten under way. -/
structure PendingFlatten where
  which : Which
  ticker : String
  side : Side
  /-- The whole lots held when the flatten began. -/
  count : ℤ
  attempts : ℕ
  /-- The frame of the last attempt. -/
  lastTs : Option ℚ

/-- What the service journals and raises on the way. -/
inductive BoxNote where
  | bothFilledHold (realizedAtClose matchedPairs : ℚ)
  | noFill
  | start (ticker : String) (side : Side) (count : ℤ)
  | cutoffHold (ticker : String) (tMinusS : ℚ) (attempts : ℕ)
  /-- The alarm `A_FLATTEN_NO_BID`. -/
  | noBidAlarm (ticker : String) (count : ℤ) (attempt : ℕ)
  | noBidHold (ticker : String) (attempt : ℕ)
  | flat (ticker : String) (attempt : ℕ) (bid : ℚ)
  /-- The alarm `A_FLATTEN_EXHAUSTED`. -/
  | exhaustedAlarm (ticker : String) (count : ℤ) (attempts : ℕ)
  | giveupHold (ticker : String) (attempts : ℕ) (remaining : ℚ)
  | missRetry (ticker : String) (attempt : ℕ) (bid remaining : ℚ)

/-- An order of the flatten, with the ledger before it and what came of it. -/
structure FlattenOrder where
  ledger : LedgerState
  which : Which
  count : ℤ
  limitPrice : ℚ
  tMinusS : ℚ
  serverTs : ℚ
  refused : Option Refusal
  outcome : PostOutcome

/-- The service of one window. -/
structure BoxService where
  armed : Bool
  ledger : Option LedgerState
  executor : Executor
  pending : Option PendingFlatten
  /-- Exactly one leg of the entry filled. -/
  oneLegged : Bool
  /-- How the flatten ended. -/
  flattenFilled : Option Bool
  notes : List BoxNote
  /-- The orders of the flatten, in order. -/
  sent : List FlattenOrder

/-- A service before its entry. -/
def BoxService.new (armed : Bool) (executor : Executor) : BoxService :=
  ⟨armed, none, executor, none, false, none, [], []⟩

/-- What an attempt meets: the tops of the books, a fresh client order id, and what comes of a
post. -/
structure Moment where
  books : Dict String TopOfBook
  clientOrderId : String
  outcome : PostOutcome

/-! ### One attempt -/

/-- The client budget of an order that is exempt from it. -/
def flattenExemptBudget : ℕ := 10 ^ 9

/-- Send an order; a flatten on a stop is exempt from the client budget. -/
def harnessExecute (x : Executor) (intent : Intent) (tMinusS : Option ℚ) (stopAuthorized : Bool)
    (outcome : PostOutcome) : Executor × Option ExecResult :=
  if stopAuthorized ∧ intent.purpose = .flatten then
    let exempt := { x with config := { x.config with windowTokenBudget := flattenExemptBudget } }
    let done := V1.execute exempt intent tMinusS true outcome
    ({ done.1 with config := x.config }, done.2)
  else V1.execute x intent tMinusS stopAuthorized outcome

/-- The sale of lots held, at a bid. -/
def buildFlattenIntent (ticker : String) (side : Side) (count : ℤ) (window : String)
    (source : V1.Source) (bidPrice : ℚ) (clientOrderId : String) (exchangeIndex : Option ℤ) :
    Intent where
  window := window
  source := source
  purpose := .flatten
  legs := [{ ticker, side, action := .sell, count, limitPrice := bidPrice, clientOrderId,
             reduceOnly := some true, exchangeIndex }]

/-- The bid at which an outcome held is sold. -/
def boxLegBid (books : Dict String TopOfBook) (ticker : String) (side : Side) : Option ℚ :=
  (books.get? ticker).bind fun top =>
    match side with
    | .yes => top.yesBid
    | .no => top.noBid

/-- The attempts of a flatten. -/
def flattenMaxAttempts : ℕ := 3

/-- The time after which any later frame brings the next attempt. -/
def flattenRetryMinElapsedS : ℚ := 1 / 4

/-- The service after an attempt that is recorded. -/
def afterAttempt (w : BoxService) (ledger : LedgerState) (pf : PendingFlatten) (serverTs bid : ℚ) :
    BoxService :=
  let attemptNo := pf.attempts + 1
  let remaining := ledger.net pf.which
  if remaining ≤ 0 then
    { w with
      flattenFilled := some true
      pending := none
      notes := w.notes ++ [.flat pf.ticker attemptNo bid] }
  else if flattenMaxAttempts ≤ attemptNo then
    { w with
      flattenFilled := some false
      pending := none
      notes := w.notes ++ [.exhaustedAlarm pf.ticker pf.count attemptNo,
        .giveupHold pf.ticker attemptNo remaining] }
  else
    { w with
      pending := some { pf with attempts := attemptNo, lastTs := some serverTs }
      notes := w.notes ++ [.missRetry pf.ticker attemptNo bid remaining] }

/-- Send the lots of the pending record and record what comes of it. An exception leaves the record
as it was. -/
def sendFlatten (g : BoxWindow) (w : BoxService) (ledger : LedgerState) (pf : PendingFlatten)
    (tMinusS serverTs bid : ℚ) (m : Moment) : BoxService :=
  let intent := buildFlattenIntent pf.ticker pf.side pf.count g.closeTime .wideBox bid
    m.clientOrderId (g.exchangeIndex pf.ticker)
  let done := harnessExecute w.executor intent (some tMinusS) true m.outcome
  let order : FlattenOrder := ⟨ledger, pf.which, pf.count, bid, tMinusS, serverTs,
    done.2.bind ExecResult.refused, m.outcome⟩
  let w' := { w with executor := done.1, sent := w.sent ++ [order] }
  match done.2 with
  | none => w'
  | some result =>
    if result.responses.all Recordable then
      let folded := result.responses.foldl recordResponse (recordIntent ledger intent)
      afterAttempt { w' with ledger := some folded } folded pf serverTs bid
    else { w' with ledger := some (recordIntent ledger intent) }

/-- One attempt at the best bid: none when the leg is flat, inside the cutoff, or without a bid. -/
def boxFlattenAttempt (g : BoxWindow) (w : BoxService) (tMinusS serverTs : ℚ) (m : Moment) :
    BoxService :=
  match w.pending, w.ledger with
  | none, _ => w
  | some _, none => { w with pending := none }
  | some pf, some ledger =>
    if ledger.net pf.which ≤ 0 then { w with pending := none }
    else if tMinusS < g.boxPolicy.noOrdersAfterSToSettle then
      { w with
        flattenFilled := some false
        pending := none
        notes := w.notes ++ [.cutoffHold pf.ticker tMinusS pf.attempts] }
    else
      match boxLegBid m.books pf.ticker pf.side with
      | none =>
        { w with
          flattenFilled := some false
          pending := none
          notes := w.notes ++ [.noBidAlarm pf.ticker pf.count (pf.attempts + 1),
            .noBidHold pf.ticker (pf.attempts + 1)] }
      | some bid => sendFlatten g w ledger pf tMinusS serverTs bid m

/-! ### The entry -/

/-- Begin the flatten of the leg that filled, with its first attempt. -/
def boxBeginFlatten (g : BoxWindow) (w : BoxService) (ledger : LedgerState) (tMinusS : ℚ)
    (m : Moment) : BoxService :=
  let which : Which := if 0 < ledger.net .high then .high else .low
  match ledger.position which with
  | none => w
  | some pos =>
    if pos.net ≤ 0 then w
    else
      let count := truncInt pos.net
      let begun := { w with
        pending := some ⟨which, pos.ticker, pos.side, count, 0, none⟩
        notes := w.notes ++ [.start pos.ticker pos.side count] }
      boxFlattenAttempt g begun tMinusS (g.boxState.T - tMinusS) m

/-- After the entry: a pair is held, a single leg is flattened. -/
def boxPostEntry (g : BoxWindow) (w : BoxService) (ledger : LedgerState) (tMinusS : ℚ)
    (m : Moment) : BoxService :=
  let hi := ledger.net .high
  let lo := ledger.net .low
  if 0 < hi ∧ 0 < lo then
    { w with notes := w.notes ++ [.bothFilledHold ledger.realizedAtClose ledger.matchedPairs] }
  else if 0 < hi ∨ 0 < lo then
    boxBeginFlatten g { w with oneLegged := true } ledger tMinusS m
  else { w with notes := w.notes ++ [.noFill] }

/-- What the entry meets: fresh client order ids, and what comes of its post. -/
structure EntryMoment where
  clientOrderId : ℕ → String
  outcome : PostOutcome

/-- The order of a decision to fire. -/
def entryIntent (g : BoxWindow) (action : BoxAction) (e : EntryMoment) : Intent where
  window := g.closeTime
  source := .wideBox
  purpose := .entry
  legs := action.legs.mapIdx fun i leg =>
    { ticker := leg.ticker, side := leg.side, action := .buy, count := leg.count,
      limitPrice := leg.limitPrice, clientOrderId := e.clientOrderId i,
      exchangeIndex := g.exchangeIndex leg.ticker }
  tMinusS := some action.tMinusS

/-- The markets of the two slots of the ledger. -/
def boxTickers (g : BoxWindow) (action : BoxAction) : Option (String × String) :=
  match g.boxState.firedSelection, action.legs with
  | some sel, _ => some (sel.hourlyTicker, sel.m15Ticker)
  | none, hourly :: m15 :: _ => some (hourly.ticker, m15.ticker)
  | none, _ => none

/-- Send the entry and record what comes of it; the ledger with its responses, or nothing when an
exception leaves the way. -/
def sendEntry (g : BoxWindow) (w : BoxService) (action : BoxAction) (e : EntryMoment) :
    BoxService × Option LedgerState :=
  match boxTickers g action with
  | none => (w, none)
  | some (hourly, m15) =>
    let intent := entryIntent g action e
    let ledger := recordIntent (newLedger g.closeTime .wideBox hourly m15) intent
    let done := harnessExecute w.executor intent (some action.tMinusS) false e.outcome
    let w' := { w with ledger := some ledger, executor := done.1 }
    match done.2 with
    | none => (w', none)
    | some result =>
      if result.responses.all Recordable then
        let folded := result.responses.foldl recordResponse ledger
        ({ w' with ledger := some folded }, some folded)
      else (w', none)

/-- Act on a decision of the box. -/
def onBoxAction (g : BoxWindow) (w : BoxService) (action : BoxAction) (e : EntryMoment)
    (m : Moment) : BoxService :=
  if action.kind ≠ .fire ∨ w.armed = false then w
  else
    match sendEntry g w action e with
    | (w', none) => w'
    | (w', some ledger) => boxPostEntry g w' ledger action.tMinusS m

/-! ### Later frames -/

/-- A frame is no later than the last attempt. -/
def staleFrame (pf : PendingFlatten) (serverTs : ℚ) : Bool :=
  pf.lastTs.any fun lastTs => serverTs ≤ lastTs

/-- A frame brings the next attempt: it is of the market held, with a bid, or late enough. -/
def retryDue (pf : PendingFlatten) (market : String) (serverTs : ℚ)
    (books : Dict String TopOfBook) :
    Bool :=
  (market = pf.ticker ∧ (boxLegBid books pf.ticker pf.side).isSome) ∨
    pf.lastTs.any fun lastTs => flattenRetryMinElapsedS ≤ serverTs - lastTs

/-- The service after a frame of the books. -/
def boxOnBookEvent (g : BoxWindow) (w : BoxService) (market : String) (serverTs : ℚ) (m : Moment) :
    BoxService :=
  match w.pending with
  | none => w
  | some pf =>
    if staleFrame pf serverTs then w
    else if retryDue pf market serverTs m.books then
      boxFlattenAttempt g w (g.boxState.T - serverTs) serverTs m
    else w

/-- What reaches the service after the entry. -/
inductive BoxInput where
  | bookEvent (market : String) (serverTs : ℚ) (m : Moment)
  /-- A stop disarms the executor. -/
  | disarm

/-- The service after an input. -/
def boxStep (g : BoxWindow) (w : BoxService) : BoxInput → BoxService
  | .bookEvent market serverTs m => boxOnBookEvent g w market serverTs m
  | .disarm => { w with executor := { w.executor with armed := false } }

end Pilot.Box
