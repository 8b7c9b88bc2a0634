import Pilot.V1.Executor

/-!
# The imbalance protocol

After an entry the two legs may hold different lots. The deficient leg is bought again as long
as the ceiling of the pairs allows it, else the overfilled leg is sold down; the loop ends when
the legs are balanced, when nothing can be done any more, or when the settlement is too close.
-/

namespace Pilot.V1

/-- Two legs that hold different lots. -/
structure Imbalance where
  highNet : ℚ
  lowNet : ℚ
  matched : ℚ
  deficient : Which
  overfilled : Which
  deficit : ℚ

/-- The imbalance of a ledger, if there is one. -/
def detectImbalance (s : LedgerState) : Option Imbalance :=
  let hi := s.net .high
  let lo := s.net .low
  if hi = lo then none
  else if hi < lo then some ⟨hi, lo, min hi lo, .high, .low, lo - hi⟩
  else some ⟨hi, lo, min hi lo, .low, .high, hi - lo⟩

/-- The lots of the overfilled leg. -/
def Imbalance.overNet (imb : Imbalance) : ℚ :=
  match imb.overfilled with
  | .high => imb.highNet
  | .low => imb.lowNet

/-- The asks and bids of the held outcomes. -/
structure RebalanceQuotes where
  highBuy : Option ℚ
  highSell : Option ℚ
  lowBuy : Option ℚ
  lowSell : Option ℚ

/-- The price at which more of a leg can be bought. -/
def RebalanceQuotes.buyPrice (q : RebalanceQuotes) : Which → Option ℚ
  | .high => q.highBuy
  | .low => q.lowBuy

/-- The price at which a leg can be sold. -/
def RebalanceQuotes.sellPrice (q : RebalanceQuotes) : Which → Option ℚ
  | .high => q.highSell
  | .low => q.lowSell

/-- The bounds of the protocol. -/
structure ImbalanceBounds where
  pairCostCeilingSub1 : ℚ
  maxRetriesPerSide : ℕ
  noRebalanceAfterSToSettle : ℚ
  noOrdersAfterSToSettle : ℚ

/-- An order of the protocol. -/
structure RebalanceOrder where
  which : Which
  ticker : String
  side : Option Side
  count : ℤ
  limitPrice : ℚ
  deriving DecidableEq

/-- What the protocol does next. -/
inductive Proposal where
  | balanced
  | rideToSettlement
  | giveUp
  | retryBuy (order : RebalanceOrder)
  | sellDown (order : RebalanceOrder)
  deriving DecidableEq

/-- Another purchase of the deficient leg, if retries are left and its whole deficit stays
below the ceiling. -/
def retryBuyOf (s : LedgerState) (bounds : ImbalanceBounds) (quotes : RebalanceQuotes)
    (ceilingPerPair : ℚ) (imb : Imbalance) : Option RebalanceOrder :=
  (quotes.buyPrice imb.deficient).bind fun buyPrice =>
    if retriesForSide s (s.ticker imb.deficient) .rebalanceBuy < bounds.maxRetriesPerSide ∧
        s.pairNetCashOut + imb.deficit * (buyPrice + fee buyPrice) ≤
          ceilingPerPair * imb.overNet then
      some ⟨imb.deficient, s.ticker imb.deficient, s.side imb.deficient, truncInt imb.deficit,
        buyPrice⟩
    else none

/-- A sale of the overfilled leg down to the whole lots matched, if retries are left. -/
def sellDownOf (s : LedgerState) (bounds : ImbalanceBounds) (quotes : RebalanceQuotes)
    (imb : Imbalance) : Option RebalanceOrder :=
  (quotes.sellPrice imb.overfilled).bind fun sellPrice =>
    let sellCount := truncInt imb.overNet - truncInt imb.matched
    if retriesForSide s (s.ticker imb.overfilled) .rebalanceSell < bounds.maxRetriesPerSide ∧
        0 < sellCount then
      some ⟨imb.overfilled, s.ticker imb.overfilled, s.side imb.overfilled, sellCount, sellPrice⟩
    else none

/-- The decision of the protocol. -/
def proposeRebalance (s : LedgerState) (bounds : ImbalanceBounds) (tMinusS : ℚ)
    (quotes : RebalanceQuotes) (ceilingPerPair : ℚ) : Proposal :=
  match detectImbalance s with
  | none => .balanced
  | some imb =>
    if tMinusS < bounds.noOrdersAfterSToSettle then .rideToSettlement
    else
      match
        if tMinusS < bounds.noRebalanceAfterSToSettle then none
        else retryBuyOf s bounds quotes ceilingPerPair imb with
      | some order => .retryBuy order
      | none =>
        match sellDownOf s bounds quotes imb with
        | some order => .sellDown order
        | none => .giveUp

/-! ### The loop -/

/-- What one turn of the loop meets. -/
structure Turn where
  quotes : RebalanceQuotes
  /-- The fair cost of a strangle pair, zero when it is not known. -/
  fairStrangleQ : ℚ
  clientOrderId : String
  outcome : PostOutcome

/-- How the loop ends. -/
inductive Ending where
  | balanced
  | riding
  /-- The stop for an imbalance is recorded. -/
  | stopped
  /-- An exception leaves the loop. -/
  | raised
  deriving DecidableEq

/-- An order the loop sent, with the ledger and the ceiling it was decided on. -/
structure SentOrder where
  ledger : LedgerState
  ceilingPerPair : ℚ
  action : Action
  order : RebalanceOrder

/-- The state of the loop. -/
structure Rebalance where
  ledger : LedgerState
  executor : Executor
  sent : List SentOrder
  ended : Option Ending

/-- What every turn of one loop shares: the bounds, the time and the shards of the markets. -/
structure LoopSetting where
  bounds : ImbalanceBounds
  tMinusS : ℚ
  exchangeIndex : String → Option ℤ

/-- The ceiling of the cost of a pair. -/
def ceilingPerPair (bounds : ImbalanceBounds) (source : Source) (fairStrangleQ : ℚ) : ℚ :=
  match source with
  | .subDollarFlip => bounds.pairCostCeilingSub1
  | .q1Strangle | .wideBox => fairStrangleQ

/-- A response can be recorded: its client order id is no array and no object. -/
def Recordable (r : OrderResponse) : Bool :=
  !r.clientOrderId.truthy || r.clientOrderId.hashable

/-- The purpose of a purchase or a sale of the loop. -/
def rebalancePurpose : Action → Purpose
  | .buy => .rebalanceBuy
  | .sell | .other => .rebalanceSell

/-- The leg of an order of the loop. -/
def rebalanceLeg (g : LoopSetting) (turn : Turn) (action : Action) (order : RebalanceOrder)
    (side : Side) : IntentLeg where
  ticker := order.ticker
  side := side
  action := action
  count := order.count
  limitPrice := order.limitPrice
  clientOrderId := turn.clientOrderId
  reduceOnly := if action = .sell then some true else none
  exchangeIndex := g.exchangeIndex order.ticker

/-- The intent of an order of the loop. -/
def rebalanceIntent (g : LoopSetting) (s : LedgerState) (turn : Turn) (action : Action)
    (order : RebalanceOrder) (side : Side) : Intent where
  window := s.window
  source := s.source
  purpose := rebalancePurpose action
  legs := [rebalanceLeg g turn action order side]
  tMinusS := some g.tMinusS

/-- Record an order, send it, and record its responses. -/
def sendOrder (g : LoopSetting) (w : Rebalance) (turn : Turn) (action : Action)
    (order : RebalanceOrder) : Rebalance :=
  let ceiling := ceilingPerPair g.bounds w.ledger.source turn.fairStrangleQ
  let w' := { w with sent := w.sent ++ [SentOrder.mk w.ledger ceiling action order] }
  match order.side with
  | none => { w' with ended := some .raised }
  | some side =>
    let intent := rebalanceIntent g w.ledger turn action order side
    let ledger := recordIntent w.ledger intent
    let done := execute w.executor intent (some g.tMinusS) false turn.outcome
    match done.2 with
    | none => { w' with ledger, executor := done.1, ended := some .raised }
    | some result =>
      if result.responses.all Recordable then
        { w' with ledger := result.responses.foldl recordResponse ledger, executor := done.1 }
      else { w' with ledger, executor := done.1, ended := some .raised }

/-- The loop after a decision. -/
def carryOut (g : LoopSetting) (w : Rebalance) (turn : Turn) : Proposal → Rebalance
  | .balanced => { w with ended := some .balanced }
  | .rideToSettlement => { w with ended := some .riding }
  | .giveUp => { w with ended := some .stopped }
  | .retryBuy order => sendOrder g w turn .buy order
  | .sellDown order => sendOrder g w turn .sell order

/-- The decision of a turn. -/
def decision (g : LoopSetting) (s : LedgerState) (turn : Turn) : Proposal :=
  proposeRebalance s g.bounds g.tMinusS turn.quotes
    (ceilingPerPair g.bounds s.source turn.fairStrangleQ)

/-- One turn of the loop; nothing once it has ended. -/
def rebalanceTurn (g : LoopSetting) (w : Rebalance) (turn : Turn) : Rebalance :=
  match w.ended with
  | some _ => w
  | none => carryOut g w turn (decision g w.ledger turn)

/-- The most turns of the loop. -/
def maxRebalanceSteps : ℕ := 20

/-- The loop after an entry. -/
def maybeRebalance (g : LoopSetting) (ledger : LedgerState) (executor : Executor)
    (turns : ℕ → Turn) : Rebalance :=
  ((List.range maxRebalanceSteps).map turns).foldl (rebalanceTurn g) ⟨ledger, executor, [], none⟩

end Pilot.V1
