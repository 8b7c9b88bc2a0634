import Mathlib.Algebra.BigOperators.Group.List.Basic
import Mathlib.Tactic.Ring
import Pilot.V1.Envelope

/-!
# The window ledger

The positions of the two legs of a window, folded from the intents and the responses. What
the ledger holds of a leg is the sum of the fills recorded for it.
-/

namespace Pilot.V1

/-- Why an order is sent. -/
inductive Purpose where
  | entry
  | rebalanceBuy
  | rebalanceSell
  | flatten
  deriving DecidableEq

/-- What a leg of an order does. -/
inductive Action where
  | buy
  | sell
  /-- Any other word. -/
  | other
  deriving DecidableEq

/-- What fired an entry. -/
inductive Source where
  | subDollarFlip
  | q1Strangle
  | wideBox
  deriving DecidableEq

/-- One leg of an order. -/
structure IntentLeg where
  ticker : String
  side : Side
  action : Action
  count : ℤ
  limitPrice : ℚ
  clientOrderId : String
  reduceOnly : Option Bool := none
  exchangeIndex : Option ℤ := none
  deriving DecidableEq

/-- An order: one leg, or the two legs of an entry. -/
structure Intent where
  window : String
  source : Source
  purpose : Purpose
  legs : List IntentLeg
  tMinusS : Option ℚ := none
  deriving DecidableEq

/-- The fills of one held outcome. -/
structure LegPosition where
  ticker : String
  side : Side
  bought : ℚ := 0
  /-- The price of the lots bought, without fees. -/
  boughtNotional : ℚ := 0
  buyFees : ℚ := 0
  sold : ℚ := 0
  soldNotional : ℚ := 0
  sellFees : ℚ := 0

namespace LegPosition

variable (pos : LegPosition)

def net : ℚ := pos.bought - pos.sold

def boughtCost : ℚ := pos.boughtNotional + pos.buyFees

def soldProceeds : ℚ := pos.soldNotional - pos.sellFees

def netCashOut : ℚ := pos.boughtCost - pos.soldProceeds

end LegPosition

/-- The two legs of a window. -/
inductive Which where
  | high
  | low
  deriving DecidableEq

/-- The other leg. -/
def Which.other : Which → Which
  | .high => .low
  | .low => .high

/-- The ledger of one window. -/
structure LedgerState where
  window : String
  source : Source
  highTicker : String
  lowTicker : String
  /-- The outcome held on the high leg, from the entry. -/
  highSide : Option Side
  lowSide : Option Side
  positions : Dict (String × Side) LegPosition
  intents : List Intent
  responses : List OrderResponse
  /-- The leg each client order id was sent for. -/
  cidToLeg : Dict String IntentLeg

/-- The floor of the settlement of a matched pair. -/
def minPairPayout : ℚ := 1

/-- The sources whose matched pairs have the floor. -/
def Source.hasFloor : Source → Bool
  | .subDollarFlip | .wideBox => true
  | .q1Strangle => false

namespace LedgerState

variable (s : LedgerState)

/-- The ticker of a leg. -/
def ticker (which : Which) : String :=
  match which with
  | .high => s.highTicker
  | .low => s.lowTicker

/-- The outcome held on a leg. -/
def side (which : Which) : Option Side :=
  match which with
  | .high => s.highSide
  | .low => s.lowSide

/-- The key of the position of a leg. -/
def legKey (which : Which) : Option (String × Side) :=
  (s.side which).map fun side => (s.ticker which, side)

/-- The position of a leg. -/
def position (which : Which) : Option LegPosition :=
  (s.legKey which).bind s.positions.get?

/-- The lots held of a leg. -/
def net (which : Which) : ℚ := ((s.position which).map LegPosition.net).getD 0

/-- The lots held on both legs. -/
def matchedPairs : ℚ := min (s.net .high) (s.net .low)

/-- The cash paid for both legs. -/
def pairNetCashOut : ℚ :=
  ((s.position .high).map LegPosition.netCashOut).getD 0 +
    ((s.position .low).map LegPosition.netCashOut).getD 0

/-- The cash of all fills. -/
def realizedCashflow : ℚ := -s.pairNetCashOut

/-- The profit booked at the close of the window. -/
def realizedAtClose : ℚ :=
  if s.source.hasFloor then s.realizedCashflow + s.matchedPairs * minPairPayout
  else s.realizedCashflow

/-- The lots of a leg whose settlement is not booked at the close. -/
def heldPending (which : Which) : ℚ :=
  if s.source = .subDollarFlip then s.net which - min (s.net which) s.matchedPairs
  else s.net which

/-- A leg whose settlement is not booked at the close, with its whole lots. -/
def pendingLeg (which : Which) : Option (String × Side × ℤ) :=
  (s.position which).bind fun pos =>
    if pos.net ≤ 0 then none
    else if 0 < s.heldPending which then
      some (pos.ticker, pos.side, truncInt (s.heldPending which))
    else none

/-- The legs whose settlement is not booked at the close. -/
def unsettledLegs : List (String × Side × ℤ) := [Which.high, Which.low].filterMap s.pendingLeg

/-- Some leg had a fill. -/
def hasAnyFill : Bool := s.positions.values.any fun p => 0 < p.bought || 0 < p.sold

end LedgerState

/-- An empty ledger. -/
def newLedger (window : String) (source : Source) (highTicker lowTicker : String) :
    LedgerState where
  window := window
  source := source
  highTicker := highTicker
  lowTicker := lowTicker
  highSide := none
  lowSide := none
  positions := .empty
  intents := []
  responses := []
  cidToLeg := .empty

/-- The outcomes an entry leg leaves held. -/
def heldSides (s : LedgerState) (sides : Option Side × Option Side) (leg : IntentLeg) :
    Option Side × Option Side :=
  if leg.ticker = s.highTicker then (some leg.side, sides.2)
  else if leg.ticker = s.lowTicker then (sides.1, some leg.side)
  else sides

/-- The outcomes an entry leaves held. -/
def heldSidesFromEntry (intent : Intent) (s : LedgerState) : Option Side × Option Side :=
  intent.legs.foldl (heldSides s) (s.highSide, s.lowSide)

/-- Record an order about to be sent. -/
def recordIntent (s : LedgerState) (intent : Intent) : LedgerState :=
  let sides :=
    if intent.purpose = .entry then heldSidesFromEntry intent s else (s.highSide, s.lowSide)
  { s with
    highSide := sides.1
    lowSide := sides.2
    intents := s.intents ++ [intent]
    cidToLeg := intent.legs.foldl (fun d leg => d.set leg.clientOrderId leg) s.cidToLeg }

/-- The fees of a response: the reported fee is that of one contract. -/
def feeOf (resp : OrderResponse) : ℚ := (resp.averageFeePaid.getD 0) * resp.fillCount

/-- A recorded fill. -/
structure Fill where
  ticker : String
  side : Side
  action : Action
  count : ℚ
  price : ℚ
  fee : ℚ
  deriving DecidableEq

/-- The position a fill belongs to. -/
def Fill.key (f : Fill) : String × Side := (f.ticker, f.side)

/-- The leg a response is for. -/
def legOf (s : LedgerState) (resp : OrderResponse) : Option IntentLeg :=
  resp.clientOrderId.name?.bind s.cidToLeg.get?

/-- The fill of a response: none without a known leg, lots or a price. -/
def fillOf (s : LedgerState) (resp : OrderResponse) : Option Fill :=
  (legOf s resp).bind fun leg =>
    if resp.fillCount ≤ 0 ∨ leg.action = .other then none
    else resp.averageFillPrice.map fun price =>
      ⟨leg.ticker, leg.side, leg.action, resp.fillCount, price, feeOf resp⟩

/-- The position with a fill. -/
def LegPosition.add (pos : LegPosition) (f : Fill) : LegPosition :=
  match f.action with
  | .buy =>
    { pos with
      bought := pos.bought + f.count
      boughtNotional := pos.boughtNotional + f.count * f.price
      buyFees := pos.buyFees + f.fee }
  | .sell =>
    { pos with
      sold := pos.sold + f.count
      soldNotional := pos.soldNotional + f.count * f.price
      sellFees := pos.sellFees + f.fee }
  | .other => pos

/-- The position under a key; an empty one where there is none. -/
def positionAt (s : LedgerState) (key : String × Side) : LegPosition :=
  s.positions.getD key ⟨key.1, key.2, 0, 0, 0, 0, 0, 0⟩

/-- Fold a response into the positions. -/
def recordResponse (s : LedgerState) (resp : OrderResponse) : LedgerState :=
  let s' := { s with responses := s.responses ++ [resp] }
  match fillOf s resp with
  | none => s'
  | some f => { s' with positions := s.positions.set f.key ((positionAt s f.key).add f) }

/-- The orders of a purpose that had a leg in a market. -/
def retriesForSide (s : LedgerState) (ticker : String) (purpose : Purpose) : ℕ :=
  s.intents.countP fun intent =>
    intent.purpose = purpose ∧ intent.legs.any fun leg => leg.ticker = ticker

/-- What a ledger records. -/
inductive LedgerEvent where
  | intent (intent : Intent)
  | response (resp : OrderResponse)

/-- The ledger after an event. -/
def record (s : LedgerState) : LedgerEvent → LedgerState
  | .intent intent => recordIntent s intent
  | .response resp => recordResponse s resp

/-- The fill an event records. -/
def fillAt (s : LedgerState) : LedgerEvent → Option Fill
  | .intent _ => none
  | .response resp => fillOf s resp

/-- The fills a history records, in order. -/
def fillsOf : LedgerState → List LedgerEvent → List Fill
  | _, [] => []
  | s, e :: es => (fillAt s e).toList ++ fillsOf (record s e) es

/-! ### What the ledger holds -/

/-- The lots a fill adds. -/
def Fill.lots (f : Fill) : ℚ :=
  match f.action with
  | .buy => f.count
  | .sell => -f.count
  | .other => 0

/-- The cash a fill brings, fees included. -/
def Fill.cash (f : Fill) : ℚ :=
  match f.action with
  | .buy => -(f.count * f.price + f.fee)
  | .sell => f.count * f.price - f.fee
  | .other => 0

/-- The lots a fill moves. -/
def Fill.volume (f : Fill) : ℚ := if f.action = .other then 0 else f.count

/-- The lots moved on a position. -/
def LegPosition.volume (pos : LegPosition) : ℚ := pos.bought + pos.sold

/-- The sum over the fills of one position. -/
def sumAt (g : Fill → ℚ) (fills : List Fill) (key : String × Side) : ℚ :=
  ((fills.filter fun f => f.key = key).map g).sum

section Ledger

variable {s : LedgerState} {es : List LedgerEvent}

/-- A fill changes the net by its lots. -/
theorem LegPosition.net_add (pos : LegPosition) (f : Fill) :
    (pos.add f).net = pos.net + f.lots := by
  unfold LegPosition.add LegPosition.net Fill.lots
  cases f.action
  · dsimp only
    ring
  · dsimp only
    ring
  · exact (add_zero _).symm

/-- A fill changes the cash by its own. -/
theorem LegPosition.netCashOut_add (pos : LegPosition) (f : Fill) :
    -(pos.add f).netCashOut = -pos.netCashOut + f.cash := by
  unfold LegPosition.add LegPosition.netCashOut LegPosition.boughtCost LegPosition.soldProceeds
    Fill.cash
  cases f.action
  · dsimp only
    ring
  · dsimp only
    ring
  · exact (add_zero _).symm

/-- A fill changes the volume by its own. -/
theorem LegPosition.volume_add (pos : LegPosition) (f : Fill) :
    (pos.add f).volume = pos.volume + f.volume := by
  unfold LegPosition.add LegPosition.volume Fill.volume
  cases f.action
  · rw [if_neg (by decide)]
    dsimp only
    ring
  · rw [if_neg (by decide)]
    dsimp only
    ring
  · exact (add_zero _).symm

/-- An intent changes no position. -/
theorem positionAt_recordIntent (s : LedgerState) (intent : Intent) (key : String × Side) :
    positionAt (recordIntent s intent) key = positionAt s key := rfl

/-- An event adds its fill to the position of the fill alone. -/
theorem positionAt_record (s : LedgerState) (e : LedgerEvent) (key : String × Side) :
    positionAt (record s e) key =
      ((fillAt s e).filter fun f => f.key = key).elim (positionAt s key)
      (positionAt s key).add := by
  cases e with
  | intent intent => exact positionAt_recordIntent s intent key
  | response resp =>
    unfold record recordResponse fillAt
    dsimp only
    cases fillOf s resp with
    | none => rfl
    | some f =>
      rw [Option.filter_some]
      unfold positionAt
      dsimp only
      by_cases hkey : f.key = key
      · rw [Dict.getD_set, if_pos hkey.symm, hkey]
        simp
      · rw [Dict.getD_set, if_neg (Ne.symm hkey)]
        simp [hkey]

/-- The fills of a history begin with that of its first event. -/
theorem fillsOf_cons (s : LedgerState) (e : LedgerEvent) (es : List LedgerEvent) :
    fillsOf s (e :: es) = (fillAt s e).toList ++ fillsOf (record s e) es := rfl

/-- What a position adds up is what the fills recorded for it add. -/
theorem positionAt_run {obs : LegPosition → ℚ} {g : Fill → ℚ}
    (hadd : ∀ pos f, obs (pos.add f) = obs pos + g f) (s : LedgerState) (es : List LedgerEvent)
    (key : String × Side) :
    obs (positionAt (es.foldl record s) key) =
      obs (positionAt s key) + sumAt g (fillsOf s es) key := by
  induction es generalizing s with
  | nil => simp [fillsOf, sumAt]
  | cons e es ih =>
    rw [List.foldl_cons, ih (record s e), positionAt_record, fillsOf_cons]
    unfold sumAt
    cases fillAt s e with
    | none => simp
    | some f =>
      by_cases hkey : f.key = key
      · simp [Option.filter_some, hkey, hadd]
        ring
      · simp [Option.filter_some, hkey]

/-- Every recorded fill has lots and is a purchase or a sale. -/
theorem volume_pos_of_mem {f : Fill} (hf : f ∈ fillsOf s es) : 0 < f.volume := by
  induction es generalizing s with
  | nil => simp [fillsOf] at hf
  | cons e es ih =>
    rw [fillsOf_cons] at hf
    rcases List.mem_append.mp hf with hhead | htail
    · cases e with
      | intent intent => simp [fillAt] at hhead
      | response resp =>
        obtain ⟨leg, -, hleg⟩ := Option.bind_eq_some_iff.mp (Option.mem_toList.mp hhead)
        split_ifs at hleg with hcond
        obtain ⟨price, -, rfl⟩ := Option.map_eq_some_iff.mp hleg
        rw [not_or, not_le] at hcond
        unfold Fill.volume
        dsimp only
        rw [if_neg hcond.2]
        exact hcond.1
    · exact ih htail

/-- A position is stored under its own key. -/
def Keyed (s : LedgerState) : Prop :=
  ∀ key pos, s.positions.get? key = some pos → (pos.ticker, pos.side) = key

/-- A fill changes neither the market nor the side. -/
theorem LegPosition.key_add (pos : LegPosition) (f : Fill) :
    ((pos.add f).ticker, (pos.add f).side) = (pos.ticker, pos.side) := by
  unfold LegPosition.add
  cases f.action <;> rfl

/-- Positions stay under their keys. -/
theorem Keyed.record (h : Keyed s) (e : LedgerEvent) : Keyed (record s e) := by
  cases e with
  | intent intent => exact h
  | response resp =>
    intro key pos hpos
    unfold V1.record recordResponse at hpos
    dsimp only at hpos
    cases hfill : fillOf s resp with
    | none =>
      rw [hfill] at hpos
      exact h key pos hpos
    | some f =>
      rw [hfill] at hpos
      dsimp only at hpos
      rw [Dict.get?_set] at hpos
      split_ifs at hpos with hkey
      · cases hpos
        rw [LegPosition.key_add, hkey]
        unfold positionAt Dict.getD
        cases hget : s.positions.get? f.key with
        | none => rfl
        | some pos => exact h f.key pos hget
      · exact h key pos hpos

/-- Positions stay under their keys over a history. -/
theorem keyed_run (es : List LedgerEvent) (h : Keyed s) : Keyed (es.foldl V1.record s) := by
  induction es generalizing s with
  | nil => exact h
  | cons e es ih => exact ih (h.record e)

end Ledger

end Pilot.V1
