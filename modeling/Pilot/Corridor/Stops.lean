import Mathlib.Data.List.Sort
import Mathlib.Data.String.Basic
import Pilot.Box.Flatten
import Pilot.Corridor.Signal
import Pilot.V1.Restart

/-!
# The stops of the corridor

A stop freezes the orders of the strategy and says what becomes of the position: the pairs that
have a floor are held, the rest is sold. Three things stop a window: a pair below its floor, an
imbalance that cannot be restored, and positions at the venue that are not those of the ledger.
-/

namespace Pilot.Corridor

open V1 (Intent Json LedgerState OrderResponse Which minPairPayout)

/-! ### The state -/

/-- What stops a window. -/
inductive StopKind where
  /-- `S1`. -/
  | arith
  /-- `S2`. -/
  | imbalance
  /-- `S3`. -/
  | recon
  deriving DecidableEq

/-- Why a window is stopped. -/
inductive StopReason where
  /-- `sub-$1 flip pair … floor violated`. -/
  | floorViolated (matched realizedMin netCashOut : ℚ)
  /-- `imbalance … unrestorable within bounds`. -/
  | unrestorable
  /-- `reconcile mismatch`. -/
  | mismatch (tickers : List String)

/-- A record of an alarm or a stop. -/
inductive Notification where
  /-- The alarm `A1`. -/
  | slippage (ticker : String) (limit avgFill : ℚ)
  /-- The alarm `A_FLATTEN_NO_BID`. -/
  | flattenNoBid (ticker : String) (count : ℤ)
  | stop (kind : StopKind) (reason : StopReason)

/-- What is asked of a stop and of an alarm. -/
structure StopConfig where
  slippageAlarmDollars : ℚ := 2 / 100
  holdCompleteFloorPairsToSettlement : Bool := true
  flattenUnprotectedExposure : Bool := true

/-- The stops and the alarms of a window. -/
structure StopState where
  tripped : List StopKind := []
  alarms : List Notification := []
  notifications : List Notification := []

/-- Latch a stop and note it. -/
def applyStop (state : StopState) (stop : StopKind) (reason : StopReason) : StopState :=
  { state with
    tripped := if stop ∈ state.tripped then state.tripped else state.tripped ++ [stop]
    notifications := state.notifications ++ [.stop stop reason] }

/-- Note an alarm. -/
def applyAlarm (state : StopState) (note : Notification) : StopState :=
  { state with
    alarms := state.alarms ++ [note]
    notifications := state.notifications ++ [note] }

/-! ### The checks -/

/-- The alarm of a leg that filled far from its limit. -/
def slippageAlarm (config : StopConfig) (intent : Intent) (r : OrderResponse) :
    Option Notification :=
  if r.noFill ∨ r.fillCount ≤ 0 then none
  else
    let byCid : Dict String V1.IntentLeg :=
      .ofList (intent.legs.map fun leg => (leg.clientOrderId, leg))
    r.averageFillPrice.bind fun price =>
      (r.clientOrderId.name?.bind byCid.get?).bind fun leg =>
        if config.slippageAlarmDollars < |price - leg.limitPrice| then
          some (.slippage leg.ticker leg.limitPrice price)
        else none

/-- The alarms of the responses to an order. -/
def checkSlippageAlarms (intent : Intent) (responses : List OrderResponse) (config : StopConfig) :
    List Notification :=
  responses.filterMap (slippageAlarm config intent)

/-- The least a flip realizes on its matched lots. -/
def realizedMin (s : LedgerState) : ℚ := s.matchedPairs * minPairPayout - s.pairNetCashOut

/-- A filled flip below its floor. -/
def checkS1 (s : LedgerState) : Option StopReason :=
  if s.source ≠ .subDollarFlip ∨ s.matchedPairs ≤ 0 then none
  else if realizedMin s < 0 then
    some (.floorViolated s.matchedPairs (realizedMin s) s.pairNetCashOut)
  else none

/-! ### The position policy -/

/-- What becomes of some lots. -/
inductive PositionKind where
  | hold
  | flatten
  deriving DecidableEq

/-- Why they are held or sold. -/
inductive PolicyReason where
  /-- `complete sub-$1 floor pair held to settlement`. -/
  | floorPair
  /-- `strangle leg flattened as unprotected exposure`. -/
  | strangleLeg
  /-- `unpaired flip overhang flattened as unprotected exposure`. -/
  | flipOverhang
  /-- `unprotected exposure but flatten disabled`. -/
  | flattenDisabled
  deriving DecidableEq

/-- An action on one leg. -/
structure PositionAction where
  kind : PositionKind
  which : Which
  ticker : String
  side : Side
  count : ℤ
  reason : PolicyReason

/-- The lots of a leg that a floor protects. -/
def protectedLots (s : LedgerState) (config : StopConfig) (which : Which) : ℚ :=
  if s.source = .subDollarFlip ∧ config.holdCompleteFloorPairsToSettlement then
    min (s.net which) s.matchedPairs
  else 0

/-- The action on the lots of a leg that no floor protects. -/
def unprotectedAction (s : LedgerState) (config : StopConfig) (which : Which)
    (pos : V1.LegPosition) (unprotected : ℚ) : PositionAction :=
  if config.flattenUnprotectedExposure then
    ⟨.flatten, which, pos.ticker, pos.side, truncInt unprotected,
      if s.source = .subDollarFlip then .flipOverhang else .strangleLeg⟩
  else ⟨.hold, which, pos.ticker, pos.side, truncInt unprotected, .flattenDisabled⟩

/-- The actions on a leg. -/
def legActions (s : LedgerState) (config : StopConfig) (which : Which) : List PositionAction :=
  match s.position which with
  | none => []
  | some pos =>
    if pos.net ≤ 0 then []
    else
      let guarded := protectedLots s config which
      let unprotected := pos.net - guarded
      (if 0 < guarded then
          [⟨.hold, which, pos.ticker, pos.side, truncInt guarded, .floorPair⟩] else []) ++
        if 0 < unprotected then [unprotectedAction s config which pos unprotected] else []

/-- The actions on a position when a stop trips. -/
def positionPolicy (s : LedgerState) (config : StopConfig) : List PositionAction :=
  [Which.high, Which.low].flatMap (legActions s config)

/-! ### The positions at the venue -/

/-- The signed lots of a market: a held NO counts below zero. -/
def addPosition (s : LedgerState) (out : Dict String ℚ) (which : Which) : Dict String ℚ :=
  match s.position which with
  | none => out
  | some pos =>
    if pos.net = 0 then out
    else
      let signed := if pos.side = .yes then pos.net else -pos.net
      out.set pos.ticker (out.getD pos.ticker 0 + signed)

/-- The positions of a ledger, each market with the lots it should have at the venue. -/
def expectedPositions (s : LedgerState) : Dict String ℚ :=
  let out := [Which.high, Which.low].foldl (addPosition s) .empty
  (out.keys.filter fun ticker => out.getD ticker 0 = 0).foldl Dict.pop out

/-- The rows of a reply on the positions. -/
def positionRows (body : Json) : List Json :=
  match body.field "market_positions" with
  | .array rows => rows
  | _ =>
    match body.field "positions" with
    | .array rows => rows
    | _ => []

/-- The market and the lots of a row, if it can be read. -/
def positionOf (row : Json) : Option (String × ℚ) :=
  (row.field "ticker").text?.bind fun ticker =>
    let raw :=
      if row.hasField "position" then row.field "position" else row.field "net_position"
    (V1.toDecimal raw).map fun lots => (ticker, lots)

/-- The positions a reply reports: a row without lots says nothing. -/
def parsePositionsResponse (body : Json) : Dict String ℚ :=
  .ofList ((positionRows body).filterMap fun row =>
    (positionOf row).filter fun p => p.2 ≠ 0)

/-- The markets whose lots differ. -/
def diffPositions (expected observed : Dict String ℚ) : List String :=
  ((expected.keys ++ observed.keys).dedup.filter fun ticker =>
    expected.getD ticker 0 ≠ observed.getD ticker 0).insertionSort (· ≤ ·)

end Pilot.Corridor
