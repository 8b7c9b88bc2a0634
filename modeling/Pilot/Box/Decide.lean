import Mathlib.Data.List.MinMax
import Mathlib.Data.Prod.Lex
import Pilot.V33.Vocabulary

/-!
# The wide box

Late in the window the box buys two deep legs on both sides of the anchor: one on the fifteen
minute market and one on an hourly strike. The pair is selected from the latest tops and decided
on once in a window.
-/

namespace Pilot.Box

/-- The roster of the box. -/
structure BoxParams where
  targetMid : ℚ
  hourlyAskMin : ℚ
  hourlyAskMax : ℚ
  min15Ask : ℚ
  maxSpread : ℚ
  limitMargin : ℚ
  entryStartS : ℤ
  entryEndS : ℤ
  freshnessMaxLegAgeS : ℚ
  noOrdersAfterSToSettle : ℤ
  contracts : ℕ
  minImpliedPin : ℚ

/-- The box chosen at one instant. -/
structure BoxSelection where
  hourlyTicker : String
  hourlySide : Side
  hourlyAsk : ℚ
  hourlyBid : ℚ
  hourlyMid : ℚ
  hourlyLimit : ℚ
  m15Ticker : String
  m15Side : Side
  m15Ask : ℚ
  m15Bid : ℚ
  m15Limit : ℚ
  strikeK : ℚ
  anchorA : ℚ
  C : ℚ
  cMid : ℚ
  impliedPin : ℚ
  deriving DecidableEq

/-- Why no box qualifies. -/
inductive NoBox where
  /-- `15M missing bid/ask`. -/
  | missingQuote
  /-- `15M spread > max_spread`. -/
  | wideSpread
  /-- `15M ask < min15_ask`. -/
  | lowAsk
  /-- `no qualifying hourly candidate`. -/
  | noCandidate
  /-- `hourly ask outside [hourly_ask_min, hourly_ask_max]`. -/
  | hourlyAskOutside
  deriving DecidableEq

/-! ### Selection -/

/-- The middle of two quotes. -/
def mid (ask bid : ℚ) : ℚ := (ask + bid) / 2

/-- A price with its fee. -/
def legCost (price : ℚ) : ℚ := price + fee price

/-- A strike that qualifies, with its quotes on the side the box buys. -/
structure Candidate where
  ticker : String
  strikeK : ℚ
  ask : ℚ
  bid : ℚ
  mid : ℚ

/-- The candidate a strike is: below the anchor its YES side, above it its NO side. -/
def candidate (p : BoxParams) (anchorA : ℚ) (below : Bool) (strike : String × ℚ × TopOfBook) :
    Option Candidate :=
  match strike.2.2.yesAsk, strike.2.2.yesBid with
  | some ya, some yb =>
    if p.maxSpread < ya - yb then none
    else if below then
      if anchorA ≤ strike.2.1 then none
      else some ⟨strike.1, strike.2.1, ya, yb, mid ya yb⟩
    else
      if strike.2.1 ≤ anchorA then none
      else some ⟨strike.1, strike.2.1, 1 - yb, 1 - ya, 1 - mid ya yb⟩
  | _, _ => none

/-- Nearest to the target, then farthest from the anchor. -/
def candidateKey (p : BoxParams) (anchorA : ℚ) (c : Candidate) : ℚ ×ₗ ℚ :=
  toLex (|c.mid - p.targetMid|, -|c.strikeK - anchorA|)

/-- The box of a candidate and the fifteen minute market. -/
def boxOf (p : BoxParams) (anchorA : ℚ) (m15Ticker : String) (below : Bool) (m15Ask m15Bid : ℚ)
    (c : Candidate) : BoxSelection where
  hourlyTicker := c.ticker
  hourlySide := if below then .yes else .no
  hourlyAsk := c.ask
  hourlyBid := c.bid
  hourlyMid := c.mid
  hourlyLimit := min (c.ask + p.limitMargin) limitCeiling
  m15Ticker := m15Ticker
  m15Side := if below then .no else .yes
  m15Ask := m15Ask
  m15Bid := m15Bid
  m15Limit := min (m15Ask + p.limitMargin) limitCeiling
  strikeK := c.strikeK
  anchorA := anchorA
  C := legCost c.ask + legCost m15Ask
  cMid := c.mid + mid m15Ask m15Bid
  impliedPin := c.mid + mid m15Ask m15Bid - 1

/-- The box at one instant: the ladder lists the strikes with their tops. -/
def selectBox (p : BoxParams) (anchorA : ℚ) (m15Ticker : String) (m15Top : TopOfBook)
    (ladder : List (String × ℚ × TopOfBook)) : Except NoBox BoxSelection :=
  match m15Top.yesAsk, m15Top.yesBid with
  | some ya, some yb =>
    if p.maxSpread < ya - yb then .error .wideSpread
    else
      let below : Bool := mid ya yb < 1 / 2
      let m15Ask := if below then 1 - yb else ya
      let m15Bid := if below then 1 - ya else yb
      if m15Ask < p.min15Ask then .error .lowAsk
      else
        match (ladder.filterMap (candidate p anchorA below)).argmin (candidateKey p anchorA) with
        | none => .error .noCandidate
        | some c =>
          if p.hourlyAskMin ≤ c.ask ∧ c.ask ≤ p.hourlyAskMax then
            .ok (boxOf p anchorA m15Ticker below m15Ask m15Bid c)
          else .error .hourlyAskOutside
  | _, _ => .error .missingQuote

/-! ### The window -/

/-- What the box consumes. -/
inductive BoxEvent where
  | bookUpdate (market : String) (top : TopOfBook) (serverTs : ℚ)
  | clockTick (serverTs : ℚ)

/-- The time of an event. -/
def BoxEvent.serverTs : BoxEvent → ℚ
  | .bookUpdate _ _ ts => ts
  | .clockTick ts => ts

/-- The state of one window. -/
structure BoxState where
  T : ℤ
  anchorA : ℚ
  m15Ticker : String
  strikes : Dict String ℚ
  tops : Dict String TopOfBook
  ts : Dict String ℚ
  shakedown : Bool
  entered : Bool
  firedSelection : Option BoxSelection
  standdownEmitted : Bool
  skipped : Bool
  skippedSelection : Option BoxSelection
  rescanEmitted : Bool
  rescanSelection : Option BoxSelection
  /-- The selection of the latest tops; nothing until the fifteen minute market is quoted. -/
  view : Option (Except NoBox BoxSelection)

/-- A new window. -/
def BoxState.new (T : ℤ) (anchorA : ℚ) (m15Ticker : String) (strikes : Dict String ℚ)
    (shakedown : Bool) : BoxState :=
  ⟨T, anchorA, m15Ticker, strikes, .empty, .empty, shakedown, false, none, false, false, none,
    false, none, none⟩

/-- The kinds of the decisions of the box. -/
inductive BoxKind where
  | fire
  | wouldFire
  | boxSkip
  | boxRescanWouldFire
  | standDown
  deriving DecidableEq

/-- Why the box decides something else than to fire. -/
inductive BoxReason where
  /-- `within no-orders-to-settle cutoff`. -/
  | settleCutoff (tMinus : ℚ) (cutoff : ℤ)
  /-- `implied-pin floor`. -/
  | pinFloor (impliedPin floor : ℚ)
  /-- `rescan re-qualified`. -/
  | rescanRequalified (impliedPin floor : ℚ)
  deriving DecidableEq

/-- One leg of a decision. -/
structure LegOrder where
  ticker : String
  side : Side
  count : ℕ
  limitPrice : ℚ
  deriving DecidableEq

/-- A decision. -/
structure BoxAction where
  kind : BoxKind
  legs : List LegOrder := []
  count : ℕ := 0
  C : Option ℚ := none
  tMinusS : ℚ
  reason : Option BoxReason := none
  deriving DecidableEq

/-- What a decision returns. -/
abbrev Decided := BoxState × List BoxAction

/-- A leg is known, not suspect and fresh. -/
def legFresh (p : BoxParams) (st : BoxState) (ticker : String) (now : ℚ) : Bool :=
  match st.tops.get? ticker, st.ts.get? ticker with
  | some top, some lastTs =>
    !top.suspect && 0 ≤ now - lastTs && now - lastTs ≤ p.freshnessMaxLegAgeS
  | _, _ => false

/-- The strikes with a top. -/
def ladder (st : BoxState) : List (String × ℚ × TopOfBook) :=
  st.strikes.entries.filterMap fun e => (st.tops.get? e.1).map fun top => (e.1, e.2, top)

/-- The selection of the tops of a state. -/
def viewOf (p : BoxParams) (st : BoxState) : Option (Except NoBox BoxSelection) :=
  (st.tops.get? st.m15Ticker).map fun m15Top =>
    selectBox p st.anchorA st.m15Ticker m15Top (ladder st)

/-- The market is the fifteen minute market or a strike of the ladder. -/
def subscribed (st : BoxState) (market : String) : Bool :=
  market = st.m15Ticker ∨ st.strikes.contains market

/-- Fold a top into the state and select anew. -/
def foldTop (p : BoxParams) (st : BoxState) (market : String) (top : TopOfBook) (now : ℚ) :
    BoxState :=
  let st := { st with tops := st.tops.set market top, ts := st.ts.set market now }
  { st with view := viewOf p st }

/-- The box of the view. -/
def viewed (st : BoxState) : Option BoxSelection :=
  match st.view with
  | some (.ok sel) => some sel
  | _ => none

/-- Both legs of a box are fresh. -/
def legsFresh (p : BoxParams) (st : BoxState) (sel : BoxSelection) (now : ℚ) : Bool :=
  legFresh p st sel.m15Ticker now && legFresh p st sel.hourlyTicker now

/-- The legs of a box. -/
def boxLegs (p : BoxParams) (sel : BoxSelection) : List LegOrder :=
  [⟨sel.hourlyTicker, sel.hourlySide, p.contracts, sel.hourlyLimit⟩,
    ⟨sel.m15Ticker, sel.m15Side, p.contracts, sel.m15Limit⟩]

/-- A decision on a box. -/
def boxAction (p : BoxParams) (kind : BoxKind) (sel : BoxSelection) (tMinus : ℚ)
    (reason : Option BoxReason) : BoxAction :=
  ⟨kind, boxLegs p sel, p.contracts, some sel.C, tMinus, reason⟩

/-- Inside the entry window. -/
def inEntry (p : BoxParams) (tMinus : ℚ) : Prop :=
  (p.entryEndS : ℚ) ≤ tMinus ∧ tMinus ≤ p.entryStartS

instance (p : BoxParams) (tMinus : ℚ) : Decidable (inEntry p tMinus) :=
  inferInstanceAs (Decidable (_ ∧ _))

/-- After a skip the first box at the floor is noted once, without an order. -/
def rescan (p : BoxParams) (st : BoxState) (now : ℚ) : Decided :=
  let tMinus := st.T - now
  if ¬inEntry p tMinus then (st, [])
  else
    match viewed st with
    | none => (st, [])
    | some sel =>
      if sel.impliedPin < p.minImpliedPin then (st, [])
      else if !legsFresh p st sel now then (st, [])
      else
        ({ st with rescanEmitted := true, rescanSelection := some sel },
          [boxAction p .boxRescanWouldFire sel tMinus
            (some (.rescanRequalified sel.impliedPin p.minImpliedPin))])

/-- The first fresh box in the entry window is fired, or skipped under the floor. -/
def enter (p : BoxParams) (st : BoxState) (now : ℚ) : Decided :=
  let tMinus := st.T - now
  if ¬inEntry p tMinus then (st, [])
  else
    match viewed st with
    | none => (st, [])
    | some sel =>
      if !legsFresh p st sel now then (st, [])
      else if sel.impliedPin < p.minImpliedPin then
        ({ st with entered := true, skipped := true, skippedSelection := some sel },
          [boxAction p .boxSkip sel tMinus (some (.pinFloor sel.impliedPin p.minImpliedPin))])
      else
        ({ st with entered := true, firedSelection := some sel },
          [boxAction p (if st.shakedown then .wouldFire else .fire) sel tMinus none])

/-- The decision on the folded state. -/
def decideFolded (p : BoxParams) (st : BoxState) (now : ℚ) : Decided :=
  let tMinus := st.T - now
  if st.skipped ∧ ¬st.rescanEmitted then rescan p st now
  else if st.entered then (st, [])
  else if tMinus < p.noOrdersAfterSToSettle then
    if st.standdownEmitted then (st, [])
    else
      ({ st with standdownEmitted := true },
        [{ kind := .standDown, tMinusS := tMinus,
           reason := some (.settleCutoff tMinus p.noOrdersAfterSToSettle) }])
  else enter p st now

/-- The decision on one event. A top of a market outside the window decides nothing. -/
def decideBox (p : BoxParams) (st : BoxState) (ev : BoxEvent) : Decided :=
  match ev with
  | .bookUpdate market top now =>
    if subscribed st market then decideFolded p (foldTop p st market top now) now else (st, [])
  | .clockTick now => decideFolded p st now

/-- The state after a list of events. -/
def afterEvents (p : BoxParams) (st : BoxState) (evs : List BoxEvent) : BoxState :=
  evs.foldl (fun st ev => (decideBox p st ev).1) st

/-- The decisions on a list of events, in order. -/
def decisions (p : BoxParams) : BoxState → List BoxEvent → List BoxAction
  | _, [] => []
  | st, ev :: evs => (decideBox p st ev).2 ++ decisions p (decideBox p st ev).1 evs

end Pilot.Box
