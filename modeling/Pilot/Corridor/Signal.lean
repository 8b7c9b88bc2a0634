import Pilot.Box.Decide
import Pilot.V1.Reconciler

/-!
# The signal of the corridor

The corridor buys a leg on each of two strikes: both insides, when the pair costs less than it
pays at the least, or both outsides, when the curve of the quintile says they are worth more. The
first pair that qualifies on fresh books is decided on, once in a window.
-/

namespace Pilot.Corridor

open V1 (ImbalanceBounds Source)
open Box (LegOrder legCost)

/-- The roster of the corridor. -/
structure PolicyParams where
  subDollarCMax : ℚ
  q1StrangleEvMin : ℚ
  freshnessMaxLegAgeS : ℚ
  /-- The sources of each quintile. -/
  quintileRouting : Dict ℕ (List Source)
  imbalance : ImbalanceBounds

/-- The sources of a quintile: none for one that is not routed. -/
def PolicyParams.sourcesForQuintile (p : PolicyParams) (quintile : ℕ) : List Source :=
  p.quintileRouting.getD quintile []

/-- What the signal consumes. -/
inductive Event where
  | bookUpdate (market : String) (top : TopOfBook) (serverTs : ℚ)
  | clockTick (serverTs : ℚ)

/-- The time of an event. -/
def Event.serverTs : Event → ℚ
  | .bookUpdate _ _ ts => ts
  | .clockTick ts => ts

/-- The kinds of the decisions. -/
inductive ActionKind where
  | wouldFire
  | fire
  | standDown
  deriving DecidableEq

/-- A decision; the reason of a stand down is the settle cutoff. -/
structure Action where
  kind : ActionKind
  source : Option Source := none
  legs : List LegOrder := []
  count : ℕ := 0
  C : Option ℚ := none
  ev : Option ℚ := none
  tMinusS : ℚ
  deriving DecidableEq

/-- The state of one window. -/
structure WindowState where
  closeTime : String
  /-- The settlement. -/
  T : ℤ
  highTicker : String
  lowTicker : String
  quintile : ℕ
  /-- The worth of the outsides in the quintile. -/
  fairStrangleQ : ℚ
  strangleDisabled : Bool
  shakedown : Bool
  highTop : Option TopOfBook := none
  lowTop : Option TopOfBook := none
  highTs : Option ℚ := none
  lowTs : Option ℚ := none
  entered : Bool := false
  firedSource : Option Source := none
  standdownEmitted : Bool := false

/-- The final seconds in which the corridor enters. -/
def windowS : ℚ := 900

/-- The cost of a pair bought at two asks, if both are quoted. -/
def pairCost (a b : Option ℚ) : Option ℚ :=
  a.bind fun a => b.map fun b => legCost a + legCost b

/-- The cost of both insides. -/
def flipCost (highTop lowTop : TopOfBook) : Option ℚ := pairCost highTop.noAsk lowTop.yesAsk

/-- The cost of both outsides. -/
def strangleCost (highTop lowTop : TopOfBook) : Option ℚ := pairCost highTop.yesAsk lowTop.noAsk

/-- The age of a leg: unknown before its first update and for an update from the future. -/
def legAge (now : ℚ) (lastTs : Option ℚ) : Option ℚ :=
  (lastTs.map fun ts => now - ts).filter fun age => 0 ≤ age

/-- The tops of two legs that are known, not suspect and fresh. -/
def bothFresh (st : WindowState) (now : ℚ) (p : PolicyParams) : Option (TopOfBook × TopOfBook) :=
  match st.highTop, st.lowTop, legAge now st.highTs, legAge now st.lowTs with
  | some ht, some lt, some ha, some la =>
    if ht.suspect ∨ lt.suspect then none
    else if ha ≤ p.freshnessMaxLegAgeS ∧ la ≤ p.freshnessMaxLegAgeS then some (ht, lt)
    else none
  | _, _, _, _ => none

/-- A pair that may be bought. -/
structure Qualifier where
  source : Source
  C : ℚ
  ev : Option ℚ
  legs : List LegOrder

/-- One lot of each side of two strikes, at their asks. -/
def pairLegs (st : WindowState) (highSide lowSide : Side) (highAsk lowAsk : Option ℚ) :
    List LegOrder :=
  [⟨st.highTicker, highSide, 1, highAsk.getD 0⟩, ⟨st.lowTicker, lowSide, 1, lowAsk.getD 0⟩]

/-- Both insides, below their ceiling. -/
def flipQualifier (p : PolicyParams) (st : WindowState) (ht lt : TopOfBook) : Option Qualifier :=
  if .subDollarFlip ∈ p.sourcesForQuintile st.quintile then
    (flipCost ht lt).bind fun C =>
      if C < p.subDollarCMax then
        some ⟨.subDollarFlip, C, none, pairLegs st .no .yes ht.noAsk lt.yesAsk⟩
      else none
  else none

/-- Both outsides, of the first quintile and worth enough. -/
def strangleQualifier (p : PolicyParams) (st : WindowState) (ht lt : TopOfBook) :
    Option Qualifier :=
  if .q1Strangle ∈ p.sourcesForQuintile st.quintile ∧ st.quintile = 0 ∧ ¬st.strangleDisabled then
    (strangleCost ht lt).bind fun C =>
      if p.q1StrangleEvMin ≤ st.fairStrangleQ - C then
        some ⟨.q1Strangle, C, some (st.fairStrangleQ - C),
          pairLegs st .yes .no ht.yesAsk lt.noAsk⟩
      else none
  else none

/-- The state with the book an event brings; nothing for another market. -/
def foldEvent (st : WindowState) : Event → Option WindowState
  | .bookUpdate market top now =>
    if market = st.highTicker then some { st with highTop := some top, highTs := some now }
    else if market = st.lowTicker then some { st with lowTop := some top, lowTs := some now }
    else none
  | .clockTick _ => some st

/-- Enter on a pair. -/
def enter (st : WindowState) (tMinus : ℚ) (q : Qualifier) : WindowState × List Action :=
  ({ st with entered := true, firedSource := some q.source },
    [{ kind := if st.shakedown then .wouldFire else .fire
       source := some q.source
       legs := q.legs
       count := 1
       C := some q.C
       ev := q.ev
       tMinusS := tMinus }])

/-- Stand down inside the settle cutoff, and say so once. -/
def standDown (st : WindowState) (tMinus : ℚ) : WindowState × List Action :=
  if st.standdownEmitted then (st, [])
  else ({ st with standdownEmitted := true }, [{ kind := .standDown, tMinusS := tMinus }])

/-- The pair that qualifies on fresh books: the insides come first. -/
def qualifier (p : PolicyParams) (st : WindowState) (now : ℚ) : Option Qualifier :=
  (bothFresh st now p).bind fun tops =>
    (flipQualifier p st tops.1 tops.2).or (strangleQualifier p st tops.1 tops.2)

/-- Decide on a state that carries the book of the event. -/
def decideFolded (p : PolicyParams) (st : WindowState) (now : ℚ) : WindowState × List Action :=
  let tMinus := st.T - now
  if st.entered then (st, [])
  else if tMinus < p.imbalance.noOrdersAfterSToSettle then standDown st tMinus
  else if windowS < tMinus then (st, [])
  else
    match qualifier p st now with
    | none => (st, [])
    | some q => enter st tMinus q

/-- Decide on an event. -/
def decide (p : PolicyParams) (st : WindowState) (ev : Event) : WindowState × List Action :=
  match foldEvent st ev with
  | none => (st, [])
  | some st => decideFolded p st ev.serverTs

end Pilot.Corridor
