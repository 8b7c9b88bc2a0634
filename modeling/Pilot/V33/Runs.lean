import Pilot.V33.ClientOrderIds

/-!
# Runs of the core

A run feeds events to the decision from the start of a window. Concrete runs use a
small window with two buckets and three strikes.
-/

namespace Pilot.V33

/-- The state after an event. -/
def next (p : V33Params) (st : V33State) (ev : Event) : V33State := (decideV33 p st ev).st

/-- The state after a list of events. -/
def after (p : V33Params) (st : V33State) (evs : List Event) : V33State := evs.foldl (next p) st

/-- A state at the start of a window: one that `V33State.new` builds. -/
def IsNew (p : V33Params) (st : V33State) : Prop :=
  ∃ closeTime closeEpoch bucketMap shakedown strikeFloorMap coidPrefix,
    st = V33State.new closeTime closeEpoch bucketMap p shakedown strikeFloorMap coidPrefix

/-- A run from the start of a window whose events are all admissible. -/
def Reached (p : V33Params) (ok : V33State → Event → Prop) (evs : List Event) (st : V33State) :
    Prop :=
  ∃ start, IsNew p start ∧ Fed (next p) ok start evs st

/-- What a new window satisfies and every admissible event keeps holds of every state
reached. -/
theorem Reached.preserves {p : V33Params} {ok : V33State → Event → Prop} {I : V33State → Prop}
    (hnew : ∀ st, IsNew p st → I st)
    (hstep : ∀ st ev, I st → ok st ev → I (next p st ev)) {evs : List Event} {st : V33State}
    (h : Reached p ok evs st) : I st := by
  obtain ⟨start, hstart, hrun⟩ := h
  exact hrun.preserves hstep (hnew start hstart)

/-- A run with an observer that reads each event with `e` and then the actions of its decision
with `f`. -/
def nextWatched {γ : Type} (p : V33Params) (e : γ → Event → γ) (f : γ → V33Action → γ)
    (w : V33State × γ) (ev : Event) : V33State × γ :=
  (next p w.1 ev, (decideV33 p w.1 ev).acts.foldl f (e w.2 ev))

/-- A watched run from the start of a window whose events are all admissible. -/
def Watched {γ : Type} (p : V33Params) (e : γ → Event → γ) (f : γ → V33Action → γ) (g : γ)
    (ok : V33State × γ → Event → Prop) (evs : List Event) (w : V33State × γ) : Prop :=
  ∃ start, IsNew p start ∧ Fed (nextWatched p e f) ok (start, g) evs w

/-- What a new window satisfies with the observer's first state, and every admissible event
keeps, holds of every state reached. -/
theorem Watched.preserves {γ : Type} {p : V33Params} {e : γ → Event → γ}
    {f : γ → V33Action → γ} {g : γ} {ok : V33State × γ → Event → Prop} {I : V33State → γ → Prop}
    (hnew : ∀ st, IsNew p st → I st g)
    (hstep : ∀ st u ev, I st u → ok (st, u) ev →
      I (next p st ev) ((decideV33 p st ev).acts.foldl f (e u ev)))
    {evs : List Event} {w : V33State × γ} (h : Watched p e f g ok evs w) : I w.1 w.2 := by
  obtain ⟨start, hstart, hrun⟩ := h
  exact hrun.preserves (I := fun w => I w.1 w.2) (fun w ev hw hok => hstep w.1 w.2 ev hw hok)
    (hnew start hstart)

theorem CoidsOk.new {p : V33Params} {st : V33State} (h : IsNew p st) : CoidsOk st := by
  obtain ⟨_, _, _, _, _, _, rfl⟩ := h
  exact ⟨List.nodup_nil, by simp [V33State.new], by simp [V33State.new], by simp [V33State.new],
    List.nodup_nil, List.nodup_nil⟩

/-! ### A small window -/

/-- Two rungs of one lot without debounce. -/
def samplePolicy : V33Params where
  eMin := 5 / 100
  rungs := 2
  rungLots := [1, 1]
  debMs := 0
  quoteStartS := 3000
  quoteEndS := 60
  wingMargin := 2 / 100
  lockFloor := 0
  noOrdersAfterSToSettle := 30
  freshnessMaxAgeS := 1
  bucketFreshnessMaxAgeS := 100
  wingCoalesceMs := 500
  maxAmendsInFlight := 2
  maxSetsPerHour := 100
  nMin := 1 / 100
  replaceRateAlarmPerMin := 100
  bucketWidth := 100
  bucketSwitchDebMs := 0
  bucketSwitchHysteresisUsd := 0
  bucketSwitchMaxPendingMs := 0
  standDownHoldMs := 0
  strikeFeedDeadS := 100
  wingBookMaxAgeS := 100
  printThrough := true
  printThroughTicks := 2
  printThroughSlackC := 2
  printThroughStallMs := 1000
  printThroughMinLockC := 0
  printThroughPolicy := .completeElseUnwind
  shadowEs := []
  rungs_pos := by decide
  rungLots_length := by decide
  maxAmendsInFlight_pos := by decide
  maxPending_ge_deb := by decide

/-- A window under a policy with the buckets at 100 and 200 and the strikes at 100, 200
and 300. -/
def sampleWindow (p : V33Params) : V33State :=
  V33State.new "" 3600 (Dict.ofList [("B100", (100, 200)), ("B200", (200, 300))]) p false
    (Dict.ofList [("S100", 100), ("S200", 200), ("S300", 300)]) "c"

theorem isNew_sampleWindow (p : V33Params) : IsNew p (sampleWindow p) :=
  ⟨_, _, _, _, _, _, rfl⟩

/-- The run of a list of admissible events in the sample window. -/
theorem reached_sample {p : V33Params} {ok : V33State → Event → Prop} {evs : List Event}
    (h : AllAlong (next p) ok (sampleWindow p) evs) :
    Reached p ok evs (after p (sampleWindow p) evs) :=
  ⟨sampleWindow p, isNew_sampleWindow p, fed_of_allAlong h⟩

/-- The watched run of a list of admissible events in the sample window. -/
theorem watched_sample {γ : Type} {p : V33Params} {e : γ → Event → γ} {f : γ → V33Action → γ}
    {g : γ} {ok : V33State × γ → Event → Prop} {evs : List Event}
    (h : AllAlong (nextWatched p e f) ok (sampleWindow p, g) evs) :
    Watched p e f g ok evs (evs.foldl (nextWatched p e f) (sampleWindow p, g)) :=
  ⟨sampleWindow p, isNew_sampleWindow p, fed_of_allAlong h⟩

/-- A book with its YES quotes in cents; the NO quotes are their complements. -/
def centBook (ticker : String) (yesBid yesAsk : ℕ) (ts : ℚ) : Event :=
  .bookUpdate ⟨ticker, ⟨some (yesBid / 100), some (yesAsk / 100), some (1 - yesAsk / 100),
    some (1 - yesBid / 100), false⟩, ts, none⟩

/-- The books of the sample window: a ladder at 59 and 58 cents rests on the first bucket,
acknowledged. -/
def sampleOpening : List Event :=
  [centBook "B100" 40 42 1000, centBook "S200" 50 52 1000, centBook "S300" 20 52 1000,
    centBook "S100" 68 70 1000, .orderAck ⟨"c-1", "v1", 1001⟩, .orderAck ⟨"c-2", "v2", 1001⟩]

end Pilot.V33
