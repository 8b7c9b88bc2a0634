import Pilot.Lib.Transitions
import Pilot.V32.Executor

/-!
# The driver

The driver decides one event at a time and routes each action before the next event; what
the executor reports joins the queue. Outside events wait until the queue is drained,
while the venue fills and drops orders at any moment.
-/

namespace Pilot.V32

open V33 (ActionKind Event Fill)

/-- The driver, its core and executor, and the venue. -/
structure Config where
  st : V32State
  exec : Executor
  venue : Venue
  /-- The events still to decide. -/
  queue : List Event
  /-- The actions still to route. -/
  acts : List V32Action
  /-- The executor's stop is looked at once the actions are routed. -/
  standdownDue : Bool
  /-- The time of the event being handled. -/
  now : ℚ
  seenTradeIds : List String
  lastServerTs : Option ℚ

/-- The fields of a private fill frame. -/
structure FillFrame where
  clientOrderId : Option String
  orderId : Option String
  tradeId : Option String
  /-- The exact count, and the count parsed from the frame. -/
  countFp : ℚ
  count : ℚ

/-- Everything is drained: no event waits and no action. -/
def Config.Idle (c : Config) : Prop := c.queue = [] ∧ c.acts = [] ∧ c.standdownDue = false

instance (c : Config) : Decidable c.Idle :=
  decidable_of_iff (c.queue.isEmpty ∧ c.acts.isEmpty ∧ c.standdownDue = false)
    (by simp [Config.Idle])

/-- The tick clock never goes back. -/
def stamp (c : Config) (ts : ℚ) : Config :=
  { c with lastServerTs := some (match c.lastServerTs with | none => ts | some t => max t ts) }

/-- Decide an event; its actions are routed next. -/
def handle (p : V32Params) (c : Config) (ev : Event) : Config :=
  { c with
    st := (decideV32 p c.st ev).st
    acts := (decideV32 p c.st ev).acts
    standdownDue := true
    now := ev.serverTs }

/-- A book frame is decided on the monotone clock and keeps its own time for the book's age. -/
def onBookUpdate (p : V32Params) (c : Config) (market : String) (top : TopOfBook) (ts : ℚ) :
    Config :=
  let c := stamp c ts
  handle p c (.bookUpdate ⟨market, top, c.lastServerTs.getD ts, some ts⟩)

/-- A clock tick. -/
def onClockTick (p : V32Params) (c : Config) (ts : ℚ) : Config := handle p c (.clockTick ts)

/-- The count of a frame: the exact one, the parsed one, else the placed count. -/
def frameCount (f : FillFrame) (rec : RestRecord) : ℚ :=
  if 0 < f.countFp then f.countFp else if 0 < f.count then f.count else rec.count

/-- The core tracks the order. -/
def tracked (st : V32State) (coid : String) : Bool :=
  st.restLive.any (fun o => o.clientOrderId = coid) ||
    st.restPending.any fun o => o.clientOrderId = coid

/-- Mark an order of the book filled. -/
def markFilled (x : Executor) (coid : String) : Executor :=
  setStatus x (x.restBook.get? coid) fun rec => { rec with status := .filled }

/-- Mark a trade as seen. -/
def see (c : Config) (tradeId : Option String) : Config :=
  { c with seenTradeIds := c.seenTradeIds ++ tradeId.toList }

/-- The fill of an order of the book. -/
def restFillEvent (rec : RestRecord) (oid : Option String) (count ts : ℚ) : Event :=
  .fill ⟨oid, rec.clientOrderId, count, some rec.price, .no, ts, none, none⟩

/-- A private fill frame: a trade counts once, a wing was booked from its reply, a tracked
order is decided as a fill, and any other order of ours is booked late. -/
def onFill (p : V32Params) (c : Config) (f : FillFrame) (ts : ℚ) : Config :=
  if f.tradeId.any fun t => t ∈ c.seenTradeIds then c
  else if f.clientOrderId.any fun coid => coid ∈ c.exec.wingCoids then see c f.tradeId
  else
    match attributeOrder c.exec f.clientOrderId f.orderId with
    | none => c
    | some rec =>
      let count := frameCount f rec
      let c := see (stamp c ts) f.tradeId
      let c := { c with exec := markFilled c.exec rec.clientOrderId }
      if tracked c.st rec.clientOrderId then handle p c (restFillEvent rec rec.orderId count ts)
      else
        let r := bookLateRestFill p c.st rec.price count ts rec.bucketSd
        { c with st := r.st, acts := r.acts, now := ts }

/-- The poll reads the status of the live rest and feeds the lots beyond those booked. -/
def onPollFill (p : V32Params) (c : Config) (ts : ℚ) : Config :=
  match c.st.restLive.bind RestOrder.orderId with
  | none => c
  | some oid =>
    match c.venue.get? oid, attributeOrder c.exec none (some oid) with
    | some o, some rec =>
      let delta := qCount (o.filled - c.st.restBookedByCoid.getD rec.clientOrderId 0)
      if o.filled ≤ 0 ∨ delta ≤ 0 then c
      else
        let c := stamp c ts
        let c := { c with exec := markFilled c.exec rec.clientOrderId }
        let r := decideV32 p c.st (restFillEvent rec (some oid) delta ts)
        { c with st := r.st, acts := r.acts, now := ts }
    | _, _ => c

/-- The executor's stop becomes the core's. -/
def applyExecutorStanddown (c : Config) : Config :=
  { c with
    st := if c.exec.standDownReason.isSome then { c.st with stoodDown := true } else c.st
    standdownDue := false }

/-- Route the next action, or look at the executor's stop when none is left. -/
def perform (c : Config) (w : Weather) : Config :=
  match c.acts with
  | [] => applyExecutorStanddown c
  | a :: rest =>
    let r := onAction c.exec c.venue w c.st a c.now
    { c with exec := r.exec, venue := r.venue, acts := rest, queue := c.queue ++ r.events }

/-- Decide the next event of the queue. -/
def decideNext (p : V32Params) (c : Config) : Config :=
  match c.queue with
  | [] => c
  | ev :: rest => handle p { c with queue := rest } ev

/-- The venue fills lots of a resting order. -/
def venueFill (v : Venue) (oid : String) (lots : ℚ) : Venue :=
  match restingOrder v oid with
  | none => v
  | some o =>
    v.set oid
      { o with
        resting := 0 < o.remaining - lots
        remaining := o.remaining - lots
        filled := o.filled + lots }

/-- What can happen next. -/
inductive Move where
  /-- A book frame of one market. -/
  | book (market : String) (top : TopOfBook) (ts : ℚ)
  /-- A clock tick. -/
  | tick (ts : ℚ)
  /-- A private fill frame, whatever it reports. -/
  | frame (f : FillFrame) (ts : ℚ)
  /-- The order-status poll. -/
  | poll (ts : ℚ)
  /-- The next action is routed. -/
  | perform (w : Weather)
  /-- The next event of the queue is decided. -/
  | decide
  /-- The venue fills a resting order. -/
  | venueFill (oid : String) (lots : ℚ)
  /-- An order leaves the venue's book on its own. -/
  | venueLeave (oid : String)

/-- The configuration after a move. -/
def next (p : V32Params) (c : Config) : Move → Config
  | .book market top ts => onBookUpdate p c market top ts
  | .tick ts => onClockTick p c ts
  | .frame f ts => onFill p c f ts
  | .poll ts => onPollFill p c ts
  | .perform w => perform c w
  | .decide => decideNext p c
  | .venueFill oid lots => { c with venue := venueFill c.venue oid lots }
  | .venueLeave oid => { c with venue := takeOff c.venue oid }

/-! ### Runs -/

/-- The venue carries out the amend of an action: it accepts it and the order still rests. -/
def amendAccepted (c : Config) (w : Weather) (a : V32Action) : Bool :=
  w.accepts && (a.orderId.bind fun oid => restingOrder c.venue oid).isSome

/-- The order of moves and the venue's honesty: outside events wait for the queue, events for
the actions; a create gets a new id, and fills stay on the grid and within the order. -/
def Fair (c : Config) : Move → Prop
  | .book _ _ _ => c.Idle
  | .tick _ => c.Idle
  | .frame _ _ => c.Idle
  | .poll _ => c.Idle
  | .perform w => (∀ a ∈ c.acts.head?, a.kind = .placeRest → c.venue.get? w.orderId = none) ∧
      ∀ a ∈ c.acts.head?, a.kind = .amendRest → amendAccepted c w a →
        OnGrid 100 w.crossed ∧ 0 ≤ w.crossed ∧ w.crossed ≤ amendCount a
  | .decide => c.acts = [] ∧ c.standdownDue = false
  | .venueFill oid lots => ∀ o ∈ restingOrder c.venue oid,
      OnGrid 100 lots ∧ 0 < lots ∧ lots ≤ o.remaining
  | .venueLeave _ => True

instance Fair.decidable (c : Config) : ∀ m, Decidable (Fair c m)
  | .book _ _ _ => inferInstanceAs (Decidable c.Idle)
  | .tick _ => inferInstanceAs (Decidable c.Idle)
  | .frame _ _ => inferInstanceAs (Decidable c.Idle)
  | .poll _ => inferInstanceAs (Decidable c.Idle)
  | .perform w => inferInstanceAs (Decidable
      ((∀ a ∈ c.acts.head?, a.kind = .placeRest → c.venue.get? w.orderId = none) ∧
        ∀ a ∈ c.acts.head?, a.kind = .amendRest → amendAccepted c w a →
          OnGrid 100 w.crossed ∧ 0 ≤ w.crossed ∧ w.crossed ≤ amendCount a))
  | .decide => inferInstanceAs (Decidable (c.acts = [] ∧ c.standdownDue = false))
  | .venueFill oid lots => inferInstanceAs (Decidable (∀ o ∈ restingOrder c.venue oid,
      OnGrid 100 lots ∧ 0 < lots ∧ lots ≤ o.remaining))
  | .venueLeave _ => inferInstanceAs (Decidable True)

/-- The lots filled at the venue that the core has not booked. -/
def unbookedLots (p : V32Params) (c : Config) : ℚ :=
  filledLots c.venue - (p.contracts - restSize p c.st)

/-- An amend the venue carries out finds no more unbooked lots than the part of the remainder it
leaves off the wire. -/
def AmendsBooked (p : V32Params) (c : Config) : Move → Prop
  | .perform w => ∀ a ∈ c.acts.head?, a.kind = .amendRest → amendAccepted c w a →
      unbookedLots p c ≤ restSize p c.st - restPlaceCount p c.st
  | _ => True

instance AmendsBooked.decidable (p : V32Params) (c : Config) : ∀ m, Decidable (AmendsBooked p c m)
  | .perform w => inferInstanceAs (Decidable
      (∀ a ∈ c.acts.head?, a.kind = .amendRest → amendAccepted c w a →
        unbookedLots p c ≤ restSize p c.st - restPlaceCount p c.st))
  | .book _ _ _ => .isTrue trivial
  | .tick _ => .isTrue trivial
  | .frame _ _ => .isTrue trivial
  | .poll _ => .isTrue trivial
  | .decide => .isTrue trivial
  | .venueFill _ _ => .isTrue trivial
  | .venueLeave _ => .isTrue trivial

/-- The start of an armed window. -/
def Config.start (closeTime : String) (closeEpoch : ℤ) (bucketMap : Dict String (ℚ × ℚ))
    (strikeFloorMap exchByTicker : Dict String ℤ) : Config where
  st := V32State.new closeTime closeEpoch bucketMap false strikeFloorMap
  exec := ⟨bucketMap, exchByTicker, Dict.empty, Dict.empty, [], 0, none, none⟩
  venue := Dict.empty
  queue := []
  acts := []
  standdownDue := false
  now := 0
  seenTradeIds := []
  lastServerTs := none

/-- A configuration at the start of an armed window. -/
def IsStart (c : Config) : Prop :=
  ∃ closeTime closeEpoch bucketMap strikeFloorMap exchByTicker,
    c = Config.start closeTime closeEpoch bucketMap strikeFloorMap exchByTicker

/-- A run from the start of an armed window, of fair moves that meet a condition. -/
def Reached (p : V32Params) (ok : Config → Move → Prop) (ms : List Move) (c : Config) : Prop :=
  ∃ start, IsStart start ∧ Fed (next p) (fun c m => Fair c m ∧ ok c m) start ms c

/-! ### A small window -/

/-- Two lots on buckets of a hundred dollars without debounce. -/
def samplePolicy : V32Params where
  E := 5 / 100
  tol := 1 / 100
  debMs := 0
  quoteStartS := 3000
  quoteEndS := 60
  contracts := 2
  wingMargin := 2 / 100
  lockFloor := 0
  noOrdersAfterSToSettle := 30
  freshnessMaxAgeS := 1
  bucketFreshnessMaxAgeS := 100
  nMin := 1 / 100
  replaceRateAlarmPerMin := 100
  bucketWidth := 100

/-- An armed window with the buckets at 100 and 200 and the strikes at 100, 200 and 300. -/
def sampleStart : Config :=
  Config.start "" 3600 (Dict.ofList [("B100", (100, 200)), ("B200", (200, 300))])
    (Dict.ofList [("S100", 100), ("S200", 200), ("S300", 300)])
    (Dict.ofList [("B100", 0), ("B200", 0), ("S100", 0), ("S200", 0), ("S300", 0)])

/-- The run of a list of admissible moves from the sample start. -/
theorem reached_sample {p : V32Params} {ok : Config → Move → Prop} {ms : List Move}
    (h : AllAlong (next p) (fun c m => Fair c m ∧ ok c m) sampleStart ms) :
    Reached p ok ms (ms.foldl (next p) sampleStart) :=
  ⟨sampleStart, ⟨_, _, _, _, _, rfl⟩, fed_of_allAlong h⟩

/-- A book with its YES quotes in cents; the NO quotes are their complements. -/
def centTop (yesBid yesAsk : ℕ) : TopOfBook :=
  ⟨some (yesBid / 100), some (yesAsk / 100), some (1 - yesAsk / 100), some (1 - yesBid / 100),
    false⟩

/-- Every call succeeds: a create gets the id, an amend crosses nothing, a wing fills one lot. -/
def calm (orderId : String) : Weather :=
  ⟨orderId, true, 0, none, fun _ => true, fun _ => some (1, none)⟩

/-- The books of the sample window: an order for two lots at 59 cents rests on the first
bucket, acknowledged. -/
def sampleOpening : List Move :=
  [.book "B100" (centTop 40 42) 1000, .perform (calm "v1"), .perform (calm "v1"),
    .book "S200" (centTop 50 52) 1000, .perform (calm "v1"),
    .book "S100" (centTop 68 70) 1000, .perform (calm "v1"), .perform (calm "v1"),
    .decide, .perform (calm "v1")]

end Pilot.V32
