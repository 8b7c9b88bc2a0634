import Pilot.Corridor.Stops

/-!
# An armed window of the corridor

A frame of the books may fire. The entry is sent and recorded, then it is checked: a pair below its
floor stops the window, two legs that differ are brought together or stop it, and the positions are
compared with the venue's. Every few seconds another thread asks the venue for the positions; a
reply to a question asked before the ledger changed says nothing.
-/

namespace Pilot.Corridor

open Box (EntryMoment buildFlattenIntent harnessExecute)
open V1 (ExecResult Executor Intent Json LedgerState LoopSetting OrderResponse PostOutcome
  Recordable Source Turn Which maybeRebalance newLedger recordIntent recordResponse)

/-- What stays as it is over a window. -/
structure CorridorWindow where
  closeTime : String
  policy : PolicyParams
  stopConfig : StopConfig
  /-- The lots of each leg of an entry. -/
  pairs : ℕ
  /-- The shard of a market. -/
  exchangeIndex : String → Option ℤ

/-- A stop that tripped, with the ledger it was given and the deeds done before it. -/
structure Trip where
  kind : StopKind
  ledger : LedgerState
  deeds : ℕ
  /-- The stop was written to the guard of the day. -/
  guarded : Bool

/-- The service of one window. -/
structure WindowService where
  signal : WindowState
  stops : StopState
  executor : Executor
  /-- An executor once frozen is not armed again. -/
  armLocked : Bool
  ledger : Option LedgerState
  /-- How often the ledger was replaced. -/
  revision : ℕ
  /-- The ledger of a question about the positions, with its revision. -/
  polling : Option (LedgerState × ℕ)
  /-- The stops written to the guard of the day, with their windows. -/
  latched : List (StopKind × String)
  trips : List Trip

/-- A service before its first frame. -/
def WindowService.new (signal : WindowState) (executor : Executor) : WindowService :=
  ⟨signal, {}, executor, false, none, 0, none, [], []⟩

/-- What a stop meets: whether the guard of the day can be written, the tops of the legs, and a
fresh client order id and what comes of a post for the sale of each leg. -/
structure StopMoment where
  guardWritten : Bool
  tops : Which → Option TopOfBook
  clientOrderId : Which → String
  outcome : Which → PostOutcome

/-- What the checks of an entry meet: the turns of the rebalance, the positions at the venue (none
when the question fails), and what a stop meets. -/
structure CheckMoment where
  turns : ℕ → Turn
  positions : Option Json
  stop : StopMoment

/-! ### The stop controller -/

/-- Arm or freeze the executor; what was frozen once stays frozen. -/
def setArmed (w : WindowService) (value : Bool) : WindowService :=
  if value ∧ w.armLocked then w
  else
    { w with
      armLocked := w.armLocked || !value
      executor := { w.executor with armed := value } }

/-- Raise an alarm. -/
def raiseAlarm (w : WindowService) (note : Notification) : WindowService :=
  { w with stops := applyAlarm w.stops note }

/-- Replace the ledger. -/
def setLedger (w : WindowService) (s : LedgerState) : WindowService :=
  { w with ledger := some s, revision := w.revision + 1 }

/-- Fold responses into a ledger, up to one that cannot be recorded. -/
def recordResponses : LedgerState → List OrderResponse → LedgerState × Bool
  | s, [] => (s, true)
  | s, r :: rs => if Recordable r then recordResponses (recordResponse s r) rs else (s, false)

/-- Fold a sale and its responses into the ledger of the service. -/
def foldFlattenResponse (w : WindowService) (intent : Intent) (result : ExecResult) :
    WindowService :=
  match w.ledger with
  | none => w
  | some s => setLedger w (recordResponses (recordIntent s intent) result.responses).1

/-- The bid of the outcome held. -/
def heldBid (top : Option TopOfBook) (side : Option Side) : Option ℚ :=
  top.bind fun t => side.bind fun side =>
    match side with
    | .yes => t.yesBid
    | .no => t.noBid

/-- Enter the bid of a leg. -/
def addBid (s : LedgerState) (m : StopMoment) (out : Dict String ℚ) (which : Which) :
    Dict String ℚ :=
  match heldBid (m.tops which) (s.side which) with
  | none => out
  | some bid => out.set (s.ticker which) bid

/-- The bids of the two legs. -/
def bids (s : LedgerState) (m : StopMoment) : Dict String ℚ :=
  [Which.high, Which.low].foldl (addBid s m) .empty

/-- The order of an action. -/
def flattenOrder (g : CorridorWindow) (s : LedgerState) (m : StopMoment) (act : PositionAction)
    (bid : ℚ) : Intent :=
  buildFlattenIntent act.ticker act.side act.count s.window s.source bid
    (m.clientOrderId act.which) (g.exchangeIndex act.ticker)

/-- Carry out an action: a sale without a bid is an alarm. False when an exception leaves the
stop. -/
def dispatchAction (g : CorridorWindow) (s : LedgerState) (m : StopMoment) (w : WindowService)
    (act : PositionAction) : WindowService × Bool :=
  match act.kind with
  | .hold => (w, true)
  | .flatten =>
    match (bids s m).get? act.ticker with
    | none => (raiseAlarm w (.flattenNoBid act.ticker act.count), true)
    | some bid =>
      let intent := flattenOrder g s m act bid
      let done := harnessExecute w.executor intent none true (m.outcome act.which)
      let w' := { w with executor := done.1 }
      match done.2 with
      | none => (w', false)
      | some result => (foldFlattenResponse w' intent result, true)

/-- Carry out the actions in order. -/
def dispatchActions (g : CorridorWindow) (s : LedgerState) (m : StopMoment) :
    WindowService → List PositionAction → WindowService
  | w, [] => w
  | w, act :: acts =>
    let done := dispatchAction g s m w act
    if done.2 then dispatchActions g s m done.1 acts else done.1

/-- Write a stop to the guard of the day: a guard that cannot be written stays as it is. -/
def persistLatch (latched : List (StopKind × String)) (stop : StopKind) (window : String)
    (written : Bool) : List (StopKind × String) :=
  if written then latched ++ [(stop, window)] else latched

/-- Latch a stop, freeze the executor and write the stop to the guard of the day. -/
def freeze (w : WindowService) (stop : StopKind) (reason : StopReason) (s : LedgerState)
    (written : Bool) : WindowService :=
  let stopped := setArmed { w with stops := applyStop w.stops stop reason } false
  { stopped with
    latched := persistLatch stopped.latched stop s.window written
    trips := stopped.trips ++ [⟨stop, s, w.executor.deeds.length, written⟩] }

/-- Trip a stop and carry out the position policy. -/
def trip (g : CorridorWindow) (w : WindowService) (stop : StopKind) (reason : StopReason)
    (s : LedgerState) (m : StopMoment) : WindowService :=
  dispatchActions g s m (freeze w stop reason s m.guardWritten) (positionPolicy s g.stopConfig)

/-! ### The positions -/

/-- The orders of a ledger without a response. -/
def inflightCids (s : LedgerState) : List String :=
  s.cidToLeg.keys.filter fun cid =>
    ¬s.responses.any fun r => r.clientOrderId.name? = some cid

/-- Compare the positions of a ledger with those of a reply. -/
def reconcile (g : CorridorWindow) (w : WindowService) (s : LedgerState) (body : Json)
    (m : StopMoment) : WindowService :=
  let mismatches := diffPositions (expectedPositions s) (parsePositionsResponse body)
  if mismatches = [] then w else trip g w .recon (.mismatch mismatches) s m

/-- The ledger to ask about: none once stopped, before an entry, and with an order in flight. -/
def pollable (w : WindowService) : Option LedgerState :=
  if w.stops.tripped = [] then w.ledger.filter fun s => inflightCids s = [] else none

/-- Ask for the positions and compare them. -/
def s3PollOnce (g : CorridorWindow) (w : WindowService) (positions : Option Json)
    (m : StopMoment) : WindowService :=
  match pollable w, positions with
  | some s, some body => reconcile g w s body m
  | _, _ => w

/-- The other thread asks. -/
def pollStart (w : WindowService) : WindowService :=
  if w.polling.isSome then w
  else { w with polling := (pollable w).map fun s => (s, w.revision) }

/-- The other thread has a reply, or none; it compares only the ledger that is still there. -/
def pollEnd (g : CorridorWindow) (w : WindowService) (positions : Option Json) (m : StopMoment) :
    WindowService :=
  let w' := { w with polling := none }
  match w.polling, positions with
  | some (s, revision), some body =>
    if revision = w.revision then reconcile g w' s body m else w'
  | _, _ => w'

/-! ### The entry -/

/-- What the turns of a rebalance share. -/
def loopSetting (g : CorridorWindow) (tMinusS : ℚ) : LoopSetting :=
  ⟨g.policy.imbalance, tMinusS, g.exchangeIndex⟩

/-- The rebalance has ended: an imbalance that cannot be restored stops the window, an exception
leaves the checks, else the positions are compared. -/
def afterRebalance (g : CorridorWindow) (w : WindowService) (r : V1.Rebalance) (c : CheckMoment) :
    WindowService :=
  let w' := { setLedger w r.ledger with executor := r.executor }
  match r.ended with
  | some .raised => w'
  | some .stopped => trip g w' .imbalance .unrestorable r.ledger c.stop
  | _ => s3PollOnce g w' c.positions c.stop

/-- The checks of an entry. -/
def postEntryChecks (g : CorridorWindow) (w : WindowService) (s : LedgerState) (intent : Intent)
    (responses : List OrderResponse) (tMinusS : ℚ) (c : CheckMoment) : WindowService :=
  let alarmed := (checkSlippageAlarms intent responses g.stopConfig).foldl raiseAlarm w
  match checkS1 s with
  | some reason => trip g alarmed .arith reason s c.stop
  | none =>
    afterRebalance g alarmed (maybeRebalance (loopSetting g tMinusS) s alarmed.executor c.turns) c

/-- The order of a decision to fire. -/
def entryIntent (g : CorridorWindow) (source : Source) (action : Action) (e : EntryMoment) :
    Intent where
  window := g.closeTime
  source := source
  purpose := .entry
  legs := action.legs.mapIdx fun i leg =>
    { ticker := leg.ticker, side := leg.side, action := .buy, count := leg.count * g.pairs,
      limitPrice := leg.limitPrice, clientOrderId := e.clientOrderId i,
      exchangeIndex := g.exchangeIndex leg.ticker }
  tMinusS := some action.tMinusS

/-- Send an entry, record it and check it. -/
def sendEntry (g : CorridorWindow) (w : WindowService) (source : Source) (action : Action)
    (e : EntryMoment) (c : CheckMoment) : WindowService :=
  let intent := entryIntent g source action e
  let ledger := recordIntent
    (newLedger g.closeTime source w.signal.highTicker w.signal.lowTicker) intent
  let done := harnessExecute w.executor intent (some action.tMinusS) false e.outcome
  let w' := { setLedger w ledger with executor := done.1 }
  match done.2 with
  | none => w'
  | some result =>
    let folded := recordResponses ledger result.responses
    if folded.2 then
      postEntryChecks g (setLedger w' folded.1) folded.1 intent result.responses action.tMinusS c
    else setLedger w' folded.1

/-- Act on a decision: a fire names its source. -/
def onSignalAction (g : CorridorWindow) (w : WindowService) (action : Action) (e : EntryMoment)
    (c : CheckMoment) : WindowService :=
  match action.kind, action.source with
  | .fire, some source => sendEntry g w source action e c
  | _, _ => w

/-! ### The run -/

/-- What a window meets. -/
inductive WindowEvent where
  | frame (market : String) (top : TopOfBook) (serverTs : ℚ) (e : EntryMoment) (c : CheckMoment)
  | pollStart
  | pollEnd (positions : Option Json) (m : StopMoment)
  | setArmed (value : Bool)

/-- The service after an event. -/
def windowStep (g : CorridorWindow) (w : WindowService) : WindowEvent → WindowService
  | .frame market top serverTs e c =>
    let done := decide g.policy w.signal (.bookUpdate market top serverTs)
    done.2.foldl (fun w action => onSignalAction g w action e c) { w with signal := done.1 }
  | .pollStart => pollStart w
  | .pollEnd positions m => pollEnd g w positions m
  | .setArmed value => setArmed w value

/-- The service after a list of events. -/
def windowRun (g : CorridorWindow) (signal : WindowState) (executor : Executor)
    (events : List WindowEvent) : WindowService :=
  events.foldl (windowStep g) (.new signal executor)

end Pilot.Corridor
