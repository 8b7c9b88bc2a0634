import Pilot.V33.DecisionRuns
import Pilot.V33.Reconcile

/-!
# The journal and its rebuild

The driver journals the rung fills it is told of, the actions of every decision and the alarms.
From these records alone a window's lots are rebuilt: its fills are the journaled ones, and
hedged are the lots of the journaled takes.
-/

namespace Pilot.V33

/-! ### Records -/

/-- What an alarm record names: an alarm of the core by its reason, any other by its text. -/
inductive AlarmName where
  | core (reason : Option Reason)
  | named (text : String)
  deriving DecidableEq

/-- What the rebuild reads of a journal record. -/
inductive JournalRecord where
  | restFill (clientOrderId orderId : Option String) (restPrice : Option ℚ)
      (market : Option String) (count : ℚ)
  | takeWings (count : ℚ)
  | alarm (name : AlarmName)
  | restInvariantPhantom
  /-- A record of another kind. -/
  | other (kind : ActionKind)
  deriving DecidableEq

/-- A count as it is journaled. -/
def countOut (count : ℚ) : ℚ := qCount count

/-- The record of an action. A take with one leg is journaled as a retry. -/
def journalAction (a : V33Action) : JournalRecord :=
  match a.kind with
  | .takeWings => if a.legs.length = 1 then .other .retryWing else .takeWings (countOut a.count)
  | .alarm => .alarm (.core a.reason)
  | kind => .other kind

/-- The record of a fill the driver is told of, on either of its two channels. The fills the
executor itself reports have no source and no record. -/
def fillRecord : Event → List JournalRecord
  | .fill e =>
    if e.source.isSome then
      [.restFill (some e.clientOrderId) e.orderId e.price e.marketTicker (countOut e.count)]
    else []
  | _ => []

/-! ### The driver -/

/-- What the driver meets: an event to decide on, a stand-down of its executor, and records that
others write. The record of one part of a chunked take bears no count. -/
inductive DriverInput where
  | event (ev : Event)
  | executorStandDown
  | alarm (text : String)
  | phantom
  | chunk

/-- The driver's state and its journal after an input. -/
def nextJournaled (p : V33Params) (w : V33State × List JournalRecord) :
    DriverInput → V33State × List JournalRecord
  | .event ev =>
    let r := decideV33 p w.1 ev
    (r.st, w.2 ++ fillRecord ev ++ r.acts.map journalAction)
  | .executorStandDown =>
    if w.1.stoodDown then w
    else ({ w.1 with stoodDown := true }, w.2 ++ [.alarm (.named "executor_standdown")])
  | .alarm text => (w.1, w.2 ++ [.alarm (.named text)])
  | .phantom => (w.1, w.2 ++ [.restInvariantPhantom])
  | .chunk => (w.1, w.2 ++ [.takeWings 0])

/-- A window whose driver met the inputs, each admissible in the state it met, and the journal
of that window. -/
def Journaled (p : V33Params) (ok : V33State × List JournalRecord → DriverInput → Prop)
    (inputs : List DriverInput) (w : V33State × List JournalRecord) : Prop :=
  ∃ start, IsNew p start ∧ Fed (nextJournaled p) ok (start, []) inputs w

/-! ### The rebuild -/

/-- What the rebuild has read so far. -/
structure RebuildReading where
  execFills : List ExecFill
  hedgedLots : ℚ
  alarms : ℕ
  phantom : ℕ
  alarmNames : Dict AlarmName ℕ

/-- Read one more record. Every fill is filed under the one source that adds up. -/
def readRecord (acc : RebuildReading) : JournalRecord → RebuildReading
  | .restFill clientOrderId orderId restPrice market count =>
    { acc with
      execFills := acc.execFills ++
        [⟨count, clientOrderId, orderId, restPrice, market, "journal"⟩] }
  | .takeWings count => { acc with hedgedLots := acc.hedgedLots + count }
  | .alarm name =>
    { acc with
      alarms := acc.alarms + 1
      alarmNames := acc.alarmNames.set name (acc.alarmNames.getD name 0 + 1) }
  | .restInvariantPhantom => { acc with phantom := acc.phantom + 1 }
  | .other _ => acc

/-- A window rebuilt from its journal. -/
structure RebuiltRow where
  reconciled : ReconcileResult
  alarms : ℕ
  executorPhantom : ℕ
  byName : Dict AlarmName ℕ

/-- Rebuild a window's accounting from its journal. -/
def rebuildFromRecords (records : List JournalRecord) : RebuiltRow :=
  let acc := records.foldl readRecord ⟨[], 0, 0, 0, Dict.empty⟩
  ⟨reconcile acc.execFills none acc.hedgedLots false, acc.alarms, acc.phantom, acc.alarmNames⟩

/-! ### Lots -/

/-- The fill a record reports. -/
def JournalRecord.fill : JournalRecord → Option ExecFill
  | .restFill clientOrderId orderId restPrice market count =>
    some ⟨count, clientOrderId, orderId, restPrice, market, "journal"⟩
  | _ => none

/-- The fills of a journal. -/
def journalFills (records : List JournalRecord) : List ExecFill :=
  records.filterMap JournalRecord.fill

/-- The lots a record says were taken. -/
def JournalRecord.taken : JournalRecord → ℚ
  | .takeWings count => count
  | _ => 0

/-- The fill an input tells the driver of, on one of its two channels. -/
def DriverInput.fill : DriverInput → Option ExecFill
  | .event (.fill e) =>
    if e.source.isSome then
      some ⟨countOut e.count, some e.clientOrderId, e.orderId, e.price, e.marketTicker, "journal"⟩
    else none
  | _ => none

/-- The lots the driver was told of, of fills that name an order. -/
def toldLots (inputs : List DriverInput) : ℚ :=
  (((inputs.filterMap DriverInput.fill).filter fun f =>
    (canonKey f.coid f.orderId).isSome).map ExecFill.count).sum

/-- The lots whose wings were taken together, if the batch is such a take. -/
def coalescedTake (b : WingBatch) : ℚ := if b.taken ∧ ¬b.printThrough then b.totalCount else 0

/-- The lots wings were taken for: those of the coalesced batches taken and those each trigger
pre-hedged. -/
def takenLots (st : V33State) : ℚ :=
  (st.wingBatches.map coalescedTake).sum +
    (st.printThroughTriggers.map PrintThroughTrigger.count).sum

/-- The lots wings were sent for. A shakedown sends none. -/
def sentLots (st : V33State) : ℚ := if st.shakedown then 0 else takenLots st

/-- The maker lots of some fills. -/
def makerLots (fills : List RungFill) : ℚ := lotsOf (fills.filter fun f => !f.taker)

/-- The maker lots booked in the batches whose wings both filled. -/
def coveredLots (st : V33State) : ℚ :=
  makerLots ((st.wingBatches.filter fun b => wingsFilled st b.index).flatMap WingBatch.fills)

/-- The booked maker lots whose wings did not both fill. -/
def nakedBooked (st : V33State) : ℚ := makerLots st.restFills - coveredLots st

/-- Every take filled: a batch that was taken has both its wings. -/
def EveryTakeFilled (st : V33State) : Prop :=
  ∀ b ∈ st.wingBatches, b.taken = true → wingsFilled st b.index = true

/-- The lots of a finished window: those the core booked for orders it can name and those the
executor saw beyond them. Where the executor saw no order at all, every booked lot. -/
def liveLots (seen : List ExecFill) (core : List RungFill) : ℚ :=
  if ∀ f ∈ seen, canonKey f.coid f.orderId = none then lotsOf core
  else lotsOf core - lotsOf (keylessFills core) + unbookedLots seen core

/-- The rebuild never reports fewer naked lots than the core booked, and agrees with the live
reconciliation when every take filled. -/
structure ReportsNaked (observed : List ExecFill) (executor : Option Executor)
    (venue : List VenueFill) (st : V33State) (records : List JournalRecord) : Prop where
  covers : nakedBooked st ≤ (rebuildFromRecords records).reconciled.oneLeggedContracts
  agrees : EveryTakeFilled st → (rebuildFromRecords records).reconciled.oneLeggedContracts =
    (reconcileLive observed executor venue st).oneLeggedContracts

/-! ### Takes and misses -/

/-- The lots wings were sent for with a batch: those of a coalesced take and those its triggers
pre-hedged. A shakedown sends none. -/
def sentFor (st : V33State) (b : WingBatch) : ℚ :=
  if st.shakedown then 0
  else coalescedTake b + ((st.printThroughTriggers.filter fun t => t.batchIndex = b.index).map
    PrintThroughTrigger.count).sum

/-- The lots that were pre-hedged with batches given up since. -/
def givenUpLots (st : V33State) : ℚ :=
  if st.shakedown then 0
  else ((st.printThroughTriggers.filter fun t =>
    t.batchIndex ∉ st.wingBatches.map WingBatch.index).map PrintThroughTrigger.count).sum

/-- The maker lots of a batch that both its wings cover. -/
def coveredBy (st : V33State) (b : WingBatch) : ℚ :=
  if wingsFilled st b.index then makerLots b.fills else 0

/-- The lots of a batch that the live reconciliation credits as hedged. -/
def creditedBy (executor : Option Executor) (b : WingBatch) : ℚ :=
  if hedgedBatch (executor.bind Executor.wingFilled) b then b.legCount else 0

/-- The lots of the takes that missed: what was sent for each batch beyond what both its wings
cover, and what was pre-hedged with batches given up. -/
def missedLots (st : V33State) : ℚ :=
  (st.wingBatches.map fun b => sentFor st b - coveredBy st b).sum + givenUpLots st

/-- The lots of the takes that are not credited: what was sent for each batch beyond what it is
credited with, and what was pre-hedged with batches given up. -/
def uncreditedLots (executor : Option Executor) (st : V33State) : ℚ :=
  (st.wingBatches.map fun b => sentFor st b - creditedBy executor b).sum + givenUpLots st

/-- The takes that missed are made up for: unless no booked lot is naked, they have no more lots
than the driver was told of beyond those booked. With every take filled, the lots told differ from
those booked or seen by the lots of the takes that are not credited, at two decimals, or there are
none beyond the takes on either side. -/
structure MissesMadeUp (inputs : List DriverInput) (observed : List ExecFill)
    (executor : Option Executor) (venue : List VenueFill) (st : V33State) : Prop where
  covers : nakedBooked st ≤ 0 ∨ missedLots st ≤ toldLots inputs - makerLots st.restFills
  agrees : EveryTakeFilled st →
    let seen := liveLots (executorTruthFills observed executor venue) st.restFills
    let beyond := qCount (seen + uncreditedLots executor st - sentLots st)
    toldLots inputs - sentLots st = beyond ∨ toldLots inputs ≤ sentLots st ∧ beyond ≤ 0

end Pilot.V33
