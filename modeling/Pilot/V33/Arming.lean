import Pilot.V33.DayGuard
import Pilot.V33.Reconcile
import Pilot.Lib.Transitions

/-!
# The windows of a day

Two rosters share one account. Each wakes once for every close, resolves whether it arms and,
if it armed, records at its end whether it left lots one-legged. Windows of the two rosters
overlap; what they leave behind for the next ones is in the guard files alone.
-/

namespace Pilot.V33

/-! ### The rosters -/

/-- The two rosters of the account. -/
inductive Roster where
  | btc
  | eth
  deriving DecidableEq

/-- What sets the series of a roster apart. -/
structure V33SeriesSpec where
  positionPrefix : String
  s1LatchThreshold : ℕ
  deriving DecidableEq

/-- The series of each roster. -/
def Roster.spec : Roster → V33SeriesSpec
  | .btc => ⟨"KXBTC", 6⟩
  | .eth => ⟨"KXETH", 2⟩

/-- The other roster. -/
def Roster.sibling : Roster → Roster
  | .btc => .eth
  | .eth => .btc

/-! ### A window wakes -/

/-- What a waking window reads; none stands for a read that raised. -/
structure Wake where
  inputs : ArmingInputs
  balance : Option BalancePayload
  ledger : Option (List LedgerRow)
  siblingLedger : Option (List LedgerRow)
  guardWritable : Bool

/-- The credit of the account; an unreadable sibling ledger contributes nothing. -/
def Wake.pendingCredit (w : Wake) (utcDay : String) : Option (ℚ × ℚ) :=
  w.ledger.map fun rows => accountPendingCredit rows (w.siblingLedger.getD []) utcDay

/-- The verdict on the day's loss and the guard file after it: none if the balance cannot be
read or trusted, or a step on the way raised. -/
def evaluateS4 (file : GuardFile) (utcDay : String) (w : Wake) :
    Option S4Decision × GuardFile :=
  let guard := readDayGuard file utcDay
  match w.balance.bind parseBalance with
  | none => (none, file)
  | some balanceNow =>
    if guard.corrupt then (none, file)
    else if guard.balanceStart.isNone && !w.guardWritable then (none, file)
    else
      let ensured := ensureBalanceStart file utcDay balanceNow
      match ensured.1, w.pendingCredit utcDay with
      | some start, some credit => (some (v33S4Decision start balanceNow credit), ensured.2)
      | _, _ => (none, ensured.2)

/-- The cap on contracts the proxy reports. -/
def proxyMaxContracts (health : Option Health) : Option ℤ :=
  (health.bind Health.caps).bind HealthCaps.maxContractsPerOrder

/-- Resolve whether a window of a roster arms, by its guard and its sibling's. -/
def resolveArming (guard : Roster → GuardFile) (utcDay : String) (r : Roster) (w : Wake) :
    ArmingOutcome :=
  let outcome := decideV33Arming w.inputs (readDayGuard (guard r) utcDay)
    (evaluateS4 (guard r) utcDay w).1 r.spec.positionPrefix
    (guardHasS4Latch (readDayGuard (guard r.sibling) utcDay)) r.spec.s1LatchThreshold
  if outcome.armed && (proxyMaxContracts w.inputs.health).isNone then
    ⟨.dry, false, [.capUnreadable]⟩
  else outcome

/-! ### A window ends -/

/-- What a finished window knows, and which of its last steps raise. -/
structure Finished where
  closeTime : String
  observed : List ExecFill
  executor : Option Executor
  venue : List VenueFill
  core : V33State
  liveRaised : Bool
  truthRaised : Bool
  guardWritable : Bool
  ts : ℚ

/-- The reconciliation of a finished window, the one without the core if the full one raised. -/
def Finished.recon (f : Finished) : Option ReconcileResult :=
  if !f.liveRaised then some (reconcileLive f.observed f.executor f.venue f.core)
  else if !f.truthRaised then some (reconcileExecTruthOnly f.observed f.executor f.core)
  else none

/-- The window left lots one-legged; without a reconciliation any fill seen counts. -/
def Finished.s1OneLegged (f : Finished) : Bool :=
  match f.recon with
  | some recon => recon.oneLegged
  | none => f.core.oneLegged || !f.observed.isEmpty

/-- The window records a one-legged stop. -/
def Finished.records (f : Finished) : Bool := f.s1OneLegged && f.guardWritable

/-- The one-legged contracts of the reconciliation. -/
def Finished.oneLeggedContracts (f : Finished) : ℚ :=
  (f.recon.map ReconcileResult.oneLeggedContracts).getD 0

/-- The guard file after an armed window has ended. -/
def recordFinished (file : GuardFile) (utcDay : String) (f : Finished) : GuardFile :=
  if f.records then
    (recordLeggedOccurrence file utcDay (some f.closeTime)
      "ladder set left one-legged below lock floor (reconciled against executor truth)" f.ts).2
  else file

/-! ### The day -/

/-- What happens on a day. -/
inductive DayEvent where
  | wake (r : Roster) (w : Wake)
  | close (r : Roster) (f : Finished)

/-- The guard file of each roster, and the armed windows that still run. -/
structure DayState where
  guard : Roster → GuardFile
  live : List Roster

/-- The day begins with no guard file. -/
def DayState.fresh : DayState := ⟨fun _ => .missing, []⟩

/-- The event is the wake of a window that arms. -/
def arms (utcDay : String) (s : DayState) : DayEvent → Bool
  | .wake r w => (resolveArming s.guard utcDay r w).armed
  | .close _ _ => false

/-- The guard file of the event's roster after it. -/
def guardAfter (utcDay : String) (s : DayState) : DayEvent → GuardFile
  | .wake r w =>
    if w.inputs.resolvedMode = .armed then (evaluateS4 (s.guard r) utcDay w).2 else s.guard r
  | .close r f => recordFinished (s.guard r) utcDay f

/-- The roster of an event. -/
def DayEvent.roster : DayEvent → Roster
  | .wake r _ => r
  | .close r _ => r

/-- The armed windows that still run after an event. -/
def liveAfter (utcDay : String) (s : DayState) (e : DayEvent) : List Roster :=
  match e with
  | .wake r _ => if arms utcDay s e then r :: s.live else s.live
  | .close r _ => s.live.erase r

/-- One event of the day. -/
def dayStep (utcDay : String) (s : DayState) (e : DayEvent) : DayState where
  guard := Function.update s.guard e.roster (guardAfter utcDay s e)
  live := liveAfter utcDay s e

/-- An event rewrites the guard of its own roster. -/
theorem dayStep_guard_roster (utcDay : String) (s : DayState) (e : DayEvent) :
    (dayStep utcDay s e).guard e.roster = guardAfter utcDay s e :=
  Function.update_self ..

/-- An event leaves the guard of the other roster alone. -/
theorem dayStep_guard_of_ne (utcDay : String) (s : DayState) {e : DayEvent} {r : Roster}
    (hr : r ≠ e.roster) : (dayStep utcDay s e).guard r = s.guard r :=
  Function.update_of_ne hr ..

/-- Only a window that runs comes to its end. -/
def dayAllows (s : DayState) : DayEvent → Prop
  | .wake _ _ => True
  | .close r _ => r ∈ s.live

instance (s : DayState) : DecidablePred (dayAllows s)
  | .wake _ _ => .isTrue trivial
  | .close r _ => inferInstanceAs (Decidable (r ∈ s.live))

end Pilot.V33
