import Pilot.V33.Ledger

/-!
# The day guard and the arming gate

Each window is a process of its own. What a day remembers is one file for each roster: the
stops latched so far and the balance the day began with. A window arms only if the guard,
the venue, the positions and the account's loss all allow it.
-/

namespace Pilot.V33

/-! ### The guard file -/

/-- The stop and alarm kinds of a guard entry. -/
inductive StopKind where
  | s1Legged
  | s4DayLoss
  | other (name : Option String)
  deriving DecidableEq

/-- One latched stop. -/
structure LatchEntry where
  kind : StopKind
  reason : String
  window : Option String
  ts : ℚ
  deriving DecidableEq

/-- What a guard path holds. -/
inductive GuardFile where
  | missing
  /-- It cannot be opened or parsed. -/
  | unreadable
  /-- Its fields, none where one is absent or malformed; a baseline of `some none` is unset. -/
  | object (utcDay : Option String) (latched : Option (List LatchEntry))
      (balanceStart : Option (Option ℚ))
  deriving DecidableEq

/-- The parsed guard of a day; a corrupt one could not be trusted. -/
structure DayGuard where
  utcDay : String
  balanceStart : Option ℚ := none
  latched : List LatchEntry := []
  corrupt : Bool := false
  present : Bool := false
  deriving DecidableEq

/-- Read the guard: a missing file is a fresh guard, a malformed one is corrupt. -/
def readDayGuard (file : GuardFile) (utcDay : String) : DayGuard :=
  match file with
  | .missing => { utcDay := utcDay }
  | .unreadable => { utcDay := utcDay, corrupt := true, present := true }
  | .object day latched balanceStart =>
    match decide (day = some utcDay), latched, balanceStart with
    | true, some entries, some start =>
      { utcDay := utcDay, balanceStart := start, latched := entries, present := true }
    | _, _, _ => { utcDay := utcDay, corrupt := true, present := true }

/-- Write the guard. -/
def writeDayGuard (guard : DayGuard) : GuardFile :=
  .object (some guard.utcDay) (some guard.latched) (some guard.balanceStart)

/-- Append a stop to the guard file; a corrupt file is replaced by one with that stop alone. -/
def recordLatchedStop (file : GuardFile) (utcDay : String) (entry : LatchEntry) : GuardFile :=
  let guard := readDayGuard file utcDay
  let latched := if guard.corrupt then [] else guard.latched
  let start := if guard.corrupt then none else guard.balanceStart
  writeDayGuard { utcDay := utcDay, balanceStart := start, latched := latched ++ [entry] }

/-- The baseline of the day, and the file that holds it: the first balance of the day is
written down, and a corrupt file is left alone. -/
def ensureBalanceStart (file : GuardFile) (utcDay : String) (balanceNow : ℚ) :
    Option ℚ × GuardFile :=
  let guard := readDayGuard file utcDay
  if guard.corrupt then (none, file)
  else match guard.balanceStart with
    | some start => (some start, file)
    | none => (some balanceNow, writeDayGuard
        { utcDay := utcDay, balanceStart := some balanceNow, latched := guard.latched })

/-- The one-legged stops recorded so far. -/
def countLegged (guard : DayGuard) : ℕ := guard.latched.countP fun e => e.kind = .s1Legged

/-- Record a one-legged stop, and the count after it. -/
def recordLeggedOccurrence (file : GuardFile) (utcDay : String) (window : Option String)
    (reason : String) (ts : ℚ) : ℕ × GuardFile :=
  let file := recordLatchedStop file utcDay ⟨.s1Legged, reason, window, ts⟩
  (countLegged (readDayGuard file utcDay), file)

/-- The guard carries a day-loss stop. -/
def guardHasS4Latch (guard : DayGuard) : Bool := guard.latched.any fun e => e.kind = .s4DayLoss

/-- The latched stop that halts the day: a day loss at once, one-legged windows from the
threshold on. -/
def v33LatchedStopKind (guard : DayGuard) (s1Threshold : ℕ) : Option StopKind :=
  if guardHasS4Latch guard then some .s4DayLoss
  else if s1Threshold ≤ countLegged guard then some .s1Legged
  else none

/-! ### The day loss -/

/-- The account loss at which the day stops. -/
def v33S4DayLossCapDollars : ℚ := 5

/-- The verdicts on the day's loss. -/
inductive S4Kind where
  | clear
  | pending
  | latch
  deriving DecidableEq

/-- The verdict, with the loss without and with the credit still pending. -/
structure S4Decision where
  kind : S4Kind
  lossPessimistic : ℚ
  lossOptimistic : ℚ
  deriving DecidableEq

/-- The verdict on a loss: latched if no settlement can undo it, pending if one can. -/
def s4BalanceDecision (balanceStart balanceNow pendingValue cap : ℚ) : S4Decision :=
  let lossPessimistic := balanceStart - balanceNow
  let lossOptimistic := balanceStart - (balanceNow + pendingValue)
  { kind := if cap ≤ lossOptimistic then .latch
      else if lossPessimistic < cap then .clear else .pending
    lossPessimistic := lossPessimistic
    lossOptimistic := lossOptimistic }

/-- The verdict with the floor of the unsettled windows netted into the balance. -/
def v33S4Decision (balanceStart balanceNow : ℚ) (pendingCredit : ℚ × ℚ) : S4Decision :=
  s4BalanceDecision balanceStart (balanceNow + pendingCredit.1)
    (pendingCredit.2 - pendingCredit.1) v33S4DayLossCapDollars

/-- The balance as the proxy reports it, in dollars and in cents. -/
structure BalancePayload where
  balanceDollars : Option ℚ
  balance : Option ℤ
  deriving DecidableEq

/-- The balance, if both figures are there and agree. -/
def parseBalance (payload : BalancePayload) : Option ℚ :=
  match payload.balanceDollars, payload.balance with
  | some dollars, some cents => if 1 / 100 ≤ |dollars - cents / 100| then none else some dollars
  | _, _ => none

/-! ### The venue and the positions -/

/-- The order caps the proxy reports. -/
structure HealthCaps where
  maxContractsPerOrder : Option ℤ
  tickerPrefixes : Option (List String)
  deriving DecidableEq

/-- The proxy's health. -/
structure Health where
  ordersEnabled : Bool
  caps : Option HealthCaps
  ordersRemainingToday : Option ℤ
  deriving DecidableEq

/-- Why a window was not armed. -/
inductive Refusal where
  | guardCorrupt
  | latchedToday (kind : StopKind)
  | siblingS4
  | paramsNotVerified
  | falsifierNotFrozen
  | noHealth
  | ordersDisabled
  | noCaps
  | capMissing
  | capBelow (cap least : ℤ)
  | capAbove (cap most : ℤ)
  | prefixesMissing
  | prefixUncovered (probe : String)
  | budgetMissing
  | budgetLow (remaining : ℤ)
  | noPositions
  | malformedPosition
  | unparseablePosition (ticker : String)
  | inheritedPosition (ticker : String) (size : ℚ)
  | s4Breached
  | s4Pending
  | capUnreadable
  deriving DecidableEq

/-- Orders that must be left in the day's budget. -/
def v33MinOrderBudgetAtArm : ℤ := 500

/-- A text begins with another. -/
def startsWith (text start : String) : Bool := start.toList.isPrefixOf text.toList

/-- The tickers the prefixes must cover: the range's and the strikes'. -/
def tickerProbes : List String := ["KXBTC-", "KXBTCD-"]

/-- The band of contracts for each order: the largest rung and the whole ladder. -/
def capBand (lotsPerRung kRungs : ℤ) (rungLots : List ℤ) : ℤ × ℤ :=
  if rungLots.isEmpty then (lotsPerRung, kRungs * lotsPerRung)
  else (rungLots.max?.getD 0, rungLots.sum)

/-- What keeps the proxy's caps and budget from allowing the ladder, if anything. -/
def v33CapsAgree (health : Option Health) (lotsPerRung kRungs : ℤ) (rungLots : List ℤ) :
    Option Refusal :=
  match health with
  | none => some .noHealth
  | some h =>
    if !h.ordersEnabled then some .ordersDisabled else
    match h.caps with
    | none => some .noCaps
    | some caps =>
      match caps.maxContractsPerOrder with
      | none => some .capMissing
      | some cap =>
        let band := capBand lotsPerRung kRungs rungLots
        if cap < band.1 then some (.capBelow cap band.1)
        else if band.2 < cap then some (.capAbove cap band.2) else
        match caps.tickerPrefixes with
        | none => some .prefixesMissing
        | some prefixes =>
          match tickerProbes.find? fun probe => !prefixes.any (startsWith probe) with
          | some probe => some (.prefixUncovered probe)
          | none =>
            match h.ordersRemainingToday with
            | none => some .budgetMissing
            | some left => if left < v33MinOrderBudgetAtArm then some (.budgetLow left) else none

/-- A row of the position list; its size is none when it does not parse. -/
structure PositionRow where
  ticker : String
  size : Option ℚ
  deriving DecidableEq

/-- What one position row says against arming. -/
def positionRefusal (tickerPrefix : String) : Option PositionRow → Option Refusal
  | none => some .malformedPosition
  | some row =>
    if !startsWith row.ticker tickerPrefix then none
    else match row.size with
      | none => some (.unparseablePosition row.ticker)
      | some size => if size = 0 then none else some (.inheritedPosition row.ticker size)

/-- What the positions say against arming: no list, a malformed row or an inherited position
of the series. -/
def reconcilePositionsClean (positions : Option (List (Option PositionRow)))
    (tickerPrefix : String) : Option Refusal :=
  match positions with
  | none => some .noPositions
  | some rows => rows.findSome? (positionRefusal tickerPrefix)

/-! ### Arm or degrade -/

/-- The modes of a window. -/
inductive Mode where
  | shakedown
  | dry
  | armed
  deriving DecidableEq

/-- What the arming gate reads beside the guard and the day loss. -/
structure ArmingInputs where
  resolvedMode : Mode
  falsifierFrozen : Bool
  health : Option Health
  positions : Option (List (Option PositionRow))
  paramsVerified : Bool
  lotsPerRung : ℤ
  kRungs : ℤ
  rungLots : List ℤ
  deriving DecidableEq

/-- The outcome of the arming gate. -/
structure ArmingOutcome where
  effectiveMode : Mode
  armed : Bool
  reasons : List Refusal
  deriving DecidableEq

/-- The refusals of the frozen falsifier, the parameters and the caps. -/
def v33ArmingCheck (x : ArmingInputs) : List Refusal :=
  (if x.paramsVerified then [] else [.paramsNotVerified]) ++
    (if x.falsifierFrozen then [] else [.falsifierNotFrozen]) ++
    (v33CapsAgree x.health x.lotsPerRung x.kRungs x.rungLots).toList

/-- The refusals of the guard. -/
def guardRefusals (guard : DayGuard) (s1Threshold : ℕ) : List Refusal :=
  if guard.corrupt then [.guardCorrupt]
  else (v33LatchedStopKind guard s1Threshold).toList.map .latchedToday

/-- The refusals of the day loss. -/
def s4Refusals (s4 : Option S4Decision) : List Refusal :=
  match s4.map S4Decision.kind with
  | some .latch => [.s4Breached]
  | some .pending => [.s4Pending]
  | _ => []

/-- Every reason against arming a candidate. -/
def refusals (x : ArmingInputs) (guard : DayGuard) (s4 : Option S4Decision)
    (positionPrefix : String) (crossS4Latched : Bool) (s1Threshold : ℕ) : List Refusal :=
  guardRefusals guard s1Threshold ++ (if crossS4Latched then [.siblingS4] else []) ++
    v33ArmingCheck x ++ (reconcilePositionsClean x.positions positionPrefix).toList ++
    s4Refusals s4

/-- Arm the window or degrade it to a dry one. -/
def decideV33Arming (x : ArmingInputs) (guard : DayGuard) (s4 : Option S4Decision)
    (positionPrefix : String) (crossS4Latched : Bool) (s1Threshold : ℕ) : ArmingOutcome :=
  if x.resolvedMode ≠ .armed then ⟨x.resolvedMode, false, []⟩
  else
    let reasons := refusals x guard s4 positionPrefix crossS4Latched s1Threshold
    if reasons.isEmpty then ⟨.armed, true, []⟩ else ⟨.dry, false, reasons⟩

end Pilot.V33
