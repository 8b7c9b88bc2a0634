import Mathlib.Algebra.Order.Field.Rat
import Mathlib.Data.Rat.Floor

/-!
# The supervisor

The wrapper that launches a window process for every full hour. A pass of its loop sleeps into the
launch band of the hour, launches a child for the coming close unless that close already had its
run, and waits for the child under a watchdog. The multi-roster supervisor launches one child for
each roster. Clock readings, sleeps and children are inputs.
-/

namespace Pilot.Host

/-! ### The wake arithmetic -/

/-- Seconds into the hour of a launch. -/
def launchSec : ℚ := 40 * 60

/-- The start of the hour of a time. -/
def hourStart (now : ℚ) : ℚ := ⌊now / 3600⌋ * 3600

/-- The next launch time at or after `now`. -/
def nextForty (now : ℚ) : ℚ :=
  let launch := hourStart now + launchSec
  if now ≤ launch then launch else launch + 3600

/-- The last twenty minutes of an hour. -/
def inLaunchBand (now : ℚ) : Bool :=
  let sec := now - hourStart now
  decide (launchSec ≤ sec ∧ sec < 3600)

/-- The next full hour strictly after `now`: the close of a window launched at `now`. -/
def nextTopOfHourEpoch (now : ℚ) : ℚ := (⌊now / 3600⌋ + 1) * 3600

/-! ### The wait for a child -/

/-- Why a child has ended. -/
inductive ChildStatus where
  | exited
  | signaled
  | watchdogKilled
  deriving DecidableEq

/-- One poll of a child: its exit code if it exited, and after it the stop flag and the clock. -/
structure ChildPoll where
  exit : Option ℤ
  stopRequested : Bool
  clock : ℚ

/-- How a child that is told to stop ends: within the grace, or after the kill. -/
structure Reaping where
  graceExit : Option ℤ
  killExit : Option ℤ

/-- What is done to a child. -/
inductive ChildCall where
  | forwardSignal
  | kill
  deriving DecidableEq

/-- How the wait for a child ended. -/
structure ChildEnd where
  exitCode : Option ℤ
  status : ChildStatus
  calls : List ChildCall
  deriving DecidableEq

/-- Forward the signal and wait out the grace, then kill. -/
def reapAfterSignal (r : Reaping) (status : ChildStatus) : ChildEnd :=
  match r.graceExit with
  | some rc => ⟨some rc, status, [.forwardSignal]⟩
  | none => ⟨r.killExit, status, [.forwardSignal, .kill]⟩

/-- Wait for a child until it exits, a stop is requested or the watchdog's deadline has passed.
After the polls the child exits with `final`. -/
def waitChild (watchdogDeadline : ℚ) (r : Reaping) (final : ℤ) : List ChildPoll → ChildEnd
  | [] => ⟨some final, .exited, []⟩
  | poll :: polls =>
    match poll.exit with
    | some rc => ⟨some rc, .exited, []⟩
    | none =>
      if poll.stopRequested then reapAfterSignal r .signaled
      else if watchdogDeadline ≤ poll.clock then reapAfterSignal r .watchdogKilled
      else waitChild watchdogDeadline r final polls

/-! ### The loop -/

/-- The supervisor's options: one pass only, no wait for the band, and the watchdog's grace. -/
structure SupervisorConfig where
  once : Bool
  runNow : Bool
  watchdogGraceS : ℚ := 120

/-- What the outside answers in one pass of the loop before a launch: the clock readings in the
order in which they are taken, and whether a stop ended a sleep. A reading that is not taken
repeats the one before it. -/
structure Readings where
  arrived : ℚ
  stopAsleep : Bool
  woke : ℚ
  guard : ℚ
  stopAgain : Bool
  /-- After the second sleep. -/
  again : ℚ
  start : ℚ

/-- What the outside answers in one pass of the loop. -/
structure PassInputs extends Readings where
  /-- The time of the wake record. -/
  wake : ℚ
  polls : List ChildPoll
  reaping : Reaping
  final : ℤ
  ended : ℚ

/-- What the supervisor does: the records it emits, the rotations and the spawns. -/
inductive Deed where
  | sleep (now wake : ℚ)
  | closeAlreadyRun (close wake : ℚ)
  | skippedLate (woke : ℚ)
  | stopIdle
  | rotate
  | spawn (start close : ℚ)
  | window (wake duration : ℚ) (finish : ChildEnd)
  | childWatchdogKilled (wake : ℚ) (exitCode : Option ℤ)
  deriving DecidableEq

/-- The loop between two passes, with what was done so far. -/
structure Supervisor where
  first : Bool
  /-- The close the last child was launched for. -/
  lastCloseRun : Option ℚ
  exitCode : Option ℤ
  deeds : List Deed

/-- The loop after the boot. -/
def Supervisor.boot : Supervisor := ⟨true, none, none, []⟩

/-- The supervisor with more deeds done. -/
def Supervisor.does (s : Supervisor) (more : List Deed) : Supervisor :=
  { s with deeds := s.deeds ++ more }

/-- The supervisor stopped with an exit code. -/
def Supervisor.stop (s : Supervisor) (code : ℤ) : Supervisor := { s with exitCode := some code }

/-- The records of a child that ended. -/
def windowRecords (wake duration : ℚ) (finish : ChildEnd) : List Deed :=
  .window wake duration finish ::
    if finish.status = .watchdogKilled then [.childWatchdogKilled wake finish.exitCode] else []

/-- Launch a child for the coming close and wait for it. -/
def Supervisor.launch (cfg : SupervisorConfig) (s : Supervisor) (x : PassInputs) : Supervisor :=
  let close := nextTopOfHourEpoch x.start
  let finish := waitChild (close + cfg.watchdogGraceS) x.reaping x.final x.polls
  let s := { s with lastCloseRun := some close }.does
    (.rotate :: .spawn x.start close :: windowRecords x.wake (x.ended - x.start) finish)
  if finish.status = .signaled then s.stop (finish.exitCode.getD 0)
  else if cfg.once then s.stop 0
  else s

/-- Launch, unless the coming close already had its run; then sleep to the next launch. -/
def Supervisor.oncePerClose (cfg : SupervisorConfig) (s : Supervisor) (x : PassInputs) :
    Supervisor :=
  let close := nextTopOfHourEpoch x.guard
  if inLaunchBand x.guard ∧ s.lastCloseRun = some close then
    let s := s.does [.closeAlreadyRun close (nextForty x.guard)]
    if x.stopAgain then (s.does [.stopIdle]).stop 0 else s
  else s.launch cfg x

/-- One pass of the loop. Outside the launch band it first sleeps into it, and a sleep that
overshot ends the pass. -/
def Supervisor.pass (cfg : SupervisorConfig) (s : Supervisor) (x : PassInputs) : Supervisor :=
  if s.exitCode.isSome then s
  else if s.first && cfg.runNow || inLaunchBand x.arrived then
    { s with first := false }.oncePerClose cfg x
  else
    let s := { s with first := false }.does [.sleep x.arrived (nextForty x.arrived)]
    if x.stopAsleep then (s.does [.stopIdle]).stop 0
    else if !inLaunchBand x.woke then s.does [.skippedLate x.woke]
    else s.oncePerClose cfg x

/-- The passes of a run. -/
def Supervisor.run (cfg : SupervisorConfig) (xs : List PassInputs) : Supervisor :=
  xs.foldl (Supervisor.pass cfg) .boot

/-- A launch: when, and for which close. -/
def Deed.launch? : Deed → Option (ℚ × ℚ)
  | .spawn start close => some (start, close)
  | _ => none

/-- The launches of a run, in order. -/
def Supervisor.launches (s : Supervisor) : List (ℚ × ℚ) := s.deeds.filterMap Deed.launch?

/-! ### Several rosters -/

/-- The rosters that can be launched. -/
inductive Roster where
  | v32
  | v33
  | v33Eth
  deriving DecidableEq

/-- The roster of a name on the command line. -/
def rosterOfName : String → Option Roster
  | "v32" => some .v32
  | "v33" => some .v33
  | "v33_eth" => some .v33Eth
  | _ => none

/-- The known rosters among the names, each once; the pair of ladders if there is none. -/
def knownRosters (names : List String) : List Roster :=
  let known := (names.filterMap rosterOfName).eraseDups
  if known = [] then [.v33, .v33Eth] else known

/-- One round of polls of the children. -/
structure Round where
  exit : Roster → Option ℤ
  stopRequested : Bool
  clock : ℚ

/-- What the outside answers in one pass of the multi-roster loop. -/
structure MultiInputs extends Readings where
  rounds : List Round
  reaping : Roster → Reaping
  final : Roster → ℤ
  ended : Roster → ℚ

/-- Wait for all children: how each ended, and whether a shutdown ended the wait. The watchdog
stops only the children that overran. After the rounds the others exit. -/
def waitChildren (watchdogDeadline : Roster → ℚ) (reaping : Roster → Reaping)
    (final : Roster → ℤ) : List Round → List Roster → List (Roster × ChildEnd) × Bool
  | [], pending => (pending.map fun r => (r, ⟨some (final r), .exited, []⟩), false)
  | round :: rounds, pending =>
    let gone := pending.filter fun r => (round.exit r).isSome
    let exited := gone.map fun r => (r, (⟨round.exit r, .exited, []⟩ : ChildEnd))
    let pending := pending.filter fun r => (round.exit r).isNone
    if pending = [] then (exited, false)
    else if round.stopRequested then
      (exited ++ pending.map fun r => (r, reapAfterSignal (reaping r) .signaled), true)
    else
      let late := pending.filter fun r => watchdogDeadline r ≤ round.clock
      let killed := late.map fun r => (r, reapAfterSignal (reaping r) .watchdogKilled)
      let others := pending.filter fun r => ¬watchdogDeadline r ≤ round.clock
      let rest := waitChildren watchdogDeadline reaping final rounds others
      (exited ++ killed ++ rest.1, rest.2)

/-- How a child ended. -/
def endOf (ends : List (Roster × ChildEnd)) (r : Roster) : ChildEnd :=
  ((ends.find? fun e => e.1 = r).map Prod.snd).getD ⟨none, .exited, []⟩

/-- The multi-roster loop between two passes. A deed is one of a roster or of the loop. -/
structure MultiRosterSupervisor where
  first : Bool
  /-- The close each roster was last launched for. -/
  lastCloseRun : Roster → Option ℚ
  exitCode : Option ℤ
  deeds : List (Option Roster × Deed)

/-- The supervisor at its start. -/
def MultiRosterSupervisor.boot : MultiRosterSupervisor := ⟨true, fun _ => none, none, []⟩

/-- The supervisor with more deeds done. -/
def MultiRosterSupervisor.does (s : MultiRosterSupervisor) (more : List (Option Roster × Deed)) :
    MultiRosterSupervisor :=
  { s with deeds := s.deeds ++ more }

/-- The supervisor stopped with an exit code. -/
def MultiRosterSupervisor.stop (s : MultiRosterSupervisor) (code : ℤ) : MultiRosterSupervisor :=
  { s with exitCode := some code }

/-- The first exit code of a child other than zero. -/
def exitAfterSignal (ends : List ChildEnd) : ℤ :=
  ((ends.filterMap ChildEnd.exitCode).find? fun rc => rc ≠ 0).getD 0

/-- Launch a child for each roster that is due, in order, and wait for all of them. -/
def MultiRosterSupervisor.launch (cfg : SupervisorConfig) (due : List Roster)
    (s : MultiRosterSupervisor) (x : MultiInputs) : MultiRosterSupervisor :=
  let close := nextTopOfHourEpoch x.start
  let waited := waitChildren (fun _ => close + cfg.watchdogGraceS) x.reaping x.final x.rounds due
  let s := { s with lastCloseRun := fun r => if r ∈ due then some close else s.lastCloseRun r }
  let s := s.does (due.flatMap fun r => [(some r, .rotate), (some r, .spawn x.start close)])
  let s := s.does (due.flatMap fun r =>
    (windowRecords x.start (x.ended r - x.start) (endOf waited.1 r)).map fun d => (some r, d))
  if waited.2 then s.stop (exitAfterSignal (due.map (endOf waited.1)))
  else if cfg.once then s.stop 0
  else s

/-- The rosters that still need a run for the coming close. -/
def MultiRosterSupervisor.due (rosters : List Roster) (s : MultiRosterSupervisor) (now : ℚ) :
    List Roster :=
  rosters.filter fun r =>
    ¬(inLaunchBand now ∧ s.lastCloseRun r = some (nextTopOfHourEpoch now))

/-- Launch the rosters that are due; with none due sleep to the next launch. -/
def MultiRosterSupervisor.oncePerClose (cfg : SupervisorConfig) (rosters : List Roster)
    (s : MultiRosterSupervisor) (x : MultiInputs) : MultiRosterSupervisor :=
  let due := s.due rosters x.guard
  if due = [] then
    let s := s.does [(none, .closeAlreadyRun (nextTopOfHourEpoch x.guard) (nextForty x.guard))]
    if x.stopAgain then (s.does [(none, .stopIdle)]).stop 0 else s
  else s.launch cfg due x

/-- One pass of the multi-roster loop. -/
def MultiRosterSupervisor.pass (cfg : SupervisorConfig) (rosters : List Roster)
    (s : MultiRosterSupervisor) (x : MultiInputs) : MultiRosterSupervisor :=
  if s.exitCode.isSome then s
  else if s.first && cfg.runNow || inLaunchBand x.arrived then
    { s with first := false }.oncePerClose cfg rosters x
  else
    let s := { s with first := false }.does [(none, .sleep x.arrived (nextForty x.arrived))]
    if x.stopAsleep then (s.does [(none, .stopIdle)]).stop 0
    else if !inLaunchBand x.woke then s.does [(none, .skippedLate x.woke)]
    else s.oncePerClose cfg rosters x

/-- The passes of the supervisor over a list of inputs. -/
def MultiRosterSupervisor.run (cfg : SupervisorConfig) (rosters : List Roster)
    (xs : List MultiInputs) : MultiRosterSupervisor :=
  xs.foldl (MultiRosterSupervisor.pass cfg rosters) .boot

end Pilot.Host
