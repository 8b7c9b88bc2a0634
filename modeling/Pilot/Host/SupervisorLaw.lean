import Mathlib.Data.List.Nodup
import Mathlib.Tactic.Linarith
import Mathlib.Tactic.NormNum
import Pilot.Host.Supervisor
import Pilot.Lib.Transitions

/-!
# One run per close

Whatever the clock readings, the sleeps and the children do, a supervisor launches at most one
window for a close. Where the sleeps return in time and the loop itself crosses no full hour, it
launches one for every close.
-/

namespace Pilot.Host

/-! ### Hours -/

/-- The next top of the hour is ahead. -/
theorem lt_nextTop (t : ℚ) : t < nextTopOfHourEpoch t := by
  unfold nextTopOfHourEpoch
  have := Int.lt_floor_add_one (t / 3600)
  linarith

/-- It is at most an hour ahead. -/
theorem nextTop_le (t : ℚ) : nextTopOfHourEpoch t ≤ t + 3600 := by
  unfold nextTopOfHourEpoch
  have := Int.floor_le (t / 3600)
  linarith

/-- It comes no earlier as time goes on. -/
theorem nextTop_mono {t u : ℚ} (h : t ≤ u) : nextTopOfHourEpoch t ≤ nextTopOfHourEpoch u := by
  unfold nextTopOfHourEpoch
  have hfloor : ⌊t / 3600⌋ ≤ ⌊u / 3600⌋ := Int.floor_mono (by linarith)
  have hcast : (⌊t / 3600⌋ : ℚ) ≤ ⌊u / 3600⌋ := by exact_mod_cast hfloor
  linarith

/-- The hour starts an hour before its end. -/
theorem hourStart_eq (t : ℚ) : hourStart t = nextTopOfHourEpoch t - 3600 := by
  unfold hourStart nextTopOfHourEpoch
  ring

/-- A full hour. -/
def IsHour (c : ℚ) : Prop := ∃ k : ℤ, c = k * 3600

/-- The next top of the hour is a full hour. -/
theorem isHour_nextTop (t : ℚ) : IsHour (nextTopOfHourEpoch t) :=
  ⟨⌊t / 3600⌋ + 1, by simp [nextTopOfHourEpoch]⟩

/-- The full hour within the hour after `t` is its next one. -/
theorem IsHour.eq_nextTop {c t : ℚ} (hc : IsHour c) (hlt : t < c) (hle : c ≤ t + 3600) :
    c = nextTopOfHourEpoch t := by
  obtain ⟨k, rfl⟩ := hc
  have hfloor : ⌊t / 3600⌋ = k - 1 := by
    rw [Int.floor_eq_iff]
    push_cast
    constructor <;> linarith
  rw [nextTopOfHourEpoch, hfloor]
  push_cast
  ring

/-- The band is the last twenty minutes of the hour. -/
theorem inLaunchBand_iff {t : ℚ} : inLaunchBand t = true ↔ nextTopOfHourEpoch t - 1200 ≤ t := by
  have hlt := lt_nextTop t
  unfold inLaunchBand launchSec
  dsimp only
  rw [hourStart_eq, decide_eq_true_iff]
  constructor
  · rintro ⟨hfrom, -⟩
    linarith
  · intro hfrom
    constructor <;> linarith

/-- The next wake is twenty minutes before a full hour. -/
theorem nextForty_eq (t : ℚ) : nextForty t =
    if t ≤ nextTopOfHourEpoch t - 1200 then nextTopOfHourEpoch t - 1200
    else nextTopOfHourEpoch t + 2400 := by
  have hlaunch : hourStart t + launchSec = nextTopOfHourEpoch t - 1200 := by
    rw [hourStart_eq, launchSec]
    ring
  unfold nextForty
  dsimp only
  rw [hlaunch]
  split_ifs
  · rfl
  · ring

/-- A time in the launch band and a later one outside it lie in different hours. -/
theorem nextTop_lt_of_left {t u : ℚ} (h : t ≤ u) (ht : inLaunchBand t = true)
    (hu : inLaunchBand u = false) : nextTopOfHourEpoch t < nextTopOfHourEpoch u := by
  have hfrom := inLaunchBand_iff.mp ht
  have hnot : ¬nextTopOfHourEpoch u - 1200 ≤ u := by
    intro hin
    rw [inLaunchBand_iff.mpr hin] at hu
    cases hu
  rcases (nextTop_mono h).lt_or_eq with hlt | heq
  · exact hlt
  · exfalso
    linarith

/-! ### What a pass does -/

section Pass

variable {cfg : SupervisorConfig} {s : Supervisor} {x : PassInputs}

/-- What else is done launches what it launches. -/
theorem launches_does (more : List Deed) :
    (s.does more).launches = s.launches ++ more.filterMap Deed.launch? := by
  unfold Supervisor.launches Supervisor.does
  rw [List.filterMap_append]

/-- The records of a window launch nothing. -/
theorem launch?_windowRecords (wake duration : ℚ) (finish : ChildEnd) :
    (windowRecords wake duration finish).filterMap Deed.launch? = [] := by
  unfold windowRecords
  split_ifs <;> rfl

/-- A launch runs the window of the next top of the hour. -/
theorem launch_launches : (s.launch cfg x).launches =
    s.launches ++ [(x.start, nextTopOfHourEpoch x.start)] := by
  have hdone : ∀ finish : ChildEnd, ({ s with
      lastCloseRun := some (nextTopOfHourEpoch x.start) }.does
      (.rotate :: .spawn x.start (nextTopOfHourEpoch x.start) ::
        windowRecords x.wake (x.ended - x.start) finish)).launches =
        s.launches ++ [(x.start, nextTopOfHourEpoch x.start)] := by
    intro finish
    rw [launches_does]
    simp only [List.filterMap_cons, Deed.launch?, launch?_windowRecords]
    rfl
  unfold Supervisor.launch
  dsimp only
  split_ifs <;> exact hdone _

/-- A launch remembers the close it runs. -/
theorem launch_lastCloseRun :
    (s.launch cfg x).lastCloseRun = some (nextTopOfHourEpoch x.start) := by
  unfold Supervisor.launch
  dsimp only
  split_ifs <;> rfl

/-- A launch leaves the first pass as it is. -/
theorem launch_first : (s.launch cfg x).first = s.first := by
  unfold Supervisor.launch
  dsimp only
  split_ifs <;> rfl

/-- The reading at which a pass finds itself in the launch band, or is told to run now. -/
def Awake (cfg : SupervisorConfig) (s : Supervisor) (x : PassInputs) : Prop :=
  (s.first = true ∧ cfg.runNow = true) ∨ inLaunchBand x.arrived = true ∨
    inLaunchBand x.woke = true

/-- What a pass makes of the loop: nothing, records, or a launch. -/
inductive PassCase (cfg : SupervisorConfig) (s : Supervisor) (x : PassInputs) : Supervisor → Prop
  | exited (gone : s.exitCode.isSome) : PassCase cfg s x s
  | idle (more : List Deed) (code : Option ℤ) (silent : more.filterMap Deed.launch? = []) :
      PassCase cfg s x ⟨false, s.lastCloseRun, code, s.deeds ++ more⟩
  | launch (more : List Deed) (silent : more.filterMap Deed.launch? = []) (awake : Awake cfg s x)
      (due : ¬(inLaunchBand x.guard = true ∧
        s.lastCloseRun = some (nextTopOfHourEpoch x.guard))) :
      PassCase cfg s x
        (Supervisor.launch cfg ⟨false, s.lastCloseRun, s.exitCode, s.deeds ++ more⟩ x)

/-- A pass that is awake launches unless the close was run. -/
theorem PassCase.oncePerClose (more : List Deed) (silent : more.filterMap Deed.launch? = [])
    (awake : Awake cfg s x) :
    PassCase cfg s x
      (Supervisor.oncePerClose cfg ⟨false, s.lastCloseRun, s.exitCode, s.deeds ++ more⟩ x) := by
  unfold Supervisor.oncePerClose
  dsimp only
  split_ifs with hran hstop
  · have h := @PassCase.idle cfg s x
      (more ++ [.closeAlreadyRun (nextTopOfHourEpoch x.guard) (nextForty x.guard)] ++ [.stopIdle])
      (some 0) (by simp [silent, Deed.launch?])
    simpa [Supervisor.does, Supervisor.stop] using h
  · have h := @PassCase.idle cfg s x
      (more ++ [.closeAlreadyRun (nextTopOfHourEpoch x.guard) (nextForty x.guard)])
      s.exitCode (by simp [silent, Deed.launch?])
    simpa [Supervisor.does] using h
  · exact PassCase.launch more silent awake hran

/-- What a pass does. -/
theorem pass_cases (cfg : SupervisorConfig) (s : Supervisor) (x : PassInputs) :
    PassCase cfg s x (s.pass cfg x) := by
  unfold Supervisor.pass
  split_ifs with hexit hband hstop hlate
  · exact PassCase.exited hexit
  · have hawake : Awake cfg s x := by
      rw [Bool.or_eq_true, Bool.and_eq_true] at hband
      exact hband.imp id Or.inl
    have h := PassCase.oncePerClose [] rfl hawake
    rwa [List.append_nil] at h
  · have h := @PassCase.idle cfg s x
      ([.sleep x.arrived (nextForty x.arrived)] ++ [.stopIdle]) (some 0) rfl
    simpa [Supervisor.does, Supervisor.stop] using h
  · have h := @PassCase.idle cfg s x
      ([.sleep x.arrived (nextForty x.arrived)] ++ [.skippedLate x.woke]) s.exitCode rfl
    simpa [Supervisor.does] using h
  · have hwoke : inLaunchBand x.woke = true := by simpa using hlate
    exact PassCase.oncePerClose [.sleep x.arrived (nextForty x.arrived)] rfl
      (Or.inr (Or.inr hwoke))

end Pass

/-! ### At most one run per close -/

/-- The readings of a pass never go back. -/
structure Ordered (x : PassInputs) : Prop where
  woke : x.arrived ≤ x.woke
  guard : x.woke ≤ x.guard
  again : x.guard ≤ x.again
  wake : x.again ≤ x.wake
  start : x.wake ≤ x.start
  ended : x.start ≤ x.ended

/-- The guard of a pass is read before its launch. -/
theorem Ordered.guard_le_start {x : PassInputs} (h : Ordered x) : x.guard ≤ x.start :=
  h.again.trans (h.wake.trans h.start)

/-- The readings of the passes of a run that begins at `t` never go back. -/
def NeverBack (t : ℚ) (xs : List PassInputs) : Prop :=
  AllAlong (fun _ x => x.ended) (fun t (x : PassInputs) => t ≤ x.arrived ∧ Ordered x) t xs

/-- What the loop remembers at time `t`: its last close is the last one launched for. -/
structure OnePerClose (s : Supervisor) (t : ℚ) : Prop where
  fresh : s.first = true → s.lastCloseRun = none
  last : ∀ l ∈ s.launches, ∃ c, s.lastCloseRun = some c ∧ l.2 ≤ c
  ran : ∀ c, s.lastCloseRun = some c → c ∈ s.launches.map Prod.snd
  passed : ∀ c, s.lastCloseRun = some c → c ≤ nextTopOfHourEpoch t
  windows : ∀ l ∈ s.launches, l.2 = nextTopOfHourEpoch l.1
  increasing : (s.launches.map Prod.snd).Pairwise (· < ·)

section Once

variable {cfg : SupervisorConfig} {s : Supervisor} {x : PassInputs} {t u : ℚ}

/-- What holds at a time holds later. -/
theorem OnePerClose.later (h : OnePerClose s t) (htu : t ≤ u) : OnePerClose s u where
  fresh := h.fresh
  last := h.last
  ran := h.ran
  passed c hc := (h.passed c hc).trans (nextTop_mono htu)
  windows := h.windows
  increasing := h.increasing

/-- A pass that launches does so for a close after the last one. -/
theorem last_lt_of_due (h : OnePerClose s t) (ht : t ≤ x.arrived) (hx : Ordered x)
    (awake : Awake cfg s x)
    (due : ¬(inLaunchBand x.guard = true ∧ s.lastCloseRun = some (nextTopOfHourEpoch x.guard)))
    {c : ℚ} (hc : s.lastCloseRun = some c) : c < nextTopOfHourEpoch x.start := by
  have hpassed := h.passed c hc
  have hstart := nextTop_mono hx.guard_le_start
  cases hguard : inLaunchBand x.guard with
  | true =>
    have hne : c ≠ nextTopOfHourEpoch x.guard := by
      intro heq
      apply due
      rw [hc, heq]
      exact ⟨hguard, rfl⟩
    have hle : nextTopOfHourEpoch t ≤ nextTopOfHourEpoch x.guard := by
      apply nextTop_mono
      linarith [hx.woke, hx.guard]
    exact ((hpassed.trans hle).lt_of_ne hne).trans_le hstart
  | false =>
    -- the band was left since it was checked, so the guard reads a later hour
    rcases awake with ⟨hfirst, -⟩ | harrived | hwoke
    · rw [h.fresh hfirst] at hc
      cases hc
    · have hleft := nextTop_lt_of_left (hx.woke.trans hx.guard) harrived hguard
      linarith [nextTop_mono ht]
    · have hleft := nextTop_lt_of_left hx.guard hwoke hguard
      linarith [nextTop_mono (ht.trans hx.woke)]

/-- Records without a spawn are no launches. -/
theorem launches_of_silent {more : List Deed} (silent : more.filterMap Deed.launch? = [])
    (first : Bool) (last : Option ℚ) (code : Option ℤ) :
    (⟨first, last, code, s.deeds ++ more⟩ : Supervisor).launches = s.launches := by
  unfold Supervisor.launches
  rw [List.filterMap_append, silent, List.append_nil]

/-- A pass launches no close twice. -/
theorem OnePerClose.pass (h : OnePerClose s t) (ht : t ≤ x.arrived) (hx : Ordered x) :
    OnePerClose (s.pass cfg x) x.ended := by
  have hend : t ≤ x.ended := by linarith [hx.woke, hx.guard, hx.guard_le_start, hx.ended]
  have hcase := pass_cases cfg s x
  generalize s.pass cfg x = s' at hcase ⊢
  cases hcase with
  | exited => exact h.later hend
  | idle more code silent =>
    have hlaunches := @launches_of_silent s more silent false s.lastCloseRun code
    have hlater := h.later hend
    constructor
    · intro hfirst
      cases hfirst
    · rw [hlaunches]
      exact hlater.last
    · rw [hlaunches]
      exact hlater.ran
    · exact hlater.passed
    · rw [hlaunches]
      exact hlater.windows
    · rw [hlaunches]
      exact hlater.increasing
  | launch more silent awake due =>
    have hlaunches := @launches_of_silent s more silent false s.lastCloseRun s.exitCode
    have hbefore : ∀ l ∈ s.launches, l.2 < nextTopOfHourEpoch x.start := by
      intro l hl
      obtain ⟨c, hc, hle⟩ := h.last l hl
      exact hle.trans_lt (last_lt_of_due h ht hx awake due hc)
    have hmem : ∀ l, l ∈ s.launches ++ [(x.start, nextTopOfHourEpoch x.start)] →
        l ∈ s.launches ∨ l = (x.start, nextTopOfHourEpoch x.start) := by
      intro l hl
      rwa [List.mem_append, List.mem_singleton] at hl
    constructor
    · rw [launch_first]
      intro hfirst
      cases hfirst
    · rw [launch_launches, launch_lastCloseRun, hlaunches]
      intro l hl
      refine ⟨_, rfl, ?_⟩
      rcases hmem l hl with hl | rfl
      · exact (hbefore l hl).le
      · exact le_rfl
    · rw [launch_launches, launch_lastCloseRun]
      rintro c ⟨rfl⟩
      simp
    · rw [launch_lastCloseRun]
      rintro c ⟨rfl⟩
      exact nextTop_mono hx.ended
    · rw [launch_launches, hlaunches]
      intro l hl
      rcases hmem l hl with hl | rfl
      · exact h.windows l hl
      · rfl
    · rw [launch_launches, hlaunches, List.map_append, List.pairwise_append]
      refine ⟨h.increasing, List.pairwise_singleton _ _, ?_⟩
      intro c hc d hd
      obtain ⟨l, hl, rfl⟩ := List.mem_map.mp hc
      rw [List.map_singleton, List.mem_singleton] at hd
      rw [hd]
      exact hbefore l hl

/-- No run of passes does. -/
theorem OnePerClose.run {xs : List PassInputs} (h : OnePerClose s t)
    (hxs : AllAlong (fun _ x => x.ended) (fun t (x : PassInputs) => t ≤ x.arrived ∧ Ordered x) t
      xs) :
    ∃ u, OnePerClose (xs.foldl (Supervisor.pass cfg) s) u := by
  induction xs generalizing s t with
  | nil => exact ⟨t, h⟩
  | cons x xs ih =>
    obtain ⟨⟨ht, hx⟩, hrest⟩ := hxs
    exact ih (h.pass ht hx) hrest

/-- At the boot no close has been run. -/
theorem onePerClose_boot (t : ℚ) : OnePerClose .boot t := by
  constructor
  · exact fun _ => rfl
  · simp [Supervisor.boot, Supervisor.launches]
  · simp [Supervisor.boot]
  · simp [Supervisor.boot]
  · simp [Supervisor.boot, Supervisor.launches]
  · exact List.Pairwise.nil

/-- Whatever the sleeps, the children and the stops do, a supervisor whose clock never goes back
launches its windows for later and later closes, each the full hour after its launch. -/
theorem one_run_per_close {xs : List PassInputs} (h : NeverBack t xs) :
    ((Supervisor.run cfg xs).launches.map Prod.snd).Pairwise (· < ·) ∧
      ∀ l ∈ (Supervisor.run cfg xs).launches, IsHour l.2 ∧ l.1 < l.2 ∧ l.2 ≤ l.1 + 3600 := by
  obtain ⟨u, hend⟩ := @OnePerClose.run cfg .boot t xs (onePerClose_boot t) h
  refine ⟨hend.increasing, ?_⟩
  intro l hl
  rw [hend.windows l hl]
  exact ⟨isHour_nextTop _, lt_nextTop _, nextTop_le _⟩

end Once

/-! ### A run for every close -/

/-- When the wait for a child ended: at the poll at which it exited or was stopped. -/
def waitEnds (watchdogDeadline : ℚ) : ℚ → List ChildPoll → ℚ
  | t, [] => t
  | _, poll :: polls =>
    if poll.exit.isSome ∨ poll.stopRequested ∨ watchdogDeadline ≤ poll.clock then poll.clock
    else waitEnds watchdogDeadline poll.clock polls

/-- Polls less than a minute apart, and no stop. -/
def PacedPolls (t : ℚ) (polls : List ChildPoll) : Prop :=
  AllAlong (fun _ poll => poll.clock)
    (fun t (poll : ChildPoll) => poll.clock ≤ t + 60 ∧ poll.stopRequested = false) t polls

/-- The close of the guard's hour already had its run. -/
def AlreadyRun (s : Supervisor) (x : PassInputs) : Prop :=
  inLaunchBand x.guard = true ∧ s.lastCloseRun = some (nextTopOfHourEpoch x.guard)

/-- A pass that begins after time `t` without a stop, whose sleeps end within the launch band they
aim at, whose own work crosses no full hour and whose child ends five minutes after its last poll
at the latest. -/
structure Timely (cfg : SupervisorConfig) (s : Supervisor) (t : ℚ) (x : PassInputs) : Prop where
  unstopped : x.stopAsleep = false ∧ x.stopAgain = false
  back : nextTopOfHourEpoch x.arrived = nextTopOfHourEpoch t
  awake : (s.first = true ∧ cfg.runNow = true) ∨ inLaunchBand x.arrived = true →
    x.woke = x.arrived
  woke : ¬(s.first = true ∧ cfg.runNow = true) → inLaunchBand x.arrived = false →
    nextForty x.arrived ≤ x.woke ∧ x.woke < nextForty x.arrived + 1200
  guard : nextTopOfHourEpoch x.guard = nextTopOfHourEpoch x.woke
  slept : AlreadyRun s x → x.ended < nextForty x.guard + 1200
  start : ¬AlreadyRun s x → nextTopOfHourEpoch x.start = nextTopOfHourEpoch x.guard
  paced : PacedPolls x.start x.polls
  ended : ¬AlreadyRun s x → x.ended ≤
    waitEnds (nextTopOfHourEpoch x.start + cfg.watchdogGraceS) x.start x.polls + 300

/-- A run from time `t` whose passes are all timely. -/
def TimelyRun (cfg : SupervisorConfig) (t : ℚ) (xs : List PassInputs) : Prop :=
  AllAlong (fun (w : ℚ × Supervisor) x => (x.ended, w.2.pass cfg x))
    (fun w x => w.1 ≤ x.arrived ∧ Ordered x ∧ Timely cfg w.2 w.1 x) (t, .boot) xs

section Every

variable {cfg : SupervisorConfig} {s : Supervisor} {x : PassInputs} {t : ℚ}

/-- The watchdog ends the wait within a minute of its deadline. -/
theorem waitEnds_le {deadline : ℚ} {polls : List ChildPoll} (h : PacedPolls t polls)
    (ht : t < deadline) : waitEnds deadline t polls ≤ deadline + 60 := by
  induction polls generalizing t with
  | nil =>
    simp only [waitEnds]
    linarith
  | cons poll polls ih =>
    obtain ⟨⟨hgap, -⟩, hrest⟩ := h
    unfold waitEnds
    split_ifs with hends
    · linarith
    · apply ih hrest
      simp only [not_or, not_le] at hends
      exact hends.2.2

/-- A child is signalled only on a request to stop. -/
theorem waitChild_status_ne {deadline : ℚ} {r : Reaping} {final : ℤ} {polls : List ChildPoll}
    (h : ∀ poll ∈ polls, poll.stopRequested = false) :
    (waitChild deadline r final polls).status ≠ .signaled := by
  induction polls with
  | nil => simp [waitChild]
  | cons poll polls ih =>
    unfold waitChild
    split
    · simp
    · rw [h poll (by simp), if_neg (by simp)]
      split_ifs
      · unfold reapAfterSignal
        split <;> simp
      · exact ih fun poll hpoll => h poll (by simp [hpoll])

/-- Paced polls bring no request to stop. -/
theorem PacedPolls.unstopped {polls : List ChildPoll} (h : PacedPolls t polls) :
    ∀ poll ∈ polls, poll.stopRequested = false :=
  forall_of_allAlong (AllAlong.imp h fun _ _ _ hpoll => hpoll.2)

/-- Without a request to stop a launch ends no loop. -/
theorem launch_exitCode (honce : cfg.once = false) (hpaced : PacedPolls x.start x.polls) :
    (s.launch cfg x).exitCode = s.exitCode := by
  unfold Supervisor.launch
  dsimp only
  rw [if_neg (waitChild_status_ne hpaced.unstopped), honce]
  rfl

/-- Within an hour the launch band is not left. -/
theorem inLaunchBand_of_le {u v : ℚ} (h : u ≤ v) (hu : inLaunchBand u = true)
    (heq : nextTopOfHourEpoch v = nextTopOfHourEpoch u) : inLaunchBand v = true := by
  rw [inLaunchBand_iff] at hu ⊢
  linarith

/-- A timely pass reaches the check of the coming close, in the hour in which it began. -/
theorem Timely.reaches (h : Timely cfg s t x) (hx : Ordered x) (hexit : s.exitCode = none) :
    nextTopOfHourEpoch x.guard = nextTopOfHourEpoch t ∧
      (cfg.runNow = false → inLaunchBand x.guard = true) ∧
      ∃ more : List Deed, more.filterMap Deed.launch? = [] ∧
        s.pass cfg x =
          Supervisor.oncePerClose cfg ⟨false, s.lastCloseRun, none, s.deeds ++ more⟩ x := by
  unfold Supervisor.pass
  rw [hexit]
  by_cases hready : (s.first = true ∧ cfg.runNow = true) ∨ inLaunchBand x.arrived = true
  · refine ⟨?_, ?_, [], rfl, ?_⟩
    · rw [h.guard, h.awake hready, h.back]
    · intro hnow
      have harrived : inLaunchBand x.arrived = true := by
        rcases hready with ⟨-, hnow'⟩ | harrived
        · rw [hnow] at hnow'
          cases hnow'
        · exact harrived
      apply inLaunchBand_of_le (hx.woke.trans hx.guard) harrived
      rw [h.guard, h.awake hready]
    · rw [if_neg (by simp), if_pos (by simpa using hready), List.append_nil]
  · rw [not_or] at hready
    obtain ⟨hnow, hband⟩ := hready
    rw [Bool.not_eq_true] at hband
    obtain ⟨hfrom, hto⟩ := h.woke hnow hband
    -- outside the band the next launch is the one of this hour
    have hbefore : x.arrived ≤ nextTopOfHourEpoch x.arrived - 1200 := by
      by_contra hlate
      rw [inLaunchBand_iff.mpr (not_le.mp hlate).le] at hband
      cases hband
    have hforty : nextForty x.arrived = nextTopOfHourEpoch x.arrived - 1200 := by
      rw [nextForty_eq, if_pos hbefore]
    rw [hforty] at hfrom hto
    have hwoke : nextTopOfHourEpoch x.woke = nextTopOfHourEpoch x.arrived := by
      symm
      apply (isHour_nextTop x.arrived).eq_nextTop
      · linarith
      · linarith
    have hin : inLaunchBand x.woke = true := by
      rw [inLaunchBand_iff, hwoke]
      exact hfrom
    refine ⟨?_, ?_, [.sleep x.arrived (nextForty x.arrived)], rfl, ?_⟩
    · rw [h.guard, hwoke, h.back]
    · exact fun _ => inLaunchBand_of_le hx.guard hin h.guard
    · have hskip : ¬(s.first && cfg.runNow || inLaunchBand x.arrived) = true := by
        simp only [Bool.or_eq_true, Bool.and_eq_true, not_or]
        exact ⟨hnow, by simp [hband]⟩
      rw [if_neg (by simp), if_neg hskip]
      dsimp only
      rw [h.unstopped.1, hin]
      cases s
      simp_all [Supervisor.does]

/-- A supervisor that has launched a window for every close between the boot and time `t`, each
in its launch band unless it was told to run at once. -/
structure Covers (cfg : SupervisorConfig) (boot : ℚ) (s : Supervisor) (t : ℚ) : Prop where
  once : OnePerClose s t
  running : s.exitCode = none
  all : ∀ c, IsHour c → boot < c → c ≤ t → c ∈ s.launches.map Prod.snd
  band : cfg.runNow = false → ∀ l ∈ s.launches, inLaunchBand l.1 = true

/-- After a timely pass the close of the hour in which it began had its run, and the next hour has
not passed. -/
theorem Covers.pass {boot : ℚ} (honce : cfg.once = false)
    (hgrace : 0 ≤ cfg.watchdogGraceS ∧ cfg.watchdogGraceS ≤ 3000) (h : Covers cfg boot s t)
    (ht : t ≤ x.arrived) (hx : Ordered x) (htimely : Timely cfg s t x) :
    Covers cfg boot (s.pass cfg x) x.ended := by
  obtain ⟨hguard, hband, more, silent, hpass⟩ := htimely.reaches hx h.running
  have honce' : OnePerClose (s.pass cfg x) x.ended := h.once.pass ht hx
  have hquiet := @launches_of_silent s more silent false s.lastCloseRun none
  -- it is enough that the close of this hour is launched and the one after it lies ahead
  suffices hcover : (s.pass cfg x).exitCode = none ∧
      (∀ l ∈ s.launches, l ∈ (s.pass cfg x).launches) ∧
      nextTopOfHourEpoch t ∈ (s.pass cfg x).launches.map Prod.snd ∧
      x.ended < nextTopOfHourEpoch t + 3600 ∧
      (cfg.runNow = false → ∀ l ∈ (s.pass cfg x).launches, inLaunchBand l.1 = true) by
    obtain ⟨hexit, hkept, hthis, hend, hall⟩ := hcover
    refine ⟨honce', hexit, ?_, hall⟩
    intro c hc hfrom hto
    by_cases hpast : c ≤ t
    · obtain ⟨l, hl, rfl⟩ := List.mem_map.mp (h.all c hc hfrom hpast)
      exact List.mem_map_of_mem (hkept l hl)
    · -- the only full hour since `t` is the next one
      obtain ⟨k, rfl⟩ := hc
      obtain ⟨j, hj⟩ := isHour_nextTop t
      have hnext : nextTopOfHourEpoch t ≤ k * 3600 := by
        rw [not_le] at hpast
        by_contra hless
        rw [not_le] at hless
        have heq := (IsHour.eq_nextTop ⟨k, rfl⟩ hpast (hless.le.trans (nextTop_le t)))
        linarith
      have hk : k = j := by
        have hlow : (j : ℚ) ≤ k := by linarith
        have hhigh : (k : ℚ) < j + 1 := by linarith
        have hlow' : j ≤ k := by exact_mod_cast hlow
        have hhigh' : k < j + 1 := by exact_mod_cast hhigh
        omega
      rw [hk, ← hj]
      exact hthis
  rw [hpass]
  unfold Supervisor.oncePerClose
  dsimp only
  split_ifs with hran hstop
  · rw [htimely.unstopped.2] at hstop
    cases hstop
  · have hlaunches : ((⟨false, s.lastCloseRun, none, s.deeds ++ more⟩ : Supervisor).does
        [.closeAlreadyRun (nextTopOfHourEpoch x.guard) (nextForty x.guard)]).launches =
        s.launches := by
      rw [launches_does, hquiet]
      simp [Deed.launch?]
    refine ⟨rfl, ?_, ?_, ?_, ?_⟩
    · rw [hlaunches]
      exact fun l hl => hl
    · rw [hlaunches]
      apply h.once.ran
      rw [← hguard]
      exact hran.2
    · have hslept := htimely.slept hran
      rw [nextForty_eq, hguard] at hslept
      have hlt := lt_nextTop t
      split_ifs at hslept <;> linarith
    · rw [hlaunches]
      exact h.band
  · have hstart : nextTopOfHourEpoch x.start = nextTopOfHourEpoch t := by
      rw [htimely.start hran, hguard]
    have hlt := lt_nextTop x.start
    have hwait := @waitEnds_le x.start (nextTopOfHourEpoch x.start + cfg.watchdogGraceS) x.polls
      htimely.paced (by linarith)
    have hend := htimely.ended hran
    refine ⟨launch_exitCode honce htimely.paced, ?_, ?_, by linarith, ?_⟩
    · rw [launch_launches, hquiet]
      exact fun l hl => List.mem_append_left _ hl
    · rw [launch_launches, List.map_append, List.mem_append, ← hstart]
      right
      simp
    · intro hnow l hl
      rw [launch_launches, hquiet, List.mem_append, List.mem_singleton] at hl
      rcases hl with hl | rfl
      · exact h.band hnow l hl
      · exact inLaunchBand_of_le hx.guard_le_start (hband hnow) (htimely.start hran)

/-- A timely run launches every close that ends in it. -/
theorem Covers.run {boot : ℚ} {xs : List PassInputs} (honce : cfg.once = false)
    (hgrace : 0 ≤ cfg.watchdogGraceS ∧ cfg.watchdogGraceS ≤ 3000) (h : Covers cfg boot s t)
    (hxs : AllAlong (fun (w : ℚ × Supervisor) x => (x.ended, w.2.pass cfg x))
      (fun w x => w.1 ≤ x.arrived ∧ Ordered x ∧ Timely cfg w.2 w.1 x) (t, s) xs) :
    Covers cfg boot (xs.foldl (Supervisor.pass cfg) s) (xs.foldl (fun _ x => x.ended) t) := by
  induction xs generalizing s t with
  | nil => exact h
  | cons x xs ih =>
    obtain ⟨⟨ht, hx, htimely⟩, hrest⟩ := hxs
    exact ih (h.pass honce hgrace ht hx htimely) hrest

/-- A supervisor whose sleeps return in time and whose own work crosses no full hour launches one
window for every close between its boot and its last reading, each in the twenty minutes before
the close unless it was told to run at once. A child that hangs does not keep it from the next. -/
theorem runs_every_close {xs : List PassInputs} (honce : cfg.once = false)
    (hgrace : 0 ≤ cfg.watchdogGraceS ∧ cfg.watchdogGraceS ≤ 3000) (h : TimelyRun cfg t xs) :
    (∀ c, IsHour c → t < c → c ≤ xs.foldl (fun _ x => x.ended) t →
      ((Supervisor.run cfg xs).launches.map Prod.snd).count c = 1) ∧
      (cfg.runNow = false →
        ∀ l ∈ (Supervisor.run cfg xs).launches, l.2 - 1200 ≤ l.1 ∧ l.1 < l.2) := by
  have hboot : Covers cfg t .boot t := by
    refine ⟨onePerClose_boot t, rfl, ?_, ?_⟩
    · intro c _ hfrom hto
      linarith
    · simp [Supervisor.boot, Supervisor.launches]
  have hend := hboot.run honce hgrace h
  constructor
  · intro c hc hfrom hto
    apply List.count_eq_one_of_mem
    · exact hend.once.increasing.imp ne_of_lt
    · exact hend.all c hc hfrom hto
  · intro hnow l hl
    rw [hend.once.windows l hl]
    exact ⟨inLaunchBand_iff.mp (hend.band hnow l hl), lt_nextTop _⟩

end Every

/-! ### A sample -/

instance (x : PassInputs) : Decidable (Ordered x) :=
  decidable_of_iff (x.arrived ≤ x.woke ∧ x.woke ≤ x.guard ∧ x.guard ≤ x.again ∧
      x.again ≤ x.wake ∧ x.wake ≤ x.start ∧ x.start ≤ x.ended)
    ⟨fun ⟨h1, h2, h3, h4, h5, h6⟩ => ⟨h1, h2, h3, h4, h5, h6⟩,
      fun ⟨h1, h2, h3, h4, h5, h6⟩ => ⟨h1, h2, h3, h4, h5, h6⟩⟩

instance (s : Supervisor) (x : PassInputs) : Decidable (AlreadyRun s x) :=
  inferInstanceAs (Decidable (_ ∧ _))

instance (t : ℚ) (polls : List ChildPoll) : Decidable (PacedPolls t polls) :=
  inferInstanceAs (Decidable (AllAlong _ _ _ _))

instance (t : ℚ) (xs : List PassInputs) : Decidable (NeverBack t xs) :=
  inferInstanceAs (Decidable (AllAlong _ _ _ _))

/-- A child that is polled every minute from its start and never exits. -/
def hangingPolls (start : ℚ) (n : ℕ) : List ChildPoll :=
  (List.range n).map fun k => ⟨none, false, start + 60 * (k + 1)⟩

/-- A run over three hours from ten past. The first child exits early and is not launched again,
the second hangs until the watchdog ends it, and the third has the next close. -/
def threeHours : List PassInputs :=
  [{ arrived := 600, stopAsleep := false, woke := 2401, guard := 2401, stopAgain := false,
     again := 2401, wake := 2402, start := 2402, polls := [⟨some 1, false, 2403⟩],
     reaping := ⟨none, none⟩, final := 0, ended := 2403 },
   { arrived := 2404, stopAsleep := false, woke := 2404, guard := 2404, stopAgain := false,
     again := 6000, wake := 6000, start := 6000, polls := [], reaping := ⟨none, none⟩, final := 0,
     ended := 6000 },
   { arrived := 6001, stopAsleep := false, woke := 6001, guard := 6001, stopAgain := false,
     again := 6001, wake := 6002, start := 6002, polls := hangingPolls 6002 22,
     reaping := ⟨none, some (-9)⟩, final := 0, ended := 7332 },
   { arrived := 7333, stopAsleep := false, woke := 9601, guard := 9601, stopAgain := false,
     again := 9601, wake := 9602, start := 9602, polls := [⟨some 0, false, 9603⟩],
     reaping := ⟨none, none⟩, final := 0, ended := 9603 },
   { arrived := 9604, stopAsleep := false, woke := 9604, guard := 9604, stopAgain := false,
     again := 13200, wake := 13200, start := 13200, polls := [], reaping := ⟨none, none⟩,
     final := 0, ended := 13200 }]

/-- Three hours of the sample run three closes, each once. -/
theorem one_run_per_close_sample :
    ((Supervisor.run ⟨false, false, 120⟩ threeHours).launches.map Prod.snd).Pairwise (· < ·) :=
  (one_run_per_close (show NeverBack 600 threeHours by decide +kernel)).1

/-- The sample passes are timely, the first of them with a child that hangs. -/
theorem timelyRun_threeHours : TimelyRun ⟨false, false, 120⟩ 600 threeHours := by
  refine ⟨⟨by decide +kernel, by decide +kernel, ?_⟩, ⟨by decide +kernel, by decide +kernel, ?_⟩,
    ⟨by decide +kernel, by decide +kernel, ?_⟩, ⟨by decide +kernel, by decide +kernel, ?_⟩,
    ⟨by decide +kernel, by decide +kernel, ?_⟩, trivial⟩
  · constructor <;> decide +kernel
  · constructor <;> decide +kernel
  · constructor <;> decide +kernel
  · constructor <;> decide +kernel
  · constructor <;> decide +kernel

/-- The hanging child has its close, and so has the one after it. -/
theorem runs_every_close_sample :
    Deed.childWatchdogKilled 6002 (some (-9)) ∈
        (Supervisor.run ⟨false, false, 120⟩ threeHours).deeds ∧
      ((Supervisor.run ⟨false, false, 120⟩ threeHours).launches.map Prod.snd).count 7200 = 1 ∧
      ((Supervisor.run ⟨false, false, 120⟩ threeHours).launches.map Prod.snd).count 10800 = 1 := by
  obtain ⟨hall, -⟩ := @runs_every_close ⟨false, false, 120⟩ 600 threeHours rfl
    ⟨by norm_num, by norm_num⟩ timelyRun_threeHours
  exact ⟨by decide +kernel, hall 7200 ⟨2, by norm_num⟩ (by norm_num) (by decide +kernel),
    hall 10800 ⟨3, by norm_num⟩ (by norm_num) (by decide +kernel)⟩

end Pilot.Host
