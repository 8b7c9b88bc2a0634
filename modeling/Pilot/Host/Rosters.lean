import Pilot.Host.SupervisorLaw

/-!
# Rosters under one supervisor

The multi-roster supervisor does for each of its rosters what a supervisor of that roster alone
does: no roster's child, however it ends, changes what another roster is launched for.
-/

namespace Pilot.Host

/-! ### One roster's view -/

/-- The deeds of the loop and of one roster. -/
def deedOf (r : Roster) (e : Option Roster × Deed) : Option Deed :=
  if e.1 = none ∨ e.1 = some r then some e.2 else none

/-- The loop as one roster sees it. -/
def MultiRosterSupervisor.of (s : MultiRosterSupervisor) (r : Roster) : Supervisor :=
  ⟨s.first, s.lastCloseRun r, s.exitCode, s.deeds.filterMap (deedOf r)⟩

/-- A round of the wait as one roster's child answers in it. -/
def Round.of (round : Round) (r : Roster) : ChildPoll :=
  ⟨round.exit r, round.stopRequested, round.clock⟩

/-- The inputs of a pass as one roster sees them. -/
def MultiInputs.of (x : MultiInputs) (r : Roster) : PassInputs :=
  { x.toReadings with
    wake := x.start
    polls := x.rounds.map fun round => round.of r
    reaping := x.reaping r
    final := x.final r
    ended := x.ended r }

/-! ### The wait for the children -/

section Wait

variable {r : Roster} {g : Roster → ChildEnd}

/-- The end of a child is found when it was waited for. -/
theorem find?_ends (l : List Roster) :
    (l.map fun q => (q, g q)).find? (fun e => e.1 = r) = if r ∈ l then some (r, g r) else none := by
  induction l with
  | nil => rfl
  | cons q l ih =>
    rw [List.map_cons, List.find?_cons]
    by_cases hq : q = r
    · simp [hq]
    · simp [hq, ih, Ne.symm hq]

/-- Each child ends as it would if it were waited for alone. -/
theorem endOf_waitChildren {deadline : Roster → ℚ} {reaping : Roster → Reaping}
    {final : Roster → ℤ} {rounds : List Round} {pending : List Roster} (hr : r ∈ pending) :
    endOf (waitChildren deadline reaping final rounds pending).1 r =
      waitChild (deadline r) (reaping r) (final r) (rounds.map fun round => round.of r) := by
  suffices hfind : (waitChildren deadline reaping final rounds pending).1.find?
      (fun e => e.1 = r) =
        some (r, waitChild (deadline r) (reaping r) (final r)
          (rounds.map fun round => round.of r)) by
    rw [endOf, hfind]
    rfl
  induction rounds generalizing pending with
  | nil =>
    simp only [waitChildren, find?_ends, if_pos hr]
    rfl
  | cons round rounds ih =>
    have hexited := @find?_ends r (fun q => ⟨round.exit q, .exited, []⟩)
      (pending.filter fun q => (round.exit q).isSome)
    unfold waitChildren
    dsimp only
    cases hexit : round.exit r with
    | some rc =>
      rw [if_pos (by simp [hr, hexit]), hexit] at hexited
      simp only [List.map_cons, waitChild, Round.of, hexit]
      split_ifs
      · exact hexited
      · rw [List.find?_append, hexited]
        rfl
      · rw [List.append_assoc, List.find?_append, hexited]
        rfl
    | none =>
      rw [if_neg (by simp [hexit])] at hexited
      have hpending : r ∈ pending.filter fun q => (round.exit q).isNone := by
        simp [hr, hexit]
      simp only [List.map_cons, waitChild, Round.of, hexit]
      rw [if_neg (List.ne_nil_of_mem hpending)]
      split_ifs with hstop hlate
      · rw [List.find?_append, hexited, find?_ends, if_pos hpending]
        rfl
      · rw [List.append_assoc, List.find?_append, hexited, List.find?_append, find?_ends,
          if_pos (by simp [hr, hexit, hlate])]
        rfl
      · rw [List.append_assoc, List.find?_append, hexited, List.find?_append, find?_ends,
          if_neg (by simp [hlate])]
        apply ih
        simpa [hr, hexit] using hlate

/-- Without a stop request the wait ends by itself. -/
theorem waitChildren_unstopped {deadline : Roster → ℚ} {reaping : Roster → Reaping}
    {final : Roster → ℤ} {rounds : List Round} {pending : List Roster}
    (h : ∀ round ∈ rounds, round.stopRequested = false) :
    (waitChildren deadline reaping final rounds pending).2 = false := by
  induction rounds generalizing pending with
  | nil => rfl
  | cons round rounds ih =>
    unfold waitChildren
    dsimp only
    rw [h round (by simp), if_neg Bool.false_ne_true]
    split_ifs
    · rfl
    · exact ih fun round hround => h round (by simp [hround])

end Wait

/-! ### The loop -/

section Loop

variable {cfg : SupervisorConfig} {rosters due : List Roster} {s : MultiRosterSupervisor}
  {x : MultiInputs} {r : Roster}

/-- A roster's share of the deeds is those marked with it. -/
theorem of_does (more : List (Option Roster × Deed)) :
    (s.does more).of r = (s.of r).does (more.filterMap (deedOf r)) := by
  unfold MultiRosterSupervisor.does MultiRosterSupervisor.of Supervisor.does
  rw [List.filterMap_append]

/-- A stop of the joint supervisor is a stop of each roster's. -/
theorem of_stop (code : ℤ) : (s.stop code).of r = (s.of r).stop code := rfl

/-- Deeds marked with one roster are its own and no other's. -/
theorem filterMap_deedOf_map (q : Roster) (deeds : List Deed) :
    (deeds.map fun d => (some q, d)).filterMap (deedOf r) = if q = r then deeds else [] := by
  induction deeds with
  | nil => simp
  | cons d deeds ih =>
    rw [List.map_cons, List.filterMap_cons, ih]
    by_cases hq : q = r
    · simp [deedOf, hq]
    · simp [deedOf, hq]

/-- Of the deeds of several rosters one roster sees its own. -/
theorem filterMap_deedOf_flatMap (g : Roster → List Deed) (hnodup : due.Nodup) (hr : r ∈ due) :
    (due.flatMap fun q => (g q).map fun d => (some q, d)).filterMap (deedOf r) = g r := by
  have hnone : ∀ l : List Roster, r ∉ l →
      (l.flatMap fun q => (g q).map fun d => (some q, d)).filterMap (deedOf r) = [] := by
    intro l hl
    induction l with
    | nil => rfl
    | cons q l ih =>
      rw [List.mem_cons, not_or] at hl
      rw [List.flatMap_cons, List.filterMap_append, filterMap_deedOf_map,
        if_neg (Ne.symm hl.1), ih hl.2]
      rfl
  obtain ⟨front, back, rfl⟩ := List.append_of_mem hr
  rw [List.nodup_middle, List.nodup_cons, List.mem_append, not_or] at hnodup
  rw [List.flatMap_append, List.flatMap_cons, List.filterMap_append, List.filterMap_append,
    hnone front hnodup.1.1, hnone back hnodup.1.2, filterMap_deedOf_map, if_pos rfl,
    List.nil_append, List.append_nil]

/-- A launch of several children is for each of them the launch of that child alone. -/
theorem of_launch (hnodup : due.Nodup) (hr : r ∈ due)
    (hstop : ∀ round ∈ x.rounds, round.stopRequested = false) :
    (s.launch cfg due x).of r = (s.of r).launch cfg (x.of r) := by
  have hpolls : ∀ poll ∈ (x.of r).polls, poll.stopRequested = false := by
    intro poll hpoll
    obtain ⟨round, hround, rfl⟩ := List.mem_map.mp hpoll
    exact hstop round hround
  have hends := fun deadline : Roster → ℚ =>
    @endOf_waitChildren r deadline x.reaping x.final x.rounds due hr
  have hspawns := @filterMap_deedOf_flatMap due r
    (fun _ => [.rotate, .spawn x.start (nextTopOfHourEpoch x.start)]) hnodup hr
  have hwindows := fun ends => @filterMap_deedOf_flatMap due r
    (fun q => windowRecords x.start (x.ended q - x.start) (endOf ends q)) hnodup hr
  unfold MultiRosterSupervisor.launch Supervisor.launch
  dsimp only
  rw [waitChildren_unstopped hstop, if_neg Bool.false_ne_true,
    if_neg (waitChild_status_ne hpolls)]
  have hof : (MultiRosterSupervisor.of { s with
      lastCloseRun := fun q =>
        if q ∈ due then some (nextTopOfHourEpoch x.start) else s.lastCloseRun q } r) =
      { s.of r with lastCloseRun := some (nextTopOfHourEpoch (x.of r).start) } := by
    unfold MultiRosterSupervisor.of
    simp only [if_pos hr]
    rfl
  split_ifs
  · rw [of_stop, of_does, of_does, hwindows, hends, hof]
    simp only [List.map_cons, List.map_nil] at hspawns
    rw [hspawns]
    simp [Supervisor.does, MultiInputs.of]
  · rw [of_does, of_does, hwindows, hends, hof]
    simp only [List.map_cons, List.map_nil] at hspawns
    rw [hspawns]
    simp [Supervisor.does, MultiInputs.of]

/-- All rosters were last launched for the same close. -/
def Together (rosters : List Roster) (s : MultiRosterSupervisor) : Prop :=
  ∀ q ∈ rosters, ∀ r ∈ rosters, s.lastCloseRun q = s.lastCloseRun r

/-- Rosters that were launched together are due together. -/
theorem Together.due_eq (h : Together rosters s) (hr : r ∈ rosters) (now : ℚ) :
    s.due rosters now =
      if inLaunchBand now = true ∧ s.lastCloseRun r = some (nextTopOfHourEpoch now) then []
      else rosters := by
  unfold MultiRosterSupervisor.due
  split_ifs with hran
  · rw [List.filter_eq_nil_iff]
    intro q hq
    rw [h q hq r hr]
    simp [hran]
  · rw [List.filter_eq_self]
    intro q hq
    rw [h q hq r hr]
    exact decide_eq_true hran

/-- A launch of due rosters keeps the rosters together. -/
theorem launch_together (h : ∀ q ∈ rosters, q ∈ due) :
    Together rosters (s.launch cfg due x) := by
  have hlast : (s.launch cfg due x).lastCloseRun =
      fun q => if q ∈ due then some (nextTopOfHourEpoch x.start) else s.lastCloseRun q := by
    unfold MultiRosterSupervisor.launch
    dsimp only
    split_ifs <;> rfl
  intro q hq r hr
  rw [hlast]
  dsimp only
  rw [if_pos (h q hq), if_pos (h r hr)]

/-- A close of the joint supervisor is a close of each roster's supervisor. -/
theorem of_oncePerClose (hnodup : rosters.Nodup) (h : Together rosters s) (hr : r ∈ rosters)
    (hstop : ∀ round ∈ x.rounds, round.stopRequested = false) :
    (s.oncePerClose cfg rosters x).of r = (s.of r).oncePerClose cfg (x.of r) ∧
      Together rosters (s.oncePerClose cfg rosters x) := by
  have hne : rosters ≠ [] := List.ne_nil_of_mem hr
  have hshared : ∀ d : Deed, [((none : Option Roster), d)].filterMap (deedOf r) = [d] :=
    fun d => by simp [deedOf]
  unfold MultiRosterSupervisor.oncePerClose Supervisor.oncePerClose
  dsimp only
  rw [h.due_eq hr]
  by_cases hran : inLaunchBand x.guard = true ∧
      s.lastCloseRun r = some (nextTopOfHourEpoch x.guard)
  · have hran' : inLaunchBand (x.of r).guard = true ∧
        (s.of r).lastCloseRun = some (nextTopOfHourEpoch (x.of r).guard) := hran
    rw [if_pos hran, if_pos rfl, if_pos hran']
    constructor
    · change MultiRosterSupervisor.of (if x.stopAgain = true then _ else _) r =
        if x.stopAgain = true then _ else _
      split_ifs
      · rw [of_stop, of_does, of_does, hshared, hshared]
        rfl
      · rw [of_does, hshared]
        rfl
    · split_ifs <;> exact h
  · have hran' : ¬(inLaunchBand (x.of r).guard = true ∧
        (s.of r).lastCloseRun = some (nextTopOfHourEpoch (x.of r).guard)) := hran
    rw [if_neg hran, if_neg hne, if_neg hran']
    exact ⟨of_launch hnodup hr hstop, launch_together fun q hq => hq⟩

/-- A pass without a stop of its children looks to each roster like a pass of its own. -/
theorem of_pass (hnodup : rosters.Nodup) (h : Together rosters s) (hr : r ∈ rosters)
    (hstop : ∀ round ∈ x.rounds, round.stopRequested = false) :
    (s.pass cfg rosters x).of r = (s.of r).pass cfg (x.of r) ∧
      Together rosters (s.pass cfg rosters x) := by
  have hshared : ∀ d : Deed, [((none : Option Roster), d)].filterMap (deedOf r) = [d] :=
    fun d => by simp [deedOf]
  have hasleep := @of_does { s with first := false } r
    [(none, .sleep x.arrived (nextForty x.arrived))]
  rw [hshared] at hasleep
  unfold MultiRosterSupervisor.pass Supervisor.pass
  by_cases hexit : s.exitCode.isSome = true
  · have hexit' : (s.of r).exitCode.isSome = true := hexit
    rw [if_pos hexit, if_pos hexit']
    exact ⟨rfl, h⟩
  have hexit' : ¬(s.of r).exitCode.isSome = true := hexit
  rw [if_neg hexit, if_neg hexit']
  by_cases hband : (s.first && cfg.runNow || inLaunchBand x.arrived) = true
  · have hband' : ((s.of r).first && cfg.runNow || inLaunchBand (x.of r).arrived) = true := hband
    rw [if_pos hband, if_pos hband']
    exact @of_oncePerClose cfg rosters { s with first := false } x r hnodup h hr hstop
  have hband' : ¬((s.of r).first && cfg.runNow || inLaunchBand (x.of r).arrived) = true := hband
  rw [if_neg hband, if_neg hband']
  dsimp only
  by_cases hinterrupted : x.stopAsleep = true
  · have hinterrupted' : (x.of r).stopAsleep = true := hinterrupted
    rw [if_pos hinterrupted, if_pos hinterrupted', of_stop, of_does, hasleep, hshared]
    exact ⟨rfl, h⟩
  have hinterrupted' : ¬(x.of r).stopAsleep = true := hinterrupted
  rw [if_neg hinterrupted, if_neg hinterrupted']
  by_cases hlate : (!inLaunchBand x.woke) = true
  · have hlate' : (!inLaunchBand (x.of r).woke) = true := hlate
    rw [if_pos hlate, if_pos hlate', of_does, hasleep, hshared]
    exact ⟨rfl, h⟩
  have hlate' : ¬(!inLaunchBand (x.of r).woke) = true := hlate
  rw [if_neg hlate, if_neg hlate']
  have honce := @of_oncePerClose cfg rosters ({ s with first := false }.does
    [(none, .sleep x.arrived (nextForty x.arrived))]) x r hnodup h hr hstop
  rw [hasleep] at honce
  exact honce

/-- No roster is listed twice once duplicates are erased. -/
theorem nodup_eraseDups (l : List Roster) : l.eraseDups.Nodup := by
  induction hn : l.length using Nat.strong_induction_on generalizing l with
  | _ n ih =>
    cases l with
    | nil => simp
    | cons a l =>
      rw [List.eraseDups_cons, List.nodup_cons]
      have hshort : (l.filter fun b => !b == a).length < n := by
        have := List.length_filter_le (fun b => !b == a) l
        rw [List.length_cons] at hn
        omega
      refine ⟨?_, ih _ hshort _ rfl⟩
      intro hmem
      rw [List.mem_eraseDups, List.mem_filter] at hmem
      simp at hmem

/-- The known rosters are listed once each. -/
theorem nodup_knownRosters (names : List String) : (knownRosters names).Nodup := by
  unfold knownRosters
  dsimp only
  split_ifs
  · decide
  · exact nodup_eraseDups _

/-- Until a stop reaches the children, each roster of the multi-roster supervisor gets the sleeps,
the rotations, the launches, the watchdog kills and the exit code of a supervisor of its own. -/
theorem rosters_run_apart {names : List String} {xs : List MultiInputs}
    (hr : r ∈ knownRosters names)
    (hstop : ∀ x ∈ xs, ∀ round ∈ x.rounds, round.stopRequested = false) :
    (MultiRosterSupervisor.run cfg (knownRosters names) xs).of r =
      Supervisor.run cfg (xs.map fun x => x.of r) := by
  have hsteps : ∀ (xs : List MultiInputs) (s : MultiRosterSupervisor),
      (∀ x ∈ xs, ∀ round ∈ x.rounds, round.stopRequested = false) →
        Together (knownRosters names) s →
          (xs.foldl (MultiRosterSupervisor.pass cfg (knownRosters names)) s).of r =
            (xs.map fun x => x.of r).foldl (Supervisor.pass cfg) (s.of r) := by
    intro xs
    induction xs with
    | nil => exact fun _ _ _ => rfl
    | cons x xs ih =>
      intro s hstop h
      obtain ⟨hof, htogether⟩ := @of_pass cfg (knownRosters names) s x r
        (nodup_knownRosters names) h hr (hstop x (by simp))
      rw [List.foldl_cons, List.map_cons, List.foldl_cons, ← hof]
      exact ih _ (fun x hx => hstop x (by simp [hx])) htogether
  exact hsteps xs .boot hstop fun _ _ _ _ => rfl

end Loop

/-- One hour of both ladders: one child exits early, the other after a second round of polls. -/
def oneHour : MultiInputs where
  arrived := 2401
  stopAsleep := false
  woke := 2401
  guard := 2401
  stopAgain := false
  again := 2401
  start := 2402
  rounds := [⟨fun r => if r = .v33Eth then some 1 else none, false, 2403⟩]
  reaping := fun _ => ⟨none, none⟩
  final := fun _ => 0
  ended := fun _ => 3610

/-- Two rosters over one close: the second runs as if alone. -/
theorem rosters_run_apart_sample :
    (MultiRosterSupervisor.run ⟨false, false, 120⟩ (knownRosters ["v33", "v33_eth"])
      [oneHour]).of .v33Eth = Supervisor.run ⟨false, false, 120⟩ [oneHour.of .v33Eth] := by
  apply rosters_run_apart
  · decide
  · intro x hx round hround
    obtain rfl := List.mem_singleton.mp hx
    obtain rfl := List.mem_singleton.mp hround
    rfl

end Pilot.Host
