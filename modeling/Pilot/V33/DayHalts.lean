import Pilot.V33.GuardLaw
import Pilot.V33.Runs

/-!
# What halts the day

The windows of a day record one-legged stops only, one for each window, and never a day loss.
So the guards of a day are never corrupt by the windows' doing, they count one-legged windows,
and what a later window reads of the account's loss decides anew whether it arms.
-/

namespace Pilot.V33

/-! ### What the windows record -/

section Records

variable {utcDay : String} {file : GuardFile}

/-- The day loss is evaluated without touching the stops. -/
theorem readDayGuard_evaluateS4 (w : Wake) :
    (readDayGuard (evaluateS4 file utcDay w).2 utcDay).corrupt =
        (readDayGuard file utcDay).corrupt ∧
      (readDayGuard (evaluateS4 file utcDay w).2 utcDay).latched =
        (readDayGuard file utcDay).latched := by
  cases hbalance : w.balance.bind parseBalance with
  | none => simp [evaluateS4, hbalance]
  | some balanceNow =>
    have hkept := @readDayGuard_ensureBalanceStart file utcDay balanceNow
    simp only [evaluateS4, hbalance]
    split_ifs with hcorrupt hunwritable
    · exact ⟨rfl, rfl⟩
    · exact ⟨rfl, rfl⟩
    · cases (ensureBalanceStart file utcDay balanceNow).1 <;>
        cases w.pendingCredit utcDay <;> exact hkept

/-- The event ends a window of the roster that records a one-legged stop. -/
def recordsFor (r : Roster) : DayEvent → Bool
  | .wake _ _ => false
  | .close r' f => decide (r' = r) && f.records

/-- The one-legged contracts of the window of the roster that the event ends. -/
def contractsFor (r : Roster) : DayEvent → ℚ
  | .wake _ _ => 0
  | .close r' f => if r' = r then f.oneLeggedContracts else 0

/-- The windows of a roster that have recorded a one-legged stop. -/
def recordedWindows (r : Roster) (events : List DayEvent) : ℕ := events.countP (recordsFor r)

/-- The one-legged contracts of a roster. -/
def leggedContracts (r : Roster) (events : List DayEvent) : ℚ :=
  (events.map (contractsFor r)).sum

/-- The guard can be trusted and holds no day loss, and `n` one-legged stops. -/
structure GuardCounts (utcDay : String) (file : GuardFile) (n : ℕ) : Prop where
  sound : (readDayGuard file utcDay).corrupt = false
  noDayLoss : guardHasS4Latch (readDayGuard file utcDay) = false
  legged : countLegged (readDayGuard file utcDay) = n

/-- The day begins with no stop. -/
theorem guardCounts_missing : GuardCounts utcDay .missing 0 := ⟨rfl, rfl, rfl⟩

/-- A guard that counts some one-legged stops halts the day from the threshold on. -/
theorem GuardCounts.halts_iff {n thr : ℕ} (h : GuardCounts utcDay file n) :
    v33LatchedStopKind (readDayGuard file utcDay) thr ≠ none ↔ thr ≤ n := by
  rw [ne_eq, v33LatchedStopKind_eq_none, h.noDayLoss, h.legged]
  simp

/-- Evaluating the day loss keeps the counts. -/
theorem GuardCounts.evaluateS4 {n : ℕ} (h : GuardCounts utcDay file n) (w : Wake) :
    GuardCounts utcDay (evaluateS4 file utcDay w).2 n := by
  obtain ⟨hcorrupt, hlatched⟩ := @readDayGuard_evaluateS4 utcDay file w
  constructor
  · rw [hcorrupt]
    exact h.sound
  · rw [guardHasS4Latch, hlatched]
    exact h.noDayLoss
  · rw [countLegged, hlatched]
    exact h.legged

/-- A window that records adds one stop, whatever its contracts. -/
theorem GuardCounts.recordFinished {n : ℕ} (h : GuardCounts utcDay file n) (f : Finished) :
    GuardCounts utcDay (recordFinished file utcDay f) (n + if f.records then 1 else 0) := by
  unfold V33.recordFinished
  split_ifs with hrecords
  · have hread := @readDayGuard_recordLatchedStop file utcDay
      ⟨.s1Legged, "ladder set left one-legged below lock floor (reconciled against executor truth)",
        some f.closeTime, f.ts⟩
    have hloss := h.noDayLoss
    have hcount := h.legged
    rw [guardHasS4Latch] at hloss
    rw [countLegged] at hcount
    rw [h.sound] at hread
    constructor
    · rw [recordLeggedOccurrence, hread]
    · simp [recordLeggedOccurrence, hread, guardHasS4Latch, hloss]
    · simp [recordLeggedOccurrence, hread, countLegged, hcount]
  · exact h

/-- An event adds the one-legged stop its window records. -/
theorem GuardCounts.dayStep {s : DayState} {r : Roster} {n : ℕ}
    (h : GuardCounts utcDay (s.guard r) n) (e : DayEvent) :
    GuardCounts utcDay ((dayStep utcDay s e).guard r) (n + if recordsFor r e then 1 else 0) := by
  by_cases hr : r = e.roster
  · subst hr
    rw [dayStep_guard_roster]
    cases e with
    | wake r w =>
      by_cases hmode : w.inputs.resolvedMode = .armed
      · simpa [guardAfter, recordsFor, hmode, DayEvent.roster] using h.evaluateS4 w
      · simpa [guardAfter, recordsFor, hmode, DayEvent.roster] using h
    | close r f => simpa [guardAfter, recordsFor, DayEvent.roster] using h.recordFinished f
  · rw [dayStep_guard_of_ne utcDay s hr]
    have hcount : recordsFor r e = false := by
      cases e with
      | wake r' w => rfl
      | close r' f => simp [recordsFor, show r' ≠ r from fun heq => hr heq.symm]
    rw [hcount]
    exact h

/-- On a day a guard counts the windows of its roster that recorded. -/
theorem GuardCounts.run {ok : DayState → DayEvent → Prop} {s s' : DayState} {r : Roster} {n : ℕ}
    {events : List DayEvent} (hrun : Fed (V33.dayStep utcDay) ok s events s')
    (h : GuardCounts utcDay (s.guard r) n) :
    GuardCounts utcDay (s'.guard r) (n + recordedWindows r events) := by
  induction hrun generalizing n with
  | nil => exact h
  | @cons s s' e events _ _ ih =>
    have hrest := ih (h.dayStep e)
    rw [recordedWindows, List.countP_cons, Nat.add_comm (events.countP _), ← Nat.add_assoc]
    exact hrest

end Records

/-! ### One-legged contracts -/

/-- The guard of a roster is latched, and no later window of the roster arms that day. -/
def HaltedFor (utcDay : String) (s : DayState) (r : Roster) : Prop :=
  v33LatchedStopKind (readDayGuard (s.guard r) utcDay) r.spec.s1LatchThreshold ≠ none ∧
    ∀ later s', Fed (dayStep utcDay) dayAllows s later s' →
      ∀ w, (resolveArming s'.guard utcDay r w).armed = false

/-- A guard at its threshold halts the roster for the rest of the day. -/
theorem haltedFor_iff {utcDay : String} {s : DayState} {r : Roster} {n : ℕ}
    (h : GuardCounts utcDay (s.guard r) n) :
    HaltedFor utcDay s r ↔ r.spec.s1LatchThreshold ≤ n := by
  constructor
  · intro halted
    exact h.halts_iff.mp halted.1
  · intro hthr
    refine ⟨h.halts_iff.mpr hthr, fun later s' hrun w => ?_⟩
    have hlater := h.run hrun
    have hlatched := hlater.halts_iff.mpr (hthr.trans (Nat.le_add_right _ _))
    rw [← Bool.not_eq_true, resolveArming_armed]
    rintro ⟨-, hnone⟩
    exact hlatched (refusals_eq_nil.mp hnone).1.2

/-- One-legged contracts at the threshold halt the roster, exactly if as many windows have
recorded a one-legged stop by then. -/
theorem legged_contracts_halt_iff {utcDay : String} {s : DayState} {events : List DayEvent}
    (hday : Fed (dayStep utcDay) dayAllows .fresh events s) (r : Roster) :
    ((r.spec.s1LatchThreshold : ℚ) ≤ leggedContracts r events → HaltedFor utcDay s r) ↔
      ((r.spec.s1LatchThreshold : ℚ) ≤ leggedContracts r events →
        r.spec.s1LatchThreshold ≤ recordedWindows r events) := by
  have hcounts := (@guardCounts_missing utcDay).run (r := r) hday
  rw [haltedFor_iff hcounts, Nat.zero_add]

/-- A candidate that reads some dollars on the account. -/
def sampleWake (dollars : ℤ) : Wake where
  inputs := openInputs
  balance := some ⟨some dollars, some (100 * dollars)⟩
  ledger := some []
  siblingLedger := none
  guardWritable := true

/-- A window that ends with two filled rungs of three lots and no wing. -/
def sixNaked : Finished where
  closeTime := "2026-10-17T20:00:00Z"
  observed := [{ count := 3, coid := some "c-1", orderId := some "v1" },
    { count := 3, coid := some "c-2", orderId := some "v2" }]
  executor := none
  venue := []
  core := sampleWindow samplePolicy
  liveRaised := false
  truthRaised := false
  guardWritable := true
  ts := 0

/-- An armed window that ends one-legged. -/
def leggedDay : List DayEvent := [.wake .btc (sampleWake 100), .close .btc sixNaked]

theorem fed_leggedDay : Fed (dayStep "2026-10-17") dayAllows .fresh leggedDay
    (leggedDay.foldl (dayStep "2026-10-17") .fresh) :=
  fed_of_allAlong (by decide +kernel)

/-- At the end of the window six contracts are one-legged and one stop is recorded. -/
theorem legged_contracts_halt_sample :
    (6 ≤ leggedContracts .btc leggedDay →
        HaltedFor "2026-10-17" (leggedDay.foldl (dayStep "2026-10-17") .fresh) .btc) ↔
      (6 ≤ leggedContracts .btc leggedDay → 6 ≤ recordedWindows .btc leggedDay) :=
  legged_contracts_halt_iff fed_leggedDay .btc

/-- Six contracts of one window leave the day open. -/
theorem six_contracts_do_not_halt :
    ¬(6 ≤ leggedContracts .btc leggedDay →
      HaltedFor "2026-10-17" (leggedDay.foldl (dayStep "2026-10-17") .fresh) .btc) := by
  intro h
  have halted := h (by decide +kernel)
  exact absurd (halted.2 [] _ (Fed.nil _) (sampleWake 100)) (by decide +kernel)

/-! ### The day loss -/

/-- The verdict is clear exactly if the loss stays below the cap, whichever end of the credit
is paid. -/
theorem v33S4Decision_clear {start balance : ℚ} {credit : ℚ × ℚ} :
    (v33S4Decision start balance credit).kind = .clear ↔
      start - balance - min credit.1 credit.2 < v33S4DayLossCapDollars := by
  have hpess : start - (balance + credit.1) = start - balance - credit.1 := by ring
  have hopt : start - (balance + credit.1 + (credit.2 - credit.1)) =
      start - balance - credit.2 := by ring
  simp only [v33S4Decision, s4BalanceDecision, hpess, hopt]
  rcases le_total credit.1 credit.2 with hle | hle
  · rw [min_eq_left hle]
    split_ifs with hlatch hclear
    · simp only [false_iff, not_lt]
      linarith
    · simpa using hclear
    · simpa using hclear
  · rw [min_eq_right hle]
    split_ifs with hlatch hclear
    · simpa using hlatch
    · simpa using hlatch
    · simp only [false_iff, not_lt]
      linarith

/-- A waking window reads the balance, the ledger and a baseline, and the account is short of
the baseline by the cap with the least of the pending credit paid. -/
def LossStands (utcDay : String) (file : GuardFile) (w : Wake) : Prop :=
  ∃ balance credit, w.balance.bind parseBalance = some balance ∧
    w.pendingCredit utcDay = some credit ∧
      ((readDayGuard file utcDay).balanceStart.isSome ∨ w.guardWritable) ∧
        v33S4DayLossCapDollars ≤
          (readDayGuard file utcDay).balanceStart.getD balance - balance -
            min credit.1 credit.2

/-- The day loss refuses a candidate with a sound guard exactly if the loss stands. -/
theorem evaluateS4_clear {utcDay : String} {file : GuardFile} {w : Wake}
    (hsound : (readDayGuard file utcDay).corrupt = false) :
    (∀ d, (evaluateS4 file utcDay w).1 = some d → d.kind = .clear) ↔
      ¬LossStands utcDay file w := by
  unfold LossStands
  cases hbalance : w.balance.bind parseBalance with
  | none => simp [evaluateS4, hbalance]
  | some balance =>
    cases hcredit : w.pendingCredit utcDay with
    | none =>
      simp only [evaluateS4, hbalance, hcredit, hsound]
      split_ifs <;> simp
    | some credit =>
      cases hstart : (readDayGuard file utcDay).balanceStart with
      | some start =>
        have hclear := @v33S4Decision_clear start balance credit
        simp [evaluateS4, ensureBalanceStart, hbalance, hcredit, hsound, hstart, hclear]
      | none =>
        -- The first balance of the day becomes the baseline, if it can be written.
        have hclear := @v33S4Decision_clear balance balance credit
        cases hwritable : w.guardWritable with
        | false => simp [evaluateS4, hbalance, hsound, hstart, hwritable]
        | true =>
          simp [evaluateS4, ensureBalanceStart, hbalance, hcredit, hsound, hstart, hwritable,
            hclear]


/-- The event is the wake of a candidate whose verdict is that the day loss has latched. -/
def s4Latches (utcDay : String) (s : DayState) : DayEvent → Bool
  | .wake r w =>
    decide (w.inputs.resolvedMode = .armed) &&
      decide ((evaluateS4 (s.guard r) utcDay w).1.map S4Decision.kind = some .latch)
  | .close _ _ => false

/-- The day, and whether a window's verdict has been that the day loss latched. -/
def watchS4 (utcDay : String) (g : DayState × Bool) (e : DayEvent) : DayState × Bool :=
  (dayStep utcDay g.1 e, g.2 || s4Latches utcDay g.1 e)

/-- The event is the wake of a candidate that its roster's one-legged stops, the parameters,
the venue and the positions all let pass. -/
def OtherGatesPass (utcDay : String) (s : DayState) : DayEvent → Prop
  | .wake r w => w.inputs.resolvedMode = .armed ∧
      countLegged (readDayGuard (s.guard r) utcDay) < r.spec.s1LatchThreshold ∧
        v33ArmingCheck w.inputs = [] ∧
          reconcilePositionsClean w.inputs.positions r.spec.positionPrefix = none
  | .close _ _ => False

/-- The event is the wake of a window that still reads the loss. -/
def StillLost (utcDay : String) (s : DayState) : DayEvent → Prop
  | .wake r w => LossStands utcDay (s.guard r) w
  | .close _ _ => False

/-- The guards can be trusted and hold no day loss. -/
def NoDayLoss (utcDay : String) (s : DayState) : Prop :=
  ∀ r, ∃ n, GuardCounts utcDay (s.guard r) n

/-- No event of the day records a day loss. -/
theorem NoDayLoss.dayStep {utcDay : String} {s : DayState} (h : NoDayLoss utcDay s)
    (e : DayEvent) : NoDayLoss utcDay (dayStep utcDay s e) := by
  intro r
  obtain ⟨n, hn⟩ := h r
  exact ⟨_, hn.dayStep e⟩

/-- On such a day a window arms exactly if the other gates let it pass and the loss no longer
stands. -/
theorem NoDayLoss.arms_iff {utcDay : String} {s : DayState} (h : NoDayLoss utcDay s)
    (e : DayEvent) :
    arms utcDay s e = true ↔ OtherGatesPass utcDay s e ∧ ¬StillLost utcDay s e := by
  cases e with
  | close r f => simp [arms, OtherGatesPass]
  | wake r w =>
    obtain ⟨n, hn⟩ := h r
    obtain ⟨m, hm⟩ := h r.sibling
    have hlatched := @v33LatchedStopKind_eq_none (readDayGuard (s.guard r) utcDay)
      r.spec.s1LatchThreshold
    have hloss := evaluateS4_clear (w := w) hn.sound
    rw [arms, resolveArming_armed, refusals_eq_nil, hloss, hlatched]
    simp only [OtherGatesPass, StillLost, hn.sound, hn.noDayLoss, hm.noDayLoss, true_and]
    tauto

/-- After a latched verdict no window of either roster arms, exactly if every later candidate
that the other gates let pass still reads the loss. -/
theorem s4_halts_day_iff (utcDay : String) (events : List DayEvent) :
    AllAlong (watchS4 utcDay) (fun g e => g.2 = true → arms utcDay g.1 e = false)
        (.fresh, false) events ↔
      AllAlong (watchS4 utcDay) (fun g e => g.2 = true → OtherGatesPass utcDay g.1 e →
        StillLost utcDay g.1 e) (.fresh, false) events := by
  refine allAlong_congr (I := fun g => NoDayLoss utcDay g.1) (fun g e h => h.dayStep e)
    (fun g e h => ?_) fun r => ⟨0, guardCounts_missing⟩
  have harms := h.arms_iff e
  rw [← Bool.not_eq_true, harms]
  tauto

/-- The account loses six dollars, a verdict latches the day loss, two dollars come back and
the other roster arms. -/
theorem s4_latch_is_forgotten :
    ¬AllAlong (watchS4 "2026-10-17")
      (fun g e => g.2 = true → arms "2026-10-17" g.1 e = false) (.fresh, false)
      [.wake .btc (sampleWake 100), .wake .eth (sampleWake 100), .wake .btc (sampleWake 94),
        .wake .eth (sampleWake 96)] := by
  decide +kernel

end Pilot.V33
