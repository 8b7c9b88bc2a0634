import Pilot.V33.Arming

/-!
# What a guard refuses

A guard that reads corrupt or carries a halting stop refuses every window. The operations on
the guard file keep that, except that a stop recorded into a corrupt file replaces it.
-/

namespace Pilot.V33

/-! ### What the guard operations leave behind -/

section Guard

variable {file : GuardFile} {utcDay : String}

/-- What was written reads back. -/
theorem readDayGuard_writeDayGuard (start : Option ℚ) (entries : List LatchEntry) :
    readDayGuard (writeDayGuard
        { utcDay := utcDay, balanceStart := start, latched := entries }) utcDay =
      { utcDay := utcDay, balanceStart := start, latched := entries, present := true } := by
  simp [readDayGuard, writeDayGuard]

/-- A recorded stop stands last; before it stands what could be read. -/
theorem readDayGuard_recordLatchedStop (entry : LatchEntry) :
    readDayGuard (recordLatchedStop file utcDay entry) utcDay =
      { utcDay := utcDay
        balanceStart :=
          if (readDayGuard file utcDay).corrupt then none
          else (readDayGuard file utcDay).balanceStart
        latched :=
          (if (readDayGuard file utcDay).corrupt then []
            else (readDayGuard file utcDay).latched) ++ [entry]
        present := true } :=
  readDayGuard_writeDayGuard _ _

/-- Ensuring the baseline neither makes nor mends a corrupt guard, and keeps its stops. -/
theorem readDayGuard_ensureBalanceStart (balance : ℚ) :
    (readDayGuard (ensureBalanceStart file utcDay balance).2 utcDay).corrupt =
        (readDayGuard file utcDay).corrupt ∧
      (readDayGuard (ensureBalanceStart file utcDay balance).2 utcDay).latched =
        (readDayGuard file utcDay).latched := by
  cases hcorrupt : (readDayGuard file utcDay).corrupt with
  | true => simp [ensureBalanceStart, hcorrupt]
  | false =>
    cases hstart : (readDayGuard file utcDay).balanceStart with
    | some start => simp [ensureBalanceStart, hcorrupt, hstart]
    | none => simp [ensureBalanceStart, hcorrupt, hstart, readDayGuard_writeDayGuard]

end Guard

/-- The stops that halt a day are those of a guard's entries. -/
theorem v33LatchedStopKind_congr {g g' : DayGuard} (h : g.latched = g'.latched) (thr : ℕ) :
    v33LatchedStopKind g thr = v33LatchedStopKind g' thr := by
  rw [v33LatchedStopKind, v33LatchedStopKind, guardHasS4Latch, guardHasS4Latch, countLegged,
    countLegged, h]

/-- Nothing halts the day exactly without a day loss and below the threshold. -/
theorem v33LatchedStopKind_eq_none {g : DayGuard} {thr : ℕ} :
    v33LatchedStopKind g thr = none ↔ guardHasS4Latch g = false ∧ countLegged g < thr := by
  unfold v33LatchedStopKind
  split_ifs with hs4 hlegged
  · simp [hs4]
  · simp [hlegged]
  · simpa [hs4] using hlegged

/-- More entries halt the day no less. -/
theorem v33LatchedStopKind_append {g g' : DayGuard} {thr : ℕ} {more : List LatchEntry}
    (h : g'.latched = g.latched ++ more) (hhalts : v33LatchedStopKind g thr ≠ none) :
    v33LatchedStopKind g' thr ≠ none := by
  intro hnone
  obtain ⟨hs4, hlegged⟩ := v33LatchedStopKind_eq_none.mp hnone
  refine hhalts (v33LatchedStopKind_eq_none.mpr ⟨?_, ?_⟩)
  · rw [guardHasS4Latch, h, List.any_append, Bool.or_eq_false_iff] at hs4
    exact hs4.1
  · rw [countLegged, h, List.countP_append] at hlegged
    exact Nat.lt_of_le_of_lt (Nat.le_add_right _ _) hlegged

/-! ### What the gate asks for -/

section Gate

variable {x : ArmingInputs} {guard : DayGuard} {s4 : Option S4Decision}
  {tickerPrefix : String} {cross : Bool} {thr : ℕ}

/-- Only an armed candidate that nothing refuses arms. -/
theorem decideV33Arming_armed :
    (decideV33Arming x guard s4 tickerPrefix cross thr).armed = true ↔
      x.resolvedMode = .armed ∧ refusals x guard s4 tickerPrefix cross thr = [] := by
  by_cases hmode : x.resolvedMode = .armed
  · cases hrefusals : refusals x guard s4 tickerPrefix cross thr with
    | nil => simp [decideV33Arming, hmode, hrefusals]
    | cons reason reasons => simp [decideV33Arming, hmode, hrefusals]
  · simp [decideV33Arming, hmode]

/-- The guard lets a candidate pass exactly if it can be trusted and nothing in it halts. -/
theorem guardRefusals_eq_nil :
    guardRefusals guard thr = [] ↔
      guard.corrupt = false ∧ v33LatchedStopKind guard thr = none := by
  unfold guardRefusals
  split_ifs with hcorrupt
  · simp [hcorrupt]
  · simp [hcorrupt]

/-- The day loss lets a candidate pass exactly if there is no verdict or a clear one. -/
theorem s4Refusals_eq_nil : s4Refusals s4 = [] ↔ ∀ d, s4 = some d → d.kind = .clear := by
  cases s4 with
  | none => simp [s4Refusals]
  | some d => cases hd : d.kind <;> simp [s4Refusals, hd]

/-- Nothing refuses exactly if the guard, the sibling, the venue, the positions and the day
loss all let the candidate pass. -/
theorem refusals_eq_nil :
    refusals x guard s4 tickerPrefix cross thr = [] ↔
      (guard.corrupt = false ∧ v33LatchedStopKind guard thr = none) ∧ cross = false ∧
        v33ArmingCheck x = [] ∧ reconcilePositionsClean x.positions tickerPrefix = none ∧
          ∀ d, s4 = some d → d.kind = .clear := by
  rw [refusals, ← guardRefusals_eq_nil, ← s4Refusals_eq_nil]
  cases cross <;> simp

/-- The caps agree only if the proxy reports one. -/
theorem proxyMaxContracts_isSome {health : Option Health} {lots rungs : ℤ} {weights : List ℤ}
    (h : v33CapsAgree health lots rungs weights = none) :
    (proxyMaxContracts health).isSome = true := by
  cases health with
  | none => simp [v33CapsAgree] at h
  | some health =>
    cases hcaps : health.caps with
    | none =>
      cases hon : health.ordersEnabled <;> simp [v33CapsAgree, hon, hcaps] at h
    | some caps =>
      cases hcap : caps.maxContractsPerOrder with
      | none =>
        cases hon : health.ordersEnabled <;> simp [v33CapsAgree, hon, hcaps, hcap] at h
      | some cap => simp [proxyMaxContracts, hcaps, hcap]

/-- The second look at the cap never degrades a window that passed the first. -/
theorem resolveArming_armed {guards : Roster → GuardFile} {utcDay : String} {r : Roster}
    {w : Wake} :
    (resolveArming guards utcDay r w).armed = true ↔
      w.inputs.resolvedMode = .armed ∧
        refusals w.inputs (readDayGuard (guards r) utcDay) (evaluateS4 (guards r) utcDay w).1
          r.spec.positionPrefix (guardHasS4Latch (readDayGuard (guards r.sibling) utcDay))
          r.spec.s1LatchThreshold = [] := by
  simp only [resolveArming]
  split_ifs with hbelt
  · obtain ⟨harmed, hcap⟩ := Bool.and_eq_true_iff.mp hbelt
    have hcheck := (refusals_eq_nil.mp (decideV33Arming_armed.mp harmed).2).2.2.1
    have hcaps : v33CapsAgree w.inputs.health w.inputs.lotsPerRung w.inputs.kRungs
        w.inputs.rungLots = none := by
      simpa using (List.append_eq_nil_iff.mp hcheck).2
    have hsome := proxyMaxContracts_isSome hcaps
    rw [Option.isNone_iff_eq_none] at hcap
    rw [hcap] at hsome
    exact absurd hsome Bool.false_ne_true
  · exact decideV33Arming_armed

end Gate

/-! ### A guard that fails closed -/

/-- The guard cannot be trusted, or a stop in it halts the day. -/
def GuardCloses (utcDay : String) (thr : ℕ) (file : GuardFile) : Prop :=
  (readDayGuard file utcDay).corrupt = true ∨
    v33LatchedStopKind (readDayGuard file utcDay) thr ≠ none

/-- Every arming decision refuses, whatever else it reads. -/
def FailsClosed (utcDay : String) (thr : ℕ) (file : GuardFile) : Prop :=
  ∀ x s4 tickerPrefix cross,
    (decideV33Arming x (readDayGuard file utcDay) s4 tickerPrefix cross thr).armed = false

/-- A candidate that only the guard can refuse. -/
def openInputs : ArmingInputs where
  resolvedMode := .armed
  falsifierFrozen := true
  health := some ⟨true, some ⟨some 3, some ["KXBTC"]⟩, some 600⟩
  positions := some []
  paramsVerified := true
  lotsPerRung := 3
  kRungs := 11
  rungLots := List.replicate 11 3

/-- A guard refuses every decision exactly if it closes. -/
theorem failsClosed_iff {utcDay : String} {thr : ℕ} {file : GuardFile} :
    FailsClosed utcDay thr file ↔ GuardCloses utcDay thr file := by
  constructor
  · intro h
    have hrefused := h openInputs none "" false
    by_contra hopen
    obtain ⟨hcorrupt, hlatched⟩ := not_or.mp hopen
    have hguard := And.intro (Bool.eq_false_iff.mpr hcorrupt) (not_not.mp hlatched)
    have hcheck : v33ArmingCheck openInputs = [] := by decide
    have harmed : (decideV33Arming openInputs (readDayGuard file utcDay) none "" false
        thr).armed = true := decideV33Arming_armed.mpr ⟨rfl,
      refusals_eq_nil.mpr ⟨hguard, rfl, hcheck, rfl, by rintro d ⟨⟩⟩⟩
    exact absurd harmed (by simp [hrefused])
  · intro h x s4 tickerPrefix cross
    rw [← Bool.not_eq_true, decideV33Arming_armed]
    rintro ⟨-, hnone⟩
    obtain ⟨hsound, hnothing⟩ := (refusals_eq_nil.mp hnone).1
    rcases h with hcorrupt | hlatched
    · exact absurd hcorrupt (by simp [hsound])
    · exact hlatched hnothing

/-- An operation on the guard file of a day, or the file becoming corrupt. -/
inductive GuardOp (utcDay : String) where
  | read
  | ensureBalanceStart (balanceNow : ℚ)
  | recordLatchedStop (entry : LatchEntry)
  | recordLeggedOccurrence (window : Option String) (reason : String) (ts : ℚ)
  | becomesCorrupt (file : GuardFile) (corrupt : (readDayGuard file utcDay).corrupt = true)

/-- What an operation leaves in the file. -/
def guardStep {utcDay : String} (file : GuardFile) : GuardOp utcDay → GuardFile
  | .read => file
  | .ensureBalanceStart balanceNow => (ensureBalanceStart file utcDay balanceNow).2
  | .recordLatchedStop entry => recordLatchedStop file utcDay entry
  | .recordLeggedOccurrence window reason ts =>
    (recordLeggedOccurrence file utcDay window reason ts).2
  | .becomesCorrupt file _ => file

/-- The stop an operation records. -/
def GuardOp.recorded {utcDay : String} : GuardOp utcDay → Option StopKind
  | .recordLatchedStop entry => some entry.kind
  | .recordLeggedOccurrence _ _ _ => some .s1Legged
  | _ => none

/-- A stop of this kind halts the day by itself. -/
def HaltsAlone (thr : ℕ) (kind : StopKind) : Prop :=
  kind = .s4DayLoss ∨ thr ≤ if kind = .s1Legged then 1 else 0

/-- A guard of one stop halts exactly if the stop halts by itself. -/
theorem v33LatchedStopKind_single {g : DayGuard} {entry : LatchEntry} {thr : ℕ}
    (h : g.latched = [entry]) : v33LatchedStopKind g thr ≠ none ↔ HaltsAlone thr entry.kind := by
  rw [ne_eq, v33LatchedStopKind_eq_none, guardHasS4Latch, countLegged, h, HaltsAlone]
  by_cases hs4 : entry.kind = .s4DayLoss
  · simp [hs4]
  · by_cases hs1 : entry.kind = .s1Legged
    · simp [hs1]
    · simp [hs4, hs1]

section GuardRuns

variable {utcDay : String} {thr : ℕ} {file : GuardFile}

/-- A stop recorded into a sound guard leaves a closed one closed; into a corrupt guard, it
does exactly if it halts by itself. -/
theorem guardCloses_recordLatchedStop (entry : LatchEntry) :
    (GuardCloses utcDay thr file → GuardCloses utcDay thr (recordLatchedStop file utcDay entry)) ↔
      ((readDayGuard file utcDay).corrupt = true → HaltsAlone thr entry.kind) := by
  have hread := @readDayGuard_recordLatchedStop file utcDay entry
  cases hcorrupt : (readDayGuard file utcDay).corrupt with
  | true =>
    rw [hcorrupt] at hread
    have halone := @v33LatchedStopKind_single
      (readDayGuard (recordLatchedStop file utcDay entry) utcDay) entry thr (by rw [hread]; rfl)
    have hsound : (readDayGuard (recordLatchedStop file utcDay entry) utcDay).corrupt = false := by
      rw [hread]
    simp [GuardCloses, hcorrupt, hsound, halone]
  | false =>
    rw [hcorrupt] at hread
    have hkept : (readDayGuard (recordLatchedStop file utcDay entry) utcDay).latched =
        (readDayGuard file utcDay).latched ++ [entry] := by
      rw [hread]
      rfl
    simp only [Bool.false_eq_true, false_implies, iff_true]
    rintro (hcontra | hhalts)
    · exact absurd hcontra (by simp [hcorrupt])
    · exact Or.inr (v33LatchedStopKind_append hkept hhalts)

/-- An operation leaves a closed guard closed exactly if it does not replace a corrupt file by
a stop that halts nothing. -/
theorem guardCloses_guardStep (op : GuardOp utcDay) :
    (GuardCloses utcDay thr file → GuardCloses utcDay thr (guardStep file op)) ↔
      ((readDayGuard file utcDay).corrupt = true →
        ∀ kind, op.recorded = some kind → HaltsAlone thr kind) := by
  cases op with
  | read => simp [guardStep, GuardOp.recorded]
  | ensureBalanceStart balanceNow =>
    obtain ⟨hcorrupt, hlatched⟩ := @readDayGuard_ensureBalanceStart file utcDay balanceNow
    have hkind := v33LatchedStopKind_congr hlatched thr
    simp [guardStep, GuardOp.recorded, GuardCloses, hcorrupt, hkind]
  | recordLatchedStop entry =>
    have h := @guardCloses_recordLatchedStop utcDay thr file entry
    simpa [guardStep, GuardOp.recorded] using h
  | recordLeggedOccurrence window reason ts =>
    have h := @guardCloses_recordLatchedStop utcDay thr file
      ⟨.s1Legged, reason, window, ts⟩
    simpa [guardStep, GuardOp.recorded, recordLeggedOccurrence] using h
  | becomesCorrupt file' corrupt => simp [guardStep, GuardOp.recorded, GuardCloses, corrupt]

/-- Once the guard closes every later decision of the day refuses, exactly if no operation
replaces a corrupt file by a stop that does not halt the day by itself. -/
theorem guard_stays_closed_iff (ops : List (GuardOp utcDay)) :
    (∀ pre mid post, ops = pre ++ mid ++ post →
        GuardCloses utcDay thr (pre.foldl guardStep file) →
          FailsClosed utcDay thr (mid.foldl guardStep (pre.foldl guardStep file))) ↔
      AllAlong guardStep (fun file op => (readDayGuard file utcDay).corrupt = true →
        ∀ kind, op.recorded = some kind → HaltsAlone thr kind) file ops := by
  simp only [failsClosed_iff]
  rw [← allAlong_persists]
  exact allAlong_congr (I := fun _ => True) (fun _ _ _ => trivial)
    (fun _ op _ => guardCloses_guardStep op) trivial

end GuardRuns

/-- The guard file of a day becomes corrupt and a one-legged window is recorded: the next
window arms. -/
theorem guard_reopens :
    ¬∀ pre mid post : List (GuardOp "2026-10-17"),
      [.becomesCorrupt .unreadable rfl, .recordLeggedOccurrence none "one-legged" 0] =
          pre ++ mid ++ post →
        GuardCloses "2026-10-17" Roster.btc.spec.s1LatchThreshold
            (pre.foldl guardStep .missing) →
          FailsClosed "2026-10-17" Roster.btc.spec.s1LatchThreshold
            (mid.foldl guardStep (pre.foldl guardStep .missing)) := by
  intro h
  have hclosed := h [.becomesCorrupt .unreadable rfl]
    [.recordLeggedOccurrence none "one-legged" 0] [] rfl (Or.inl rfl)
  exact absurd (hclosed openInputs none "KXBTC" false) (by decide)

end Pilot.V33
