import Pilot.Corridor.StopLaw

/-!
# A window is stopped once

Whatever order the frames of the books and the replies of the other thread come in, a window is
stopped at most once. From then on nothing is sent but one sale of each leg, and the pairs of a
flip are still held at the end if the replies fit their orders.
-/

namespace Pilot.Corridor

open Box (EntryMoment harnessExecute)
open V1 (Deed Executor Intent IntentLeg Json LedgerState OrderResponse PostOutcome Rebalance Source
  Turn Which maybeRebalance recordIntent)

/-! ### The checks of an entry -/

section Checks

variable {fits : Prop} {g : CorridorWindow} {s : LedgerState} {w w' w'' : WindowService}

/-- Checks may begin later, as long as the signal and the question are the same. -/
theorem Checked.of_later (h : Checked fits g w' w'') (hsignal : w'.signal = w.signal)
    (hpolling : w'.polling = w.polling) (hrevision : w.revision ≤ w'.revision) :
    Checked fits g w w'' :=
  ⟨h.signal.trans hsignal, h.polling.trans hpolling, hrevision.trans h.revision, h.ledger, h.stop⟩

/-- A comparison of the positions posts no entry. -/
theorem quiet_reconcile (g : CorridorWindow) (w : WindowService) (s : LedgerState) (body : Json)
    (m : StopMoment) : Quiet w.executor.deeds (reconcile g w s body m).executor.deeds := by
  unfold reconcile
  dsimp only
  split_ifs
  · exact .refl _
  · exact quiet_trip g w _ _ s m

/-- A question about the positions posts no entry. -/
theorem quiet_s3PollOnce (g : CorridorWindow) (w : WindowService) (positions : Option Json)
    (m : StopMoment) : Quiet w.executor.deeds (s3PollOnce g w positions m).executor.deeds := by
  unfold s3PollOnce
  split
  · exact quiet_reconcile g w _ _ m
  · exact .refl _

/-- What follows the rebalance posts no entry. -/
theorem quiet_afterRebalance (g : CorridorWindow) (w : WindowService) (r : Rebalance)
    (c : CheckMoment) : Quiet r.executor.deeds (afterRebalance g w r c).executor.deeds := by
  unfold afterRebalance
  dsimp only
  split
  · exact .refl _
  · exact quiet_trip g { setLedger w r.ledger with executor := r.executor } _ _ _ _
  · exact quiet_s3PollOnce g { setLedger w r.ledger with executor := r.executor } _ _

/-- What the end of the rebalance leaves. -/
theorem Unstopped.afterRebalance (h : Unstopped fits w s) {r : Rebalance}
    (hr : LedgerOk fits r.ledger) (c : CheckMoment)
    (hfit : fits → RepliesFit (afterRebalance g w r c).executor.deeds) :
    Checked fits g w (afterRebalance g w r c) := by
  have hnow : Unstopped fits { setLedger w r.ledger with executor := r.executor } r.ledger :=
    ⟨h.tripped, h.trips, rfl, hr⟩
  unfold Corridor.afterRebalance at hfit ⊢
  dsimp only at hfit ⊢
  cases hended : r.ended with
  | none =>
    rw [hended] at hfit
    exact (hnow.s3PollOnce c.positions hfit).of_later rfl rfl (Nat.le_succ _)
  | some e =>
    rw [hended] at hfit
    cases e with
    | raised => exact (hnow.checked g).of_later rfl rfl (Nat.le_succ _)
    | stopped => exact (hnow.trip .imbalance _ hfit).of_later rfl rfl (Nat.le_succ _)
    | balanced => exact (hnow.s3PollOnce c.positions hfit).of_later rfl rfl (Nat.le_succ _)
    | riding => exact (hnow.s3PollOnce c.positions hfit).of_later rfl rfl (Nat.le_succ _)

/-- The alarms of an entry change nothing but the alarms. -/
theorem foldl_raiseAlarm (notes : List Notification) (w : WindowService) :
    ∃ stops, notes.foldl raiseAlarm w = { w with stops := stops } ∧
      stops.tripped = w.stops.tripped := by
  induction notes generalizing w with
  | nil => exact ⟨w.stops, rfl, rfl⟩
  | cons note notes ih =>
    obtain ⟨stops, hfold, htripped⟩ := ih (raiseAlarm w note)
    exact ⟨stops, hfold, htripped⟩

/-- The checks of an entry post no entry. -/
theorem quiet_postEntryChecks (g : CorridorWindow) (w : WindowService) (s : LedgerState)
    (intent : Intent) (responses : List OrderResponse) (tMinusS : ℚ) (c : CheckMoment) :
    Quiet w.executor.deeds (postEntryChecks g w s intent responses tMinusS c).executor.deeds := by
  unfold postEntryChecks
  dsimp only
  obtain ⟨stops, hfold, -⟩ :=
    foldl_raiseAlarm (checkSlippageAlarms intent responses g.stopConfig) w
  rw [hfold]
  cases checkS1 s with
  | some reason => exact quiet_trip g { w with stops := stops } _ _ _ _
  | none =>
    have hloop := quiet_turns (loopSetting g tMinusS) ⟨s, w.executor, [], none⟩
      ((List.range V1.maxRebalanceSteps).map c.turns)
    exact hloop.trans (quiet_afterRebalance g _ _ c)

/-- What the checks of an entry leave. -/
theorem Unstopped.postEntryChecks (h : Unstopped fits w s) (intent : Intent)
    (responses : List OrderResponse) (tMinusS : ℚ) (c : CheckMoment)
    (hfit : fits → RepliesFit (postEntryChecks g w s intent responses tMinusS c).executor.deeds) :
    Checked fits g w (postEntryChecks g w s intent responses tMinusS c) := by
  unfold Corridor.postEntryChecks at hfit ⊢
  dsimp only at hfit ⊢
  obtain ⟨stops, hfold, htripped⟩ :=
    foldl_raiseAlarm (checkSlippageAlarms intent responses g.stopConfig) w
  rw [hfold] at hfit ⊢
  have hnow : Unstopped fits { w with stops := stops } s :=
    ⟨htripped.trans h.tripped, h.trips, h.ledger, h.ok⟩
  cases hcheck : checkS1 s with
  | some reason =>
    rw [hcheck] at hfit
    exact (hnow.trip .arith reason hfit).of_later rfl rfl le_rfl
  | none =>
    rw [hcheck] at hfit
    dsimp only at hfit ⊢
    have hloop : LedgerOk fits
        (maybeRebalance (loopSetting g tMinusS) s w.executor c.turns).ledger := by
      apply ledgerOk_turns (w := ⟨s, w.executor, [], none⟩) _ h.ok
      exact fun hfits => (hfit hfits).of_quiet (quiet_afterRebalance g _ _ c)
    exact (hnow.afterRebalance hloop c hfit).of_later rfl rfl le_rfl

/-- An entry is posted once or not at all, and no other entry follows it. -/
theorem deeds_sendEntry (g : CorridorWindow) (w : WindowService) (source : Source)
    (action : Action) (e : EntryMoment) (c : CheckMoment) :
    ∃ more, (posts more = [] ∨ posts more = [entryIntent g source action e]) ∧
      Quiet (w.executor.deeds ++ more) (sendEntry g w source action e c).executor.deeds := by
  obtain ⟨more, hmore, hposts⟩ := deeds_harnessExecute w.executor (entryIntent g source action e)
    (some action.tMinusS) false e.outcome
  refine ⟨more, hposts, ?_⟩
  rw [← hmore]
  unfold sendEntry
  dsimp only
  split
  · exact .refl _
  · split_ifs
    · refine Quiet.trans ?_ (quiet_postEntryChecks _ _ _ _ _ _ _)
      exact .refl _
    · exact .refl _

/-- The legs of an entry are purchases. -/
theorem buy_of_mem_entryIntent {source : Source} {action : Action} {e : EntryMoment}
    {leg : IntentLeg} (hleg : leg ∈ (entryIntent g source action e).legs) : leg.action = .buy := by
  obtain ⟨i, hi, rfl⟩ := List.mem_mapIdx.mp hleg
  rfl

/-- What an entry leaves. -/
theorem sendEntry_checked {source : Source} {action : Action} {e : EntryMoment} {c : CheckMoment}
    (htripped : w.stops.tripped = []) (htrips : w.trips = [])
    (hne : w.signal.highTicker ≠ w.signal.lowTicker)
    (hfit : fits → RepliesFit (sendEntry g w source action e c).executor.deeds) :
    Checked fits g w (sendEntry g w source action e c) ∧
      w.revision < (sendEntry g w source action e c).revision := by
  have hentry : EntryOk fits (recordIntent (V1.newLedger g.closeTime source w.signal.highTicker
      w.signal.lowTicker) (entryIntent g source action e)) :=
    entryOk_new g.closeTime source hne fun leg hleg => buy_of_mem_entryIntent hleg
  unfold sendEntry at hfit ⊢
  dsimp only at hfit ⊢
  generalize harnessExecute w.executor (entryIntent g source action e) (some action.tMinusS) false
    e.outcome = done at hfit ⊢
  obtain ⟨x', result⟩ := done
  cases result with
  | none =>
    exact ⟨⟨rfl, rfl, Nat.le_succ _, ⟨_, rfl, hentry.toLedgerOk⟩, Or.inl ⟨htripped, htrips⟩⟩,
      Nat.lt_succ_self _⟩
  | some result =>
    dsimp only at hfit ⊢
    have hfolded := (hentry.recordResponses result.responses).toLedgerOk
    generalize recordResponses _ result.responses = folded at hfit hfolded ⊢
    split_ifs at hfit ⊢
    · have hnow : Unstopped fits (setLedger { setLedger w (recordIntent (V1.newLedger g.closeTime
          source w.signal.highTicker w.signal.lowTicker) (entryIntent g source action e)) with
          executor := x' } folded.1) folded.1 := ⟨htripped, htrips, rfl, hfolded⟩
      have hchecked := hnow.postEntryChecks (g := g) _ result.responses action.tMinusS c hfit
      have hless : w.revision < w.revision + 1 + 1 := by omega
      exact ⟨hchecked.of_later rfl rfl hless.le, hless.trans_le hchecked.revision⟩
    · have hless : w.revision < w.revision + 1 + 1 := by omega
      exact ⟨⟨rfl, rfl, hless.le, ⟨_, rfl, hfolded⟩, Or.inl ⟨htripped, htrips⟩⟩, hless⟩

end Checks

/-! ### Runs -/

section Runs

variable {fits : Prop} {g : CorridorWindow} {p : PolicyParams} {st : WindowState}
  {w : WindowService}

/-- An event changes neither the markets of a window nor whether it is entered. -/
theorem foldEvent_frame {ev : Event} {st' : WindowState} (h : foldEvent st ev = some st') :
    st'.highTicker = st.highTicker ∧ st'.lowTicker = st.lowTicker ∧ st'.entered = st.entered := by
  cases ev with
  | clockTick now =>
    cases h
    exact ⟨rfl, rfl, rfl⟩
  | bookUpdate market top now =>
    unfold foldEvent at h
    dsimp only at h
    split_ifs at h
    · cases h
      exact ⟨rfl, rfl, rfl⟩
    · cases h
      exact ⟨rfl, rfl, rfl⟩

/-- What a decision does to a window: an entered window decides nothing, and the one decision that
fires enters it. -/
structure Decides (st : WindowState) (done : WindowState × List Action) : Prop where
  highTicker : done.1.highTicker = st.highTicker
  lowTicker : done.1.lowTicker = st.lowTicker
  entered : st.entered = true → done.1.entered = true ∧ done.2 = []
  fires : done.2 = [] ∨ ∃ action, done.2 = [action] ∧
    (action.kind = .fire → done.1.entered = true)

/-- What a decision on the books of now does. -/
theorem decideFolded_decides (p : PolicyParams) (st : WindowState) (now : ℚ) :
    Decides st (decideFolded p st now) := by
  unfold decideFolded
  dsimp only
  split_ifs with hentered hcutoff hwarm
  · exact ⟨rfl, rfl, fun _ => ⟨hentered, rfl⟩, Or.inl rfl⟩
  · unfold standDown
    split_ifs
    · exact ⟨rfl, rfl, fun h => absurd h hentered, Or.inl rfl⟩
    · exact ⟨rfl, rfl, fun h => absurd h hentered, Or.inr ⟨_, rfl, fun h => by cases h⟩⟩
  · exact ⟨rfl, rfl, fun h => absurd h hentered, Or.inl rfl⟩
  · cases qualifier p st now with
    | none => exact ⟨rfl, rfl, fun h => absurd h hentered, Or.inl rfl⟩
    | some q =>
      exact ⟨rfl, rfl, fun h => absurd h hentered, Or.inr ⟨_, rfl, fun _ => rfl⟩⟩

/-- What a decision on an event does. -/
theorem decide_decides (p : PolicyParams) (st : WindowState) (ev : Event) :
    Decides st (decide p st ev) := by
  unfold decide
  cases hfold : foldEvent st ev with
  | none => exact ⟨rfl, rfl, fun h => ⟨h, rfl⟩, Or.inl rfl⟩
  | some st' =>
    obtain ⟨hhigh, hlow, hentered⟩ := foldEvent_frame hfold
    have h := decideFolded_decides p st' ev.serverTs
    exact ⟨h.highTicker.trans hhigh, h.lowTicker.trans hlow,
      fun hst => h.entered (hentered.trans hst), h.fires⟩

/-- What every window keeps. -/
structure WindowOk (fits : Prop) (g : CorridorWindow) (w : WindowService) : Prop where
  tickers : w.signal.highTicker ≠ w.signal.lowTicker
  entered : w.ledger.isSome → w.signal.entered = true
  ledger : ∀ s, w.ledger = some s → LedgerOk fits s
  stop : StoppedOnce fits g w
  polling : ∀ s revision, w.polling = some (s, revision) → revision ≤ w.revision ∧
    (revision = w.revision → w.ledger = some s ∧ w.stops.tripped = [])

/-- A stop holds of every service with the same executor, ledger and stops. -/
theorem StoppedOnce.of_eq {w' : WindowService} (h : StoppedOnce fits g w)
    (htripped : w'.stops.tripped = w.stops.tripped) (htrips : w'.trips = w.trips)
    (hexecutor : w'.executor = w.executor) (hlocked : w'.armLocked = w.armLocked)
    (hlatched : w'.latched = w.latched) (hledger : w'.ledger = w.ledger) :
    StoppedOnce fits g w' := by
  rcases h with hstop | ⟨t, hstop⟩
  · left
    rw [htripped, htrips]
    exact hstop
  · refine Or.inr ⟨t, htripped ▸ hstop.tripped, htrips.trans hstop.trips, ?_, ?_⟩
    · constructor
      · rw [hexecutor]
        exact hstop.holds.frozen
      · rw [hlocked]
        exact hstop.holds.locked
      · rw [hlatched]
        exact hstop.holds.latched
      · rw [hexecutor]
        exact hstop.holds.sales
    · rw [hledger]
      exact hstop.ledger

/-- A window without a ledger is not stopped. -/
theorem WindowOk.unstopped (h : WindowOk fits g w) (hnone : w.ledger = none) :
    w.stops.tripped = [] ∧ w.trips = [] := by
  rcases h.stop with hstop | ⟨t, hstop⟩
  · exact hstop
  · obtain ⟨s, hs, -⟩ := hstop.ledger
    rw [hnone] at hs
    cases hs

/-- What a window keeps through checks that ask about no ledger that is still there. -/
theorem WindowOk.checked {w' : WindowService} (h : WindowOk fits g w)
    (hchecked : Checked fits g w w')
    (hentered : w.signal.entered = true)
    (hpolling : ∀ s revision, w.polling = some (s, revision) → revision < w'.revision) :
    WindowOk fits g w' := by
  obtain ⟨s, hs, hok⟩ := hchecked.ledger
  refine ⟨?_, fun _ => ?_, fun s' hs' => ?_, hchecked.stop, fun s' revision hp => ?_⟩
  · rw [hchecked.signal]
    exact h.tickers
  · rw [hchecked.signal]
    exact hentered
  · rw [hs] at hs'
    cases hs'
    exact hok
  · rw [hchecked.polling] at hp
    have hless := hpolling s' revision hp
    exact ⟨hless.le, fun heq => absurd heq hless.ne⟩

/-- What a frame of a book keeps: only the frame that fires replaces the ledger. -/
theorem WindowOk.frame (h : WindowOk fits g w) (market : String) (top : TopOfBook) (serverTs : ℚ)
    (e : EntryMoment) (c : CheckMoment)
    (hfit : fits → RepliesFit (windowStep g w (.frame market top serverTs e c)).executor.deeds) :
    WindowOk fits g (windowStep g w (.frame market top serverTs e c)) := by
  have hdecides := decide_decides g.policy w.signal (.bookUpdate market top serverTs)
  unfold windowStep at hfit ⊢
  dsimp only at hfit ⊢
  generalize decide g.policy w.signal (.bookUpdate market top serverTs) = done at hfit hdecides ⊢
  obtain ⟨signal, actions⟩ := done
  have htickers : signal.highTicker ≠ signal.lowTicker := by
    have hhigh : signal.highTicker = w.signal.highTicker := hdecides.highTicker
    have hlow : signal.lowTicker = w.signal.lowTicker := hdecides.lowTicker
    rw [hhigh, hlow]
    exact h.tickers
  have hnow : WindowOk fits g { w with signal := signal } :=
    ⟨htickers, fun hsome => (hdecides.entered (h.entered hsome)).1, h.ledger,
      h.stop.of_eq rfl rfl rfl rfl rfl rfl, h.polling⟩
  rcases hdecides.fires with hnone | ⟨action, hone, hfires⟩
  · dsimp only at hnone
    rw [hnone]
    exact hnow
  · dsimp only at hone
    rw [hone] at hfit ⊢
    rw [List.foldl_cons, List.foldl_nil] at hfit ⊢
    unfold onSignalAction at hfit ⊢
    cases hkind : action.kind with
    | fire =>
      rw [hkind] at hfit
      cases hsource : action.source with
      | none => exact hnow
      | some source =>
        rw [hsource] at hfit
        dsimp only at hfit ⊢
        have hnoledger : w.ledger = none := by
          by_contra hsome
          have hst := h.entered (Option.isSome_iff_ne_none.mpr hsome)
          have hempty : actions = [] := (hdecides.entered hst).2
          rw [hempty] at hone
          cases hone
        obtain ⟨htripped, htrips⟩ := h.unstopped hnoledger
        obtain ⟨hchecked, hless⟩ := sendEntry_checked (w := { w with signal := signal })
          htripped htrips hnow.tickers hfit
        exact hnow.checked hchecked (hfires hkind) fun s revision hp =>
          (h.polling s revision hp).1.trans_lt hless
    | wouldFire => exact hnow
    | standDown => exact hnow

/-- A question begun keeps the ledger it asks about. -/
theorem WindowOk.pollStart (h : WindowOk fits g w) : WindowOk fits g (pollStart w) := by
  unfold Corridor.pollStart
  split_ifs
  · exact h
  · refine ⟨h.tickers, h.entered, h.ledger, h.stop.of_eq rfl rfl rfl rfl rfl rfl,
      fun s revision hp => ?_⟩
    obtain ⟨s', hs', heq⟩ := Option.map_eq_some_iff.mp hp
    cases heq
    obtain ⟨htripped, hledger⟩ := pollable_eq_some hs'
    exact ⟨le_rfl, fun _ => ⟨hledger, htripped⟩⟩

/-- A reply stops the window only if its ledger is still there. -/
theorem WindowOk.pollEnd (h : WindowOk fits g w) (positions : Option Json) (m : StopMoment)
    (hfit : fits → RepliesFit (pollEnd g w positions m).executor.deeds) :
    WindowOk fits g (pollEnd g w positions m) := by
  have hidle : WindowOk fits g { w with polling := none } :=
    ⟨h.tickers, h.entered, h.ledger, h.stop.of_eq rfl rfl rfl rfl rfl rfl,
      fun s revision hp => by cases hp⟩
  unfold Corridor.pollEnd at hfit ⊢
  dsimp only at hfit ⊢
  cases hpolling : w.polling with
  | none => exact hidle
  | some asked =>
    obtain ⟨s, revision⟩ := asked
    rw [hpolling] at hfit
    cases positions with
    | none => exact hidle
    | some body =>
      dsimp only at hfit ⊢
      split_ifs at hfit ⊢ with hsame
      · obtain ⟨-, hthere⟩ := h.polling s revision hpolling
        obtain ⟨hledger, htripped⟩ := hthere hsame
        have htrips : w.trips = [] := by
          rcases h.stop with hstop | ⟨t, hstop⟩
          · exact hstop.2
          · exact absurd htripped hstop.tripped
        have hnow : Unstopped fits { w with polling := none } s :=
          ⟨htripped, htrips, hledger, h.ledger s hledger⟩
        exact hidle.checked (hnow.reconcile body hfit)
          (h.entered (Option.isSome_iff_exists.mpr ⟨s, hledger⟩)) fun s revision hp => by cases hp
      · exact hidle

/-- A frozen executor is not armed again. -/
theorem WindowOk.setArmed (h : WindowOk fits g w) (value : Bool) :
    WindowOk fits g (setArmed w value) := by
  unfold Corridor.setArmed
  split_ifs with hlocked
  · exact h
  · refine ⟨h.tickers, h.entered, h.ledger, ?_, h.polling⟩
    rcases h.stop with hstop | ⟨t, hstop⟩
    · exact Or.inl hstop
    · refine Or.inr ⟨t, hstop.tripped, hstop.trips, ?_, hstop.ledger⟩
      have hfrozen : value = false := by
        cases value with
        | false => rfl
        | true => exact absurd ⟨rfl, hstop.holds.locked⟩ hlocked
      exact { hstop.holds with
        frozen := hfrozen
        locked := by
          show (w.armLocked || !value) = true
          rw [hstop.holds.locked]
          rfl }

/-- What an event keeps. -/
theorem WindowOk.step (h : WindowOk fits g w) (ev : WindowEvent)
    (hfit : fits → RepliesFit (windowStep g w ev).executor.deeds) :
    WindowOk fits g (windowStep g w ev) := by
  cases ev with
  | frame market top serverTs e c => exact h.frame market top serverTs e c hfit
  | pollStart => exact h.pollStart
  | pollEnd positions m => exact h.pollEnd positions m hfit
  | setArmed value => exact h.setArmed value

/-- A reply on the positions posts no entry. -/
theorem quiet_pollEnd (g : CorridorWindow) (w : WindowService) (positions : Option Json)
    (m : StopMoment) : Quiet w.executor.deeds (pollEnd g w positions m).executor.deeds := by
  unfold pollEnd
  dsimp only
  split
  · split_ifs
    · exact quiet_reconcile g { w with polling := none } _ _ m
    · exact .refl _
  · exact .refl _

/-- A question begun does nothing. -/
theorem deeds_pollStart (w : WindowService) : (pollStart w).executor.deeds = w.executor.deeds := by
  unfold pollStart
  split_ifs <;> rfl

/-- Arming does nothing. -/
theorem deeds_setArmed (w : WindowService) (value : Bool) :
    (setArmed w value).executor.deeds = w.executor.deeds := by
  unfold setArmed
  split_ifs <;> rfl

/-- An event posts no entry, or it is the frame that fires one. -/
theorem windowStep_cases (g : CorridorWindow) (w : WindowService) (ev : WindowEvent) :
    Quiet w.executor.deeds (windowStep g w ev).executor.deeds ∨
      ∃ market top now e c action source more, ev = .frame market top now e c ∧
        (decide g.policy w.signal (.bookUpdate market top now)).2 = [action] ∧
        action.kind = .fire ∧ action.source = some source ∧
        (posts more = [] ∨ posts more = [entryIntent g source action e]) ∧
        Quiet (w.executor.deeds ++ more) (windowStep g w ev).executor.deeds := by
  cases ev with
  | pollStart =>
    left
    unfold windowStep
    rw [deeds_pollStart]
    exact .refl _
  | pollEnd positions m => exact Or.inl (quiet_pollEnd g w positions m)
  | setArmed value =>
    left
    unfold windowStep
    rw [deeds_setArmed]
    exact .refl _
  | frame market top now e c =>
    have hfires := (decide_decides g.policy w.signal (.bookUpdate market top now)).fires
    unfold windowStep
    dsimp only
    rcases hfires with hnone | ⟨action, hone, -⟩
    · rw [hnone]
      exact Or.inl (.refl _)
    · rw [hone, List.foldl_cons, List.foldl_nil]
      unfold onSignalAction
      split
      · rename_i source hkind hsource
        obtain ⟨more, hposts, hquiet⟩ := deeds_sendEntry g
          { w with signal := (decide g.policy w.signal (.bookUpdate market top now)).1 } source
          action e c
        exact Or.inr ⟨market, top, now, e, c, action, source, more, rfl, hone, hkind, hsource,
          hposts, hquiet⟩
      · exact Or.inl (.refl _)

/-- An event only adds deeds. -/
theorem prefix_windowStep (g : CorridorWindow) (w : WindowService) (ev : WindowEvent) :
    w.executor.deeds <+: (windowStep g w ev).executor.deeds := by
  rcases windowStep_cases g w ev with
    hquiet | ⟨market, top, now, e, c, action, source, more, -, -, -, -, -, hquiet⟩
  · exact hquiet.goesOn
  · exact (List.prefix_append _ _).trans hquiet.goesOn

/-- A run only adds deeds. -/
theorem prefix_windowSteps (g : CorridorWindow) (w : WindowService) (events : List WindowEvent) :
    w.executor.deeds <+: (events.foldl (windowStep g) w).executor.deeds := by
  induction events generalizing w with
  | nil => exact List.prefix_rfl
  | cons ev events ih => exact (prefix_windowStep g w ev).trans (ih _)

/-- What a run keeps. -/
theorem WindowOk.run (h : WindowOk fits g w) (events : List WindowEvent)
    (hfit : fits → RepliesFit (events.foldl (windowStep g) w).executor.deeds) :
    WindowOk fits g (events.foldl (windowStep g) w) := by
  induction events generalizing w with
  | nil => exact h
  | cons ev events ih =>
    exact ih (h.step ev fun hfits => (hfit hfits).of_more (prefix_windowSteps g _ events)) hfit

/-- A new service owes nothing and is not stopped. -/
theorem windowOk_new (g : CorridorWindow) {signal : WindowState} (executor : Executor)
    (hne : signal.highTicker ≠ signal.lowTicker) : WindowOk fits g (.new signal executor) where
  tickers := hne
  entered := fun hsome => by cases hsome
  ledger := fun s hs => by cases hs
  stop := Or.inl ⟨rfl, rfl⟩
  polling := fun s revision hp => by cases hp

/-- A ledger that keeps what a floor protects of a flip has all its pairs. -/
theorem Keeps.matchedPairs {t : Trip} {s : LedgerState} (h : Keeps g t s)
    (hflip : t.ledger.source = .subDollarFlip)
    (hhold : g.stopConfig.holdCompleteFloorPairsToSettlement = true) :
    s.matchedPairs = t.ledger.matchedPairs := by
  have hguard (which : Which) : t.ledger.matchedPairs ≤ s.net which := by
    have hle := (h which).1
    unfold protectedLots at hle
    rw [if_pos ⟨hflip, hhold⟩] at hle
    have hmatched : t.ledger.matchedPairs ≤ t.ledger.net which := by
      cases which with
      | high => exact min_le_left _ _
      | low => exact min_le_right _ _
    rwa [min_eq_right hmatched] at hle
  apply le_antisymm
  · exact min_le_min (h .high).2 (h .low).2
  · exact le_min (hguard .high) (hguard .low)

/-- A window is stopped at most once; from then on it is frozen, each leg is sold at most once and
nothing else is sent. If the replies fit, the pairs of a flip are held to the end. -/
theorem window_stops_once (g : CorridorWindow) (signal : WindowState) (executor : Executor)
    (events : List WindowEvent) (hne : signal.highTicker ≠ signal.lowTicker) :
    (windowRun g signal executor events).trips.length ≤ 1 ∧
      ∀ t ∈ (windowRun g signal executor events).trips,
        StopHolds g t (windowRun g signal executor events) ∧
        (RepliesFit (windowRun g signal executor events).executor.deeds →
          ∃ s, (windowRun g signal executor events).ledger = some s ∧ Keeps g t s ∧
            (t.ledger.source = .subDollarFlip →
              g.stopConfig.holdCompleteFloorPairsToSettlement = true →
              s.matchedPairs = t.ledger.matchedPairs)) := by
  -- The bounds on the ledger are kept along the run under the replies of the whole run.
  have hok : WindowOk (RepliesFit (windowRun g signal executor events).executor.deeds) g
      (windowRun g signal executor events) := (windowOk_new g executor hne).run events id
  rcases hok.stop with ⟨-, htrips⟩ | ⟨t, hstop⟩
  · rw [htrips]
    exact ⟨Nat.zero_le _, fun t ht => by cases ht⟩
  · rw [hstop.trips]
    refine ⟨le_rfl, fun t' ht' => ?_⟩
    rw [List.mem_singleton] at ht'
    rw [ht']
    refine ⟨hstop.holds, fun hfit => ?_⟩
    obtain ⟨s, hs, hkeeps⟩ := hstop.ledger
    exact ⟨s, hs, hkeeps hfit, (hkeeps hfit).matchedPairs⟩

end Runs

/-! ### A sample window -/

/-- A flip of two lots a leg. -/
def sampleWindow : CorridorWindow where
  closeTime := "2026-08-24T05:00:00Z"
  policy :=
    { subDollarCMax := 98 / 100, q1StrangleEvMin := 1 / 100, freshnessMaxLegAgeS := 1
      quintileRouting := .ofList [(1, [.subDollarFlip])]
      imbalance := ⟨103 / 100, 5, 3, 1⟩ }
  stopConfig := {}
  pairs := 2
  exchangeIndex := fun _ => some 2

/-- The state before the first frame. -/
def sampleSignal : WindowState :=
  { closeTime := "2026-08-24T05:00:00Z", T := 1000, highTicker := "KXBTCD-HI",
    lowTicker := "KXBTC15M-LO", quintile := 1, fairStrangleQ := 0, strangleDisabled := false,
    shakedown := false }

/-- The top of a leg: both its sides bid at a fifth and asked at a quarter. -/
def sampleTop : TopOfBook := ⟨some (1 / 5), some (1 / 4), some (1 / 5), some (1 / 4), false⟩

/-- An entry that fills two lots of the high leg and one of the low leg. -/
def sampleEntry : EntryMoment where
  clientOrderId := fun i => if i = 0 then "cid-high" else "cid-low"
  outcome := .reply (some 200) (some (.object [("orders", .array
    [Box.sampleSlot "cid-high" 2 (3 / 4), Box.sampleSlot "cid-low" 1 (1 / 4)])]))

/-- No quote to restore the balance, and a sale of the lot that has no pair. -/
def sampleChecks : CheckMoment where
  turns := fun _ => ⟨⟨none, none, none, none⟩, 0, "cid-turn", .raised "TimeoutError"⟩
  positions := none
  stop :=
    { guardWritten := true
      tops := fun _ => some sampleTop
      clientOrderId := fun _ => "cid-sale"
      outcome := fun _ =>
        .reply (some 200) (some (Box.sampleSlot "cid-sale" 1 (4 / 5))) }

/-- Two frames, and a question about the positions after the stop. -/
def sampleEvents : List WindowEvent :=
  [.frame "KXBTCD-HI" sampleTop 500 sampleEntry sampleChecks,
    .frame "KXBTC15M-LO" sampleTop 501 sampleEntry sampleChecks,
    .setArmed true, .pollStart, .pollEnd (some .null) sampleChecks.stop]

/-- The service after the sample frames. -/
def sampleService : WindowService :=
  windowRun sampleWindow sampleSignal (.new {} true) sampleEvents

/-- The lot without a pair is sold on the stop, and the pair is held. -/
theorem window_stops_once_sample : sampleService.trips.length ≤ 1 ∧
    ∃ t ∈ sampleService.trips, t.kind = .imbalance ∧ t.ledger.net .high = 2 ∧
      (posts (sampleService.executor.deeds.drop t.deeds)).length = 1 ∧
      StopHolds sampleWindow t sampleService ∧
      (t.kind, t.ledger.window) ∈ sampleService.latched ∧
      ∃ s, sampleService.ledger = some s ∧ s.matchedPairs = t.ledger.matchedPairs := by
  have hfit : RepliesFit sampleService.executor.deeds :=
    repliesFit_of_forall (by decide +kernel)
  obtain ⟨honce, hholds⟩ := window_stops_once sampleWindow sampleSignal (.new {} true) sampleEvents
    (by decide)
  have htrip : ∃ t ∈ sampleService.trips, t.kind = .imbalance ∧ t.ledger.net .high = 2 ∧
      (posts (sampleService.executor.deeds.drop t.deeds)).length = 1 ∧ t.guarded = true ∧
      t.ledger.source = .subDollarFlip := by decide +kernel
  obtain ⟨t, ht, hkind, hnet, hposts, hguarded, hflip⟩ := htrip
  obtain ⟨hstop, hkeeps⟩ := hholds t ht
  obtain ⟨s, hs, -, hpairs⟩ := hkeeps hfit
  exact ⟨honce, t, ht, hkind, hnet, hposts, hstop, hstop.latched hguarded, s, hs,
    hpairs hflip rfl⟩

end Pilot.Corridor
