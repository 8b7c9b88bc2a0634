import Pilot.V32.RequoteSteps

/-!
# One order and its lots

In every run whose amends find the fills of the order booked, the lots filled and the lots
that can still fill stay within the allotment, and at most one order of ours rests. An
amend that arrives before a fill is booked asks for the filled lots once more.
-/

namespace Pilot.V32

open V33 (ActionKind BookUpdate Event)

variable {p : V32Params} {t : ℚ} {st : V32State} {x : Executor} {v : Venue} {w : Weather}
  {a : V32Action} {c c' : Config}

/-! ### The executor's calls -/

/-- The reports that concern the rest. -/
def restEvents (evs : List Event) : List Event :=
  evs.filter fun ev => match ev with
    | .fill _ => false
    | _ => true

/-- The events on the rest of two parts are those of each. -/
theorem restEvents_append (as bs : List Event) :
    restEvents (as ++ bs) = restEvents as ++ restEvents bs := List.filter_append ..

/-- A call that leaves the rest alone. -/
structure Aside (x : Executor) (v : Venue) (r : Routed) : Prop where
  venue : r.venue = v
  reason : r.exec.standDownReason = x.standDownReason
  events : restEvents r.events = []

/-- A take of wings leaves the rest's side of the executor alone. -/
theorem takeWings_aside (st : V32State) : Aside x v (takeWings x v w st t) := by
  refine ⟨rfl, rfl, List.filter_eq_nil_iff.mpr fun ev hev => ?_⟩
  obtain ⟨leg, -, rfl⟩ := List.mem_map.mp hev
  simp [wingEvent]

/-- An action that does not concern the rest leaves the rest's side of the executor alone. -/
theorem onAction_aside (h : restKind a = false) : Aside x v (onAction x v w st a t) := by
  simp only [restKind, decide_eq_false_iff_not, not_or] at h
  unfold onAction
  split
  · exact absurd ‹a.kind = .placeRest› h.1
  · exact absurd ‹a.kind = .cancelRest› h.2.1
  · exact absurd ‹a.kind = .amendRest› h.2.2
  · exact takeWings_aside st
  · exact takeWings_aside st
  · exact ⟨rfl, rfl, rfl⟩

/-- A status leaves the stand-down reason. -/
theorem setStatus_reason (x : Executor) (record : Option RestRecord)
    (f : RestRecord → RestRecord) : (setStatus x record f).standDownReason = x.standDownReason := by
  unfold setStatus
  split <;> rfl

/-- A stop sets a stand-down reason. -/
theorem stop_reason (x : Executor) (reason : ExecutorStop) :
    (stop x reason).standDownReason.isSome = true := by
  simp [stop]

/-- The confirm of a cancel: the order is off the book and its fill is reported in full. -/
structure Confirms (v : Venue) (oid : String) (r : Routed) : Prop where
  loses : Loses v r.venue
  rests : OnlyRests r.venue none
  events : ∃ e, r.events = [.orderCancelled e] ∧ e.orderId = some oid ∧
    OnGrid 100 e.filledCountBeforeCancel ∧ filledOf r.venue oid ≤ e.filledCountBeforeCancel

/-- The filled lots derived from a delete are on the grid, and never too few. -/
theorem filledOnDelete_spec (hv : SoundVenue v) {oid : String} {o : VenueOrder}
    (hget : v.get? oid = some o) (record : Option RestRecord) :
    OnGrid 100 (filledOnDelete record o) ∧ o.filled ≤ filledOnDelete record o := by
  obtain ⟨hfilled, hremaining, -⟩ := hv oid o hget
  unfold filledOnDelete
  split
  · exact ⟨hfilled, le_rfl⟩
  · refine ⟨OnGrid.max (OnGrid.max (onGrid_zero 100) ?_) hfilled, le_max_right _ _⟩
    exact (onGrid_intCast (by norm_num) _).sub hremaining

/-- Pulling the one order that may rest confirms it gone, or stops the hour. -/
theorem pullOrder_cases (hv : SoundVenue v) {oid : String} (hrests : OnlyRests v (some oid))
    (record : Option RestRecord) (coid : Option String) :
    Confirms v oid (pullOrder x v w record oid coid t) ∨
      (pullOrder x v w record oid coid t).exec.standDownReason.isSome = true := by
  unfold pullOrder
  split
  · exact Or.inr (stop_reason _ _)
  · rename_i o hget
    split_ifs with hgone hdelete
    · left
      refine ⟨Loses.refl v, fun j oj hj hrest => ?_, _, rfl, rfl, (hv oid o hget).1, ?_⟩
      · have hjo := Option.some.inj (hrests j oj hj hrest)
        subst hjo
        have hj' : v.get? oid = some oj := hj
        rw [hget, Option.some.injEq] at hj'
        rw [← hj'] at hrest
        simp [hrest] at hgone
      · exact (filledOf_of_get? hget).le
    · left
      obtain ⟨hgrid, hle⟩ := filledOnDelete_spec hv hget record
      refine ⟨takeOff_loses v oid, hrests.takeOff, _, rfl, rfl, hgrid, ?_⟩
      show filledOf (takeOff v oid) oid ≤ filledOnDelete record o
      rw [(takeOff_loses v oid).filledOf, filledOf_of_get? hget]
      exact hle
    · exact Or.inr (stop_reason _ _)

/-- Pulling an order only takes orders off the book and never revokes a stop. -/
theorem pullOrder_loses (oid : String) (record : Option RestRecord) (coid : Option String) :
    Loses v (pullOrder x v w record oid coid t).venue ∧
      (x.standDownReason.isSome →
        (pullOrder x v w record oid coid t).exec.standDownReason.isSome) := by
  have hfinish : ∀ v' filled, (x.standDownReason.isSome →
      (finishCancel x v' record oid filled t).exec.standDownReason.isSome) := by
    intro v' filled hx
    simpa [finishCancel, setStatus_reason] using hx
  unfold pullOrder
  split
  · exact ⟨Loses.refl v, fun _ => stop_reason _ _⟩
  · split_ifs
    · exact ⟨Loses.refl v, hfinish _ _⟩
    · exact ⟨takeOff_loses v oid, hfinish _ _⟩
    · exact ⟨Loses.refl v, fun _ => stop_reason _ _⟩

/-- An action that opens nothing only takes orders off the book and never revokes a stop. -/
theorem onAction_loses (h : a.kind ≠ .placeRest ∧ a.kind ≠ .amendRest) :
    Loses v (onAction x v w st a t).venue ∧
      (x.standDownReason.isSome → (onAction x v w st a t).exec.standDownReason.isSome) := by
  by_cases hcancel : a.kind = .cancelRest
  · simp only [onAction, hcancel, cancelRest]
    split
    · exact ⟨Loses.refl v, id⟩
    · exact pullOrder_loses _ _ _
  · have hkind : restKind a = false := by simp [restKind, h.1, hcancel, h.2]
    have haside : Aside x v (onAction x v w st a t) := onAction_aside hkind
    obtain ⟨hvenue, hreason, -⟩ := haside
    rw [hvenue, hreason]
    exact ⟨Loses.refl v, id⟩

/-! ### The invariant -/

/-- The rest is in a phase. -/
structure Running (p : V32Params) (c : Config) : Prop where
  ledgered : Ledgered c.st
  armed : c.st.shakedown = false
  due : restActs c.acts ≠ [] → c.standdownDue = true
  phase : Phase p c.st c.venue (restActs c.acts) (restEvents c.queue)

/-- The hour is over, or will be once the executor's stop is looked at. -/
structure Stopped (c : Config) : Prop where
  alone : ∃ y, OnlyRests c.venue y
  closed : NoOpener c.acts
  latched : Latched c.st ∨ (c.exec.standDownReason.isSome ∧ c.standdownDue = true)

/-- What holds at every point of a run. -/
structure Inv (p : V32Params) (c : Config) : Prop where
  sound : SoundVenue c.venue
  bounded : exposure c.venue ≤ p.contracts
  mode : Running p c ∨ Stopped c

/-- At most one order rests. -/
theorem Inv.onlyRests (h : Inv p c) : ∃ y, OnlyRests c.venue y := by
  rcases h.mode with hrun | hstop
  · exact hrun.phase.onlyRests
  · exact hstop.alone

/-- A decision leaves the driver running or stopped. -/
theorem Decided.mode {r : Outcome} (h : Decided p c.venue (restEvents c.queue) r)
    (halone : ∃ y, OnlyRests c.venue y) (hst : c.st = r.st) (hacts : c.acts = r.acts)
    (hdue : restActs r.acts ≠ [] → c.standdownDue = true) : Running p c ∨ Stopped c := by
  rcases h with ⟨hlatched, hclosed⟩ | hin
  · exact Or.inr ⟨halone, hacts ▸ hclosed, Or.inl (hst ▸ hlatched)⟩
  · refine Or.inl ⟨hst ▸ hin.ledgered, hst ▸ hin.armed, hacts ▸ hdue, ?_⟩
    rw [hst, hacts]
    exact hin.phase

/-- Deciding an event of the phase keeps the invariant. -/
theorem Inv.handle {ev : Event} (h : Inv p c)
    (hmode : Decided p c.venue (restEvents c.queue) (decideV32 p c.st ev)) :
    Inv p (handle p c ev) :=
  ⟨h.sound, h.bounded,
    @Decided.mode p (V32.handle p c ev) _ hmode h.onlyRests rfl rfl fun _ => rfl⟩

/-- Handling an event while idle keeps the invariant. -/
theorem Inv.handleIdle {ev : Event} (h : Inv p c) (hidle : c.Idle)
    (hmode : Decided p c.venue [] (decideV32 p c.st ev)) : Inv p (V32.handle p c ev) := by
  apply h.handle
  rw [hidle.1]
  exact hmode

/-- A closed decision is a decided one. -/
theorem Decided.ofClosed {evs : List Event} {r : Outcome} (h : Closed r) : Decided p v evs r :=
  Or.inl h

/-- Once the hour is over and the actions are routed the core is latched. -/
theorem Stopped.isLatched (h : Stopped c) (hdue : c.standdownDue = false) : Latched c.st := by
  rcases h.latched with hst | ⟨-, htrue⟩
  · exact hst
  · rw [hdue] at htrue
    exact absurd htrue (by simp)

/-- A running configuration that is idle is in a phase. -/
theorem Config.Idle.phase (hidle : c.Idle) (h : Running p c) : Phase p c.st c.venue [] [] := by
  obtain ⟨hqueue, hacts, -⟩ := hidle
  have hphase := h.phase
  rw [hqueue, hacts] at hphase
  exact hphase

/-- Only the executor's marks and the driver's clock and memory change. -/
theorem Inv.remember (h : Inv p c) (hst : c'.st = c.st) (hvenue : c'.venue = c.venue)
    (hqueue : c'.queue = c.queue) (hacts : c'.acts = c.acts)
    (hdue : c'.standdownDue = c.standdownDue)
    (hreason : c'.exec.standDownReason = c.exec.standDownReason) : Inv p c' := by
  refine ⟨hvenue ▸ h.sound, hvenue ▸ h.bounded, h.mode.imp (fun hrun => ?_) fun hstop => ?_⟩
  · refine ⟨hst ▸ hrun.ledgered, hst ▸ hrun.armed, ?_, ?_⟩
    · rw [hacts, hdue]
      exact hrun.due
    · rw [hst, hvenue, hacts, hqueue]
      exact hrun.phase
  · refine ⟨hvenue ▸ hstop.alone, hacts ▸ hstop.closed, ?_⟩
    rw [hst, hreason, hdue]
    exact hstop.latched

/-- A book frame keeps the invariant. -/
theorem Inv.book (h : Inv p c) (hidle : c.Idle) (market : String) (top : TopOfBook) (ts : ℚ) :
    Inv p (onBookUpdate p c market top ts) := by
  have hc : Inv p (stamp c ts) := h.remember rfl rfl rfl rfl rfl rfl
  apply hc.handleIdle hidle
  rcases h.mode with hrun | hstop
  · obtain ⟨b, hb⟩ := foldBook_eq c.st
      ⟨market, top, (stamp c ts).lastServerTs.getD ts, some ts⟩
    have hl : Ledgered { c.st with toBooks := b } :=
      ⟨hrun.ledgered.remaining, hrun.ledgered.booked, hrun.ledgered.fresh, hrun.ledgered.live,
        hrun.ledgered.pending, hrun.ledgered.ctx⟩
    have hcredits : Credits p "" 0 c.st { c.st with toBooks := b } :=
      Credits.nothing hrun.ledgered rfl rfl le_rfl rfl rfl
    have hphase := (hidle.phase hrun).credits hcredits le_rfl fun hne => absurd rfl hne
    show Decided p c.venue [] (refresh p (foldBook c.st _) _)
    rw [hb]
    exact refresh_decided hl hrun.armed hphase
  · exact Decided.ofClosed (decideV32_closed (hstop.isLatched hidle.2.2) _)

/-- A clock tick keeps the invariant. -/
theorem Inv.tick (h : Inv p c) (hidle : c.Idle) (ts : ℚ) : Inv p (onClockTick p c ts) := by
  apply h.handleIdle hidle
  rcases h.mode with hrun | hstop
  · exact refresh_decided hrun.ledgered hrun.armed (hidle.phase hrun)
  · exact Decided.ofClosed (decideV32_closed (hstop.isLatched hidle.2.2) _)

/-- A fill of the book's order keeps the phase or ends the hour. -/
theorem Inv.decided_fill (h : Inv p c) (hidle : c.Idle) (ev : V33.Fill) :
    Decided p c.venue [] (applyFill p c.st ev t) := by
  rcases h.mode with hrun | hstop
  · exact applyFill_decided hrun.ledgered hrun.armed (hidle.phase hrun) ev
  · exact Decided.ofClosed (applyFill_closed (hstop.isLatched hidle.2.2) ev)

/-- A late fill keeps the invariant: the first ends the hour, any other is dropped. -/
theorem Inv.late (h : Inv p c) (hidle : c.Idle) (price count ts : ℚ) (bucketSd : Option ℤ) :
    Inv p { c with
      st := (bookLateRestFill p c.st price count ts bucketSd).st
      acts := (bookLateRestFill p c.st price count ts bucketSd).acts
      now := ts } := by
  by_cases hfill : c.st.restFill.isSome = true
  · have hquiet : bookLateRestFill p c.st price count ts bucketSd = c.st.quiet := by
      simp [bookLateRestFill, hfill]
    rw [hquiet]
    exact h.remember rfl rfl rfl hidle.2.1.symm rfl rfl
  · have hclosed := bookLateRestFill_closed (p := p) price count ts bucketSd
      fun hsome => absurd hsome hfill
    exact ⟨h.sound, h.bounded, Or.inr ⟨h.onlyRests, hclosed.2, Or.inl hclosed.1⟩⟩

/-- A private frame keeps the invariant. -/
theorem Inv.frame (h : Inv p c) (hidle : c.Idle) (f : FillFrame) (ts : ℚ) :
    Inv p (onFill p c f ts) := by
  unfold onFill
  split
  · exact h
  split
  · exact h.remember rfl rfl rfl rfl rfl rfl
  split
  · exact h
  · rename_i rec _
    have hc : Inv p { see (stamp c ts) f.tradeId with
        exec := markFilled (see (stamp c ts) f.tradeId).exec rec.clientOrderId } :=
      h.remember rfl rfl rfl rfl rfl (setStatus_reason _ _ _)
    dsimp only
    split
    · exact hc.handleIdle hidle (hc.decided_fill hidle _)
    · exact hc.late hidle _ _ _ _

/-- A fill decided outside the queue keeps the invariant: it sends only wings. -/
theorem Inv.fillAside (h : Inv p c) (hidle : c.Idle) (ev : V33.Fill) (ts : ℚ) :
    Inv p { c with
      st := (applyFill p c.st ev ev.serverTs).st
      acts := (applyFill p c.st ev ev.serverTs).acts
      now := ts } := by
  refine ⟨h.sound, h.bounded, ?_⟩
  refine @Decided.mode p _ _ ?_ h.onlyRests rfl rfl fun hne => ?_
  · show Decided p c.venue (restEvents c.queue) _
    rw [hidle.1]
    exact h.decided_fill hidle ev
  · exact absurd (restActs_eq_nil (applyFill_restKind c.st ev ev.serverTs)) hne

/-- The poll keeps the invariant. -/
theorem Inv.poll (h : Inv p c) (hidle : c.Idle) (ts : ℚ) : Inv p (onPollFill p c ts) := by
  unfold onPollFill
  split
  · exact h
  split
  · rename_i rec _ _
    dsimp only
    split
    · exact h
    · have hc : Inv p { stamp c ts with
          exec := markFilled (stamp c ts).exec rec.clientOrderId } :=
        h.remember rfl rfl rfl rfl rfl (setStatus_reason _ _ _)
      exact hc.fillAside hidle _ ts
  · exact h

/-! ### The queue -/

/-- At most one report is under way. -/
theorem Phase.length_evs_le {acts : List V32Action} {evs : List Event}
    (h : Phase p st v acts evs) : evs.length ≤ 1 := by
  cases h <;> simp

/-- Deciding the next event of the queue ends its phase, or leaves it alone. -/
theorem Phase.decided {ev : Event} {rest : List Event}
    (h : Phase p st v [] (restEvents (ev :: rest))) (hl : Ledgered st)
    (harmed : st.shakedown = false) :
    Decided p v (restEvents rest) (decideV32 p st ev) := by
  have hone : restEvents (ev :: rest) = ev :: restEvents rest → restEvents rest = [] := by
    intro heq
    have hlength := h.length_evs_le
    rw [heq] at hlength
    simpa using hlength
  cases ev with
  | fill e => exact applyFill_decided hl harmed h e
  | orderAck e =>
    have heq : restEvents (.orderAck e :: rest) = .orderAck e :: restEvents rest := rfl
    rw [heq, hone heq] at h
    rw [hone heq]
    exact applyAck_decided hl harmed h
  | orderCancelled e =>
    have heq : restEvents (.orderCancelled e :: rest) = .orderCancelled e :: restEvents rest := rfl
    rw [heq, hone heq] at h
    rw [hone heq]
    exact applyCancelled_decided hl harmed h
  | orderAmended e =>
    have heq : restEvents (.orderAmended e :: rest) = .orderAmended e :: restEvents rest := rfl
    rw [heq, hone heq] at h
    rw [hone heq]
    exact applyAmended_decided hl harmed h
  | bookUpdate e =>
    have heq : restEvents (.bookUpdate e :: rest) = .bookUpdate e :: restEvents rest := rfl
    rw [heq, hone heq] at h
    cases h
  | trade e =>
    have heq : restEvents (.trade e :: rest) = .trade e :: restEvents rest := rfl
    rw [heq, hone heq] at h
    cases h
  | clockTick e =>
    have heq : restEvents (.clockTick e :: rest) = .clockTick e :: restEvents rest := rfl
    rw [heq, hone heq] at h
    cases h

/-- Deciding the next event of the queue keeps the invariant. -/
theorem Inv.decide (h : Inv p c) (hacts : c.acts = []) (hdue : c.standdownDue = false) :
    Inv p (decideNext p c) := by
  unfold decideNext
  split
  · exact h
  rename_i ev rest hqueue
  have hmode : Decided p c.venue (restEvents rest) (decideV32 p c.st ev) := by
    rcases h.mode with hrun | hstop
    · have hphase := hrun.phase
      rw [hacts, hqueue] at hphase
      exact hphase.decided hrun.ledgered hrun.armed
    · exact Decided.ofClosed (decideV32_closed (hstop.isLatched hdue) ev)
  exact ⟨h.sound, h.bounded, @Decided.mode p
    (V32.handle p { c with queue := rest } ev) _ hmode h.onlyRests rfl rfl fun _ => rfl⟩

/-! ### The actions -/

/-- What a call leaves behind: a phase with its report, or a stop. -/
structure Called (p : V32Params) (st : V32State) (r : Routed) : Prop where
  sound : SoundVenue r.venue
  bounded : exposure r.venue ≤ p.contracts
  mode : Phase p st r.venue [] (restEvents r.events) ∨
    (r.exec.standDownReason.isSome ∧ ∃ y, OnlyRests r.venue y)

/-- With nothing resting there are no strays. -/
theorem strays_eq_nil (hrests : OnlyRests v none) (t : ℚ) : strays x v t = [] := by
  unfold strays
  rw [List.map_eq_nil_iff, List.filter_eq_nil_iff]
  intro e he
  have hrest : e.2.resting = false := by
    by_contra hne
    have := hrests e.1 e.2 (Dict.get?_eq_some.mpr he) (by simpa using hne)
    exact absurd this (by simp)
  simp [hrest]

/-- A create rests alone for its count, or its refusal is reported. -/
theorem placeRest_called (hl : Ledgered st) (h : Phase p st v [a] []) (hkind : a.kind = .placeRest)
    (hsound : SoundVenue v) (hbounded : exposure v ≤ p.contracts)
    (hnew : v.get? w.orderId = none) : Called p st (placeRest x v w a t) := by
  cases h with
  | @placing o _ k hlive hpending hflags hoid _ hcoid hcount hpos hfit hrests hlots =>
    have hnonneg := (hl.booked o.clientOrderId).2
    have hrefused : Called p st (rejectPlace x v (a.clientOrderId.getD "") t) := by
      refine ⟨hsound, hbounded, Or.inl ?_⟩
      exact .refused hlive hpending hflags hoid rfl rfl hrests
        (show filledLots v ≤ spentLots p st by linarith)
    have hstrays : prePlaceInvariant x v w (a.clientOrderId.getD "") t = none := by
      simp [prePlaceInvariant, strays_eq_nil hrests]
    unfold placeRest
    simp only [hstrays]
    split_ifs
    · exact hrefused
    · exact hrefused
    · have htrunc : truncInt a.count = k := by rw [hcount, truncInt_intCast]
      have hnil := hrests.fillableLots_eq_zero
      have hfilledOf : filledOf v w.orderId = 0 := by simp [filledOf, hnew]
      have hfillableOf : fillableOf v w.orderId = 0 := by simp [fillableOf, hnew]
      have hk : (0 : ℚ) ≤ k := by exact_mod_cast hpos
      simp only [htrunc, hcoid, Option.getD_some]
      refine ⟨hsound.set (onGrid_zero 100) (onGrid_intCast (by norm_num) k) hk, ?_, Or.inl ?_⟩
      · simp only [exposure, filledLots_set, fillableLots_set, hfilledOf, hfillableOf, hnil,
          VenueOrder.fillable, if_true]
        linarith
      · have hrests' : OnlyRests (v.set w.orderId ⟨o.clientOrderId, true, k, 0⟩)
            (some w.orderId) := hrests.set (fun _ _ hx => absurd hx (by simp)) fun _ => rfl
        refine .acked hlive hpending hflags hrests' (by rw [Dict.get?_set_self]; rfl) ?_
        unfold Accounted
        rw [filledLots_set, filledOf_set, if_pos rfl, hfilledOf]
        linarith
  | cancelling _ _ hkind' => exact absurd (hkind.symm.trans hkind') (by decide)
  | amending _ _ _ _ hkind' => exact absurd (hkind.symm.trans hkind') (by decide)

/-- Pulling the tracked order reports its confirm, or stops the hour. -/
theorem pullOrder_called {oid coid : String} (hpending : st.restPending = none)
    (hattr : Attributes st coid oid) (hrests : OnlyRests v (some oid))
    (hlots : Accounted p st v coid oid) (hsound : SoundVenue v)
    (hbounded : exposure v ≤ p.contracts) (record : Option RestRecord) (name : Option String) :
    Called p st (pullOrder x v w record oid name t) := by
  have hloses := (pullOrder_loses (x := x) (v := v) (w := w) (t := t) oid record name).1
  refine ⟨hloses.sound hsound, (hloses.exposure hsound).trans hbounded, ?_⟩
  rcases pullOrder_cases (x := x) (w := w) (t := t) hsound hrests record name with hconf | hstop
  · left
    obtain ⟨e, hevents, hoid, hgrid, hfilled⟩ := hconf.events
    rw [hevents]
    refine .cancelled hpending hoid hattr hgrid hfilled hconf.rests ?_
    unfold Accounted at hlots ⊢
    rw [hloses.filledLots, hloses.filledOf]
    exact hlots
  · exact Or.inr ⟨hstop, _, hloses.onlyRests hrests⟩

/-- A cancel reports its confirm, or stops the hour. -/
theorem cancelRest_called (h : Phase p st v [a] []) (hkind : a.kind = .cancelRest)
    (hsound : SoundVenue v) (hbounded : exposure v ≤ p.contracts) :
    Called p st (cancelRest x v w a t) := by
  cases h with
  | cancelling hlive hpending _ hoid hctx hrests hknown hlots =>
    simp only [cancelRest, hoid, Option.some_or]
    exact pullOrder_called hpending (Or.inr ⟨hlive, _, hctx⟩) hrests hlots hsound hbounded _ _
  | placing _ _ _ _ hkind' => exact absurd (hkind.symm.trans hkind') (by decide)
  | amending _ _ _ _ hkind' => exact absurd (hkind.symm.trans hkind') (by decide)

/-- An amended order that asks for `k` lots where `k` are left fills no more than those. -/
theorem amended_exposure {oid : String} {o : VenueOrder} {k : ℤ} (hrests : OnlyRests v (some oid))
    (hget : v.get? oid = some o) (hcrossed : w.crossed ≤ k) (coid : String) :
    exposure (v.set oid (o.amended coid k w.crossed)) = filledLots v + k := by
  have hothers : fillableLots v - fillableOf v oid = 0 := by
    have hnone := hrests.takeOff.fillableLots_eq_zero
    simp only [takeOff, hget, fillableLots_set, VenueOrder.fillable, Bool.false_eq_true, if_false,
      add_zero] at hnone
    exact hnone
  have hfillable : (o.amended coid k w.crossed).fillable = k - w.crossed := by
    by_cases hpos : 0 < (k : ℚ) - w.crossed
    · simp [VenueOrder.amended, VenueOrder.fillable, hpos]
    · have : (k : ℚ) - w.crossed = 0 := by linarith
      simp [VenueOrder.amended, VenueOrder.fillable, this]
  rw [exposure, filledLots_set, fillableLots_set, hothers, hfillable, filledOf_of_get? hget]
  simp only [VenueOrder.amended]
  ring

/-- An amend that finds its fills booked moves the order, or falls back to the cancel. -/
theorem amendRest_called (h : Phase p st v [a] []) (hkind : a.kind = .amendRest)
    (hsound : SoundVenue v) (hbounded : exposure v ≤ p.contracts)
    (hfair : ∀ oid ∈ a.orderId, w.accepts = true → (restingOrder v oid).isSome →
      OnGrid 100 w.crossed ∧ 0 ≤ w.crossed ∧ w.crossed ≤ amendCount a)
    (hbooked : ∀ oid ∈ a.orderId, w.accepts = true → (restingOrder v oid).isSome →
      filledLots v + restPlaceCount p st ≤ p.contracts) : Called p st (amendRest x v w a t) := by
  cases h with
  | @amending o _ oid new hlive hpending hcancel hoid _ haoid hnew hnonempty hfresh hne hminted
      hcount hpos hrests hknown hlots =>
    have hcountK : amendCount a = restPlaceCount p st := by
      have hzero : a.count ≠ 0 := by
        rw [hcount]
        exact_mod_cast (by omega : restPlaceCount p st ≠ 0)
      rw [amendCount, if_neg hzero, hcount, truncInt_intCast]
    have htruthy : truthy (some new) = some new := by
      simp [truthy, Option.filter_some, hnonempty]
    unfold amendRest
    simp only [haoid, Option.some_or, hnew, htruthy, Option.getD_some]
    split
    · exact pullOrder_called hpending (Or.inl ⟨o, hlive, hoid, rfl⟩) hrests hlots hsound hbounded
        _ _
    · rename_i vo hvo
      obtain ⟨hresting, haccepts⟩ := Option.filter_eq_some_iff.mp hvo
      obtain ⟨hget, -⟩ := restingOrder_eq_some.mp hresting
      obtain ⟨hgrid, hcrossed, hle⟩ := hfair oid haoid haccepts (by rw [hresting]; rfl)
      have hfit := hbooked oid haoid haccepts (by rw [hresting]; rfl)
      rw [hcountK] at hle ⊢
      refine ⟨?_, ?_, Or.inl ?_⟩
      · refine hsound.set ((hsound oid vo hget).1.add hgrid) ?_ ?_
        · exact (onGrid_intCast (by norm_num) _).sub hgrid
        · simpa [VenueOrder.amended] using hle
      · show exposure (v.set oid (vo.amended new (restPlaceCount p st) w.crossed)) ≤ p.contracts
        rw [amended_exposure hrests hget hle]
        exact hfit
      · refine .amended hlive hpending hcancel hoid hnonempty hfresh hne hminted ?_ ?_ ?_
        · exact hrests.set (fun _ _ hx => hx) fun _ => rfl
        · show ((v.set oid _).get? oid).isSome = true
          rw [Dict.get?_set_self]
          rfl
        · show Accounted p st (v.set oid _) o.clientOrderId oid
          unfold Accounted at hlots ⊢
          rw [filledLots_set, filledOf_set, if_pos rfl]
          linarith
  | placing _ _ _ _ hkind' => exact absurd (hkind.symm.trans hkind') (by decide)
  | cancelling _ _ hkind' => exact absurd (hkind.symm.trans hkind') (by decide)

/-- One action at most is under way. -/
theorem Phase.single {acts : List V32Action} {evs : List Event}
    (h : Phase p st v (a :: acts) evs) : acts = [] ∧ evs = [] := by
  cases h <;> exact ⟨rfl, rfl⟩

/-- Looking at the executor's stop keeps the invariant. -/
theorem Inv.standdown (h : Inv p c) (hacts : c.acts = []) :
    Inv p (applyExecutorStanddown c) := by
  refine ⟨h.sound, h.bounded, ?_⟩
  have hclosed : NoOpener c.acts := hacts ▸ noOpener_nil
  by_cases hreason : c.exec.standDownReason.isSome = true
  · refine Or.inr ⟨h.onlyRests, hclosed, Or.inl (Or.inr ?_)⟩
    simp [applyExecutorStanddown, hreason]
  · have hst : (applyExecutorStanddown c).st = c.st := by simp [applyExecutorStanddown, hreason]
    rcases h.mode with hrun | hstop
    · refine Or.inl ⟨hst ▸ hrun.ledgered, hst ▸ hrun.armed, fun hne => ?_, hst ▸ hrun.phase⟩
      exact absurd (show restActs c.acts = [] by rw [hacts]; rfl) hne
    · refine Or.inr ⟨hstop.alone, hclosed, Or.inl ?_⟩
      rw [hst]
      exact hstop.latched.resolve_right fun hdue => hreason hdue.1

/-- Routing an action keeps the invariant, if an amend that is carried out finds its fills
booked. -/
theorem Inv.perform (h : Inv p c) (hfair : Fair c (.perform w))
    (hbooked : AmendsBooked p c (.perform w)) : Inv p (V32.perform c w) := by
  unfold V32.perform
  cases hacts : c.acts with
  | nil => exact h.standdown hacts
  | cons a rest =>
    dsimp only
    rcases h.mode with hrun | hstop
    · by_cases hkind : restKind a = true
      · -- the action under way is sent, and its report or a stop takes its place
        have hphase := hrun.phase
        rw [hacts] at hphase
        have hcons : restActs (a :: rest) = a :: restActs rest := by simp [restActs, hkind]
        rw [hcons] at hphase
        obtain ⟨hrest, hevents⟩ := hphase.single
        rw [hrest, hevents] at hphase
        have hdue : c.standdownDue = true := hrun.due (by rw [hacts, hcons]; simp)
        have hhead : a ∈ c.acts.head? := by rw [hacts]; rfl
        have hcalled : Called p c.st (onAction c.exec c.venue w c.st a c.now) := by
          simp only [restKind, decide_eq_true_eq] at hkind
          unfold onAction
          rcases hkind with hk | hk | hk
          · rw [hk]
            exact placeRest_called hrun.ledgered hphase hk h.sound h.bounded
              (hfair.1 a hhead hk)
          · rw [hk]
            exact cancelRest_called hphase hk h.sound h.bounded
          · rw [hk]
            have haccepted : ∀ oid ∈ a.orderId, w.accepts = true →
                (restingOrder c.venue oid).isSome → amendAccepted c w a = true := by
              intro oid hoid haccepts hrests
              rw [Option.mem_def] at hoid
              simp [amendAccepted, haccepts, hoid, hrests]
            refine amendRest_called hphase hk h.sound h.bounded
              (fun oid hoid hw hr => hfair.2 a hhead hk (haccepted oid hoid hw hr))
              fun oid hoid hw hr => ?_
            have hlots := hbooked a hhead hk (haccepted oid hoid hw hr)
            unfold unbookedLots at hlots
            linarith
        refine ⟨hcalled.sound, hcalled.bounded, ?_⟩
        rcases hcalled.mode with hnext | ⟨hreason, halone⟩
        · refine Or.inl ⟨hrun.ledgered, hrun.armed, fun _ => hdue, ?_⟩
          show Phase p c.st _ (restActs rest) (restEvents (c.queue ++ _))
          rw [hrest, restEvents_append, hevents, List.nil_append]
          exact hnext
        · refine Or.inr ⟨halone, ?_, Or.inr ⟨hreason, hdue⟩⟩
          exact noOpener_of_restKind fun b hb => by
            have := List.filter_eq_nil_iff.mp hrest b hb
            simpa using this
      · have hkind' : restKind a = false := by simpa using hkind
        have haside : Aside c.exec c.venue (onAction c.exec c.venue w c.st a c.now) :=
          onAction_aside hkind'
        obtain ⟨hvenue, -, hevents⟩ := haside
        have hcons : restActs (a :: rest) = restActs rest := by simp [restActs, hkind']
        have hsound : SoundVenue (onAction c.exec c.venue w c.st a c.now).venue := by
          rw [hvenue]
          exact h.sound
        have hbounded : exposure (onAction c.exec c.venue w c.st a c.now).venue ≤ p.contracts := by
          rw [hvenue]
          exact h.bounded
        refine ⟨hsound, hbounded, Or.inl ⟨hrun.ledgered, hrun.armed, ?_, ?_⟩⟩
        · intro hne
          exact hrun.due (by rw [hacts, hcons]; exact hne)
        · have hphase := hrun.phase
          rw [hacts, hcons] at hphase
          show Phase p c.st _ (restActs rest) (restEvents (c.queue ++ _))
          rw [hvenue, restEvents_append, hevents, List.append_nil]
          exact hphase
    · have hclosed := hstop.closed
      rw [hacts] at hclosed
      have hkept : Loses c.venue (onAction c.exec c.venue w c.st a c.now).venue ∧
          (c.exec.standDownReason.isSome →
            (onAction c.exec c.venue w c.st a c.now).exec.standDownReason.isSome) :=
        onAction_loses (hclosed a (by simp))
      obtain ⟨hloses, hreason⟩ := hkept
      obtain ⟨y, hy⟩ := hstop.alone
      refine ⟨hloses.sound h.sound, (hloses.exposure h.sound).trans h.bounded,
        Or.inr ⟨⟨y, hloses.onlyRests hy⟩, fun b hb => hclosed b (by simp [hb]), ?_⟩⟩
      exact hstop.latched.imp id fun hdue => ⟨hreason hdue.1, hdue.2⟩

/-- What the venue does on its own keeps the invariant. -/
theorem Inv.drifts {v' : Venue} (h : Inv p c) (hd : Drifts c.venue v') (hsound : SoundVenue v')
    (hbounded : exposure v' ≤ exposure c.venue) : Inv p { c with venue := v' } := by
  refine ⟨hsound, hbounded.trans h.bounded, h.mode.imp (fun hrun => ?_) fun hstop => ?_⟩
  · exact ⟨hrun.ledgered, hrun.armed, hrun.due, hrun.phase.drifts hd⟩
  · obtain ⟨y, hy⟩ := hstop.alone
    exact ⟨⟨y, hd.rests y hy⟩, hstop.closed, hstop.latched⟩

/-- Every fair move keeps the invariant, if an amend that is carried out finds its fills
booked. -/
theorem Inv.next {m : Move} (h : Inv p c) (hfair : Fair c m) (hbooked : AmendsBooked p c m) :
    Inv p (V32.next p c m) := by
  cases m with
  | book market top ts => exact h.book hfair market top ts
  | tick ts => exact h.tick hfair ts
  | frame f ts => exact h.frame hfair f ts
  | poll ts => exact h.poll hfair ts
  | perform w => exact h.perform hfair hbooked
  | decide => exact h.decide hfair.1 hfair.2
  | venueFill oid lots =>
    exact h.drifts (venueFill_drifts c.venue oid lots)
      (h.sound.venueFill oid fun o ho => ⟨(hfair o ho).1, (hfair o ho).2.2⟩)
      (venueFill_exposure c.venue oid lots fun o ho => (hfair o ho).2.2).le
  | venueLeave oid =>
    have hloses := takeOff_loses c.venue oid
    exact h.drifts hloses.drifts (hloses.sound h.sound) (hloses.exposure h.sound)

/-- A new window meets the invariant. -/
theorem Inv.start {c : Config} (h : IsStart c) : Inv p c := by
  obtain ⟨closeTime, closeEpoch, bucketMap, strikeFloorMap, exchByTicker, rfl⟩ := h
  refine ⟨fun oid o ho => by simp [Config.start] at ho, by simp [Config.start, exposure,
    filledLots, fillableLots], Or.inl ⟨?_, rfl, fun hne => absurd rfl hne, ?_⟩⟩
  · exact ⟨by simp [Config.start, V32State.new],
      fun c => ⟨onGrid_zero 100, le_rfl⟩, fun _ _ => rfl,
      by simp [Config.start, V32State.new], by simp [Config.start, V32State.new],
      fun oid c hc => by simp [Config.start, V32State.new] at hc⟩
  · refine .clear rfl rfl ⟨rfl, rfl⟩ (fun oid o ho => by simp [Config.start] at ho) ?_
    simp [Config.start, filledLots, spentLots, restSize, V32State.new]

/-- In every run whose carried-out amends find the fills booked, the lots filled and those that
can still fill are at most the allotment, and at most one order of ours rests. -/
theorem exposure_within_allotment {ms : List Move} (h : Reached p (AmendsBooked p) ms c) :
    filledLots c.venue + fillableLots c.venue ≤ p.contracts ∧ (restingIds c.venue).length ≤ 1 := by
  obtain ⟨start, hstart, hrun⟩ := h
  have hinv : Inv p c := hrun.preserves (fun c m hc hok => hc.next hok.1 hok.2) (Inv.start hstart)
  obtain ⟨y, hy⟩ := hinv.onlyRests
  exact ⟨hinv.bounded, hy.length_restingIds_le⟩

/-- One of the two lots fills, is booked, and the order is amended to a new price. -/
def bookedAmend : List Move :=
  sampleOpening ++
    [.venueFill "v1" 1, .frame ⟨some "v32--1", some "v1", some "t1", 1, 1⟩ 1000,
      .perform (calm "v1"), .perform (calm "v1"), .decide, .perform (calm "v1"), .decide,
      .perform (calm "v1"), .book "B100" (centTop 41 43) 1000, .perform (calm "v1")]

/-- The booked amend keeps one filled and one resting lot. -/
theorem exposure_within_allotment_sample :
    let c := bookedAmend.foldl (next samplePolicy) sampleStart
    c.st.replaceCount = 1 ∧ c.queue.length = 1 ∧
      filledLots c.venue + fillableLots c.venue ≤ samplePolicy.contracts ∧
      (restingIds c.venue).length ≤ 1 :=
  ⟨by decide +kernel, by decide +kernel,
    exposure_within_allotment (reached_sample (by decide +kernel))⟩

/-- The lot fills but is not reported, and the order is amended to a new price. -/
def staleAmend : List Move :=
  sampleOpening ++ [.venueFill "v1" 1, .book "B100" (centTop 41 43) 1000, .perform (calm "v1")]

/-- The stale amend keeps two lots resting beside the one that filled. -/
theorem staleAmend_exceeds :
    ¬∀ p ms c, Reached p (fun _ _ => True) ms c →
      filledLots c.venue + fillableLots c.venue ≤ p.contracts ∧
        (restingIds c.venue).length ≤ 1 := by
  intro h
  have hrun : Reached samplePolicy (fun _ _ => True) staleAmend
      (staleAmend.foldl (next samplePolicy) sampleStart) := reached_sample (by decide +kernel)
  have hle := (h _ _ _ hrun).1
  have hfilled : filledLots (staleAmend.foldl (next samplePolicy) sampleStart).venue = 1 := by
    decide +kernel
  have hrests : fillableLots (staleAmend.foldl (next samplePolicy) sampleStart).venue = 2 := by
    decide +kernel
  rw [hfilled, hrests] at hle
  norm_num [samplePolicy] at hle

end Pilot.V32
