import Pilot.V32.PhaseSteps

/-!
# The requote gate and phases

From an empty slot the gate starts at most a create, from a held order at most a cancel or
an amend. Once the hour is over it only cancels.
-/

namespace Pilot.V32

open V33 (ActionKind BookUpdate Event Reason twinKind)

variable {p : V32Params} {t : ℚ} {st st' : V32State} {v : Venue} {r : Outcome}
  {evs : List Event}

/-! ### Cancels and stand-downs -/

/-- An armed pilot cancels with a real cancel. -/
theorem cancelAction_kind (st : V32State) (o : RestOrder) (harmed : st.shakedown = false) :
    (cancelAction st o).kind = .cancelRest := by
  simp [cancelAction, mk, twinKind, harmed]

/-- The cancel of an armed pilot concerns the rest. -/
theorem restKind_cancelAction (st : V32State) (o : RestOrder) (harmed : st.shakedown = false) :
    restKind (cancelAction st o) = true := by
  simp [restKind, cancelAction_kind st o harmed]

/-- A cancel opens nothing. -/
theorem noOpener_cancelAction (st : V32State) (o : RestOrder) : NoOpener [cancelAction st o] := by
  intro a ha
  rw [List.mem_singleton.mp ha]
  cases hsh : st.shakedown <;> simp [cancelAction, mk, twinKind, hsh]

/-- Standing down changes the labels and sends nothing. -/
theorem standdown_eq (st : V32State) (reason : Reason) :
    ∃ sd, (standdown st reason).st = { st with toStandDown := sd } ∧
      sd.stoodDown = st.stoodDown ∧ ∀ a ∈ (standdown st reason).acts, restKind a = false := by
  unfold standdown
  split_ifs
  · exact ⟨_, rfl, rfl, by simp [V32State.quiet]⟩
  · exact ⟨_, rfl, rfl, by simp [restKind]⟩

/-- The actions on the rest of two parts are those of each. -/
theorem restActs_append (as bs : List V32Action) :
    restActs (as ++ bs) = restActs as ++ restActs bs :=
  List.filter_append ..

/-- Standing down after a decision keeps the phase of the slot. -/
theorem InPhase.standdown (h : InPhase p v evs r) (reason : Reason) :
    InPhase p v evs (r.andThen fun st => standdown st reason) := by
  obtain ⟨sd, hst, -, hacts⟩ := standdown_eq r.st reason
  refine ⟨?_, ?_, ?_⟩
  · simp only [Outcome.andThen, hst]
    exact h.ledgered.standDown sd
  · simp only [Outcome.andThen, hst]
    exact h.armed
  · simp only [Outcome.andThen, hst, restActs_append, restActs_eq_nil hacts, List.append_nil]
    exact h.phase.standDown sd

/-- With an empty slot there is nothing to cancel. -/
theorem cancelLiveIfAny_of_clear (hlive : st.restLive = none) (hpending : st.restPending = none) :
    cancelLiveIfAny st = st.quiet := by
  have hcancel : cancelLive st = st.quiet := by simp [cancelLive, hlive]
  simp [cancelLiveIfAny, hcancel, Outcome.andThen, V32State.quiet, cancelPending, hpending]

/-- The slot of a held order is cleared with its cancel, and the order remembered. -/
def cancelledLive (st : V32State) (o : RestOrder) (oid : String) : V32State :=
  { st with
    cancelCtx := st.cancelCtx.set oid (o.clientOrderId, o.price)
    restLive := none
    cancelInFlight := true }

/-- A held order that no cancel runs for is cancelled and remembered. -/
theorem cancelLiveIfAny_of_held {o : RestOrder} {oid : String} (hlive : st.restLive = some o)
    (hpending : st.restPending = none) (hcancel : st.cancelInFlight = false)
    (hoid : o.orderId = some oid) :
    cancelLiveIfAny st = ⟨cancelledLive st o oid, [cancelAction st o]⟩ := by
  have hlive' : cancelLive st = ⟨cancelledLive st o oid, [cancelAction st o]⟩ := by
    simp [cancelLive, hlive, hcancel, rememberCancelCtx, hoid, cancelledLive]
  simp [cancelLiveIfAny, hlive', Outcome.andThen, V32State.quiet, cancelPending, cancelledLive,
    hpending]

/-- Cancelling the held order keeps the books of the slot. -/
theorem Ledgered.cancelledLive (hl : Ledgered st) {o : RestOrder} (hlive : st.restLive = some o)
    (oid : String) : Ledgered (cancelledLive st o oid) := by
  refine hl.reslot rfl rfl rfl le_rfl (by simp [V32.cancelledLive]) hl.pending fun j c hc => ?_
  simp only [V32.cancelledLive, Dict.get?_set] at hc
  split_ifs at hc with hj
  · rw [Option.some.injEq] at hc
    rw [← hc]
    exact hl.live o (by rw [hlive]; rfl)
  · exact hl.ctx j c hc

/-- Cancelling what is held starts its cancel; an empty slot stays empty. -/
theorem cancelLiveIfAny_inPhase (hl : Ledgered st) (harmed : st.shakedown = false)
    (h : Phase p st v [] []) : InPhase p v [] (cancelLiveIfAny st) := by
  cases h with
  | clear hlive hpending hflags hrests hlots =>
    rw [cancelLiveIfAny_of_clear hlive hpending]
    exact ⟨hl, harmed, .clear hlive hpending hflags hrests hlots⟩
  | @held o oid hlive hpending hflags hoid hrests hknown hlots =>
    rw [cancelLiveIfAny_of_held hlive hpending hflags.1 hoid]
    refine ⟨hl.cancelledLive hlive oid, harmed, ?_⟩
    simp only [restActs, List.filter_cons, restKind_cancelAction st o harmed, if_true,
      List.filter_nil]
    have hctx : (cancelledLive st o oid).cancelCtx.get? oid = some (o.clientOrderId, o.price) :=
      Dict.get?_set_self ..
    exact .cancelling rfl hpending (cancelAction_kind st o harmed) hoid hctx hrests hknown hlots

/-- A bucket change cancels what is held and forgets the bucket. -/
theorem changeBucket_inPhase (hl : Ledgered st) (harmed : st.shakedown = false)
    (h : Phase p st v [] []) : InPhase p v [] (changeBucket st) := by
  unfold changeBucket
  cases h with
  | clear hlive hpending hflags hrests hlots =>
    rw [cancelLiveIfAny_of_clear hlive hpending]
    refine ⟨?_, harmed, ?_⟩
    · exact hl.reslot rfl rfl rfl le_rfl (by simp) hl.pending hl.ctx
    · exact .clear rfl hpending ⟨by simp [V32State.quiet, hflags.1], hflags.2⟩ hrests hlots
  | @held o oid hlive hpending hflags hoid hrests hknown hlots =>
    rw [cancelLiveIfAny_of_held hlive hpending hflags.1 hoid]
    have hl' := hl.cancelledLive hlive oid
    refine ⟨?_, harmed, ?_⟩
    · exact hl'.reslot rfl rfl rfl le_rfl (by simp) hl'.pending hl'.ctx
    · simp only [restActs, List.filter_cons, restKind_cancelAction st o harmed, if_true,
        List.filter_nil]
      have hctx : (cancelledLive st o oid).cancelCtx.get? oid = some (o.clientOrderId, o.price) :=
        Dict.get?_set_self ..
      exact .cancelling rfl hpending (cancelAction_kind st o harmed) hoid hctx hrests hknown hlots

/-! ### Creates and amends -/

/-- A whole count is on the grid of two decimals. -/
theorem qCount_intCast (k : ℤ) : qCount k = k :=
  qCount_of_onGrid (onGrid_intCast (by norm_num) k)

/-- No more is placed than is still wanted. -/
theorem restPlaceCount_le (hl : Ledgered st) : (restPlaceCount p st : ℚ) ≤ restSize p st :=
  truncInt_le hl.restSize_nonneg

/-- The next id has no lots booked. -/
theorem Ledgered.bookedFor_next (hl : Ledgered st) : bookedFor st (mintCoid st).1 = 0 :=
  hl.fresh _ (Nat.lt_succ_self _)

/-- From an empty slot a create is sent for no more than the venue has left to fill. -/
theorem emitPlace_inPhase (hl : Ledgered st) (harmed : st.shakedown = false)
    (hlive : st.restLive = none) (hflags : Unflagged st) (hrests : OnlyRests v none)
    (hlots : filledLots v ≤ spentLots p st) (hpos : 1 ≤ restPlaceCount p st) (n : ℚ) :
    InPhase p v [] (emitPlace p st n t) := by
  have hfit : filledLots v + restPlaceCount p st ≤ p.contracts := by
    have := restPlaceCount_le (p := p) hl
    unfold spentLots at hlots
    linarith
  have hkind : (placeAction p (mintCoid st).2 (mintCoid st).1 n).kind = .placeRest := by
    simp [placeAction, mk, twinKind, mintCoid, harmed]
  have hacts : restActs (emitPlace p st n t).acts =
      [placeAction p (mintCoid st).2 (mintCoid st).1 n] := by
    have : restKind (placeAction p (mintCoid st).2 (mintCoid st).1 n) = true := by
      simp [restKind, hkind]
    exact List.filter_eq_self.mpr fun a ha => by rw [List.mem_singleton.mp ha]; exact this
  have hminted : Minted (emitPlace p st n t).st (mintCoid st).1 := ⟨st.coidSeq + 1, le_rfl, rfl⟩
  refine ⟨?_, harmed, ?_⟩
  · refine hl.reslot rfl rfl rfl (Nat.le_succ _) (fun o ho => ?_) (fun o ho => ?_)
      fun oid c hc => ?_
    · exact (hl.live o ho).mono rfl (Nat.le_succ _)
    · have ho' : some _ = some o := ho
      rw [← Option.some.inj ho']
      exact hminted
    · exact (hl.ctx oid c hc).mono rfl (Nat.le_succ _)
  · rw [hacts]
    refine .placing hlive rfl hflags rfl hkind rfl (qCount_intCast _)
      (show 0 ≤ restPlaceCount p st by omega) hfit hrests ?_
    show filledLots v + bookedFor st (mintCoid st).1 ≤ spentLots p st
    rw [hl.bookedFor_next, add_zero]
    exact hlots

/-- From a held order an amend to a new id is sent. -/
theorem emitAmend_inPhase {o : RestOrder} {oid : String} (hl : Ledgered st)
    (harmed : st.shakedown = false) (hlive : st.restLive = some o)
    (hpending : st.restPending = none) (hflags : Unflagged st) (hoid : o.orderId = some oid)
    (hrests : OnlyRests v (some oid)) (hknown : (v.get? oid).isSome)
    (hlots : Accounted p st v o.clientOrderId oid) (hpos : 1 ≤ restPlaceCount p st) (n : ℚ) :
    InPhase p v [] (emitAmend p st o n) := by
  let st₁ : V32State := { (mintCoid st).2 with amendInFlight := true }
  have hkind : (amendAction p st₁ o (mintCoid st).1 n).kind = .amendRest := by
    simp [amendAction, mk, twinKind, mintCoid, harmed, st₁]
  have hacts : restActs (emitAmend p st o n).acts = [amendAction p st₁ o (mintCoid st).1 n] := by
    have : restKind (amendAction p st₁ o (mintCoid st).1 n) = true := by simp [restKind, hkind]
    exact List.filter_eq_self.mpr fun a ha => by rw [List.mem_singleton.mp ha]; exact this
  have hne : (mintCoid st).1 ≠ o.clientOrderId :=
    ((hl.live o (by rw [hlive]; rfl)).ne_next).symm
  have hnonempty : (mintCoid st).1 ≠ "" := by
    intro heq
    have hlength := congrArg String.length heq
    simp [mintCoid, String.length_append] at hlength
  refine ⟨?_, harmed, ?_⟩
  · exact hl.reslot rfl rfl rfl (Nat.le_succ _)
      (fun o ho => (hl.live o ho).mono rfl (Nat.le_succ _))
      (fun o ho => (hl.pending o ho).mono rfl (Nat.le_succ _))
      fun oid c hc => (hl.ctx oid c hc).mono rfl (Nat.le_succ _)
  · rw [hacts]
    exact .amending hlive hpending hflags.1 hoid hkind hoid rfl hnonempty hl.bookedFor_next hne
      ⟨st.coidSeq + 1, le_rfl, rfl⟩ (qCount_intCast _) hpos hrests hknown hlots

/-! ### The gate -/

/-- In a healthy context at most one of these starts. -/
theorem quoteRest_inPhase (hl : Ledgered st) (harmed : st.shakedown = false)
    (h : Phase p st v [] []) (n : ℚ) : InPhase p v [] (quoteRest p st n t) := by
  unfold quoteRest
  split_ifs with hbucket hhold hsmall
  · exact changeBucket_inPhase hl harmed h
  · exact ⟨hl, harmed, h⟩
  · exact ⟨hl, harmed, h⟩
  · have hpos : 1 ≤ restPlaceCount p st := not_lt.mp hsmall
    cases h with
    | clear hlive hpending hflags hrests hlots =>
      have hl' : Ledgered { st with awaitingReplace := false } :=
        hl.reslot rfl rfl rfl le_rfl hl.live hl.pending hl.ctx
      split
      · exact emitPlace_inPhase hl' harmed hlive hflags hrests hlots hpos n
      · rename_i o ho
        exact absurd (hlive.symm.trans ho) (by simp)
    | @held o oid hlive hpending hflags hoid hrests hknown hlots =>
      rw [hlive]
      simp only [replaceRest, hoid]
      split_ifs
      · exact emitAmend_inPhase hl harmed hlive hpending hflags hoid hrests hknown hlots hpos n
      · exact ⟨hl, harmed, .held hlive hpending hflags hoid hrests hknown hlots⟩

/-! ### When the hour is over -/

/-- The hour is over and nothing is opened. -/
def Closed (r : Outcome) : Prop := Latched r.st ∧ NoOpener r.acts

/-- A closed decision stays closed when what follows keeps a latched slot closed. -/
theorem Closed.andThen {next : V32State → Outcome} (h : Closed r)
    (hnext : ∀ st, Latched st → Closed (next st)) : Closed (r.andThen next) := by
  obtain ⟨hst, hacts⟩ := hnext r.st h.1
  exact ⟨hst, h.2.append hacts⟩

/-- Doing nothing keeps a latched slot closed. -/
theorem closed_quiet (h : Latched st) : Closed st.quiet := ⟨h, noOpener_nil⟩

/-- Serving the wings keeps a latched slot closed. -/
theorem WingsOnly.closed (h : WingsOnly st r) (hst : Latched st) : Closed r :=
  ⟨h.latched hst, noOpener_of_restKind h.acts⟩

/-- Standing down keeps a latched slot closed. -/
theorem standdown_closed (h : Latched st) (reason : Reason) : Closed (standdown st reason) := by
  obtain ⟨sd, hst, hstood, hacts⟩ := standdown_eq st reason
  refine ⟨?_, noOpener_of_restKind hacts⟩
  rw [hst]
  rcases h with hdone | hdown
  · exact Or.inl hdone
  · exact Or.inr (hstood.trans hdown)

/-- Remembering a cancelled order keeps the latch. -/
theorem rememberCancelCtx_latched (h : Latched st) (o : RestOrder) :
    Latched (rememberCancelCtx st o) := by
  unfold rememberCancelCtx
  split
  · exact h
  · exact h

/-- Cancelling the live order opens nothing. -/
theorem cancelLive_closed (h : Latched st) : Closed (cancelLive st) := by
  unfold cancelLive
  split
  · split_ifs
    · exact closed_quiet h
    · exact ⟨rememberCancelCtx_latched h _, noOpener_cancelAction st _⟩
  · exact closed_quiet h

/-- Cancelling the pending order opens nothing. -/
theorem cancelPending_closed (h : Latched st) : Closed (cancelPending st) := by
  unfold cancelPending
  split
  · exact ⟨h, noOpener_cancelAction st _⟩
  · exact closed_quiet h

/-- Clearing the slot opens nothing. -/
theorem cancelLiveIfAny_closed (h : Latched st) : Closed (cancelLiveIfAny st) :=
  (cancelLive_closed h).andThen fun _ => cancelPending_closed

/-- Cancels never open anything. -/
theorem cancelLiveIfAny_noOpener (st : V32State) : NoOpener (cancelLiveIfAny st).acts := by
  have hlive : NoOpener (cancelLive st).acts := by
    unfold cancelLive
    split
    · split_ifs
      · exact noOpener_nil
      · exact noOpener_cancelAction st _
    · exact noOpener_nil
  have hpending : ∀ st, NoOpener (cancelPending st).acts := by
    intro st
    unfold cancelPending
    split
    · exact noOpener_cancelAction st _
    · exact noOpener_nil
  exact hlive.append (hpending _)

/-- Once the hour is over the gate only cancels. -/
theorem requote_closed (h : Latched st) : Closed (requote p st t) := by
  unfold requote
  dsimp only
  split
  · exact cancelLiveIfAny_closed h
  rename_i hdone
  split
  · exact (cancelLiveIfAny_closed h).andThen fun st _ => standdown_closed (Or.inr rfl) _
  · have hstood : st.stoodDown = true := h.resolve_left hdone
    have hgate : quoteGate p st t = .stop .stoodDown := by simp [quoteGate, hstood]
    rw [hgate]
    exact (cancelLiveIfAny_closed h).andThen fun st hst => standdown_closed hst _

/-- The gate starts at most one phase, or ends the hour. -/
theorem requote_decided (hl : Ledgered st) (harmed : st.shakedown = false)
    (h : Phase p st v [] []) : Decided p v [] (requote p st t) := by
  unfold requote
  dsimp only
  split
  · exact Or.inr (cancelLiveIfAny_inPhase hl harmed h)
  split
  · refine Or.inl ⟨?_, (cancelLiveIfAny_noOpener st).append ?_⟩
    · exact (standdown_closed (Or.inr rfl) _).1
    · exact (standdown_closed (Or.inr rfl) _).2
  · split
    · exact Or.inr ((cancelLiveIfAny_inPhase hl harmed h).standdown _)
    · exact Or.inr ⟨hl, harmed, h⟩
    · rename_i n _
      exact Or.inr (quoteRest_inPhase (hl.standDown ⟨st.stoodDown, _, none⟩) harmed
        (h.standDown ⟨st.stoodDown, _, none⟩) n)

/-- The context is the only part that is re-derived. -/
theorem recomputeContext_eq (st : V32State) (t : ℚ) :
    ∃ q, recomputeContext p st t = { st with toQuote := q } := by
  unfold recomputeContext
  split
  · exact ⟨_, rfl⟩
  · dsimp only
    split_ifs
    · exact ⟨_, rfl⟩
    · exact ⟨_, rfl⟩

/-- A book update touches the books alone. -/
theorem foldBook_eq (st : V32State) (ev : BookUpdate) :
    ∃ b, foldBook st ev = { st with toBooks := b } := by
  unfold foldBook
  dsimp only
  split
  · exact ⟨st.toBooks, rfl⟩
  · exact ⟨_, rfl⟩
  · exact ⟨_, rfl⟩

/-- A book or a tick starts at most one phase, or ends the hour. -/
theorem refresh_decided (hl : Ledgered st) (harmed : st.shakedown = false)
    (h : Phase p st v [] []) : Decided p v [] (refresh p st t) := by
  obtain ⟨q, hq⟩ := recomputeContext_eq (p := p) st t
  have hc : Credits p "" 0 st (recomputeContext p st t) := by
    apply Credits.nothing hl <;> rw [hq]
  have hnothing : (0 : ℚ) ≠ 0 → SlotId st "" := fun hne => absurd rfl hne
  have hl₁ := hc.ledgered hl (fun hne => absurd rfl hne) (onGrid_zero 100) le_rfl
  have hwings := wingStep_wingsOnly (p := p) (recomputeContext p st t) t
  have hc₂ := hwings.credits (p := p) hl₁ ""
  have hl₂ := hc₂.ledgered hl₁ (fun hne => absurd rfl hne) (onGrid_zero 100) le_rfl
  have hphase := (h.credits hc le_rfl hnothing).credits hc₂ le_rfl fun hne => absurd rfl hne
  have harmed₂ := hc₂.shakedown.trans (hc.shakedown.trans harmed)
  rcases requote_decided (t := t) hl₂ harmed₂ hphase with ⟨hst, hacts⟩ | hin
  · exact Or.inl ⟨hst, (noOpener_of_restKind hwings.acts).append hacts⟩
  · refine Or.inr ⟨hin.ledgered, hin.armed, ?_⟩
    simp only [refresh, Outcome.andThen, restActs_append, restActs_eq_nil hwings.acts,
      List.nil_append]
    exact hin.phase

/-- A refresh of a latched slot opens nothing. -/
theorem refresh_closed (h : Latched st) : Closed (refresh p st t) := by
  have hst : Latched (recomputeContext p st t) := by
    obtain ⟨q, hq⟩ := recomputeContext_eq (p := p) st t
    rw [hq]
    exact h
  exact ((wingStep_wingsOnly _ t).closed hst).andThen fun _ => requote_closed

/-- Settling a fill keeps the latch. -/
theorem settleRest_latched (h : Latched st) (coid : String) (price lots : ℚ) :
    Latched (settleRest p st coid price lots t) := by
  unfold settleRest
  dsimp only
  rcases h with hdone | hdown
  · left
    split
    · rfl
    · exact hdone
  · right
    split
    · exact hdown
    · exact hdown

/-- Booking a fill of the rest opens nothing once the slot is latched. -/
theorem bookRestDelta_closed (h : Latched st) (coid : String) (price lots : ℚ) :
    Closed (bookRestDelta p st coid price lots t) :=
  (wingStep_wingsOnly _ t).synced.closed (settleRest_latched h coid price lots)

/-- A private fill sends only wings. -/
theorem applyFill_restKind (st : V32State) (ev : V33.Fill) (t : ℚ) :
    ∀ a ∈ (applyFill p st ev t).acts, restKind a = false := by
  unfold applyFill
  split
  · exact (WingsOnly.quiet _).acts
  · split
    · exact (WingsOnly.quiet _).acts
    · dsimp only
      split
      · exact (wingStep_wingsOnly _ t).synced.acts
      · exact (WingsOnly.quiet _).acts

/-- A fill opens nothing once the slot is latched. -/
theorem applyFill_closed (h : Latched st) (ev : V33.Fill) : Closed (applyFill p st ev t) := by
  have hskip : ∀ oid delta, Latched (skipAmendCross st oid delta).2 := by
    intro oid delta
    unfold skipAmendCross
    split
    · exact h
    · dsimp only
      split
      · exact h
      · exact h
  unfold applyFill
  split
  · exact (applyLegFill_wingsOnly st _ ev).closed h
  · split
    · exact closed_quiet h
    · dsimp only
      split_ifs
      · exact bookRestDelta_closed (hskip _ _) _ _ _
      · exact closed_quiet (hskip _ _)

/-- A cancel report opens nothing once the slot is latched. -/
theorem applyCancelled_closed (h : Latched st) (ev : V33.OrderCancelled) :
    Closed (applyCancelled p st ev t) := by
  have hmatch : ∀ oid, Latched (matchCancelled st oid).2 := by
    intro oid
    unfold matchCancelled
    split
    · exact h
    · split
      · exact h
      · exact h
  unfold applyCancelled
  dsimp only
  generalize hst : (if (matchCancelled st ev.orderId).1.isSome = true ∨
      (matchCancelled st ev.orderId).2.cancelInFlight = true ∨
      (matchCancelled st ev.orderId).2.amendInFlight = true then
    { (matchCancelled st ev.orderId).2 with cancelInFlight := false, amendInFlight := false }
    else (matchCancelled st ev.orderId).2) = st₁
  have hst₁ : Latched st₁ := by
    rw [← hst]
    split
    · exact hmatch _
    · exact hmatch _
  split
  · exact closed_quiet hst₁
  · split
    · split
      · exact bookRestDelta_closed hst₁ _ _ _
      · exact closed_quiet hst₁
    · split
      · exact bookRestDelta_closed hst₁ _ _ _
      · exact closed_quiet hst₁

/-- A closed decision stays closed under a change that keeps the latch. -/
theorem Closed.mapSt {g : V32State → V32State} (h : Closed r)
    (hg : ∀ st, Latched st → Latched (g st)) : Closed (r.mapSt g) := ⟨hg _ h.1, h.2⟩

/-- An amend report opens nothing once the slot is latched. -/
theorem applyAmended_closed (h : Latched st) (ev : V33.OrderAmended) :
    Closed (applyAmended p st ev t) := by
  unfold applyAmended
  split
  · exact closed_quiet h
  · dsimp only
    split
    · refine Closed.mapSt (bookRestDelta_closed ?_ _ _ _) fun st hst => ?_
      · exact h
      · split
        · exact hst
        · exact hst
    · exact closed_quiet h

/-- An acknowledgement opens nothing once the slot is latched. -/
theorem applyAck_closed (h : Latched st) (ev : V33.OrderAck) : Closed (applyAck st ev).quiet := by
  unfold applyAck
  split
  · exact closed_quiet h
  · split_ifs
    · exact closed_quiet h
    · exact closed_quiet h

/-- Once the hour is over no decision opens anything. -/
theorem decideV32_closed (h : Latched st) (ev : Event) : Closed (decideV32 p st ev) := by
  cases ev with
  | bookUpdate e =>
    obtain ⟨b, hb⟩ := foldBook_eq st e
    have hst : Latched (foldBook st e) := by
      rw [hb]
      exact h
    exact refresh_closed hst
  | trade e => exact closed_quiet h
  | orderAck e => exact applyAck_closed h e
  | orderAmended e => exact applyAmended_closed h e
  | orderCancelled e => exact applyCancelled_closed h e
  | fill e => exact applyFill_closed h e
  | clockTick t => exact refresh_closed h

/-- A late fill ends the hour. -/
theorem bookLateRestFill_closed (price count ts : ℚ) (bucketSd : Option ℤ)
    (h : st.restFill.isSome → Latched st) :
    Closed (bookLateRestFill p st price count ts bucketSd) := by
  unfold bookLateRestFill
  split_ifs with hfill
  · exact closed_quiet (h hfill)
  · exact (wingStep_wingsOnly _ ts).synced.closed (Or.inl rfl)

end Pilot.V32
