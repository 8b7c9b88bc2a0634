import Pilot.V32.Phases

/-!
# Decisions and phases

The decision on a report ends the phase it belongs to, and the requote gate starts the next
one: the slot holds one order at a time, or the hour is over.
-/

namespace Pilot.V32

open V33 (ActionKind BookUpdate Event Fill OrderAck OrderAmended OrderCancelled Reason twinKind)

variable {p : V32Params} {t : ℚ} {st st' : V32State} {v : Venue} {r : Outcome}
  {evs : List Event}

/-- The actions that concern the rest. -/
def restActs (acts : List V32Action) : List V32Action := acts.filter restKind

/-- Nothing is placed and nothing amended. -/
def NoOpener (acts : List V32Action) : Prop :=
  ∀ a ∈ acts, a.kind ≠ .placeRest ∧ a.kind ≠ .amendRest

/-- A decision after which the order slot is in a phase. -/
structure InPhase (p : V32Params) (v : Venue) (evs : List Event) (r : Outcome) : Prop where
  ledgered : Ledgered r.st
  armed : r.st.shakedown = false
  phase : Phase p r.st v (restActs r.acts) evs

/-- What a decision leaves: an hour that is over, or a phase. -/
def Decided (p : V32Params) (v : Venue) (evs : List Event) (r : Outcome) : Prop :=
  (Latched r.st ∧ NoOpener r.acts) ∨ InPhase p v evs r

/-- Actions that do not concern the rest leave none on it. -/
theorem restActs_eq_nil {acts : List V32Action} (h : ∀ a ∈ acts, restKind a = false) :
    restActs acts = [] := by
  apply List.filter_eq_nil_iff.mpr
  intro a ha
  simp [h a ha]

/-- Actions that do not concern the rest open nothing. -/
theorem noOpener_of_restKind {acts : List V32Action} (h : ∀ a ∈ acts, restKind a = false) :
    NoOpener acts := by
  intro a ha
  have := h a ha
  simp only [restKind, decide_eq_false_iff_not, not_or] at this
  exact ⟨this.1, this.2.2⟩

/-- Two parts that open nothing open nothing together. -/
theorem NoOpener.append {as bs : List V32Action} (ha : NoOpener as) (hb : NoOpener bs) :
    NoOpener (as ++ bs) := by
  intro a h
  rcases List.mem_append.mp h with h | h
  · exact ha a h
  · exact hb a h

/-- No action opens nothing. -/
theorem noOpener_nil : NoOpener [] := by
  intro a ha
  simp at ha

/-- A phase does not look at the stand-down labels. -/
theorem Phase.standDown {acts : List V32Action} (h : Phase p st v acts evs) (sd : StandDown) :
    Phase p { st with toStandDown := sd } v acts evs := by
  cases h with
  | clear hlive hpending hflags hrests hlots => exact .clear hlive hpending hflags hrests hlots
  | held hlive hpending hflags hoid hrests hknown hlots =>
    exact .held hlive hpending hflags hoid hrests hknown hlots
  | placing hlive hpending hflags hoid hkind hcoid hcount hpos hfit hrests hlots =>
    exact .placing hlive hpending hflags hoid hkind hcoid hcount hpos hfit hrests hlots
  | acked hlive hpending hflags hrests hknown hlots =>
    exact .acked hlive hpending hflags hrests hknown hlots
  | refused hlive hpending hflags hoid heid hfilled hrests hlots =>
    exact .refused hlive hpending hflags hoid heid hfilled hrests hlots
  | cancelling hlive hpending hkind hoid hctx hrests hknown hlots =>
    exact .cancelling hlive hpending hkind hoid hctx hrests hknown hlots
  | cancelled hpending hoid hattr hgrid hfilled hrests hlots =>
    exact .cancelled hpending hoid hattr hgrid hfilled hrests hlots
  | amending hlive hpending hcancel hoid hkind haoid hnew hnonempty hfresh hne hminted hcount hpos
      hrests hknown hlots =>
    exact .amending hlive hpending hcancel hoid hkind haoid hnew hnonempty hfresh hne hminted hcount
      hpos hrests hknown hlots
  | amended hlive hpending hcancel hoid hnonempty hfresh hne hminted hrests hknown hlots =>
    exact .amended hlive hpending hcancel hoid hnonempty hfresh hne hminted hrests hknown hlots

/-- Standing down keeps the books of the slot. -/
theorem Ledgered.standDown (h : Ledgered st) (sd : StandDown) :
    Ledgered { st with toStandDown := sd } :=
  ⟨h.remaining, h.booked, h.fresh, h.live, h.pending, h.ctx⟩

/-- The account stays in order when the slot is rewritten with minted ids. -/
theorem Ledgered.reslot (h : Ledgered st) (hremaining : st'.restRemaining = st.restRemaining)
    (hbooked : st'.restBookedByCoid = st.restBookedByCoid) (hclose : st'.closeTime = st.closeTime)
    (hseq : st.coidSeq ≤ st'.coidSeq) (hlive : ∀ o ∈ st'.restLive, Minted st' o.clientOrderId)
    (hpending : ∀ o ∈ st'.restPending, Minted st' o.clientOrderId)
    (hctx : ∀ oid c, st'.cancelCtx.get? oid = some c → Minted st' c.1) : Ledgered st' := by
  refine ⟨?_, fun c => ?_, fun k hk => ?_, hlive, hpending, hctx⟩
  · rw [hremaining]
    exact h.remaining
  · unfold bookedFor
    rw [hbooked]
    exact h.booked c
  · unfold bookedFor
    rw [hbooked, hclose]
    exact h.fresh k (lt_of_le_of_lt hseq hk)

/-- A minted id stays minted as the counter grows. -/
theorem Minted.mono {coid : String} (h : Minted st coid) (hclose : st'.closeTime = st.closeTime)
    (hseq : st.coidSeq ≤ st'.coidSeq) : Minted st' coid := by
  obtain ⟨k, hk, rfl⟩ := h
  exact ⟨k, hk.trans hseq, by rw [hclose]⟩

/-- A booking leaves the phase it was made in, or ends the hour. -/
theorem Booked.decided {coid : String} {lots : ℚ} (hb : Booked p coid lots st r)
    (hl : Ledgered st) (harmed : st.shakedown = false) (hgrid : OnGrid 100 lots)
    (hlots : 0 ≤ lots) (hminted : lots ≠ 0 → Minted st coid)
    (hphase : Credits p coid lots st r.st → Phase p r.st v [] evs) : Decided p v evs r := by
  rcases hb.slot with hdone | hc
  · exact Or.inl ⟨hdone, noOpener_of_restKind hb.acts⟩
  · refine Or.inr ⟨hc.ledgered hl hminted hgrid hlots, hc.shakedown.trans harmed, ?_⟩
    rw [restActs_eq_nil hb.acts]
    exact hphase hc

/-! ### The reports -/

/-- A private fill leaves the phase, or ends the hour. -/
theorem applyFill_decided (hl : Ledgered st) (harmed : st.shakedown = false)
    (h : Phase p st v [] evs) (ev : Fill) : Decided p v evs (applyFill p st ev t) := by
  obtain ⟨coid, lots, hpos, hgrid, hslot, hb⟩ := applyFill_booked (p := p) (t := t) hl ev
  exact hb.decided hl harmed hgrid hpos (fun hne => hl.minted_of_slotId (hslot hne))
    fun hc => h.credits hc hpos hslot

/-- The acknowledged order is held. -/
theorem applyAck_decided {e : OrderAck} (hl : Ledgered st) (harmed : st.shakedown = false)
    (h : Phase p st v [] [.orderAck e]) : Decided p v [] (applyAck st e).quiet := by
  cases h with
  | @acked o oid ts hlive hpending hflags hrests hknown hlots =>
    have hack : applyAck st ⟨o.clientOrderId, oid, ts⟩ =
        { st with
          restLive := some { o with orderId := some oid, live := true, pending := false }
          restPending := none
          cancelInFlight := false } := by
      simp [applyAck, hpending]
    rw [hack]
    refine Or.inr ⟨?_, harmed, ?_⟩
    · refine hl.reslot rfl rfl rfl le_rfl (fun o' ho' => ?_) (by simp [V32State.quiet]) hl.ctx
      simp only [V32State.quiet, Option.mem_some_iff] at ho'
      rw [← ho']
      exact hl.pending o (by rw [hpending]; rfl)
    · exact .held rfl rfl ⟨rfl, hflags.2⟩ rfl hrests hknown hlots

/-- Once nothing rests and the slot is empty, the lots a cancel reports are all booked. -/
theorem bookCancelled_decided {coid oid : String} {filled : ℚ} (hl : Ledgered st)
    (harmed : st.shakedown = false) (hlive : st.restLive = none) (hpending : st.restPending = none)
    (hflags : Unflagged st) (hminted : Minted st coid) (hgrid : OnGrid 100 filled)
    (hfilled : filledOf v oid ≤ filled) (hrests : OnlyRests v none)
    (hlots : Accounted p st v coid oid) (price : ℚ) :
    Decided p v []
      (if filled ≤ 0 then st.quiet
      else if 0 < qCount (filled - qCount (st.restBookedByCoid.getD coid 0)) then
        bookRestDelta p st coid price (qCount (filled - qCount (st.restBookedByCoid.getD coid 0)))
          t
      else st.quiet) := by
  have hbooked : qCount (st.restBookedByCoid.getD coid 0) = bookedFor st coid :=
    qCount_of_onGrid (hl.booked coid).1
  have hdelta : qCount (filled - bookedFor st coid) = filled - bookedFor st coid :=
    qCount_of_onGrid (hgrid.sub (hl.booked coid).1)
  have hnonneg := (hl.booked coid).2
  unfold Accounted at hlots
  rw [hbooked, hdelta]
  have hclear : filledLots v ≤ spentLots p st → Decided p v [] st.quiet := fun h =>
    Or.inr ⟨hl, harmed, .clear hlive hpending hflags hrests h⟩
  split_ifs with hzero hpos
  · exact hclear (by linarith)
  · have hb := bookRestDelta_booked (p := p) (t := t) hl hminted price hpos.le
    rw [hdelta] at hb
    refine hb.decided hl harmed (hgrid.sub (hl.booked coid).1) hpos.le (fun _ => hminted)
      fun hc => ?_
    refine .clear (hc.live_eq_none hlive) (hc.pending.trans hpending) (hc.unflagged hflags)
      hrests ?_
    rw [hc.spent]
    linarith
  · exact hclear (by linarith)

/-- The cancel of the live order empties its slot. -/
theorem matchCancelled_live {o : RestOrder} {oid : Option String} (hlive : st.restLive = some o)
    (hoid : o.orderId = oid) : matchCancelled st oid = (some o, { st with restLive := none }) := by
  simp [matchCancelled, hlive, Option.filter_some, hoid]

/-- The cancel of the pending order empties its slot. -/
theorem matchCancelled_pending {o : RestOrder} {oid : Option String} (hlive : st.restLive = none)
    (hpending : st.restPending = some o) (hoid : o.orderId = oid) :
    matchCancelled st oid = (some o, { st with restPending := none }) := by
  simp [matchCancelled, hlive, hpending, Option.filter_some, hoid]

/-- With an empty slot a cancel matches no order. -/
theorem matchCancelled_none {oid : Option String} (hlive : st.restLive = none)
    (hpending : st.restPending = none) : matchCancelled st oid = (none, st) := by
  simp [matchCancelled, hlive, hpending]

/-- Clearing flags that are not set changes nothing. -/
theorem unflag_eq (h : Unflagged st) :
    { st with cancelInFlight := false, amendInFlight := false } = st := by
  have hset : ∀ a b, a = st.cancelInFlight → b = st.amendInFlight →
      { st with cancelInFlight := a, amendInFlight := b } = st := by
    rintro a b rfl rfl
    rfl
  exact hset _ _ h.1.symm h.2.symm

/-- A confirmed cancel leaves the slot empty and its lots booked. -/
theorem applyCancelled_decided {e : OrderCancelled} (hl : Ledgered st)
    (harmed : st.shakedown = false) (h : Phase p st v [] [.orderCancelled e]) :
    Decided p v [] (applyCancelled p st e t) := by
  cases h with
  | @refused o _ hlive hpending hflags hoid heid hfilled hrests hlots =>
    have hzero : qCount 0 ≤ 0 := by
      rw [qCount_of_onGrid (onGrid_zero 100)]
    have hcancel : applyCancelled p st e t =
        { st with restPending := none, cancelInFlight := false, amendInFlight := false }.quiet := by
      simp [applyCancelled, matchCancelled_pending hlive hpending (hoid.trans heid.symm), hfilled,
        hzero]
    rw [hcancel]
    refine Or.inr ⟨?_, harmed, .clear hlive rfl ⟨rfl, rfl⟩ hrests hlots⟩
    exact hl.reslot rfl rfl rfl le_rfl hl.live (by simp [V32State.quiet]) hl.ctx
  | @cancelled _ oid coid hpending hoid hattr hgrid hfilled hrests hlots =>
    have hq : qCount e.filledCountBeforeCancel = e.filledCountBeforeCancel :=
      qCount_of_onGrid hgrid
    rcases hattr with ⟨o, hlive, hooid, rfl⟩ | ⟨hlive, price, hctx⟩
    · let st₁ : V32State :=
        { st with restLive := none, cancelInFlight := false, amendInFlight := false }
      have hl₁ : Ledgered st₁ :=
        hl.reslot rfl rfl rfl le_rfl (by simp [st₁]) hl.pending hl.ctx
      have hminted : Minted st₁ o.clientOrderId := hl.live o (by rw [hlive]; rfl)
      have hcancel : applyCancelled p st e t =
          if e.filledCountBeforeCancel ≤ 0 then st₁.quiet
          else if 0 < qCount (e.filledCountBeforeCancel -
              qCount (st₁.restBookedByCoid.getD o.clientOrderId 0)) then
            bookRestDelta p st₁ o.clientOrderId o.price (qCount (e.filledCountBeforeCancel -
              qCount (st₁.restBookedByCoid.getD o.clientOrderId 0))) t
          else st₁.quiet := by
        simp [applyCancelled, matchCancelled_live hlive (hooid.trans hoid.symm), cancelAttribution,
          hq, st₁]
      rw [hcancel]
      exact bookCancelled_decided hl₁ harmed rfl hpending ⟨rfl, rfl⟩ hminted hgrid hfilled hrests
        hlots o.price
    · let st₁ : V32State := { st with cancelInFlight := false, amendInFlight := false }
      have hflags :
          (if st.cancelInFlight = true ∨ st.amendInFlight = true then st₁ else st) = st₁ := by
        split_ifs with hf
        · rfl
        · simp only [not_or, Bool.not_eq_true] at hf
          exact (unflag_eq hf).symm
      have hl₁ : Ledgered st₁ := hl.reslot rfl rfl rfl le_rfl hl.live hl.pending hl.ctx
      have hminted : Minted st₁ coid := hl.ctx oid (coid, price) hctx
      have hcancel : applyCancelled p st e t =
          if e.filledCountBeforeCancel ≤ 0 then st₁.quiet
          else if 0 < qCount (e.filledCountBeforeCancel -
              qCount (st₁.restBookedByCoid.getD coid 0)) then
            bookRestDelta p st₁ coid price (qCount (e.filledCountBeforeCancel -
              qCount (st₁.restBookedByCoid.getD coid 0))) t
          else st₁.quiet := by
        simp only [applyCancelled, matchCancelled_none hlive hpending, Option.isSome_none,
          Bool.false_eq_true, false_or, hq]
        rw [show (if st.cancelInFlight = true ∨ st.amendInFlight = true then
          { st with cancelInFlight := false, amendInFlight := false } else st) = st₁ from hflags]
        have hcancelCtx : cancelAttribution st₁ none e.orderId = some (coid, price) := by
          simp [cancelAttribution, hoid, st₁, hctx]
        rw [hcancelCtx]
      rw [hcancel]
      exact bookCancelled_decided hl₁ harmed hlive hpending ⟨rfl, rfl⟩ hminted hgrid hfilled hrests
        hlots price

/-- Moving the booked lots of an order to its new id. -/
theorem carryBooked_getD {booked : Dict String ℚ} {old new : String} (hne : new ≠ old)
    (hnew : booked.getD new 0 = 0) (hgrid : OnGrid 100 (booked.getD old 0)) (c : String) :
    (carryBooked booked old new).getD c 0 =
      if c = new then booked.getD old 0 else if c = old then 0 else booked.getD c 0 := by
  unfold carryBooked
  cases hget : booked.get? old with
  | none =>
    have hold : booked.getD old 0 = 0 := by simp [Dict.getD, hget]
    dsimp only
    split_ifs with hc hc'
    · rw [hc, hnew, hold]
    · rw [hc', hold]
    · rfl
  | some lots =>
    have hold : booked.getD old 0 = lots := by simp [Dict.getD, hget]
    rw [hold] at hgrid
    dsimp only
    rw [if_neg hne, hnew, zero_add, qCount_of_onGrid hgrid, Dict.getD_set, Dict.getD_pop, hold]

/-- The guard of an amend that crossed is no part of the account. -/
theorem Booked.guard {coid : String} {lots : ℚ} (hb : Booked p coid lots st r)
    (g : V32State → Dict String ℚ) :
    Booked p coid lots st (r.mapSt fun st => { st with amendCrossPending := g st }) := by
  refine ⟨?_, hb.acts⟩
  rcases hb.slot with hdone | hc
  · exact Or.inl hdone
  · exact Or.inr ⟨hc.closeTime, hc.seq, hc.live, hc.pending, hc.cancelInFlight, hc.amendInFlight,
      hc.ctx, hc.done, hc.stood, hc.shakedown, hc.spent, hc.booked, hc.remaining⟩

/-- A confirmed amend is held under its new id, and what it filled is booked. -/
theorem applyAmended_decided {e : OrderAmended} (hl : Ledgered st) (harmed : st.shakedown = false)
    (h : Phase p st v [] [.orderAmended e]) : Decided p v [] (applyAmended p st e t) := by
  cases h with
  | @amended o _ hlive hpending hcancel hoid hnonempty hfresh hne hminted hrests hknown hlots =>
    let st₁ : V32State :=
      { st with
        restLive := some { o with price := e.price.getD o.price, clientOrderId := e.clientOrderId }
        amendInFlight := false
        restBookedByCoid := carryBooked st.restBookedByCoid o.clientOrderId e.clientOrderId
        lastReplaceTs := some t
        replaceCount := st.replaceCount + 1
        replaceTimes := stampReplace st t }
    have hcarry : ∀ c, bookedFor st₁ c =
        if c = e.clientOrderId then bookedFor st o.clientOrderId
        else if c = o.clientOrderId then 0 else bookedFor st c :=
      carryBooked_getD hne hfresh (hl.booked _).1
    have hl₁ : Ledgered st₁ := by
      refine ⟨hl.remaining, fun c => ?_, fun k hk => ?_, fun o' ho' => ?_, hl.pending, hl.ctx⟩
      · rw [hcarry]
        split_ifs
        · exact hl.booked _
        · exact ⟨onGrid_zero 100, le_rfl⟩
        · exact hl.booked _
      · have hnew : coidAt st₁.closeTime k ≠ e.clientOrderId := by
          intro heq
          obtain ⟨j, hj, hj'⟩ := hminted
          have hkj := coidAt_injective _ (heq.trans hj')
          have hlt : st.coidSeq < k := hk
          omega
        rw [hcarry, if_neg hnew]
        split_ifs
        · rfl
        · exact hl.fresh k hk
      · rw [Option.mem_some_iff] at ho'
        rw [← ho']
        exact hminted
    have hphase : Phase p st₁ v [] [] := by
      refine .held rfl hpending ⟨hcancel, rfl⟩ hoid hrests hknown ?_
      unfold Accounted at hlots ⊢
      rw [hcarry, if_pos rfl]
      exact hlots
    have hmatch : (st.restLive.filter fun o' =>
        o'.orderId = some e.orderId ∨ o'.clientOrderId = e.clientOrderId) = some o := by
      simp [hlive, Option.filter_some, hoid]
    unfold applyAmended
    rw [hmatch]
    simp only [if_neg hnonempty]
    split_ifs with hpos
    · have hb := (bookRestDelta_booked (p := p) (t := t) hl₁ hminted
        (e.averageFillPrice.getD (e.price.getD o.price)) hpos.le).guard
        fun st => if st.restLive.isSome then
            st.amendCrossPending.set e.orderId
              (qCount (st.amendCrossPending.getD e.orderId 0 + qCount e.fillCount))
          else st.amendCrossPending
      have hdecided := hb.decided hl₁ harmed (onGrid_qCount _) (qCount_nonneg hpos.le)
        (fun _ => hminted) fun hc => hphase.credits hc (qCount_nonneg hpos.le) fun _ =>
          ⟨_, Or.inl rfl, rfl⟩
      convert hdecided using 3
      split_ifs <;> rfl
    · exact Or.inr ⟨hl₁, harmed, hphase⟩

end Pilot.V32
