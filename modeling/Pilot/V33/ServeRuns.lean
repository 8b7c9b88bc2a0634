import Pilot.V33.WingPhase

/-!
# The wing step of a decision

A decision books at most one fill and runs the wing step at most once. Everything else it does
takes no batch: those steps are the same under a policy that never finds the strike feed alive.
-/

namespace Pilot.V33

/-- The policy under which the strike feed is always dead. The wing step, the quote and the
early takes look at the feed, and nothing else that moves the wings. -/
def deadFeed (p : V33Params) : V33Params := { p with strikeFeedDeadS := -1 }

/-- The steps that take no batch. -/
inductive CalmStep (p : V33Params) (now : ℚ) : V33State → V33State → Prop
  | hands {s t : V33State} (h : HandsOn s t) : CalmStep p now s t
  | wing {s t : V33State} {acts : List V33Action} (h : WingOp (deadFeed p) now s acts t) :
      CalmStep p now s t
  | answer (s : V33State) (coid : String) (f : WingLeg → WingLeg) (h : AnswersLeg f) :
      CalmStep p now s
        { s with wingLegs := replaceFirst (fun l => l.clientOrderId == coid) f s.wingLegs }
  | unknown (s : V33State) (r : FillReport) (pos : 0 < r.delta)
      (h : (rungFillOf p s r now).bucketSd = none) : CalmStep p now s (bookedState p s r now)

/-- A run of steps that take no batch. -/
def Calm (p : V33Params) (now : ℚ) : V33State → V33State → Prop :=
  Relation.ReflTransGen (CalmStep p now)

/-! ### What an event books -/

/-- The fill answers a wing leg or a taker completion. -/
def answersWing (st : V33State) (ev : Fill) : Bool :=
  (st.printThroughTriggers.any fun t => t.completeCoid == some ev.clientOrderId) ||
    (legOf st ev.clientOrderId).isSome

/-- The record of the fill an event books. -/
def bookedFill (p : V33Params) (st : V33State) (ev : Event) : Option RungFill :=
  match ev with
  | .fill e =>
    if answersWing st e then none
    else (booking p st ev).map fun r => rungFillOf p st r e.serverTs
  | .orderAmended e =>
    (rollOfAmend st e).bind fun rp =>
      (orderOf st rp.oldCoid).bind fun _ =>
        (booking p st ev).map fun r =>
          rungFillOf p (confirmRoll p (dropRoll st rp.oldCoid) rp (e.price.getD rp.targetPrice)
            e.serverTs) r e.serverTs
  | _ => (booking p st ev).map fun r => rungFillOf p st r ev.serverTs

/-- Whether an event runs the wing step. -/
def servesWings (p : V33Params) (st : V33State) (ev : Event) : Bool :=
  match ev with
  | .bookUpdate _ | .trade _ | .clockTick _ => true
  | _ => ((bookedFill p st ev).bind RungFill.bucketSd).isSome

/-- The wing step runs on the books of the event: on the wings it found, or once the fill it
books is handed to them. -/
inductive Serves (p : V33Params) (st : V33State) (ev : Event) : V33State → Prop
  | found {s : V33State} (h : HandsOn (withBook st ev) s) : Serves p st ev s
  | booked {s t : V33State} (r : FillReport) (pos : 0 < r.delta) (h : HandsOn st s)
      (fill : bookedFill p st ev = some (rungFillOf p s r ev.serverTs))
      (known : (rungFillOf p s r ev.serverTs).bucketSd.isSome)
      (k : HandsOn (bookedState p s r ev.serverTs) t) : Serves p st ev t

/-- The same wings, books, quote and ladder: a report makes the same record. -/
structure ReadsAlike (s t : V33State) : Prop extends HandsOn s t where
  quote : t.toQuote = s.toQuote
  ladder : t.ladder = s.ladder

/-- A part of a decision that books at most one fill, and that of a given report. -/
inductive BooksOnce (p : V33Params) (now : ℚ) (s : V33State) (report : Option FillReport)
    (t : V33State) : Prop
  | idle (h : HandsOn s t)
  | books {s' : V33State} (r : FillReport) (pos : 0 < r.delta) (fill : report = some r)
      (h : ReadsAlike s s') (k : HandsOn (bookRungFill p s' r now).st t)

/-- What a decision does to the wings: calm steps, or the wing step and then calm steps. -/
inductive ServeRun (p : V33Params) (st : V33State) (ev : Event) (t : V33State) : Prop
  | calm (h : Calm p ev.serverTs (withBook st ev) t)
  | served (s : V33State) (serves : servesWings p st ev = true) (start : Serves p st ev s)
      (h : Calm p ev.serverTs (wingStep p s ev.serverTs).st t)

section Runs

variable {p : V33Params} {now : ℚ} {st s t u : V33State} {acts : List V33Action} {ev : Event}

/-! ### Calm steps -/

/-- A step that hands the wings on is calm. -/
theorem HandsOn.calm (h : HandsOn s t) : Calm p now s t := Relation.ReflTransGen.single (.hands h)

/-- Two calm stretches are one. -/
theorem Calm.trans (h : Calm p now s t) (k : Calm p now t u) : Calm p now s u :=
  Relation.ReflTransGen.trans h k

/-- Nothing happens. -/
theorem Calm.refl (s : V33State) : Calm p now s s := Relation.ReflTransGen.refl

/-- An operation on the ladder hands the wings on. -/
theorem LadderOp.handsOn {P : Permit} (h : LadderOp p now P s acts t) : HandsOn s t :=
  ⟨h.frame.window, h.frame.books, h.frame.wings, congrArg FillLog.restFills h.frame.fills⟩

/-- A run of operations under the dead feed takes no batch. -/
theorem calm_of_ops {q : V33Params} (hq : q = deadFeed p) (h : Run (Op q now) s acts t) :
    Calm p now s t := by
  subst hq
  induction h with
  | refl => exact Calm.refl _
  | step hop _ ih =>
    cases hop with
    | ladder hop => exact hop.handsOn.calm.trans ih
    | wing hop => exact (Relation.ReflTransGen.single (.wing hop)).trans ih

/-- A run of the ladder leaves the wings alone. -/
theorem calm_of_ladder {P : Permit} (h : Run (LadderOp p now P) s acts t) : Calm p now s t := by
  induction h with
  | refl => exact Calm.refl _
  | step hop _ ih => exact hop.handsOn.calm.trans ih

/-- Re-deriving the mirrors is calm. -/
theorem calm_syncWingMirrors (s : V33State) : Calm p now s (syncWingMirrors s) :=
  Relation.ReflTransGen.single (.wing via_syncWingMirrors)

/-- The check of stalled triggers is calm. -/
theorem calm_ptStallStep (s : V33State) : Calm p now s (ptStallStep p s now).st :=
  calm_of_ops rfl (@via_ptStallStep (deadFeed p) now s)

/-- Failing a trigger closed is calm. -/
theorem calm_ptFailClosed (s : V33State) (index : ℕ) :
    Calm p now s (ptFailClosed p s index now).st :=
  calm_of_ops rfl (@via_ptFailClosed (deadFeed p) now s index)

/-- The confirmed cancel of a trigger is calm. -/
theorem calm_ptOnCancelConfirmed (s : V33State) (oid : Option String) :
    Calm p now s (ptOnCancelConfirmed p s oid now).st :=
  calm_of_ops rfl (@via_ptOnCancelConfirmed (deadFeed p) now s oid)

/-- Failing on an unknown bucket is calm. -/
theorem calm_failBucketUnknown (s : V33State) : Calm p now s (failBucketUnknown s).st :=
  calm_of_ops rfl (@via_failBucketUnknown (deadFeed p) now s)

/-- Counting a completed set is calm. -/
theorem calm_maybeCloseSet (s : V33State) (index : ℕ) : Calm p now s (maybeCloseSet s index) :=
  calm_of_ops rfl (run_wing (@run_maybeCloseSet (deadFeed p) now s index))

/-- Netting is calm. -/
theorem calm_netWings (s : V33State) (coid : String) : Calm p now s (netWings s coid now).st :=
  calm_of_ops rfl (@via_netWings (deadFeed p) now s coid).wing

/-- An early take is one step: it takes a batch of its own. -/
theorem calm_printThroughStep (s : V33State) (e : Trade) :
    Calm p now s (printThroughStep p s e now).st := by
  unfold printThroughStep
  split
  · exact Calm.refl s
  · next sd _ =>
    split_ifs
    · split
      · exact Calm.refl s
      · next ya na _ =>
        dsimp only
        split_ifs
        · exact Calm.refl s
        · have hop := @WingOp.fire (deadFeed p) now s sd ya na e.yesPrice
          exact Relation.ReflTransGen.single (.wing hop)
    · exact Calm.refl s

/-- At the cutoff the wing step takes nothing. -/
theorem calm_wingStep (s : V33State)
    (hcutoff : (s.closeEpoch : ℚ) - now < p.noOrdersAfterSToSettle) :
    Calm p now s (wingStep p s now).st := by
  have hflush : Calm p now s (coalesceFlush p s now) :=
    Relation.ReflTransGen.single (.wing (@WingOp.flush (deadFeed p) now s))
  have hepoch : (coalesceFlush p s now).closeEpoch = s.closeEpoch :=
    congrArg Window.closeEpoch (grown_flush s).window
  apply hflush.trans
  unfold wingStep
  dsimp only
  rw [hepoch]
  split_ifs
  · exact calm_syncWingMirrors _
  · have hmarked : (forEach (coalesceFlush p s now).wingBatches (cutoffBatch now)
        (coalesceFlush p s now)).Via (WingOp (deadFeed p) now) (coalesceFlush p s now) :=
      via_forEach (fun b _ => via_cutoffBatch b) _ _
    exact (calm_of_ops rfl hmarked.wing).trans (calm_syncWingMirrors _)

/-! ### Events -/

/-- Calm steps after the run of an event. -/
theorem ServeRun.andCalm (h : ServeRun p st ev s) (k : Calm p ev.serverTs s t) :
    ServeRun p st ev t := by
  cases h with
  | calm h => exact .calm (h.trans k)
  | served u serves start h => exact .served u serves start (h.trans k)

/-- An event with a fill to book serves the wings. -/
theorem servesWings_of_booked {rf : RungFill} (h : bookedFill p st ev = some rf)
    (hknown : rf.bucketSd.isSome) : servesWings p st ev = true := by
  cases ev with
  | bookUpdate | trade | clockTick => rfl
  | _ => simpa [servesWings, h] using hknown

/-- A fill that is booked: on a known bucket it joins the wings and the wing step runs. -/
theorem ServeRun.bookRungFill (hbooks : withBook st ev = st) (h : HandsOn st s) (r : FillReport)
    (pos : 0 < r.delta) (hfill : bookedFill p st ev = some (rungFillOf p s r ev.serverTs)) :
    ServeRun p st ev (bookRungFill p s r ev.serverTs).st := by
  unfold V33.bookRungFill
  dsimp only
  cases hsd : (rungFillOf p s r ev.serverTs).bucketSd with
  | none =>
    have hbooked : bookedState p s r ev.serverTs = recordFill p s r ev.serverTs := by
      rw [bookedState, hsd]
    have hunknown : Calm p ev.serverTs s (recordFill p s r ev.serverTs) := by
      rw [← hbooked]
      exact Relation.ReflTransGen.single (.unknown s r pos hsd)
    apply ServeRun.calm
    rw [hbooks]
    exact h.calm.trans (hunknown.trans (calm_failBucketUnknown _))
  | some sd =>
    have hbooked : bookedState p s r ev.serverTs =
        hedgeFill p (recordFill p s r ev.serverTs) r.coid (rungFillOf p s r ev.serverTs)
          ev.serverTs := by
      rw [bookedState, hsd]
    have hknown : (rungFillOf p s r ev.serverTs).bucketSd.isSome := by rw [hsd]; rfl
    have hlatched : HandsOn (bookedState p s r ev.serverTs)
        (latchIfDone p (bookedState p s r ev.serverTs)) := by
      obtain ⟨x, hx, -⟩ := latchIfDone_eq p (bookedState p s r ev.serverTs)
      rw [hx]
      exact ⟨rfl, rfl, rfl, rfl⟩
    rw [← hbooked]
    exact .served _ (servesWings_of_booked hfill hknown) (.booked r pos h hfill hknown hlatched)
      (calm_syncWingMirrors _)

/-- The books, the wing step and the stalls of a book update or a tick. -/
theorem ServeRun.serveWings (hserves : servesWings p st ev = true) :
    ServeRun p st ev (serveWings p (withBook st ev) ev.serverTs).st := by
  have hcontext : HandsOn (withBook st ev)
      (shadowComplete p (recomputeContext p (withBook st ev) ev.serverTs) ev.serverTs) :=
    (handsOn_recompute _).trans (handsOn_shadowComplete _)
  exact .served _ hserves (.found hcontext) (calm_ptStallStep _)

/-- The service a trade leads to is calm but for its triggers. -/
theorem ServeRun.applyTrade (e : Trade) :
    ServeRun p st (.trade e) (applyTrade p st e e.serverTs).st := by
  obtain ⟨x, hx⟩ := shadowOnTrade_eq p st e
  have hstart : HandsOn st (shadowComplete p (shadowOnTrade p st e).st e.serverTs) := by
    rw [hx]
    exact (HandsOn.pacing st x).trans (handsOn_shadowComplete _)
  exact .served _ rfl (.found hstart) ((calm_printThroughStep _ e).trans (calm_ptStallStep _))

/-- What an answered wing leg does. -/
theorem calm_applyWingFill {leg : WingLeg} {e : Fill} {r : Outcome}
    (h : applyWingFill p s leg e now = some r) : Calm p now s r.st := by
  have hanswer (f : WingLeg → WingLeg) (hf : AnswersLeg f) : Calm p now s
      { s with wingLegs :=
          replaceFirst (fun l => l.clientOrderId == e.clientOrderId) f s.wingLegs } :=
    Relation.ReflTransGen.single (.answer s e.clientOrderId f hf)
  have hmissed : AnswersLeg fun l => { l with status := .unfilled } :=
    ⟨fun _ => rfl, fun _ => rfl, fun _ => rfl, fun _ => rfl, fun _ => rfl, fun _ => rfl,
      fun _ h => by cases h⟩
  unfold applyWingFill at h
  dsimp only at h
  split_ifs at h
  · rw [Option.map_eq_some_iff] at h
    obtain ⟨price, -, rfl⟩ := h
    have hfilled : AnswersLeg fun l =>
        { l with status := .filled, fillPrice := some price, fillFee := some (fee price) } :=
      ⟨fun _ => rfl, fun _ => rfl, fun _ => rfl, fun _ => rfl, fun _ => rfl, fun _ => rfl,
        fun _ _ => rfl⟩
    exact ((hanswer _ hfilled).trans (calm_netWings _ _)).trans (calm_maybeCloseSet _ _)
  · rw [Option.some.injEq] at h
    subst h
    split
    · split_ifs
      · exact (hanswer _ hmissed).trans (calm_ptFailClosed _ _)
      · exact (hanswer _ hmissed).trans (calm_maybeCloseSet _ _)
    · exact (hanswer _ hmissed).trans (calm_maybeCloseSet _ _)

/-- A state reads like itself. -/
theorem ReadsAlike.refl (s : V33State) : ReadsAlike s s := ⟨HandsOn.refl s, rfl, rfl⟩

/-- Two steps that read alike read alike together. -/
theorem ReadsAlike.trans (h : ReadsAlike s t) (k : ReadsAlike t u) : ReadsAlike s u :=
  ⟨h.toHandsOn.trans k.toHandsOn, k.quote.trans h.quote, k.ladder.trans h.ladder⟩

/-- A report makes the same fill in states that read alike. -/
theorem ReadsAlike.rungFillOf (h : ReadsAlike s t) (r : FillReport) :
    rungFillOf p t r now = rungFillOf p s r now := by
  have htickers : t.bucketTickers = s.bucketTickers := congrArg Books.bucketTickers h.books
  have htop : t.nTop = s.nTop := congrArg Quote.nTop h.quote
  have hW : t.W = s.W := congrArg Quote.W h.quote
  unfold V33.rungFillOf fillMargin fillBucket sdForBucketTicker orderOf
  rw [htickers, htop, hW, h.ladder]

/-- A cleared cancel reads alike. -/
theorem readsAlike_clearCancelPending (s : V33State) (oid : Option String) :
    ReadsAlike s (clearCancelPending s oid) := by
  obtain ⟨d, hd⟩ := clearCancelPending_eq s oid
  rw [hd]
  exact ⟨⟨rfl, rfl, rfl, rfl⟩, rfl, rfl⟩

/-- A part that books runs for its event, if its fill is the one the event books. -/
theorem ServeRun.books {report : Option FillReport} (hbooks : withBook st ev = st)
    (h : HandsOn st s)
    (hfill : ∀ r, report = some r → bookedFill p st ev = some (rungFillOf p s r ev.serverTs))
    (k : BooksOnce p ev.serverTs s report t) : ServeRun p st ev t := by
  cases k with
  | idle hk =>
    apply ServeRun.calm
    rw [hbooks]
    exact (h.trans hk).calm
  | @books s' r pos fill hreads hk =>
    have hrun := ServeRun.bookRungFill (p := p) hbooks (h.trans hreads.toHandsOn) r pos
      (by rw [hreads.rungFillOf]; exact hfill r fill)
    exact hrun.andCalm hk.calm

/-- What a cancel confirm books. -/
theorem books_bookCancelFill (s : V33State) (e : OrderCancelled) :
    BooksOnce p now s (cancelBooking p s e) (bookCancelFill p s e now).st := by
  unfold bookCancelFill cancelBooking
  dsimp only
  split_ifs
  · cases cancelledOf s e with
    | some c =>
      dsimp only
      split_ifs with hd
      · exact .books _ hd rfl (ReadsAlike.refl s) (HandsOn.refl _)
      · exact .idle (HandsOn.refl s)
    | none =>
      cases orphanCoid e with
      | none => exact .idle (HandsOn.refl s)
      | some coid =>
        cases e.price with
        | none => exact .idle (HandsOn.refl s)
        | some price =>
          dsimp only
          split_ifs with hd
          · exact .books _ hd rfl (ReadsAlike.refl s) (HandsOn.refl _)
          · exact .idle (HandsOn.refl s)
  · exact .idle (HandsOn.refl s)

/-- What an amend confirm books. -/
theorem books_bookAmendCross (s : V33State) (rp : RollPending) (newPrice : ℚ) (e : OrderAmended) :
    BooksOnce p now s (amendBooking s rp newPrice e) (bookAmendCross p s rp newPrice e now).st := by
  unfold bookAmendCross amendBooking
  dsimp only
  split_ifs with hd
  · split
    · exact .idle (HandsOn.refl s)
    · next moved hmoved =>
      rw [hmoved]
      refine .books _ hd rfl (ReadsAlike.refl s) ?_
      rw [mapSt_st]
      split_ifs
      · exact ⟨rfl, rfl, rfl, rfl⟩
      · exact HandsOn.refl _
  · exact .idle (HandsOn.refl s)

/-- A skipped crossing reads alike. -/
theorem readsAlike_skipCrossed (s : V33State) (oid : Option String) (delta : ℚ) :
    ReadsAlike s (skipCrossed s oid delta).2 := by
  unfold skipCrossed
  split
  · exact ReadsAlike.refl s
  · split_ifs
    · exact ⟨⟨rfl, rfl, rfl, rfl⟩, rfl, rfl⟩
    · exact ReadsAlike.refl s

/-- A noted count reads alike. -/
theorem readsAlike_noteSeen (s : V33State) (coid : String) (count : ℚ) :
    ReadsAlike s (noteSeen s coid count) := ⟨⟨rfl, rfl, rfl, rfl⟩, rfl, rfl⟩

/-- What a fill of an order on the ladder books. -/
theorem books_applyRungFill (s : V33State) (order : RestOrder) (e : Fill) :
    BooksOnce p now s (rungBooking s order e) (applyRungFill p s order e now).st := by
  have hbooked (s' : V33State) (h : ReadsAlike s s')
      (hdelta : (skipCrossed s' (order.orderId.or e.orderId) (qCount e.count)).1 =
        rungDelta s order e)
      (hd : 0 < (skipCrossed s' (order.orderId.or e.orderId) (qCount e.count)).1) :
      BooksOnce p now s (rungBooking s order e)
        (V33.bookRungFill p (skipCrossed s' (order.orderId.or e.orderId) (qCount e.count)).2
          { coid := order.clientOrderId, price := order.price,
            delta := (skipCrossed s' (order.orderId.or e.orderId) (qCount e.count)).1,
            rung := order.rung, eRung := order.eRung, retainedSd := order.bucketSd,
            fillTicker := e.marketTicker } now).st := by
    refine .books _ hd ?_ (h.trans (readsAlike_skipCrossed s' _ _)) (HandsOn.refl _)
    rw [rungBooking, ← hdelta, if_pos hd]
  have hidle (s' : V33State) (h : ReadsAlike s s') : BooksOnce p now s (rungBooking s order e)
      (skipCrossed s' (order.orderId.or e.orderId) (qCount e.count)).2 :=
    .idle (h.trans (readsAlike_skipCrossed s' _ _)).toHandsOn
  unfold applyRungFill
  dsimp only
  split_ifs with h1 h2 h2
  · exact hbooked _ (readsAlike_noteSeen s _ _) (skipCrossed_noteSeen _ _ _ _) h2
  · exact hidle _ (readsAlike_noteSeen s _ _)
  · exact hbooked _ (ReadsAlike.refl s) rfl h2
  · exact hidle _ (ReadsAlike.refl s)

/-- What a fill of an order the core lost books. -/
theorem books_applyOrphanFill (s : V33State) (e : Fill) :
    BooksOnce p now s (orphanBooking p s e) (applyOrphanFill p s e now).st := by
  unfold applyOrphanFill
  cases hprice : e.price with
  | none =>
    dsimp only
    split_ifs
    · exact .idle (HandsOn.refl s)
    · exact .idle (HandsOn.refl s)
  | some price =>
    have hreport (hc : 0 < qCount e.count) (hd : 0 < orphanDelta s e) :
        orphanBooking p s e = some (orphanReport p s e.clientOrderId
          (e.orderId.or ((ctxOfCoid s e.clientOrderId).map Prod.fst)) price (orphanDelta s e)
          e.marketTicker ((ctxOfCoid s e.clientOrderId).bind fun c => c.2.bucketSd)) := by
      rw [orphanBooking, if_neg (by simp [hc, hd]), hprice]
      rfl
    dsimp only
    split_ifs with h1 h2 h3 h4
    · exact .idle (HandsOn.refl s)
    · exact .idle (HandsOn.refl s)
    · have hdelta : orphanDelta s e = qCount e.count := by rw [orphanDelta, if_pos h3]
      refine .books _ (not_le.mp h1) ?_ (ReadsAlike.refl s) (HandsOn.refl _)
      rw [hreport (not_le.mp h1) (by rw [hdelta]; exact not_le.mp h1), hdelta]
      rfl
    · exact .idle (readsAlike_noteSeen s _ _).toHandsOn
    · have hdelta : orphanDelta s e = min (qCount e.count)
          ((noteSeen s e.clientOrderId (qCount e.count)).fillSeenByCoid.getD e.clientOrderId 0 -
            qCount (s.restBookedByCoid.getD e.clientOrderId 0)) := by
        rw [orphanDelta, if_neg h3]
      refine .books _ (not_le.mp h4) ?_ (readsAlike_noteSeen s _ _) (HandsOn.refl _)
      rw [hreport (not_le.mp h1) (by rw [hdelta]; exact not_le.mp h4), hdelta]
      rfl

/-- A cancel confirm up to its finish. -/
theorem ServeRun.reportCancel (e : OrderCancelled) :
    ServeRun p st (.orderCancelled e) (reportCancel p st e e.serverTs).st := by
  have hclear := readsAlike_clearCancelPending st e.orderId
  have hst : (V33.reportCancel p st e e.serverTs).st =
      (bookCancelFill p (clearCancelPending st e.orderId) e e.serverTs).st := by
    unfold V33.reportCancel
    dsimp only
    split_ifs <;> rfl
  have hbooks : withBook st (.orderCancelled e) = st := rfl
  rw [hst]
  refine ServeRun.books hbooks hclear.toHandsOn (fun r hr => ?_)
    (books_bookCancelFill _ e)
  rw [hclear.rungFillOf]
  simp only [bookedFill, booking, hr, Option.map_some]

/-- A confirmed amend books what crossed and serves it. -/
theorem ServeRun.confirmAmend (e : OrderAmended) {rp : RollPending}
    (hrp : rollOfAmend st e = some rp) :
    ServeRun p st (.orderAmended e) (confirmAmend p st rp e e.serverTs).st := by
  unfold V33.confirmAmend
  dsimp only
  split
  · exact .calm (HandsOn.calm ⟨rfl, rfl, rfl, rfl⟩)
  · next o ho =>
    have ho' : orderOf st rp.oldCoid = some o := ho
    have hmoved : HandsOn st (confirmRoll p (dropRoll st rp.oldCoid) rp
        (e.price.getD rp.targetPrice) e.serverTs) := ⟨rfl, rfl, rfl, rfl⟩
    have hbooks : withBook st (.orderAmended e) = st := rfl
    refine ServeRun.books hbooks hmoved (fun r hr => ?_)
      (books_bookAmendCross _ rp _ e)
    simp only [bookedFill, booking, hrp, ho', Option.bind_some, hr, Option.map_some]
    rfl

/-- A fill that no taker completion takes is awaited by no trigger. -/
theorem not_awaited {e : Fill} (h : ptApplyCompleteFill p s e now = none) :
    (s.printThroughTriggers.any fun t => t.completeCoid == some e.clientOrderId) = false := by
  unfold ptApplyCompleteFill at h
  split at h
  · next hnone =>
    rw [List.any_eq_false]
    rw [List.findIdx?_eq_none_iff] at hnone
    intro t ht
    simpa using hnone t ht
  · next idx hidx =>
    obtain ⟨hlt, -, -⟩ := List.findIdx?_eq_some_iff_getElem.mp hidx
    rw [Option.map_eq_none_iff, List.getElem?_eq_none_iff] at h
    omega

/-- A fill is booked and served. -/
theorem ServeRun.applyFill (e : Fill) :
    ServeRun p st (.fill e) (applyFill p st e e.serverTs).st := by
  have hclear := readsAlike_clearCancelPending st e.orderId
  unfold V33.applyFill
  dsimp only
  split
  · next r hr =>
    apply ServeRun.calm
    have hops := @via_ptApplyCompleteFill (deadFeed p) e.serverTs
      (clearCancelPending st e.orderId) e r hr
    exact hclear.toHandsOn.calm.trans (calm_of_ops rfl hops)
  · next hnone =>
    split
    · next leg hleg =>
      apply ServeRun.calm
      cases hw : applyWingFill p (clearCancelPending st e.orderId) leg e e.serverTs with
      | none => exact Calm.refl st
      | some r => exact hclear.toHandsOn.calm.trans (calm_applyWingFill hw)
    · next hleg =>
      have hanswers : answersWing st e = false := by
        have hleg' : legOf st e.clientOrderId = none := by
          rw [legOf, congrArg Wings.wingLegs hclear.wings] at hleg
          exact hleg
        rw [answersWing, hleg', ← congrArg Wings.printThroughTriggers hclear.wings,
          not_awaited hnone]
        rfl
      have hfill (r : FillReport)
          (hr : fillBooking p (clearCancelPending st e.orderId) e = some r) :
          bookedFill p st (.fill e) =
            some (rungFillOf p (clearCancelPending st e.orderId) r e.serverTs) := by
        rw [hclear.rungFillOf]
        simp only [bookedFill, hanswers, booking, hr, Option.map_some]
        rfl
      have hbooks : withBook st (.fill e) = st := rfl
      unfold fillBooking at hfill
      split
      · next order ho =>
        refine ServeRun.books hbooks hclear.toHandsOn (fun r hr => hfill r ?_)
          (books_applyRungFill _ order e)
        rw [ho]
        exact hr
      · next ho =>
        refine ServeRun.books hbooks hclear.toHandsOn (fun r hr => hfill r ?_)
          (books_applyOrphanFill _ e)
        rw [ho]
        exact hr

/-- What an event does to the wings. -/
theorem serveRun_decide (hcoids : CoidsOk st) (ev : Event) :
    ServeRun p st ev (decideV33 p st ev).st := by
  have hconverge (r : Outcome) (hr : beforeConverge p st ev = some r)
      (h : ServeRun p st ev r.st) : ServeRun p st ev (decideV33 p st ev).st := by
    rw [decideV33_of_beforeConverge hr]
    exact h.andCalm (calm_of_ladder (hcoids.via_converge hr))
  cases ev with
  | bookUpdate e => exact hconverge _ rfl (ServeRun.serveWings rfl)
  | clockTick now => exact hconverge _ rfl (ServeRun.serveWings rfl)
  | trade e => exact ServeRun.applyTrade e
  | orderAck e =>
    apply ServeRun.calm
    apply HandsOn.calm
    show HandsOn st (applyAck st e)
    unfold applyAck
    split_ifs
    · exact ⟨rfl, rfl, rfl, rfl⟩
    · exact HandsOn.refl st
  | fill e => exact ServeRun.applyFill e
  | orderCancelled e =>
    refine hconverge _ rfl ((ServeRun.reportCancel e).andCalm ?_)
    rw [andThen_st]
    unfold finishCancel
    split
    · next rp _ =>
      obtain ⟨hframe, -⟩ := @rollFallback_tidy p e.serverTs
        (reportCancel p st e e.serverTs).st rp
      exact hframe.handsOn.calm
    · obtain ⟨l, n, heq, -⟩ := dropCancelled_eq (reportCancel p st e e.serverTs).st e
        (cancelledOrder (clearCancelPending st e.orderId) e)
      have hdropped : HandsOn (reportCancel p st e e.serverTs).st
          (dropCancelled (reportCancel p st e e.serverTs).st e
            (cancelledOrder (clearCancelPending st e.orderId) e)) := by
        rw [heq]
        exact ⟨rfl, rfl, rfl, rfl⟩
      exact hdropped.calm.trans (calm_ptOnCancelConfirmed _ _)
  | orderAmended e =>
    cases hrp : rollOfAmend st e with
    | some rp =>
      refine hconverge (confirmAmend p st rp e e.serverTs) ?_ (ServeRun.confirmAmend e hrp)
      simp only [beforeConverge, hrp, Option.map_some]
    | none =>
      apply ServeRun.calm
      simp only [decideV33, applyAmended, hrp]
      exact Calm.refl st

end Runs

end Pilot.V33
