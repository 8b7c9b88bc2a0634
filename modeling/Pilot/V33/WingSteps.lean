import Pilot.V33.LadderSteps

/-!
# The wings in small steps

The wing step, the early takes and the resolution of their triggers are runs of
small guarded operations on the batches, the legs and the triggers, together with the
ladder operations of the rests they cancel.
-/

namespace Pilot.V33

/-! ### Updates that keep the hedge -/

/-- An update of a batch that keeps its fills and what they hedge. -/
structure KeepsHedge (f : WingBatch → WingBatch) : Prop where
  index : ∀ b, (f b).index = b.index
  fills : ∀ b, (f b).fills = b.fills
  taken : ∀ b, (f b).taken = b.taken
  printThrough : ∀ b, (f b).printThrough = b.printThrough
  bucketSd : ∀ b, (f b).bucketSd = b.bucketSd

/-- A trigger goes on: its batch, its rungs and its lots stay, it awaits no new completion, and
a resolution is final. -/
structure TriggerStep (t t' : PrintThroughTrigger) : Prop where
  batchIndex : t'.batchIndex = t.batchIndex
  count : t'.count = t.count
  rungCoids : t'.rungCoids = t.rungCoids
  filledCoids : t'.filledCoids = t.filledCoids
  awaited : ∀ c, t'.completeCoid = some c → t.completeCoid = some c
  resolved : t.resolved = true → t'.resolved = true ∧ t'.resolution = t.resolution

/-- A trigger may stay as it is. -/
theorem TriggerStep.refl (t : PrintThroughTrigger) : TriggerStep t t :=
  ⟨rfl, rfl, rfl, rfl, fun _ hc => hc, fun h => ⟨h, rfl⟩⟩

/-- The sales of the missed lots of a taker completion. -/
def shortSales (st : V33State) (b : WingBatch) (short : ℚ) : List V33Action :=
  unwindAction st (unwindSales (ptWingBids st) (fun _ => short)
    ((batchLegs st b.index).filter fun l => l.status = .filled)) (truncInt short)

/-- A trigger resolved by buying its shortfall. -/
def completedTrigger (shortfall noAsk lockPer now : ℚ) (coid : Option String)
    (t : PrintThroughTrigger) : PrintThroughTrigger :=
  { t with
    resolved := true
    resolution := some .complete
    shortfall := shortfall
    completePrice := some noAsk
    lockAtCompletion := some lockPer
    resolvedTs := some now
    completeCoid := coid }

/-- The completion of a trigger booked at once, up to the latch of a finished hour. -/
def bookedCompletion (p : V33Params) (st : V33State) (idx : ℕ) (t : PrintThroughTrigger)
    (b : WingBatch) (shortfall noAsk lockPer now : ℚ) : V33State :=
  maybeCloseSet (replacePt (ptBookTakerComplete p st t noAsk shortfall now) idx
    (completedTrigger shortfall noAsk lockPer now t.completeCoid)) b.index

/-- The small operations on the wings. -/
inductive WingOp (p : V33Params) (now : ℚ) : V33State → List V33Action → V33State → Prop
  | flush (st : V33State) : WingOp p now st [] (coalesceFlush p st now)
  | mirror (st : V33State) (x y : Bool) (le : st.ptOneLegged = true → y = true) :
      WingOp p now st [] { st with oneLegged := x, ptOneLegged := y }
  | flag (st : V33State) (index : ℕ) (f : WingBatch → WingBatch) (sets : ℚ)
      (keeps : KeepsHedge f) :
      WingOp p now st []
        { st with
          wingBatches := replaceBatch st.wingBatches index f
          setsDone := sets }
  | settle (st : V33State) (ts : List PrintThroughTrigger)
      (steps : List.Forall₂ TriggerStep st.printThroughTriggers ts) :
      WingOp p now st [] { st with printThroughTriggers := ts }
  | take (st : V33State) (b : WingBatch) (sd : ℤ) (ya na : ℚ)
      (batch : batchOf st b.index = some b) (fresh : b.taken = false)
      (regular : b.printThrough = false) (bucket : batchBucket b = some sd)
      (prices : wingPricesForBucket p st sd (sd + p.bucketWidth) now = some (ya, na)) :
      WingOp p now st (takeBatch p st b sd (sd + p.bucketWidth) ya na).acts
        (takeBatch p st b sd (sd + p.bucketWidth) ya na).st
  | takePartial (st : V33State) (b : WingBatch) (sd : ℤ)
      (batch : batchOf st b.index = some b) (fresh : b.taken = false)
      (regular : b.printThrough = false) (bucket : batchBucket b = some sd)
      (prices : wingPricesForBucket p st sd (sd + p.bucketWidth) now = none) :
      WingOp p now st (takeBatchPartial p st b sd (sd + p.bucketWidth) now).acts
        (takeBatchPartial p st b sd (sd + p.bucketWidth) now).st
  | retry (st : V33State) (b : WingBatch) (sd : ℤ) (ya na : ℚ)
      (batch : batchOf st b.index = some b) (taken : b.taken = true)
      (regular : b.printThrough = false) (bucket : batchBucket b = some sd)
      (prices : wingPricesForBucket p st sd (sd + p.bucketWidth) now = some (ya, na)) :
      WingOp p now st (retryBatch p st b ya na now).acts (retryBatch p st b ya na now).st
  | net (st : V33State) (l m : WingLeg) (lPrice mPrice q : ℚ) (grid : OnGrid 100 q) :
      WingOp p now st (netPair st l m lPrice mPrice q now).acts
        (netPair st l m lPrice mPrice q now).st
  | fire (st : V33State) (sd : ℤ) (ya na yesPrint : ℚ) :
      WingOp p now st (ptFire p st sd (ptCandidates p st yesPrint) ya na yesPrint now).acts
        (ptFire p st sd (ptCandidates p st yesPrint) ya na yesPrint now).st
  | unwind (st : V33State) (idx : ℕ) (t t' : PrintThroughTrigger) (b : WingBatch)
      (resolution : Resolution) (trigger : st.printThroughTriggers[idx]? = some t')
      (unresolved : t'.resolved = false) (batch : batchOf st t'.batchIndex = some b) :
      WingOp p now st (ptUnwind st idx t b now resolution).acts
        (ptUnwind st idx t b now resolution).st
  | complete (st : V33State) (idx : ℕ) (t t' : PrintThroughTrigger) (b : WingBatch)
      (shortfall noAsk lockPer : ℚ) (trigger : st.printThroughTriggers[idx]? = some t')
      (unresolved : t'.resolved = false) (same : t'.batchIndex = t.batchIndex)
      (batch : batchOf st t'.batchIndex = some b) (ask : ptBucketNoAsk st = some noAsk)
      (awaited : t'.completeCoid = t.completeCoid) :
      WingOp p now st (ptComplete p st idx t b shortfall noAsk lockPer now).acts
        { (ptComplete p st idx t b shortfall noAsk lockPer now).st with
          toLatches := st.toLatches }
  | short (st : V33State) (idx : ℕ) (t' : PrintThroughTrigger) (b : WingBatch)
      (short roundtrip : ℚ) (trigger : st.printThroughTriggers[idx]? = some t')
      (batch : batchOf st t'.batchIndex = some b) :
      WingOp p now st (shortSales st b short)
        (replacePt (resizeBatch st b.index b.totalCount) idx (costTrigger roundtrip))
  | takerFill (st : V33State) (t : PrintThroughTrigger) (price count : ℚ)
      (early : t.batchIndex ∈ st.printThroughTriggers.map PrintThroughTrigger.batchIndex) :
      WingOp p now st [] (ptBookTakerComplete p st t price count now)

/-- The operations of the ladder and of the wings. The wing side neither places nor clears
the ladder. -/
inductive Op (p : V33Params) (now : ℚ) : V33State → List V33Action → V33State → Prop
  | ladder {st st' : V33State} {acts : List V33Action}
      (h : LadderOp p now Permit.leave st acts st') : Op p now st acts st'
  | wing {st st' : V33State} {acts : List V33Action} (h : WingOp p now st acts st') :
      Op p now st acts st'

section Wings

variable {p : V33Params} {now : ℚ} {st : V33State}

/-- The mirrors of the wings are brought up to date. -/
theorem via_syncWingMirrors : WingOp p now st [] (syncWingMirrors st) :=
  WingOp.mirror st _ st.ptOneLegged id

/-- A batch is marked with its resolution. -/
theorem via_ptMarkResolution (index : ℕ) (resolution : Resolution) (at_ : Option ℚ) :
    WingOp p now st [] (ptMarkResolution st index resolution at_) := by
  refine WingOp.settle st _ (forall₂_replaceFirst TriggerStep.refl (fun t ht => ?_) _)
  simp only [Bool.and_eq_true, Bool.not_eq_true'] at ht
  exact ⟨rfl, rfl, rfl, rfl, fun _ hc => hc, fun h => by simp [ht.2] at h⟩

/-- A silent run after a run. -/
theorem silent_trans_right {R : V33State → List V33Action → V33State → Prop} {s t u : V33State}
    {a : List V33Action} (h : Run R s a t) (k : Run R t [] u) : Run R s a u := by
  have := Run.trans h k
  rwa [List.append_nil] at this

/-- Several silent operations. -/
theorem silent_trans {R : V33State → List V33Action → V33State → Prop} {s t u : V33State}
    (h : Run R s [] t) (k : Run R t [] u) : Run R s [] u := Run.trans h k

/-- A set that is complete is closed. -/
theorem run_maybeCloseSet (index : ℕ) : Run (WingOp p now) st [] (maybeCloseSet st index) := by
  unfold maybeCloseSet
  split
  · exact Run.single via_syncWingMirrors
  · next b hb =>
    have hkeep : KeepsHedge fun b : WingBatch =>
        { b with completed := true, oneLegged := false, resolved := true } :=
      ⟨fun _ => rfl, fun _ => rfl, fun _ => rfl, fun _ => rfl, fun _ => rfl⟩
    have hkeep' : KeepsHedge fun b : WingBatch =>
      { b with completed := true, oneLegged := false } :=
      ⟨fun _ => rfl, fun _ => rfl, fun _ => rfl, fun _ => rfl, fun _ => rfl⟩
    split_ifs
    · exact Run.single via_syncWingMirrors
    · exact Run.single via_syncWingMirrors
    · exact silent_trans (Run.single (WingOp.flag st index _ (st.setsDone + b.takenCount) hkeep))
        (silent_trans (Run.single (via_ptMarkResolution index .filled none))
          (Run.single via_syncWingMirrors))
    · exact silent_trans (Run.single (WingOp.flag st index _ (st.setsDone + b.totalCount) hkeep'))
        (Run.single via_syncWingMirrors)

/-- A batch is given up at the cutoff by small operations. -/
theorem via_cutoffBatch (b : WingBatch) : (cutoffBatch now b st).Via (WingOp p now) st := by
  have hkeep : KeepsHedge fun b : WingBatch => { b with oneLegged := true, resolved := true } :=
    ⟨fun _ => rfl, fun _ => rfl, fun _ => rfl, fun _ => rfl, fun _ => rfl⟩
  have hkeep' : KeepsHedge fun b : WingBatch => { b with oneLegged := true } :=
    ⟨fun _ => rfl, fun _ => rfl, fun _ => rfl, fun _ => rfl, fun _ => rfl⟩
  unfold cutoffBatch
  split_ifs
  · exact via_quiet _ _
  · exact silent_trans (Run.single (WingOp.flag st b.index _ st.setsDone hkeep))
      (Run.single (via_ptMarkResolution b.index .partialFill (some now)))
  · exact via_quiet _ _
  · exact Run.single (WingOp.flag st b.index _ st.setsDone hkeep')

/-- The batch found by an index has it. -/
theorem batchOf_index {index : ℕ} {b : WingBatch} (h : batchOf st index = some b) :
    b.index = index := by
  simpa using List.find?_some h

/-- A batch is served by small operations. -/
theorem via_serveBatch (index : ℕ) : (serveBatch p now index st).Via (WingOp p now) st := by
  unfold serveBatch
  split
  · exact via_quiet _ _
  · next b hb =>
    have hb' : batchOf st b.index = some b := by rw [batchOf_index hb]; exact hb
    split_ifs with hskip ht
    · exact via_quiet _ _
    · simp only [not_or, Bool.not_eq_true] at hskip
      split
      · exact via_quiet _ _
      · next sd hsd =>
        split
        · exact via_quiet _ _
        · next ya na hprices =>
          exact Run.single (WingOp.retry st b sd ya na hb' ht hskip.2 hsd hprices)
    · simp only [not_or, Bool.not_eq_true] at hskip ht
      split
      · exact via_quiet _ _
      · next sd hsd =>
        split
        · next hprices =>
          exact Run.single (WingOp.takePartial st b sd hb' ht hskip.2 hsd hprices)
        · next ya na hprices =>
          exact Run.single (WingOp.take st b sd ya na hb' ht hskip.2 hsd hprices)

/-- The wing step is a run of wing operations. -/
theorem via_wingStep (st : V33State) : (wingStep p st now).Via (WingOp p now) st := by
  refine via_of_step (WingOp.flush st) ?_
  unfold wingStep
  dsimp only
  split_ifs
  · exact Run.single via_syncWingMirrors
  · exact (via_forEach (fun b s => via_cutoffBatch b) _ _).mapSt via_syncWingMirrors
  · exact (via_forEach (fun i s => via_serveBatch i) _ _).mapSt via_syncWingMirrors

/-- Wings are netted by small operations. -/
theorem via_netWings (coid : String) : (netWings st coid now).Via (WingOp p now) st := by
  unfold netWings
  generalize 64 = fuel
  induction fuel generalizing st with
  | zero => exact via_quiet _ _
  | succ fuel ih =>
    unfold netLoop
    split
    · exact via_quiet _ _
    · next l hl =>
      split_ifs
      · split
        · next lPrice m hlp hm =>
          dsimp only
          split
          · exact via_quiet _ _
          · next mPrice hmp =>
            split_ifs
            · exact via_quiet _ _
            · exact Outcome.Via.andThen 
                (Run.single (WingOp.net st l m lPrice mPrice _ (onGrid_qCount _))) ih
        · exact via_quiet _ _
      · exact via_quiet _ _

/-- An early take is made by small operations. -/
theorem via_printThroughStep (ev : Trade) :
    (printThroughStep p st ev now).Via (WingOp p now) st := by
  unfold printThroughStep
  split
  · exact via_quiet _ _
  · next sd hsd =>
    split_ifs
    · split
      · exact via_quiet _ _
      · next ya na hprices =>
        dsimp only
        split_ifs
        · exact via_quiet _ _
        · exact Run.single (WingOp.fire st sd ya na ev.yesPrice)
    · exact via_quiet _ _

end Wings

/-! ### Frames -/

/-- What the ladder operations leave alone. -/
structure LadderFrame (st st' : V33State) : Prop where
  window : st'.toWindow = st.toWindow
  books : st'.toBooks = st.toBooks
  quote : st'.toQuote = st.toQuote
  fills : st'.toFillLog = st.toFillLog
  wings : st'.toWings = st.toWings
  seq : st.coidSeq ≤ st'.coidSeq

/-- What the wing operations leave alone. -/
structure WingFrame (st st' : V33State) : Prop where
  window : st'.toWindow = st.toWindow
  books : st'.toBooks = st.toBooks
  quote : st'.toQuote = st.toQuote
  ladder : st'.toLadder = st.toLadder
  latches : st'.toLatches = st.toLatches
  pacing : st'.toPacing = st.toPacing
  booked : st'.restBookedByCoid = st.restBookedByCoid
  crossed : st'.amendCrossPending = st.amendCrossPending
  seen : st'.fillSeenByCoid = st.fillSeenByCoid
  seq : st.coidSeq ≤ st'.coidSeq

/-- No change leaves the rest as it is. -/
theorem LadderFrame.refl (st : V33State) : LadderFrame st st :=
  ⟨rfl, rfl, rfl, rfl, rfl, le_rfl⟩

/-- Two changes that leave the rest leave it together. -/
theorem LadderFrame.trans {a b c : V33State} (h : LadderFrame a b) (k : LadderFrame b c) :
    LadderFrame a c :=
  ⟨k.window.trans h.window, k.books.trans h.books, k.quote.trans h.quote, k.fills.trans h.fills,
    k.wings.trans h.wings, h.seq.trans k.seq⟩

/-- No change leaves the ladder as it is. -/
theorem WingFrame.refl (st : V33State) : WingFrame st st :=
  ⟨rfl, rfl, rfl, rfl, rfl, rfl, rfl, rfl, rfl, le_rfl⟩

/-- Two changes that leave the ladder leave it together. -/
theorem WingFrame.trans {a b c : V33State} (h : WingFrame a b) (k : WingFrame b c) :
    WingFrame a c :=
  ⟨k.window.trans h.window, k.books.trans h.books, k.quote.trans h.quote,
    k.ladder.trans h.ladder, k.latches.trans h.latches, k.pacing.trans h.pacing,
    k.booked.trans h.booked, k.crossed.trans h.crossed, k.seen.trans h.seen, h.seq.trans k.seq⟩

/-- An operation of the ladder leaves the wings and the books. -/
theorem LadderOp.frame {p : V33Params} {now : ℚ} {P : Permit} {st st' : V33State}
    {acts : List V33Action} (h : LadderOp p now P st acts st') : LadderFrame st st' := by
  cases h with
  | drop =>
    rw [cancelAll_st]
    exact ⟨rfl, rfl, rfl, rfl, rfl, le_rfl⟩
  | clear =>
    rw [cancelAllThenReplace_st, cancelAll_st]
    exact ⟨rfl, rfl, rfl, rfl, rfl, le_rfl⟩
  | create | roll => exact ⟨rfl, rfl, rfl, rfl, rfl, Nat.le_succ _⟩
  | shrink o =>
    unfold shrinkOne
    dsimp only
    rw [retainCancelled_eq]
    exact ⟨rfl, rfl, rfl, rfl, rfl, le_rfl⟩
  | stallCancel coid =>
    unfold ptCancelRung
    split
    · exact LadderFrame.refl _
    · dsimp only
      rw [retainCancelled_eq]
      exact ⟨rfl, rfl, rfl, rfl, rfl, le_rfl⟩
  | _ => exact ⟨rfl, rfl, rfl, rfl, rfl, le_rfl⟩

section Frames

variable {p : V33Params} {now : ℚ} {st st' : V33State} {acts : List V33Action}

/-- Retrying legs mints ids and does nothing else to the state. -/
theorem retryLegs_st (index : ℕ) (ya na : ℚ) (legs : List WingLeg) (st : V33State) :
    ∃ n, (retryLegs p index ya na now legs st).2.st = { st with coidSeq := n } ∧
      st.coidSeq ≤ n := by
  induction legs generalizing st with
  | nil => exact ⟨st.coidSeq, rfl, le_rfl⟩
  | cons leg rest ih =>
    unfold retryLegs
    split_ifs
    · obtain ⟨n, hn, hle⟩ := ih (mintCoid st).2
      refine ⟨n, ?_, ?_⟩
      · dsimp only
        rw [hn]
        rfl
      · exact le_trans (Nat.le_succ _) hle
    · exact ih st

/-- A closed set leaves the ladder. -/
theorem maybeCloseSet_frame (index : ℕ) : WingFrame st (maybeCloseSet st index) := by
  unfold maybeCloseSet
  split
  · exact ⟨rfl, rfl, rfl, rfl, rfl, rfl, rfl, rfl, rfl, le_rfl⟩
  · split_ifs <;> exact ⟨rfl, rfl, rfl, rfl, rfl, rfl, rfl, rfl, rfl, le_rfl⟩

/-- A taker fill leaves the ladder. -/
theorem ptBookTakerComplete_frame (t : PrintThroughTrigger) (price count : ℚ) :
    WingFrame st (ptBookTakerComplete p st t price count now) := by
  unfold ptBookTakerComplete
  dsimp only
  split_ifs
  · exact WingFrame.refl _
  · split
    · exact WingFrame.refl _
    · exact ⟨rfl, rfl, rfl, rfl, rfl, rfl, rfl, rfl, rfl, le_rfl⟩

/-- The latch of a finished hour changes the latches alone. -/
theorem latchIfDone_eq (p : V33Params) (st : V33State) :
    ∃ x : Latches, latchIfDone p st = { st with toLatches := x } ∧ st.toLatches.le x := by
  unfold latchIfDone
  split_ifs
  · exact ⟨{ st.toLatches with restAllotmentDone := true }, rfl, id, fun _ => rfl, id, id⟩
  · exact ⟨st.toLatches, rfl, Latches.le_refl _⟩

/-- A batch kept hedged leaves the ladder. -/
theorem keepHedged_frame (idx : ℕ) (b : WingBatch)
    (f : PrintThroughTrigger → PrintThroughTrigger) : WingFrame st (keepHedged st idx b f) :=
  WingFrame.trans (b := replacePt (resizeBatch st b.index b.totalCount) idx f)
    ⟨rfl, rfl, rfl, rfl, rfl, rfl, rfl, rfl, rfl, le_rfl⟩ (maybeCloseSet_frame b.index)

/-- A booked completion leaves the ladder. -/
theorem bookedCompletion_frame (idx : ℕ) (t : PrintThroughTrigger) (b : WingBatch)
    (shortfall noAsk lockPer : ℚ) :
    WingFrame st (bookedCompletion p st idx t b shortfall noAsk lockPer now) := by
  have hbooked := @ptBookTakerComplete_frame p now st t noAsk shortfall
  have hresolved : WingFrame (ptBookTakerComplete p st t noAsk shortfall now)
      (replacePt (ptBookTakerComplete p st t noAsk shortfall now) idx
        (completedTrigger shortfall noAsk lockPer now t.completeCoid)) :=
    ⟨rfl, rfl, rfl, rfl, rfl, rfl, rfl, rfl, rfl, le_rfl⟩
  exact (hbooked.trans hresolved).trans (maybeCloseSet_frame b.index)

/-- A completion in shakedown is booked at once and may latch. -/
theorem ptComplete_of_shakedown (idx : ℕ) (t : PrintThroughTrigger) (b : WingBatch)
    (shortfall noAsk lockPer : ℚ) (h : st.shakedown = true) :
    (ptComplete p st idx t b shortfall noAsk lockPer now).st =
      latchIfDone p (bookedCompletion p st idx t b shortfall noAsk lockPer now) := by
  unfold ptComplete
  dsimp only
  rw [if_pos h]
  rfl

/-- An armed completion waits for its response under a minted id. -/
theorem ptComplete_of_armed (idx : ℕ) (t : PrintThroughTrigger) (b : WingBatch)
    (shortfall noAsk lockPer : ℚ) (h : st.shakedown = false) :
    (ptComplete p st idx t b shortfall noAsk lockPer now).st =
      replacePt (mintCoid st).2 idx
        (completedTrigger shortfall noAsk lockPer now (some (mintCoid st).1)) := by
  unfold ptComplete
  dsimp only
  rw [if_neg (by simp [h])]
  rfl

/-- An operation of the wings leaves the ladder. -/
theorem WingOp.frame (h : WingOp p now st acts st') : WingFrame st st' := by
  cases h with
  | flush =>
    unfold coalesceFlush
    split
    · exact WingFrame.refl _
    · split_ifs <;> exact ⟨rfl, rfl, rfl, rfl, rfl, rfl, rfl, rfl, rfl, le_rfl⟩
  | take b sd ya na =>
    exact ⟨rfl, rfl, rfl, rfl, rfl, rfl, rfl, rfl, rfl,
      (Nat.le_succ _).trans (Nat.le_succ _)⟩
  | takePartial b sd =>
    unfold takeBatchPartial
    dsimp only
    split_ifs
    · split
      · exact ⟨rfl, rfl, rfl, rfl, rfl, rfl, rfl, rfl, rfl, Nat.le_succ _⟩
      · exact ⟨rfl, rfl, rfl, rfl, rfl, rfl, rfl, rfl, rfl, Nat.le_succ _⟩
      · exact WingFrame.refl _
    · exact WingFrame.refl _
  | retry b sd ya na =>
    unfold retryBatch
    dsimp only
    split_ifs
    · exact WingFrame.refl _
    · exact WingFrame.refl _
    · obtain ⟨n, hn, hle⟩ := @retryLegs_st p now b.index ya na st.wingLegs st
      rw [hn]
      exact ⟨rfl, rfl, rfl, rfl, rfl, rfl, rfl, rfl, rfl, hle⟩
  | net l m =>
    unfold netPair
    cases l.side <;> exact ⟨rfl, rfl, rfl, rfl, rfl, rfl, rfl, rfl, rfl, le_rfl⟩
  | fire sd ya na yesPrint =>
    exact ⟨rfl, rfl, rfl, rfl, rfl, rfl, rfl, rfl, rfl,
      (Nat.le_succ _).trans (Nat.le_succ _)⟩
  | unwind idx t t' b =>
    unfold ptUnwind
    dsimp only
    split_ifs
    · exact keepHedged_frame _ _ _
    · exact ⟨rfl, rfl, rfl, rfl, rfl, rfl, rfl, rfl, rfl, le_rfl⟩
  | complete idx t t' b shortfall noAsk lockPer =>
    cases hs : st.shakedown with
    | true =>
      have hframe := @bookedCompletion_frame p now st idx t b shortfall noAsk lockPer
      obtain ⟨x, hx, -⟩ := latchIfDone_eq p
          (bookedCompletion p st idx t b shortfall noAsk lockPer now)
      rw [ptComplete_of_shakedown _ _ _ _ _ _ hs, hx, ← hframe.latches]
      exact hframe
    | false =>
      rw [ptComplete_of_armed _ _ _ _ _ _ hs]
      exact ⟨rfl, rfl, rfl, rfl, rfl, rfl, rfl, rfl, rfl, Nat.le_succ _⟩
  | takerFill t price count _ => exact ptBookTakerComplete_frame t price count
  | _ => exact ⟨rfl, rfl, rfl, rfl, rfl, rfl, rfl, rfl, rfl, le_rfl⟩

/-- A wing action is one, live or not. -/
theorem isWing_twinKind {k : ActionKind} {b : Bool} (h : k.isWing = true) :
    (twinKind k b).isWing = true := by
  unfold twinKind
  cases k <;> cases b <;> simp_all [ActionKind.isWing]

/-- A retry emits wing actions. -/
theorem isWing_retryLegs (index : ℕ) (ya na : ℚ) (legs : List WingLeg) (st : V33State) :
    ∀ a ∈ (retryLegs p index ya na now legs st).2.acts, a.kind.isWing = true := by
  induction legs generalizing st with
  | nil => simp [retryLegs]
  | cons leg rest ih =>
    unfold retryLegs
    split_ifs
    · intro a ha
      rcases List.mem_cons.mp ha with rfl | ha
      · exact isWing_twinKind rfl
      · exact ih _ a ha
    · exact ih st

/-- An unwind emits wing actions. -/
theorem isWing_unwindAction (st : V33State) (sales : List LegOrder) (count : ℚ) :
    ∀ a ∈ unwindAction st sales count, a.kind.isWing = true := by
  unfold unwindAction
  split_ifs
  · simp
  · intro a ha
    rw [List.mem_singleton] at ha
    subst ha
    exact isWing_twinKind rfl

/-- The wing operations emit wing actions. -/
theorem WingOp.isWing (h : WingOp p now st acts st') : ∀ a ∈ acts, a.kind.isWing = true := by
  have hone : ∀ (sh : Bool) (x : V33Action), x.kind.isWing = true →
      ∀ a ∈ [mk sh x], a.kind.isWing = true := by
    intro sh x hx a ha
    rw [List.mem_singleton] at ha
    subst ha
    exact isWing_twinKind hx
  cases h with
  | take => exact hone _ _ rfl
  | takePartial b sd =>
    unfold takeBatchPartial
    dsimp only
    split_ifs
    · split
      · exact hone _ _ rfl
      · exact hone _ _ rfl
      · simp
    · simp
  | retry b sd ya na =>
    unfold retryBatch
    dsimp only
    split_ifs
    · simp
    · simp
    · exact isWing_retryLegs _ _ _ _ _
  | net l m =>
    unfold netPair
    exact hone _ _ rfl
  | fire => exact hone _ _ rfl
  | unwind idx t t' b =>
    unfold ptUnwind
    dsimp only
    split_ifs <;> exact isWing_unwindAction _ _ _
  | complete idx t t' b =>
    unfold ptComplete
    dsimp only
    split_ifs <;> exact hone _ _ rfl
  | short idx t' b => exact isWing_unwindAction _ _ _
  | flush | mirror | flag | settle | takerFill => simp

/-- A run of ladder operations leaves the wings and the books. -/
theorem Run.ladderFrame {P : Permit} (h : Run (LadderOp p now P) st acts st') :
    LadderFrame st st' := by
  induction h with
  | refl => exact LadderFrame.refl _
  | step hs _ ih => exact hs.frame.trans ih

/-- A run of wing operations leaves the ladder. -/
theorem Run.wingFrame (h : Run (WingOp p now) st acts st') : WingFrame st st' := by
  induction h with
  | refl => exact WingFrame.refl _
  | step hs _ ih => exact hs.frame.trans ih

/-- A run of wing operations emits wing actions. -/
theorem Run.isWing (h : Run (WingOp p now) st acts st') : ∀ a ∈ acts, a.kind.isWing = true :=
  (h.outputs (I := fun _ => True) (fun _ _ _ hop _ => ⟨trivial, hop.isWing⟩) trivial).2

end Frames

/-! ### Resolving a trigger -/

section Triggers

variable {p : V33Params} {now : ℚ} {st : V33State}

/-- Operations of the wings are operations. -/
theorem Outcome.Via.wing {r : Outcome} (h : r.Via (WingOp p now) st) : r.Via (Op p now) st :=
  Run.mono (fun _ _ _ => Op.wing) h

/-- So is a run of them. -/
theorem run_wing {st' : V33State} {acts : List V33Action} (h : Run (WingOp p now) st acts st') :
    Run (Op p now) st acts st' := Run.mono (fun _ _ _ => Op.wing) h

/-- So is a run of ladder operations that only let orders leave. -/
theorem run_ladder {st' : V33State} {acts : List V33Action}
    (h : Run (LadderOp p now Permit.leave) st acts st') :
    Run (Op p now) st acts st' := Run.mono (fun _ _ _ => Op.ladder) h

/-- An update of a trigger at a position is a step of that trigger. -/
theorem settle_replacePt (idx : ℕ) (f : PrintThroughTrigger → PrintThroughTrigger)
    (h : ∀ t, st.printThroughTriggers[idx]? = some t → TriggerStep t (f t)) :
    WingOp p now st [] (replacePt st idx f) :=
  WingOp.settle st _ (forall₂_modify TriggerStep.refl _ _ h)

/-- The latch of a finished hour is one operation. -/
theorem run_latchIfDone {P : Permit} : Run (LadderOp p now P) st [] (latchIfDone p st) := by
  obtain ⟨x, hx, hle⟩ := latchIfDone_eq p st
  rw [hx]
  exact Run.single (LadderOp.latch st x hle)

/-- Cancelling pre-hedged rungs of a trigger one after the other. -/
theorem via_cancelRungs {P : Permit} (hstall : P.stall) {t : PrintThroughTrigger}
    (coids : List String) (ht : t ∈ st.printThroughTriggers) (hcoids : coids ⊆ t.rungCoids) :
    (forEach coids (ptCancelRung p) st).Via (LadderOp p now P) st := by
  induction coids generalizing st with
  | nil => exact via_quiet _ _
  | cons coid coids ih =>
    have hop := @LadderOp.stallCancel p now P st coid ⟨t, ht, hcoids (by simp)⟩ hstall
    refine Outcome.Via.andThen (Run.single hop) (ih ?_ fun c hc => hcoids (by simp [hc]))
    rw [congrArg Wings.printThroughTriggers (LadderOp.frame hop).wings]
    exact ht

/-- The rungs of a stalled trigger are cancelled by small operations. -/
theorem via_ptCancelUnfilledRungs {P : Permit} (hstall : P.stall) {t : PrintThroughTrigger}
    (ht : t ∈ st.printThroughTriggers) :
    (ptCancelUnfilledRungs p st t).Via (LadderOp p now P) st :=
  via_cancelRungs hstall _ ht (List.Subset.refl _)

/-- Selling the wings of an unresolved trigger back. -/
theorem via_ptUnwind (idx : ℕ) (t t' : PrintThroughTrigger) (b : WingBatch)
    (resolution : Resolution) (ht : st.printThroughTriggers[idx]? = some t')
    (hres : t'.resolved = false) (hb : batchOf st t'.batchIndex = some b) :
    (ptUnwind st idx t b now resolution).Via (WingOp p now) st :=
  Run.single (WingOp.unwind st idx t t' b resolution ht hres hb)

/-- The latches of wings that did not both fill. -/
theorem run_ptLatch : Run (Op p now) st [] (ptLatch st) := by
  refine silent_trans (Run.single (Op.ladder (LadderOp.latch st
    { st.toLatches with ptStoodDown := true, stoodDown := true }
    ⟨id, id, fun _ => rfl, fun _ => rfl⟩))) ?_
  exact Run.single (Op.wing (WingOp.mirror _ st.oneLegged true fun _ => rfl))

/-- A stand-down is one operation. -/
theorem via_standdown_op (reason : Reason) : (standdown st reason).Via (Op p now) st :=
  run_ladder (via_standdown reason)

/-- Failing closed: cancel the rests, sell the wings back and stand down. -/
theorem via_ptFailClosed (batchIndex : ℕ) :
    (ptFailClosed p st batchIndex now).Via (Op p now) st := by
  unfold ptFailClosed
  split
  · exact via_quiet _ _
  · next idx hidx =>
    split
    · next t b ht hb =>
      obtain ⟨_, hpred, -⟩ := List.findIdx?_eq_some_iff_getElem.mp hidx
      have hget : st.printThroughTriggers[idx] = t := by
        have := List.getElem?_eq_some_iff.mp ht
        exact this.2
      rw [hget] at hpred
      simp only [Bool.and_eq_true, beq_iff_eq, Bool.not_eq_true'] at hpred
      have hcancel : (ptCancelUnfilledRungs p st t).Via
          (LadderOp p now Permit.leave) st :=
        via_ptCancelUnfilledRungs trivial (List.mem_of_getElem? ht)
      have hframe : (ptCancelUnfilledRungs p st t).st.toWings = st.toWings :=
        (Run.ladderFrame hcancel).wings
      have htrig : (ptCancelUnfilledRungs p st t).st.printThroughTriggers[idx]? = some t := by
        rw [congrArg Wings.printThroughTriggers hframe]
        exact ht
      have hbatch : batchOf (ptCancelUnfilledRungs p st t).st t.batchIndex = some b := by
        unfold batchOf
        rw [congrArg Wings.wingBatches hframe, hpred.1]
        exact hb
      have hunwind := (@via_ptUnwind p now _ idx t t b .partialFill htrig hpred.2 hbatch).wing
      have hlatched := silent_trans_right (Run.trans (run_ladder hcancel) hunwind) run_ptLatch
      refine Outcome.Via.andThen hlatched ?_
      exact (via_standdown_op _).mapSt (Op.wing via_syncWingMirrors)
    · exact via_quiet _ _

/-- A taker fill leaves the triggers. -/
theorem ptBookTakerComplete_triggers (t : PrintThroughTrigger) (price count : ℚ) :
    (ptBookTakerComplete p st t price count now).printThroughTriggers =
      st.printThroughTriggers := by
  unfold ptBookTakerComplete
  dsimp only
  split_ifs
  · rfl
  · split <;> rfl

/-- Buying the shortfall of an unresolved trigger. -/
theorem via_ptComplete (idx : ℕ) (t t' : PrintThroughTrigger) (b : WingBatch)
    (shortfall noAsk lockPer : ℚ) (ht : st.printThroughTriggers[idx]? = some t')
    (hres : t'.resolved = false) (hsame : t'.batchIndex = t.batchIndex)
    (hb : batchOf st t'.batchIndex = some b) (hask : ptBucketNoAsk st = some noAsk)
    (hcoid : t'.completeCoid = t.completeCoid) :
    (ptComplete p st idx t b shortfall noAsk lockPer now).Via (Op p now) st := by
  have hop :=
    @WingOp.complete p now st idx t t' b shortfall noAsk lockPer ht hres hsame hb hask hcoid
  refine silent_trans_right (Run.single (Op.wing hop)) ?_
  have hle : st.toLatches.le
      (ptComplete p st idx t b shortfall noAsk lockPer now).st.toLatches := by
    cases hs : st.shakedown with
    | true =>
      have hframe := @bookedCompletion_frame p now st idx t b shortfall noAsk lockPer
      obtain ⟨x, hx, hle⟩ := latchIfDone_eq p
        (bookedCompletion p st idx t b shortfall noAsk lockPer now)
      rw [ptComplete_of_shakedown _ _ _ _ _ _ hs, hx]
      rw [hframe.latches] at hle
      exact hle
    | false =>
      rw [ptComplete_of_armed _ _ _ _ _ _ hs]
      exact Latches.le_refl _
  exact Run.single (Op.ladder (@LadderOp.latch p now Permit.leave _
    (ptComplete p st idx t b shortfall noAsk lockPer now).st.toLatches hle))

/-- An update that neither resolves a trigger nor moves it. -/
theorem getElem?_replacePt {idx : ℕ} {f : PrintThroughTrigger → PrintThroughTrigger}
    {t : PrintThroughTrigger} (ht : st.printThroughTriggers[idx]? = some t) :
    (replacePt st idx f).printThroughTriggers[idx]? = some (f t) := by
  simp [replacePt, ht]

/-- A completion has an ask of the bucket NO. -/
theorem ask_of_ptCompletion {b : WingBatch} {noAsk lockPer : ℚ}
    (h : ptCompletion p st b = some (noAsk, lockPer)) : ptBucketNoAsk st = some noAsk := by
  obtain ⟨ask, hask, h⟩ := Option.bind_eq_some_iff.mp h
  dsimp only at h
  split_ifs at h
  obtain ⟨rfl, -⟩ := Prod.mk.inj (Option.some.inj h)
  exact hask

/-- Finalising a stall. -/
theorem via_ptFinalizeStall (idx : ℕ) : (ptFinalizeStall p st idx now).Via (Op p now) st := by
  unfold ptFinalizeStall
  split
  · exact via_quiet _ _
  · next t ht =>
    have hsettle : WingOp p now st [] (replacePt st idx endStall) :=
      settle_replacePt idx _ fun x _ =>
        ⟨rfl, rfl, rfl, rfl, fun _ hc => hc, fun h => ⟨h, rfl⟩⟩
    have ht' := getElem?_replacePt (f := endStall) ht
    split_ifs with hres
    · exact via_quiet _ _
    · have hres' : t.resolved = false := by simpa using hres
      refine via_of_step (Op.wing hsettle) ?_
      dsimp only
      split
      · exact Run.single (Op.wing (via_ptMarkResolution _ _ _))
      · next b hb =>
        split_ifs with hshort
        · exact run_wing (silent_trans (run_maybeCloseSet b.index)
            (silent_trans (Run.single (via_ptMarkResolution _ _ _))
              (Run.single via_syncWingMirrors)))
        · split
          · next hask =>
            exact (via_ptComplete idx t _ b _ _ _ ht' hres' rfl hb (ask_of_ptCompletion hask)
              rfl).mapSt (Op.wing via_syncWingMirrors)
          · exact (via_ptUnwind idx t _ b .unwind ht' hres' hb).wing.mapSt
              (Op.wing via_syncWingMirrors)

/-- Beginning a stall: cancel the rests, and finalise at once if there was none. -/
theorem via_ptBeginStall (idx : ℕ) : (ptBeginStall p st idx now).Via (Op p now) st := by
  unfold ptBeginStall
  split
  · exact via_quiet _ _
  · next t ht =>
    have hcancel : (ptCancelUnfilledRungs p st t).Via (Op p now) st :=
      run_ladder (via_ptCancelUnfilledRungs trivial (List.mem_of_getElem? ht))
    refine Outcome.Via.andThen (hcancel.mapSt (Op.wing (settle_replacePt idx _ fun x _ =>
      ⟨rfl, rfl, rfl, rfl, fun _ hc => hc, fun h => ⟨h, rfl⟩⟩))) ?_
    split_ifs
    · exact via_ptFinalizeStall idx
    · exact via_quiet _ _

/-- The confirm of a cancel a trigger waits for. -/
theorem via_ptConfirmOne (oid : String) (idx : ℕ) (st : V33State) :
    (ptConfirmOne p oid now idx st).Via (Op p now) st := by
  unfold ptConfirmOne
  split
  · exact via_quiet _ _
  · next t ht =>
    split_ifs with h1
    · refine via_of_step (Op.wing (settle_replacePt idx
        (awaitCancels (t.pendingCancels.filter (· ≠ oid))) fun x _ =>
          ⟨rfl, rfl, rfl, rfl, fun _ hc => hc, fun h => ⟨h, rfl⟩⟩)) ?_
      dsimp only
      split_ifs
      · exact via_ptFinalizeStall idx
      · exact via_quiet _ _
    · exact via_quiet _ _

/-- A confirmed cancel of a stall is carried out by small operations. -/
theorem via_ptOnCancelConfirmed (orderId : Option String) :
    (ptOnCancelConfirmed p st orderId now).Via (Op p now) st := by
  unfold ptOnCancelConfirmed
  split
  · exact via_quiet _ _
  · next oid => exact via_forEach (via_ptConfirmOne oid) _ _

/-- The stall policy of one trigger. -/
theorem via_ptStallOne (idx : ℕ) (st : V33State) :
    (ptStallOne p now idx st).Via (Op p now) st := by
  unfold ptStallOne
  split
  · exact via_quiet _ _
  · next t ht =>
    split_ifs
    · exact via_quiet _ _
    · split
      · exact via_quiet _ _
      · next b hb =>
        split_ifs
        · exact via_quiet _ _
        · exact via_ptFailClosed _
        · exact via_ptBeginStall idx

/-- The stall policy of every trigger. -/
theorem via_ptStallStep (st : V33State) : (ptStallStep p st now).Via (Op p now) st := by
  unfold ptStallStep
  split_ifs
  · exact via_forEach via_ptStallOne _ _
  · exact via_quiet _ _

/-- The missed lots of a taker completion. -/
theorem via_ptCompleteShort (idx : ℕ) (t t' : PrintThroughTrigger) (b : WingBatch) (short : ℚ)
    (ht : st.printThroughTriggers[idx]? = some t') (hb : batchOf st t'.batchIndex = some b) :
    (ptCompleteShort st idx t b short).Via (Op p now) st := by
  unfold ptCompleteShort
  exact Outcome.Via.andThen (silent_trans_right
    (Run.single (Op.wing (WingOp.short st idx t' b short _ ht hb))) run_ptLatch)
      (via_standdown_op _)

/-- The response of a taker completion. -/
theorem via_ptApplyCompleteFill (ev : Fill) {r : Outcome}
    (h : ptApplyCompleteFill p st ev now = some r) : r.Via (Op p now) st := by
  unfold ptApplyCompleteFill at h
  split at h
  · simp at h
  · next idx hidx =>
    rw [Option.map_eq_some_iff] at h
    obtain ⟨t, ht, rfl⟩ := h
    dsimp only
    refine via_of_step (Op.wing (WingOp.takerFill st t
      ((ev.price.or t.completePrice).getD 0) (qCount ev.count)
      (List.mem_map_of_mem (List.mem_of_getElem? ht)))) ?_
    have hend : ∀ x, TriggerStep x (endCompletion x) := fun _ =>
      ⟨rfl, rfl, rfl, rfl, fun _ hc => absurd hc (Option.some_ne_none _).symm, fun h => ⟨h, rfl⟩⟩
    refine via_of_step (Op.wing (settle_replacePt idx endCompletion fun x _ => hend x)) ?_
    have ht' : (replacePt (ptBookTakerComplete p st t ((ev.price.or t.completePrice).getD 0)
        (qCount ev.count) now) idx endCompletion).printThroughTriggers[idx]? =
          some (endCompletion t) :=
      getElem?_replacePt (by rw [ptBookTakerComplete_triggers]; exact ht)
    revert ht'
    generalize replacePt _ idx _ = s
    intro ht'
    have hclosed : ∀ s : V33State, Run (Op p now) s []
        (syncWingMirrors (latchIfDone p (maybeCloseSet s t.batchIndex))) := fun s =>
      silent_trans (run_wing (run_maybeCloseSet t.batchIndex))
        (silent_trans (run_ladder run_latchIfDone) (Run.single (Op.wing via_syncWingMirrors)))
    refine silent_trans_right (t := Outcome.st _) ?_ (hclosed _)
    rw [mapSt_acts]
    split
    · next b hb =>
      split_ifs
      · exact via_ptCompleteShort idx t (endCompletion t) b _ ht' hb
      · exact via_quiet _ _
    · exact via_quiet _ _

end Triggers

end Pilot.V33
