import Pilot.V33.Journal
import Pilot.V33.Triggers

/-!
# The lots of the journaled takes

Along every run the takes in the journal are those of the batches taken together and of the
triggers, and its fills are those the driver was told of. A rebuild from the journal therefore
misses naked lots exactly when takes missed and the fills told do not make up for them.
-/

namespace Pilot.V33

/-- A change that takes no wings: the coalesced takes and the triggers' lots stay. -/
structure SameTakes (st st' : V33State) : Prop where
  batches : (st'.wingBatches.map coalescedTake).sum = (st.wingBatches.map coalescedTake).sum
  triggers : st'.printThroughTriggers.map PrintThroughTrigger.count =
    st.printThroughTriggers.map PrintThroughTrigger.count

/-- The lots the journaled takes of some actions bear. -/
def sentBy (acts : List V33Action) : ℚ :=
  (acts.map fun a => (journalAction a).taken).sum

section Takes

variable {p : V33Params} {now : ℚ} {st st' st'' : V33State} {acts : List V33Action}

/-- No change keeps the takes. -/
theorem SameTakes.refl (st : V33State) : SameTakes st st := ⟨rfl, rfl⟩

/-- Two changes that keep the takes keep them together. -/
theorem SameTakes.trans (h : SameTakes st st') (k : SameTakes st' st'') : SameTakes st st'' :=
  ⟨k.batches.trans h.batches, k.triggers.trans h.triggers⟩

/-- The same takes are of the same lots. -/
theorem SameTakes.takenLots (h : SameTakes st st') : takenLots st' = takenLots st := by
  rw [V33.takenLots, V33.takenLots, h.batches, h.triggers]

/-- What leaves the wings alone takes none. -/
theorem SameTakes.frame (hwings : st'.toWings = st.toWings) : SameTakes st st' := by
  constructor
  · rw [congrArg Wings.wingBatches hwings]
  · rw [congrArg Wings.printThroughTriggers hwings]

/-- An update of one batch that leaves its take alone. -/
theorem SameTakes.update (index : ℕ) {f : WingBatch → WingBatch}
    (hbatches : st'.wingBatches = V33.replaceBatch st.wingBatches index f)
    (hsame : ∀ b ∈ st.wingBatches, b.index = index → coalescedTake (f b) = coalescedTake b)
    (htriggers : st'.printThroughTriggers.map PrintThroughTrigger.count =
      st.printThroughTriggers.map PrintThroughTrigger.count) : SameTakes st st' := by
  refine ⟨?_, htriggers⟩
  rw [hbatches, V33.replaceBatch, map_replaceFirst_of_mem]
  intro b hb hq
  exact hsame b hb (by simpa using hq)

/-- A batch that keeps its hedge keeps its take. -/
theorem coalescedTake_keep {f : WingBatch → WingBatch} (h : KeepsHedge f) (b : WingBatch) :
    coalescedTake (f b) = coalescedTake b := by
  simp only [coalescedTake, WingBatch.totalCount, h.fills, h.taken, h.printThrough]

/-- A trigger's batch is no coalesced take. -/
theorem coalescedTake_early {b : WingBatch} (h : b.printThrough = true) : coalescedTake b = 0 := by
  simp [coalescedTake, h]

/-- A trigger changed in place keeps its count. -/
theorem count_modify {idx : ℕ} {f : PrintThroughTrigger → PrintThroughTrigger}
    (hf : ∀ t, (f t).count = t.count) (ts : List PrintThroughTrigger) :
    (ts.modify idx f).map PrintThroughTrigger.count = ts.map PrintThroughTrigger.count := by
  refine List.ext_getElem (by simp) fun i _ _ => ?_
  rw [List.getElem_map, List.getElem_map, List.getElem_modify]
  split_ifs
  · exact hf _
  · rfl

/-- Marking a resolution keeps the lots of the triggers. -/
theorem count_markResolution (index : ℕ) (resolution : Resolution) (at_ : Option ℚ) :
    (ptMarkResolution st index resolution at_).printThroughTriggers.map PrintThroughTrigger.count =
      st.printThroughTriggers.map PrintThroughTrigger.count := by
  unfold ptMarkResolution
  apply map_replaceFirst_of_eq
  intro t _
  rfl

/-- Triggers that step keep their counts. -/
theorem count_steps {ts ts' : List PrintThroughTrigger} (h : List.Forall₂ TriggerStep ts ts') :
    ts'.map PrintThroughTrigger.count = ts.map PrintThroughTrigger.count := by
  induction h with
  | nil => rfl
  | cons hstep _ ih => rw [List.map_cons, List.map_cons, hstep.count, ih]

/-- A closed set keeps the takes. -/
theorem SameTakes.closeSet (index : ℕ) : SameTakes st (maybeCloseSet st index) := by
  unfold maybeCloseSet
  split
  · exact ⟨rfl, rfl⟩
  · split_ifs
    · exact ⟨rfl, rfl⟩
    · exact ⟨rfl, rfl⟩
    · exact SameTakes.update index
        (f := fun b => { b with completed := true, oneLegged := false, resolved := true }) rfl
        (fun _ _ _ => rfl) (count_markResolution index .filled none)
    · exact SameTakes.update index
        (f := fun b => { b with completed := true, oneLegged := false }) rfl (fun _ _ _ => rfl) rfl

/-- A flush takes nothing. -/
theorem SameTakes.flush : SameTakes st (coalesceFlush p st now) := by
  unfold coalesceFlush
  split
  · exact SameTakes.refl st
  · split_ifs
    · refine ⟨?_, rfl⟩
      simp [coalescedTake, batchOfGroup]
    · exact SameTakes.refl st

/-- Dropping the batch of a trigger drops no coalesced take. -/
theorem SameTakes.drop (index : ℕ) (hearly : ∀ b ∈ st.wingBatches, b.index = index →
    b.printThrough = true)
    (hbatches : st'.wingBatches = st.wingBatches.filter fun b => b.index ≠ index)
    (htriggers : st'.printThroughTriggers.map PrintThroughTrigger.count =
      st.printThroughTriggers.map PrintThroughTrigger.count) : SameTakes st st' := by
  refine ⟨?_, htriggers⟩
  rw [hbatches]
  apply sum_map_filter_of_zero
  intro b hb hdrop
  exact coalescedTake_early (hearly b hb (by simpa using hdrop))

/-- The batch a trigger names is an early one. -/
theorem TriggersOk.earlyBatch (h : TriggersOk st) {idx : ℕ} {t : PrintThroughTrigger}
    {b c : WingBatch} (ht : st.printThroughTriggers[idx]? = some t)
    (hb : batchOf st t.batchIndex = some b) (hc : c ∈ st.wingBatches) (hindex : c.index = b.index) :
    c.printThrough = true := by
  refine (h.early c hc ?_).1
  rw [hindex, batchOf_index hb]
  exact List.mem_map_of_mem (List.mem_of_getElem? ht)

/-- A batch shrunk to its fills keeps every coalesced take. -/
theorem SameTakes.resize (index : ℕ) (count : ℚ) : SameTakes st (resizeBatch st index count) :=
  SameTakes.update index (f := fun x => { x with takenCount := count }) rfl
    (fun _ _ _ => rfl) rfl

/-- A trigger that keeps its count keeps the takes. -/
theorem SameTakes.replacePt {f : PrintThroughTrigger → PrintThroughTrigger}
    (hf : ∀ t, (f t).count = t.count) (idx : ℕ) : SameTakes st (V33.replacePt st idx f) :=
  ⟨rfl, count_modify hf _⟩

/-- An unwind keeps the takes. -/
theorem SameTakes.unwind (h : TriggersOk st) {idx : ℕ} {t t' : PrintThroughTrigger}
    {b : WingBatch} {resolution : Resolution} (ht : st.printThroughTriggers[idx]? = some t')
    (hb : batchOf st t'.batchIndex = some b) :
    SameTakes st (ptUnwind st idx t b now resolution).st := by
  unfold ptUnwind
  dsimp only
  split_ifs
  · refine ((SameTakes.resize b.index b.totalCount).trans (SameTakes.replacePt ?_ idx)).trans
      (SameTakes.closeSet b.index)
    intro t
    rfl
  · have hdrop : SameTakes st { st with
        wingBatches := st.wingBatches.filter fun x => x.index ≠ b.index
        wingLegs := st.wingLegs.filter fun l => l.batch ≠ b.index } :=
      SameTakes.drop b.index (fun c hc => h.earlyBatch ht hb hc) rfl rfl
    refine hdrop.trans (SameTakes.replacePt ?_ idx)
    intro t
    rfl

/-- Fills appended to the batch of a trigger are no part of a coalesced take. -/
theorem SameTakes.appendFill (h : TriggersOk st) (index : ℕ) (rf : RungFill)
    (hearly : index ∈ st.printThroughTriggers.map PrintThroughTrigger.batchIndex)
    (hbatches : st'.wingBatches =
      V33.replaceBatch st.wingBatches index fun b => { b with fills := b.fills ++ [rf] })
    (htriggers : st'.printThroughTriggers.map PrintThroughTrigger.count =
      st.printThroughTriggers.map PrintThroughTrigger.count) : SameTakes st st' := by
  refine SameTakes.update index hbatches (fun b hb hindex => ?_) htriggers
  have hpt := (h.early b hb (by rwa [hindex])).1
  rw [coalescedTake_early (b := b) hpt]
  exact coalescedTake_early hpt

/-- A taker fill of an early take keeps the takes. -/
theorem SameTakes.takerFill (h : TriggersOk st) {t : PrintThroughTrigger} {price count : ℚ}
    (hearly : t.batchIndex ∈ st.printThroughTriggers.map PrintThroughTrigger.batchIndex) :
    SameTakes st (ptBookTakerComplete p st t price count now) := by
  unfold ptBookTakerComplete
  dsimp only
  split_ifs
  · exact SameTakes.refl st
  · split
    · exact SameTakes.refl st
    · next b hb =>
      refine SameTakes.appendFill h b.index (V33.takerFill p st b price (qCount count) now) ?_ rfl
        rfl
      rwa [batchOf_index hb]

/-- A booked fill takes nothing. -/
theorem SameTakes.book (h : TriggersOk st) (r : FillReport) :
    SameTakes st (bookedState p st r now) := by
  have hrecorded : TriggersOk (recordFill p st r now) := h.frame rfl
  have hsame : SameTakes st (recordFill p st r now) := SameTakes.frame rfl
  unfold bookedState
  split
  · exact hsame
  · refine hsame.trans ?_
    unfold hedgeFill
    split
    · next t ht =>
      unfold attachFill
      refine SameTakes.trans ?_ (SameTakes.closeSet t.batchIndex)
      refine SameTakes.appendFill hrecorded t.batchIndex (rungFillOf p st r now) ?_ rfl ?_
      · exact List.mem_map_of_mem (List.mem_of_find?_eq_some ht)
      · apply map_replaceFirst_of_eq
        intro u _
        rfl
    · have hflush : SameTakes (recordFill p st r now)
          (coalesceFlush p (recordFill p st r now) now) := SameTakes.flush
      unfold coalesceAdd
      dsimp only
      split
      · exact hflush.trans ⟨rfl, rfl⟩
      · exact hflush.trans ⟨rfl, rfl⟩

/-! ### What a step sends -/

/-- The record of an action counts the lots of a take, unless the take is of a single leg. -/
theorem taken_journalAction (a : V33Action) : (journalAction a).taken =
    if a.kind = .takeWings ∧ a.legs.length ≠ 1 then countOut a.count else 0 := by
  unfold journalAction
  split
  · next hkind =>
    split_ifs with hone h h
    · exact absurd hone h.2
    · rfl
    · rfl
    · exact absurd ⟨hkind, hone⟩ h
  · next hkind => rw [if_neg (by simp [hkind])]; rfl
  · next hne _ => rw [if_neg fun h => hne h.1]; rfl

/-- The lots sent by two parts of a decision. -/
theorem sentBy_append (a b : List V33Action) : sentBy (a ++ b) = sentBy a + sentBy b := by
  simp [sentBy]

/-- Without a take no lots are sent. -/
theorem sentBy_eq_zero (h : ∀ a ∈ acts, a.kind ≠ .takeWings) : sentBy acts = 0 := by
  apply List.sum_eq_zero
  intro q hq
  obtain ⟨a, ha, rfl⟩ := List.mem_map.mp hq
  rw [taken_journalAction, if_neg fun hk => h a ha hk.1]

/-- Only a take has the kind of one, and none has it in shakedown. -/
theorem twinKind_takeWings {k : ActionKind} {s : Bool} (h : twinKind k s = .takeWings) :
    k = .takeWings ∧ s = false := by
  cases s
  · exact ⟨h, rfl⟩
  · cases k <;> simp [twinKind] at h

/-- An action that is no take sends nothing. -/
theorem sentBy_mk {s : Bool} {a : V33Action} (h : a.kind ≠ .takeWings) : sentBy [mk s a] = 0 := by
  apply sentBy_eq_zero
  intro b hb hkind
  rw [List.mem_singleton.mp hb] at hkind
  exact h (twinKind_takeWings hkind).1

/-- A take of both wings sends its lots, unless in shakedown. -/
theorem sentBy_take {s : Bool} {a : V33Action} (hkind : a.kind = .takeWings)
    (hlegs : a.legs.length = 2) (hgrid : OnGrid 100 a.count) :
    sentBy [mk s a] = if s then 0 else a.count := by
  cases s with
  | true =>
    apply sentBy_eq_zero
    intro b hb hk
    rw [List.mem_singleton.mp hb] at hk
    have hs := (twinKind_takeWings (k := a.kind) (s := true) hk).2
    simp at hs
  | false =>
    have htaken := taken_journalAction (mk false a)
    have hmk : (mk false a).kind = .takeWings ∧ (mk false a).legs.length ≠ 1 :=
      ⟨hkind, by rw [mk, hlegs]; decide⟩
    rw [if_pos hmk] at htaken
    rw [sentBy, List.map_singleton, List.sum_singleton, htaken]
    exact qCount_of_onGrid hgrid

/-- An unwind sends no lots. -/
theorem sentBy_unwind (st : V33State) (sales : List LegOrder) (count : ℚ) :
    sentBy (unwindAction st sales count) = 0 := by
  unfold unwindAction
  split_ifs
  · rfl
  · exact sentBy_mk (by simp)

/-- A retry sends no new lots. -/
theorem sentBy_retryLegs (index : ℕ) (ya na : ℚ) (legs : List WingLeg) (s : V33State) :
    sentBy (retryLegs p index ya na now legs s).2.acts = 0 := by
  induction legs generalizing s with
  | nil => rfl
  | cons leg rest ih =>
    unfold retryLegs
    split_ifs
    · have hsplit : ∀ a acts, sentBy (a :: acts) = sentBy [a] + sentBy acts := fun a acts =>
        sentBy_append [a] acts
      dsimp only
      rw [hsplit, ih, add_zero]
      exact sentBy_mk (by simp)
    · exact ih s

/-- Taking a fresh batch adds its lots to those taken. -/
theorem takenLots_take {b : WingBatch} (hbatch : batchOf st b.index = some b)
    (hfresh : b.taken = false) (hregular : b.printThrough = false)
    (hbatches : st'.wingBatches =
      V33.replaceBatch st.wingBatches b.index fun b => { b with taken := true })
    (htriggers : st'.printThroughTriggers = st.printThroughTriggers) :
    takenLots st' = takenLots st + b.totalCount := by
  obtain ⟨front, back, heq, hrep, -⟩ :=
    replaceFirst_split (f := fun b : WingBatch => { b with taken := true }) hbatch
  have hbefore : coalescedTake b = 0 := by simp [coalescedTake, hfresh]
  have hafter : coalescedTake { b with taken := true } = b.totalCount := by
    simp [coalescedTake, hregular, WingBatch.totalCount]
  rw [takenLots, takenLots, hbatches, htriggers, V33.replaceBatch, hrep, heq]
  simp only [List.map_append, List.map_cons, List.sum_append, List.sum_cons, hbefore, hafter]
  ring

/-- What a wing operation takes is what it sends. -/
theorem WingOp.sent (h : WingOp p now st acts st') (hbatches : BatchesOk st)
    (htriggers : TriggersOk st) : ∃ lots, takenLots st' = takenLots st + lots ∧
      sentBy acts = if st.shakedown then 0 else lots := by
  have hnone : SameTakes st st' → sentBy acts = 0 → ∃ lots,
      takenLots st' = takenLots st + lots ∧ sentBy acts = if st.shakedown then 0 else lots := by
    intro hsame hsent
    refine ⟨0, ?_, ?_⟩
    · rw [hsame.takenLots, add_zero]
    · rw [hsent, ite_self]
  cases h with
  | flush => exact hnone SameTakes.flush rfl
  | mirror => exact hnone ⟨rfl, rfl⟩ rfl
  | flag index f sets keeps =>
    exact hnone (SameTakes.update index rfl (fun b _ _ => coalescedTake_keep keeps b) rfl) rfl
  | settle ts steps =>
    exact hnone ⟨rfl, count_steps steps⟩ rfl
  | take b sd ya na batch fresh regular bucket prices =>
    have hgrid := hbatches.totalCount_onGrid (List.mem_of_find?_eq_some batch)
    refine ⟨b.totalCount, takenLots_take batch fresh regular rfl rfl, ?_⟩
    refine (sentBy_take rfl rfl (onGrid_qCount b.totalCount)).trans ?_
    rw [qCount_of_onGrid hgrid]
    rfl
  | takePartial b sd batch fresh regular bucket prices =>
    have hgrid := hbatches.totalCount_onGrid (List.mem_of_find?_eq_some batch)
    have htake : ∀ a : V33Action, a.kind = .takeWings → a.count = qCount b.totalCount →
        a.legs.length = 2 → sentBy [mk st.shakedown a] =
          if st.shakedown then 0 else b.totalCount := by
      intro a hkind hcount hlegs
      rw [sentBy_take hkind hlegs (by rw [hcount]; exact onGrid_qCount _), hcount,
        qCount_of_onGrid hgrid]
    unfold takeBatchPartial
    dsimp only
    by_cases halive : strikeFeedAlive p st now = true
    · rw [if_pos halive]
      cases wingLegAsk p st sd .yes now with
      | some ya =>
        exact ⟨b.totalCount, takenLots_take batch fresh regular rfl rfl, htake _ rfl rfl rfl⟩
      | none =>
        cases wingLegAsk p st (sd + p.bucketWidth) .no now with
        | some na =>
          exact ⟨b.totalCount, takenLots_take batch fresh regular rfl rfl, htake _ rfl rfl rfl⟩
        | none => exact ⟨0, (add_zero _).symm, (ite_self _).symm⟩
    · rw [if_neg halive]
      exact ⟨0, (add_zero _).symm, (ite_self _).symm⟩
  | retry b sd ya na =>
    refine hnone ?_ ?_
    · unfold retryBatch
      dsimp only
      split_ifs
      · exact SameTakes.refl st
      · exact SameTakes.refl st
      · obtain ⟨n, hn, -⟩ := @retryLegs_st p now b.index ya na st.wingLegs st
        rw [hn]
        exact SameTakes.update b.index rfl (fun _ _ _ => rfl) rfl
    · unfold retryBatch
      dsimp only
      split_ifs
      · rfl
      · rfl
      · exact sentBy_retryLegs b.index ya na st.wingLegs st
  | net l m =>
    refine hnone ?_ ?_
    · unfold netPair
      cases l.side <;> exact ⟨rfl, rfl⟩
    · unfold netPair
      cases l.side <;> exact sentBy_mk (by simp)
  | fire sd ya na yesPrint =>
    refine ⟨qCount ((ptCandidates p st yesPrint).map RestOrder.count).sum, ?_,
      sentBy_take rfl rfl (onGrid_qCount _)⟩
    show ((st.wingBatches ++ [_]).map coalescedTake).sum +
      ((st.printThroughTriggers ++ [_]).map PrintThroughTrigger.count).sum = _
    simp only [List.map_append, List.map_singleton, List.sum_append, List.sum_singleton]
    rw [coalescedTake_early rfl, takenLots]
    ring
  | unwind idx t t' b resolution ht hres hb =>
    refine hnone (SameTakes.unwind htriggers ht hb) ?_
    unfold ptUnwind
    dsimp only
    split_ifs
    · exact sentBy_unwind _ _ _
    · exact sentBy_unwind _ _ _
  | complete idx t t' b shortfall noAsk lockPer ht hres same =>
    have hearly : t.batchIndex ∈ st.printThroughTriggers.map PrintThroughTrigger.batchIndex := by
      rw [← same]
      exact List.mem_map_of_mem (List.mem_of_getElem? ht)
    refine hnone ?_ ?_
    · cases hs : st.shakedown with
      | true =>
        have hbooked : SameTakes st
            (bookedCompletion p st idx t b shortfall noAsk lockPer now) := by
          refine ((SameTakes.takerFill htriggers hearly).trans (SameTakes.replacePt ?_ idx)).trans
            (SameTakes.closeSet b.index)
          intro t
          rfl
        obtain ⟨x, hx, -⟩ := latchIfDone_eq p
          (bookedCompletion p st idx t b shortfall noAsk lockPer now)
        rw [ptComplete_of_shakedown _ _ _ _ _ _ hs, hx]
        exact hbooked.trans (SameTakes.frame rfl)
      | false =>
        rw [ptComplete_of_armed _ _ _ _ _ _ hs]
        have hminted : SameTakes st (mintCoid st).2 := SameTakes.frame rfl
        have hresolved : SameTakes (mintCoid st).2 (replacePt (mintCoid st).2 idx
            (completedTrigger shortfall noAsk lockPer now (some (mintCoid st).1))) :=
          SameTakes.replacePt (f := completedTrigger shortfall noAsk lockPer now
            (some (mintCoid st).1)) (fun _ => rfl) idx
        exact (hminted.trans hresolved).trans (SameTakes.frame rfl)
    · unfold ptComplete
      dsimp only
      split_ifs
      · exact sentBy_mk (by simp)
      · exact sentBy_mk (by simp)
  | short idx t' b =>
    refine hnone ((SameTakes.resize b.index b.totalCount).trans (SameTakes.replacePt ?_ idx))
      (sentBy_unwind _ _ _)
    intro t
    rfl
  | takerFill t price count early => exact hnone (SameTakes.takerFill htriggers early) rfl

/-- What a step takes is what it sends. -/
theorem Step.sent (h : Step p st acts st') (hbatches : BatchesOk st) (htriggers : TriggersOk st) :
    sentLots st' = sentLots st + sentBy (wingActs acts) := by
  have hsaid : ∀ lots, takenLots st' = takenLots st + lots →
      (sentBy (wingActs acts) = if st.shakedown then 0 else lots) →
        sentLots st' = sentLots st + sentBy (wingActs acts) := by
    intro lots htaken hsent
    have hmode : st'.shakedown = st.shakedown := congrArg Window.shakedown h.inContext.window
    rw [sentLots, sentLots, hmode, hsent, htaken]
    split_ifs
    · exact (add_zero 0).symm
    · rfl
  have hnone : SameTakes st st' → wingActs acts = [] →
      sentLots st' = sentLots st + sentBy (wingActs acts) := by
    intro hsame hacts
    refine hsaid 0 (hsame.takenLots.trans (add_zero _).symm) ?_
    rw [hacts, ite_self]
    rfl
  cases h with
  | ladder hop => exact hnone (SameTakes.frame hop.frame.wings) hop.wingActs
  | wing hop =>
    obtain ⟨lots, htaken, hsent⟩ := hop.sent hbatches htriggers
    have hall : wingActs acts = acts := List.filter_eq_self.mpr hop.isWing
    exact hsaid lots htaken (by rw [hall, hsent])
  | book st r pos => exact hnone (SameTakes.book htriggers r) rfl
  | answer => exact hnone ⟨rfl, rfl⟩ rfl
  | tidy frame still => exact hnone (SameTakes.frame frame.wings) still

/-- What a run of steps takes is what it sends. -/
theorem Run.sent (h : Run (Step p) st acts st') (hok : BatchesOk st ∧ TriggersOk st) :
    sentLots st' = sentLots st + sentBy (wingActs acts) := by
  induction h with
  | refl => exact (add_zero _).symm
  | step hstep _ ih =>
    rw [ih ((triggersOk_invariant p).step hstep hok), hstep.sent hok.1 hok.2, wingActs_append,
      sentBy_append, add_assoc]

/-- Only the wing actions send anything. -/
theorem sentBy_wingActs (acts : List V33Action) : sentBy (wingActs acts) = sentBy acts := by
  apply sum_map_filter_of_zero
  intro a _ hwing
  rw [taken_journalAction, if_neg]
  rintro ⟨hkind, -⟩
  rw [hkind] at hwing
  exact absurd hwing (by decide)

/-- The context of an event leaves the wings and the window as they are. -/
theorem contextAt_frame (p : V33Params) (st : V33State) (ev : Event) :
    (contextAt p st ev).toWings = st.toWings ∧ (contextAt p st ev).toWindow = st.toWindow := by
  cases ev with
  | bookUpdate e =>
    obtain ⟨b, hb⟩ := foldBook_eq st e
    obtain ⟨q, x, heq, -⟩ := recomputeContext_eq p (withBook st (.bookUpdate e)) e.serverTs
    rw [contextAt, heq]
    show (stampStrikeFeed (foldBook st e) e).toWings = _ ∧
      (stampStrikeFeed (foldBook st e) e).toWindow = _
    rw [hb]
    exact ⟨rfl, rfl⟩
  | clockTick now =>
    obtain ⟨q, x, heq, -⟩ := recomputeContext_eq p st now
    rw [contextAt, heq]
    exact ⟨rfl, rfl⟩
  | _ => exact ⟨rfl, rfl⟩

/-- The lots sent rest on the wings and the window alone. -/
theorem sentLots_frame (hwings : st'.toWings = st.toWings)
    (hwindow : st'.toWindow = st.toWindow) : sentLots st' = sentLots st := by
  rw [sentLots, sentLots, (SameTakes.frame hwings).takenLots, congrArg Window.shakedown hwindow]

/-- What a decision takes is what its actions send. -/
theorem CoidsOk.sent (h : CoidsOk st) (hok : BatchesOk st ∧ TriggersOk st) (ev : Event) :
    sentLots (decideV33 p st ev).st = sentLots st + sentBy (decideV33 p st ev).acts := by
  obtain ⟨acts, t, hrun, hwings, hacts⟩ := h.steps (p := p) ev
  obtain ⟨hsame, hwindow⟩ := contextAt_frame p st ev
  have hctx := (triggersOk_invariant p).context hok ev
  have hend : (decideV33 p st ev).st.toWindow = t.toWindow :=
    (h.sameContext ev).window.trans (Run.inContext hrun).window.symm
  rw [sentLots_frame hwings hend, Run.sent hrun hctx, ← hacts, sentBy_wingActs,
    sentLots_frame hsame hwindow]

/-! ### The journal of a run -/

/-- The journal says what was taken, and its fills are at two decimals. -/
structure JournalOk (st : V33State) (records : List JournalRecord) : Prop where
  coids : CoidsOk st
  wings : BatchesOk st ∧ TriggersOk st
  taken : (records.map JournalRecord.taken).sum = sentLots st
  fills : ∀ f ∈ journalFills records, OnGrid 100 f.count
  takes : ∀ r ∈ records, OnGrid 100 r.taken

variable {records more : List JournalRecord}

/-- The fills of two parts of a journal. -/
theorem journalFills_append (records more : List JournalRecord) :
    journalFills (records ++ more) = journalFills records ++ journalFills more :=
  List.filterMap_append

/-- Records that take nothing and report no fill. -/
theorem JournalOk.append (h : JournalOk st records)
    (htaken : ∀ r ∈ more, r.taken = 0) (hfills : journalFills more = []) :
    JournalOk st (records ++ more) := by
  refine ⟨h.coids, h.wings, ?_, ?_, ?_⟩
  · have hzero : (more.map JournalRecord.taken).sum = 0 :=
      List.sum_eq_zero (by simpa using htaken)
    rw [List.map_append, List.sum_append, h.taken, hzero, add_zero]
  · rw [journalFills_append, hfills, List.append_nil]
    exact h.fills
  · refine List.forall_mem_append.mpr ⟨h.takes, fun r hr => ?_⟩
    rw [htaken r hr]
    exact ⟨0, by simp⟩

/-- A stand-down of the executor leaves orders and wings alone. -/
theorem JournalOk.standDown (h : JournalOk st records) :
    JournalOk { st with stoodDown := true } records :=
  ⟨h.coids.shrink rfl le_rfl (List.Sublist.refl _) (List.Sublist.refl _),
    ⟨h.wings.1.frame rfl h.wings.1.fills, h.wings.2.frame rfl⟩, h.taken, h.fills, h.takes⟩

/-- A recorded fill is of whole hundredths. -/
theorem onGrid_fillRecord (ev : Event) :
    ∀ f ∈ journalFills (fillRecord ev), OnGrid 100 f.count := by
  intro f hf
  cases ev with
  | fill e =>
    simp only [fillRecord] at hf
    split_ifs at hf
    · obtain rfl := List.mem_singleton.mp hf
      exact onGrid_qCount e.count
    · simp [journalFills] at hf
  | _ => simp [fillRecord, journalFills] at hf

/-- The record of a fill is no take. -/
theorem taken_fillRecord (ev : Event) : ∀ r ∈ fillRecord ev, r.taken = 0 := by
  intro r hr
  cases ev with
  | fill e =>
    simp only [fillRecord] at hr
    split_ifs at hr
    · rw [List.mem_singleton.mp hr]
      rfl
    · simp at hr
  | _ => simp [fillRecord] at hr

/-- A recorded take is of whole hundredths. -/
theorem onGrid_journalAction (a : V33Action) : OnGrid 100 (journalAction a).taken := by
  rw [taken_journalAction]
  split_ifs
  · exact onGrid_qCount a.count
  · exact ⟨0, by simp⟩

/-- No action is journaled as a fill. -/
theorem fill_journalAction (a : V33Action) : (journalAction a).fill = none := by
  unfold journalAction
  generalize a.kind = kind
  cases kind with
  | takeWings =>
    dsimp only
    split_ifs <;> rfl
  | _ => rfl

/-- The records of actions are no fills. -/
theorem journalFills_acts (acts : List V33Action) :
    journalFills (acts.map journalAction) = [] := by
  apply List.filterMap_eq_nil_iff.mpr
  intro r hr
  obtain ⟨a, -, rfl⟩ := List.mem_map.mp hr
  exact fill_journalAction a

/-- Every decision journals what it takes. -/
theorem JournalOk.decide (h : JournalOk st records) (ev : Event) :
    JournalOk (decideV33 p st ev).st
      (records ++ fillRecord ev ++ (decideV33 p st ev).acts.map journalAction) := by
  refine ⟨h.coids.decide ev, (triggersOk_invariant p).decide h.coids h.wings ev, ?_, ?_, ?_⟩
  · have hfill : ((fillRecord ev).map JournalRecord.taken).sum = 0 :=
      List.sum_eq_zero (by simpa using taken_fillRecord ev)
    have hacts : (((decideV33 p st ev).acts.map journalAction).map JournalRecord.taken).sum =
        sentBy (decideV33 p st ev).acts := by
      rw [List.map_map]
      rfl
    rw [List.map_append, List.map_append, List.sum_append, List.sum_append, h.taken, hfill, hacts,
      h.coids.sent h.wings, add_zero]
  · rw [journalFills_append, journalFills_append, journalFills_acts, List.append_nil]
    exact List.forall_mem_append.mpr ⟨h.fills, onGrid_fillRecord ev⟩
  · refine List.forall_mem_append.mpr ⟨List.forall_mem_append.mpr ⟨h.takes, fun r hr => ?_⟩, ?_⟩
    · rw [taken_fillRecord ev r hr]
      exact ⟨0, by simp⟩
    · intro r hr
      obtain ⟨a, -, rfl⟩ := List.mem_map.mp hr
      exact onGrid_journalAction a

/-- Every input of the driver keeps the journal true to what was taken. -/
theorem JournalOk.next (h : JournalOk st records) (i : DriverInput) :
    JournalOk (nextJournaled p (st, records) i).1 (nextJournaled p (st, records) i).2 := by
  cases i with
  | event ev => exact h.decide ev
  | executorStandDown =>
    unfold nextJournaled
    dsimp only
    split_ifs
    · exact h
    · exact h.standDown.append (by simp [JournalRecord.taken]) rfl
  | alarm text => exact h.append (by simp [JournalRecord.taken]) rfl
  | phantom => exact h.append (by simp [JournalRecord.taken]) rfl
  | chunk => exact h.append (by simp [JournalRecord.taken]) rfl

/-- In every run the journaled takes are the lots wings were sent for. -/
theorem JournalOk.reached {ok : V33State × List JournalRecord → DriverInput → Prop}
    {inputs : List DriverInput} {w : V33State × List JournalRecord}
    (hrun : Journaled p ok inputs w) : JournalOk w.1 w.2 := by
  obtain ⟨start, hnew, hfed⟩ := hrun
  refine hfed.preserves (I := fun w => JournalOk w.1 w.2) (fun w i hw _ => hw.next i) ?_
  refine ⟨CoidsOk.new hnew, ⟨BatchesOk.new hnew, TriggersOk.new hnew⟩, ?_, by simp [journalFills],
    by simp⟩
  obtain ⟨_, _, _, _, _, _, rfl⟩ := hnew
  simp [sentLots, takenLots, V33State.new]

/-! ### The rebuilt row -/

/-- What the reading of a record adds. -/
theorem readRecord_eq (acc : RebuildReading) (r : JournalRecord) :
    (readRecord acc r).execFills = acc.execFills ++ r.fill.toList ∧
      (readRecord acc r).hedgedLots = acc.hedgedLots + r.taken := by
  cases r <;> simp [readRecord, JournalRecord.fill, JournalRecord.taken]

/-- The rebuild reads the journal's fills and adds up its takes. -/
theorem foldl_readRecord (records : List JournalRecord) (acc : RebuildReading) :
    (records.foldl readRecord acc).execFills = acc.execFills ++ journalFills records ∧
      (records.foldl readRecord acc).hedgedLots =
        acc.hedgedLots + (records.map JournalRecord.taken).sum := by
  induction records generalizing acc with
  | nil => simp [journalFills]
  | cons r rest ih =>
    obtain ⟨hfills, hhedged⟩ := ih (readRecord acc r)
    obtain ⟨hfill, htaken⟩ := readRecord_eq acc r
    have hcons : journalFills (r :: rest) = r.fill.toList ++ journalFills rest := by
      cases hr : r.fill <;> simp [journalFills, hr]
    constructor
    · rw [List.foldl_cons, hfills, hfill, hcons, List.append_assoc]
    · rw [List.foldl_cons, hhedged, htaken, List.map_cons, List.sum_cons, add_assoc]

/-- Without a core to compare with, the lots are those of the executor's fills. -/
theorem reconcile_truthOnly (fills : List ExecFill) (hedged : ℚ) (oneLegged : Bool) :
    (reconcile fills none hedged oneLegged).oneLeggedContracts =
      nakedLots (execTruth fills) hedged := by
  unfold reconcile
  dsimp only
  split_ifs with hempty
  · have hnone : (aggregateExecFills fills).entries = [] := List.isEmpty_iff.mp hempty
    simp [lotsOf, execTruth, Dict.values, hnone]
  · rfl

/-- An order with one source that adds up. -/
theorem truth_of_single {e : ExecAgg} {src : String} {v : ℚ}
    (h : e.bySource.entries = [(src, v)]) : e.truth = v := by
  simp [ExecAgg.truth, Dict.values, h]

/-- A fill of the journal adds to the lots of the journal. -/
theorem entries_add_journal {e : ExecAgg} {f : ExecFill} {v : ℚ} (hsrc : f.src = "journal")
    (h : e.bySource.entries = [("journal", v)]) :
    (e.add f).bySource.entries = [("journal", v + f.count)] := by
  simp [ExecAgg.add, Dict.getD, Dict.get?, Dict.set, hsrc, maxSources, h, assocGet, assocSet]

/-- The first fill of the journal starts them. -/
theorem entries_new_add {f : ExecFill} (hsrc : f.src = "journal") :
    (ExecAgg.new.add f).bySource.entries = [("journal", 0 + f.count)] := by
  simp [ExecAgg.add, ExecAgg.new, Dict.getD, Dict.get?, Dict.set, Dict.empty, hsrc, maxSources,
    assocGet, assocSet]

/-- Every order was reported by the journal alone. -/
def JournalOnly (d : Dict String ExecAgg) : Prop :=
  ∀ key e, d.get? key = some e → ∃ v, e.bySource.entries = [("journal", v)]

/-- A fill of the journal leaves its order to the journal, with the lots it had and the new ones. -/
theorem JournalOnly.entries_add {d : Dict String ExecAgg} (h : JournalOnly d) (key : String)
    {f : ExecFill} (hsrc : f.src = "journal") :
    ∃ v, ((d.getD key ExecAgg.new).add f).bySource.entries = [("journal", v + f.count)] ∧
      ((d.get? key).map ExecAgg.truth).getD 0 = v := by
  cases hget : d.get? key with
  | none =>
    have hnew : d.getD key ExecAgg.new = ExecAgg.new := by rw [Dict.getD, hget]; rfl
    exact ⟨0, by rw [hnew, entries_new_add hsrc], rfl⟩
  | some e =>
    obtain ⟨v, hv⟩ := h key e hget
    have hsome : d.getD key ExecAgg.new = e := by rw [Dict.getD, hget]; rfl
    exact ⟨v, by rw [hsome, entries_add_journal hsrc hv], truth_of_single hv⟩

/-- Folding fills of the journal in adds their lots to the truths, if they name an order. -/
theorem JournalOnly.sum_truth {fills : List ExecFill} (h : ∀ f ∈ fills, f.source = "journal")
    {d : Dict String ExecAgg} (hd : JournalOnly d) :
    ((fills.foldl addExecFill d).values.map ExecAgg.truth).sum =
      (d.values.map ExecAgg.truth).sum +
        ((fills.filter fun f => (canonKey f.coid f.orderId).isSome).map ExecFill.count).sum := by
  induction fills generalizing d with
  | nil => simp
  | cons f rest ih =>
    have hrest {d : Dict String ExecAgg} (hd : JournalOnly d) :=
      ih (fun g hg => h g (List.mem_cons_of_mem f hg)) hd
    have hsrc : f.src = "journal" := by
      simp [ExecFill.src, h f List.mem_cons_self]
    rw [List.foldl_cons]
    cases hkey : canonKey f.coid f.orderId with
    | none =>
      have hsame : addExecFill d f = d := by simp [addExecFill, hkey]
      rw [hsame, hrest hd, List.filter_cons_of_neg (by simp [hkey])]
    | some key =>
      obtain ⟨v, hv, hold⟩ := hd.entries_add key hsrc
      have hadd : addExecFill d f = d.set key ((d.getD key ExecAgg.new).add f) := by
        simp [addExecFill, hkey]
      have hset : JournalOnly (d.set key ((d.getD key ExecAgg.new).add f)) := by
        intro k e he
        rw [Dict.get?_set] at he
        split_ifs at he
        · exact ⟨v + f.count, by rw [← Option.some.inj he, hv]⟩
        · exact hd k e he
      have hsum := Dict.sum_map_values_set ExecAgg.truth d key ((d.getD key ExecAgg.new).add f)
      rw [hold, truth_of_single hv] at hsum
      rw [hadd, hrest hset, List.filter_cons_of_pos (by simp [hkey]), List.map_cons, List.sum_cons]
      linarith

/-- Fills of one source that adds up are summed order by order. -/
theorem execTruth_journal {fills : List ExecFill} (h : ∀ f ∈ fills, f.source = "journal") :
    execTruth fills =
      ((fills.filter fun f => (canonKey f.coid f.orderId).isSome).map ExecFill.count).sum := by
  have hempty : JournalOnly Dict.empty := fun key e hget => by simp at hget
  exact (hempty.sum_truth h).trans (zero_add _)

/-- The naked lots of a rebuild: what the journal's fills exceed its takes by. -/
theorem JournalOk.rebuilt (h : JournalOk st records) :
    (rebuildFromRecords records).reconciled.oneLeggedContracts =
      max 0 (execTruth (journalFills records) - sentLots st) := by
  obtain ⟨hfills, hhedged⟩ := foldl_readRecord records ⟨[], 0, 0, 0, Dict.empty⟩
  have htruth : OnGrid 100 (execTruth (journalFills records)) := by
    apply onGrid_sum
    intro q hq
    obtain ⟨e, he, rfl⟩ := List.mem_map.mp hq
    obtain ⟨entry, hentry, rfl⟩ := List.mem_map.mp he
    exact onGrid_truth h.fills entry hentry
  have hsent : OnGrid 100 (sentLots st) := by
    rw [← h.taken]
    apply onGrid_sum
    intro q hq
    obtain ⟨r, hr, rfl⟩ := List.mem_map.mp hq
    exact h.takes r hr
  rw [rebuildFromRecords, reconcile_truthOnly, hfills, hhedged, List.nil_append, zero_add, h.taken]
  exact nakedLots_of_onGrid htruth hsent

/-- The naked lots of the live reconciliation. -/
theorem reconcileLive_oneLegged (observed : List ExecFill) (executor : Option Executor)
    (venue : List VenueFill) (st : V33State) :
    (reconcileLive observed executor venue st).oneLeggedContracts =
      max 0 (qCount (liveLots (executorTruthFills observed executor venue) st.restFills -
        hedgedLotsFromState st.wingBatches executor)) := by
  rw [reconcileLive, liveLots]
  split_ifs with hunnamed
  · have hnone := aggregateExecFills_empty.mpr hunnamed
    simp [reconcile, hnone, nakedLots]
  · obtain ⟨hlots, hnaked⟩ := @lotsFilled_reconcile _ st.restFills
      (hedgedLotsFromState st.wingBatches executor) hunnamed st.oneLegged
    rw [hnaked, hlots]
    rfl

/-! ### Takes and misses -/

/-- The fills of the journal are those the driver was told of. -/
theorem journalFills_next (p : V33Params) (w : V33State × List JournalRecord) (i : DriverInput) :
    journalFills (nextJournaled p w i).2 = journalFills w.2 ++ i.fill.toList := by
  cases i with
  | event ev =>
    show journalFills (w.2 ++ fillRecord ev ++ (decideV33 p w.1 ev).acts.map journalAction) = _
    rw [journalFills_append, journalFills_append, journalFills_acts, List.append_nil]
    congr 1
    cases ev with
    | fill e =>
      by_cases htold : e.source.isSome <;>
        simp [fillRecord, DriverInput.fill, htold, journalFills, JournalRecord.fill]
    | _ => rfl
  | executorStandDown =>
    unfold nextJournaled
    dsimp only
    split_ifs
    · exact (List.append_nil _).symm
    · exact journalFills_append _ _
  | _ => exact journalFills_append _ _

/-- The journal of a run has the fills the driver was given. -/
theorem journalFills_reached {ok : V33State × List JournalRecord → DriverInput → Prop}
    {inputs : List DriverInput} {w : V33State × List JournalRecord}
    (hrun : Journaled p ok inputs w) : journalFills w.2 = inputs.filterMap DriverInput.fill := by
  obtain ⟨start, -, hfed⟩ := hrun
  have hfrom : ∀ s, Fed (nextJournaled p) ok s inputs w →
      journalFills w.2 = journalFills s.2 ++ inputs.filterMap DriverInput.fill := by
    intro s h
    clear hfed
    induction h with
    | nil => exact (List.append_nil _).symm
    | @cons s t i is _ _ ih =>
      rw [ih, journalFills_next, List.append_assoc]
      cases hi : i.fill <;> simp [hi]
  exact (hfrom _ hfed).trans (List.nil_append _)

/-- The lots the journal's fills add up to are those told. -/
theorem execTruth_journalFills {ok : V33State × List JournalRecord → DriverInput → Prop}
    {inputs : List DriverInput} {w : V33State × List JournalRecord}
    (hrun : Journaled p ok inputs w) : execTruth (journalFills w.2) = toldLots inputs := by
  rw [journalFills_reached hrun]
  apply execTruth_journal
  intro f hf
  obtain ⟨i, -, hi⟩ := List.mem_filterMap.mp hf
  unfold DriverInput.fill at hi
  split at hi
  · split_ifs at hi
    rw [← Option.some.inj hi]
  · simp at hi

/-- Batch by batch, with the pre-takes given up, wings were sent for what was sent. -/
theorem BatchesOk.sum_sentFor (h : BatchesOk st) :
    (st.wingBatches.map (sentFor st)).sum + givenUpLots st = sentLots st := by
  unfold sentFor givenUpLots sentLots takenLots
  split_ifs with hmode
  · simp
  · have hkept : ((st.printThroughTriggers.filter fun t =>
          t.batchIndex ∈ st.wingBatches.map WingBatch.index).map PrintThroughTrigger.count).sum =
        (st.wingBatches.map fun b => ((st.printThroughTriggers.filter fun t =>
          t.batchIndex = b.index).map PrintThroughTrigger.count).sum).sum := by
      have hsum := Dict.sum_map_filter_key PrintThroughTrigger.batchIndex PrintThroughTrigger.count
        h.batchIndex_nodup (l := st.printThroughTriggers.filter fun t =>
          t.batchIndex ∈ st.wingBatches.map WingBatch.index)
        (fun t ht => by simpa using (List.mem_filter.mp ht).2)
      rw [← hsum, List.map_map]
      congr 1
      refine List.map_congr_left fun b hb => ?_
      rw [Function.comp_apply, List.filter_filter]
      congr 2
      refine List.filter_congr fun t _ => ?_
      by_cases ht : t.batchIndex = b.index
      · simp [ht, List.mem_map_of_mem hb]
      · simp [ht]
    have hsplit := List.sum_map_filter_add_sum_map_filter_not
      (fun t : PrintThroughTrigger => t.batchIndex ∈ st.wingBatches.map WingBatch.index)
      PrintThroughTrigger.count st.printThroughTriggers
    rw [List.sum_map_add, ← hkept, add_assoc, hsplit]

/-- The sum of differences. -/
theorem sum_map_sub {α : Type*} (f g : α → ℚ) (l : List α) :
    (l.map fun x => f x - g x).sum = (l.map f).sum - (l.map g).sum := by
  rw [eq_sub_iff_add_eq, ← List.sum_map_add]
  simp only [sub_add_cancel]

/-- What was sent beyond what both wings cover are the lots of the takes that missed. -/
theorem BatchesOk.sent_sub_covered (h : BatchesOk st) :
    sentLots st - coveredLots st = missedLots st := by
  have hcovered : coveredLots st = (st.wingBatches.map (coveredBy st)).sum := by
    unfold coveredLots makerLots lotsOf
    induction st.wingBatches with
    | nil => rfl
    | cons b bs ih =>
      by_cases hb : wingsFilled st b.index = true
      · rw [List.filter_cons_of_pos (by simpa using hb), List.flatMap_cons, List.filter_append,
          List.map_append, List.sum_append, ih, List.map_cons, List.sum_cons, coveredBy, if_pos hb]
        rfl
      · rw [List.filter_cons_of_neg (by simpa using hb), ih, List.map_cons, List.sum_cons,
          coveredBy, if_neg hb, zero_add]
  rw [missedLots, sum_map_sub, hcovered, ← h.sum_sentFor]
  ring

/-- What was sent beyond what is credited are the lots of the takes that are not credited. -/
theorem BatchesOk.sent_sub_credited (h : BatchesOk st) (executor : Option Executor) :
    sentLots st - hedgedLotsFromState st.wingBatches executor = uncreditedLots executor st := by
  have hcredited : hedgedLotsFromState st.wingBatches executor =
      (st.wingBatches.map (creditedBy executor)).sum := by
    unfold hedgedLotsFromState
    induction st.wingBatches with
    | nil => rfl
    | cons b bs ih =>
      by_cases hb : hedgedBatch (executor.bind Executor.wingFilled) b = true
      · rw [List.filter_cons_of_pos hb, List.map_cons, List.sum_cons, ih, List.map_cons,
          List.sum_cons, creditedBy, if_pos hb]
      · rw [List.filter_cons_of_neg hb, ih, List.map_cons, List.sum_cons, creditedBy, if_neg hb,
          zero_add]
  rw [uncreditedLots, sum_map_sub, hcredited, ← h.sum_sentFor]
  ring
/-- Two positive parts are equal when the numbers are, or when neither is positive. -/
theorem max_zero_eq_iff {a b : ℚ} : max 0 a = max 0 b ↔ a = b ∨ a ≤ 0 ∧ b ≤ 0 := by
  constructor
  · intro h
    rcases le_total a 0 with ha | ha <;> rcases le_total b 0 with hb | hb
    · exact Or.inr ⟨ha, hb⟩
    · rw [max_eq_left ha, max_eq_right hb] at h
      exact Or.inr ⟨ha, h.ge⟩
    · rw [max_eq_right ha, max_eq_left hb] at h
      exact Or.inr ⟨h.le, hb⟩
    · rw [max_eq_right ha, max_eq_right hb] at h
      exact Or.inl h
  · rintro (rfl | ⟨ha, hb⟩)
    · rfl
    · rw [max_eq_left ha, max_eq_left hb]

/-- In every run, the rebuild reports every naked lot and agrees with the live reconciliation
where every take filled, exactly when the takes that missed are made up for. -/
theorem reportsNaked_iff {ok : V33State × List JournalRecord → DriverInput → Prop}
    {inputs : List DriverInput} {w : V33State × List JournalRecord}
    (hrun : Journaled p ok inputs w) (observed : List ExecFill) (executor : Option Executor)
    (venue : List VenueFill) :
    ReportsNaked observed executor venue w.1 w.2 ↔
      MissesMadeUp inputs observed executor venue w.1 := by
  have hok := JournalOk.reached hrun
  have hrebuilt := hok.rebuilt
  have hlive := reconcileLive_oneLegged observed executor venue w.1
  have hmissed := hok.wings.1.sent_sub_covered
  have huncredited := hok.wings.1.sent_sub_credited executor
  rw [execTruth_journalFills hrun] at hrebuilt
  have hcovers : nakedBooked w.1 ≤ (rebuildFromRecords w.2).reconciled.oneLeggedContracts ↔
      nakedBooked w.1 ≤ 0 ∨ missedLots w.1 ≤ toldLots inputs - makerLots w.1.restFills := by
    rw [hrebuilt, le_max_iff, nakedBooked, ← hmissed]
    refine or_congr_right ⟨fun h => ?_, fun h => ?_⟩
    · linarith
    · linarith
  have hseen : liveLots (executorTruthFills observed executor venue) w.1.restFills +
      uncreditedLots executor w.1 - sentLots w.1 =
        liveLots (executorTruthFills observed executor venue) w.1.restFills -
          hedgedLotsFromState w.1.wingBatches executor := by
    rw [← huncredited]
    ring
  constructor
  · intro h
    refine ⟨hcovers.mp h.covers, fun hall => ?_⟩
    have hsame := h.agrees hall
    rw [hrebuilt, hlive, max_zero_eq_iff, sub_nonpos, ← hseen] at hsame
    exact hsame
  · intro h
    refine ⟨hcovers.mpr h.covers, fun hall => ?_⟩
    rw [hrebuilt, hlive, max_zero_eq_iff, sub_nonpos, ← hseen]
    exact h.agrees hall

end Takes

/-! ### Two hours -/

/-- A lot of a rung, told by the private channel. -/
def toldFill (orderId coid : String) (price ts : ℚ) : DriverInput :=
  .event (.fill ⟨some orderId, coid, 1, some price, .no, ts, some "B100", some .ws⟩)

/-- The executor's answer for a wing: the lots it filled. -/
def wingAnswer (coid : String) (count price : ℚ) (side : Side) (ticker : String) : DriverInput :=
  .event (.fill ⟨none, coid, count, some price, side, 1005, some ticker, none⟩)

/-- The driver after some inputs in the sample window. -/
def sampleJournal (inputs : List DriverInput) : V33State × List JournalRecord :=
  inputs.foldl (nextJournaled samplePolicy) (sampleWindow samplePolicy, [])

/-- Every run of the sample driver is journaled. -/
theorem journaled_sample (inputs : List DriverInput) :
    Journaled samplePolicy (fun _ _ => True) inputs (sampleJournal inputs) :=
  ⟨sampleWindow samplePolicy, isNew_sampleWindow samplePolicy,
    fed_of_allAlong (allAlong_of_forall fun _ _ _ => trivial)⟩

/-- One lot fills, and wings are taken that fill as far as given. -/
def takenOnce (filled : ℚ) : List DriverInput :=
  sampleOpening.map .event ++
    [toldFill "v1" "c-1" (59 / 100) 1002, .event (.clockTick 1004),
      wingAnswer "c-3" filled (70 / 100) .yes "S100", wingAnswer "c-4" filled (50 / 100) .no "S200"]

/-- One lot has its wings and a second one waits for them: the rebuild finds the second. -/
def onePairOneNaked : List DriverInput := takenOnce 1 ++ [toldFill "v2" "c-2" (58 / 100) 1006]

/-- What the driver observed of the two fills. -/
def observedTwo : List ExecFill :=
  [⟨1, some "c-1", some "v1", some (59 / 100), some "B100", "ws"⟩,
    ⟨1, some "c-2", some "v2", some (58 / 100), some "B100", "ws"⟩]

/-- The sample with one pair and one naked lot reports the naked lot. -/
theorem reportsNaked_onePairOneNaked :
    nakedBooked (sampleJournal onePairOneNaked).1 = 1 ∧
      ReportsNaked observedTwo none [] (sampleJournal onePairOneNaked).1
        (sampleJournal onePairOneNaked).2 := by
  refine ⟨by decide +kernel, (reportsNaked_iff (journaled_sample _) observedTwo none []).mpr ?_⟩
  exact ⟨Or.inr (by decide +kernel), fun _ => Or.inl (by decide +kernel)⟩

/-- Where both wings miss, the rebuild still counts the lot as hedged. -/
theorem missedTake_unreported :
    ¬∀ (p : V33Params) (inputs : List DriverInput) (w : V33State × List JournalRecord),
      Journaled p (fun _ _ => True) inputs w →
        ∀ (observed : List ExecFill) (executor : Option Executor) (venue : List VenueFill),
          ReportsNaked observed executor venue w.1 w.2 := by
  intro h
  have hcovers := (h samplePolicy (takenOnce 0) _ (journaled_sample _) [] none []).covers
  have hless : (rebuildFromRecords (sampleJournal (takenOnce 0)).2).reconciled.oneLeggedContracts <
      nakedBooked (sampleJournal (takenOnce 0)).1 := by
    decide +kernel
  exact absurd hcovers hless.not_ge

end Pilot.V33
