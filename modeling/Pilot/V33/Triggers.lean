import Pilot.V33.Batches

/-!
# Triggers and their batches

Every print-through trigger has a batch index of its own, its batch is a pre-emptive one on a
known bucket, and once it is resolved its resolution stays.
-/

namespace Pilot.V33

/-- A trigger goes on to `t'`: its batch stays, and a resolution is final. -/
structure GoesOn (t t' : PrintThroughTrigger) : Prop where
  batchIndex : t'.batchIndex = t.batchIndex
  resolved : t.resolved = true → t'.resolved = true ∧ t'.resolution = t.resolution

/-- The triggers of a state are in order. -/
structure TriggersOk (st : V33State) : Prop where
  nodup : (st.printThroughTriggers.map PrintThroughTrigger.batchIndex).Nodup
  below : ∀ i ∈ st.printThroughTriggers.map PrintThroughTrigger.batchIndex, i < st.nextBatchIndex
  apart : ∀ i ∈ st.printThroughTriggers.map PrintThroughTrigger.batchIndex, i ∉ openIndex st
  early : ∀ b ∈ st.wingBatches,
    b.index ∈ st.printThroughTriggers.map PrintThroughTrigger.batchIndex →
      b.printThrough = true ∧ b.bucketSd.isSome

section Triggers

variable {p : V33Params} {now : ℚ} {st st' : V33State} {acts : List V33Action}

/-- A trigger goes on as it is. -/
theorem GoesOn.refl (t : PrintThroughTrigger) : GoesOn t t := ⟨rfl, fun h => ⟨h, rfl⟩⟩

/-- A trigger goes on from step to step. -/
theorem GoesOn.trans {t u v : PrintThroughTrigger} (h : GoesOn t u) (k : GoesOn u v) :
    GoesOn t v := by
  refine ⟨k.batchIndex.trans h.batchIndex, fun hres => ?_⟩
  obtain ⟨hu, hsame⟩ := h.resolved hres
  obtain ⟨hv, hsame'⟩ := k.resolved hu
  exact ⟨hv, hsame'.trans hsame⟩

/-- A step of a trigger is one way to go on. -/
theorem TriggerStep.goesOn {t t' : PrintThroughTrigger} (h : TriggerStep t t') : GoesOn t t' :=
  ⟨h.batchIndex, h.resolved⟩

/-- Triggers that go on keep their batches. -/
theorem map_batchIndex {ts ts' : List PrintThroughTrigger} (h : List.Forall₂ GoesOn ts ts') :
    ts'.map PrintThroughTrigger.batchIndex = ts.map PrintThroughTrigger.batchIndex := by
  induction h with
  | nil => rfl
  | cons ht _ ih => rw [List.map_cons, List.map_cons, ht.batchIndex, ih]

/-- The triggers stay in order while they go on and no batch takes the index of one. -/
theorem TriggersOk.keep (h : TriggersOk st)
    (htriggers : List.Forall₂ GoesOn st.printThroughTriggers st'.printThroughTriggers)
    (hnext : st.nextBatchIndex ≤ st'.nextBatchIndex)
    (hopen : ∀ i ∈ openIndex st', i ∈ openIndex st ∨ st.nextBatchIndex ≤ i)
    (hbatches : ∀ b ∈ st'.wingBatches, b.index ∈ openIndex st ∨ ∃ c ∈ st.wingBatches,
      b.index = c.index ∧ b.printThrough = c.printThrough ∧ b.bucketSd = c.bucketSd) :
    TriggersOk st' := by
  have hmap := map_batchIndex htriggers
  refine ⟨?_, fun i hi => ?_, fun i hi hmem => ?_, fun b hb hi => ?_⟩
  · rw [hmap]
    exact h.nodup
  · rw [hmap] at hi
    exact (h.below i hi).trans_le hnext
  · rw [hmap] at hi
    rcases hopen i hmem with ho | hle
    · exact h.apart i hi ho
    · exact absurd (h.below i hi) (not_lt.mpr hle)
  · rw [hmap] at hi
    rcases hbatches b hb with ho | ⟨c, hc, hindex, hearly, hbucket⟩
    · exact absurd ho (h.apart _ hi)
    · rw [hindex] at hi
      rw [hearly, hbucket]
      exact h.early c hc hi

/-- An update of one batch that keeps what it hedges. -/
theorem keeps_replaceBatch {f : WingBatch → WingBatch} (batches : List WingBatch) (index : ℕ)
    (hindex : ∀ b, (f b).index = b.index) (hearly : ∀ b, (f b).printThrough = b.printThrough)
    (hbucket : ∀ b, (f b).bucketSd = b.bucketSd) :
    ∀ b ∈ replaceBatch batches index f, ∃ c ∈ batches,
      b.index = c.index ∧ b.printThrough = c.printThrough ∧ b.bucketSd = c.bucketSd := by
  intro b hb
  rcases mem_replaceFirst hb with hb | ⟨c, hc, -, rfl⟩
  · exact ⟨b, hb, rfl, rfl, rfl⟩
  · exact ⟨c, hc, hindex c, hearly c, hbucket c⟩

/-- The triggers go on and one batch is updated. -/
theorem TriggersOk.update (h : TriggersOk st) {f : WingBatch → WingBatch} {i : ℕ}
    (hindex : ∀ b, (f b).index = b.index) (hearly : ∀ b, (f b).printThrough = b.printThrough)
    (hbucket : ∀ b, (f b).bucketSd = b.bucketSd)
    (htriggers : List.Forall₂ GoesOn st.printThroughTriggers st'.printThroughTriggers)
    (hbatches : st'.wingBatches = V33.replaceBatch st.wingBatches i f)
    (hopen : st'.coalesceOpen = st.coalesceOpen)
    (hnext : st'.nextBatchIndex = st.nextBatchIndex) : TriggersOk st' := by
  refine h.keep htriggers hnext.ge (fun i hi => Or.inl ?_) (fun b hb => Or.inr ?_)
  · rw [openIndex, hopen] at hi
    exact hi
  · rw [hbatches] at hb
    exact keeps_replaceBatch _ _ hindex hearly hbucket b hb

/-- Only the triggers go on. -/
theorem TriggersOk.goOn (h : TriggersOk st)
    (htriggers : List.Forall₂ GoesOn st.printThroughTriggers st'.printThroughTriggers)
    (hbatches : st'.wingBatches = st.wingBatches) (hopen : st'.coalesceOpen = st.coalesceOpen)
    (hnext : st'.nextBatchIndex = st.nextBatchIndex) : TriggersOk st' := by
  refine h.keep htriggers hnext.ge (fun i hi => Or.inl ?_)
    (fun b hb => Or.inr ⟨b, ?_, rfl, rfl, rfl⟩)
  · rw [openIndex, hopen] at hi
    exact hi
  · rwa [hbatches] at hb

/-- Triggers go on as they are. -/
theorem goOn_refl (ts : List PrintThroughTrigger) : List.Forall₂ GoesOn ts ts :=
  List.forall₂_same.mpr fun t _ => GoesOn.refl t

/-- What leaves the wings alone leaves the triggers in order. -/
theorem TriggersOk.frame (h : TriggersOk st) (hwings : st'.toWings = st.toWings) :
    TriggersOk st' := by
  refine h.goOn ?_ (congrArg Wings.wingBatches hwings) (congrArg Wings.coalesceOpen hwings)
    (congrArg Wings.nextBatchIndex hwings)
  rw [congrArg Wings.printThroughTriggers hwings]
  exact goOn_refl _

/-- An update of the trigger at a position. -/
theorem goOn_modify (ts : List PrintThroughTrigger) (idx : ℕ)
    (f : PrintThroughTrigger → PrintThroughTrigger)
    (h : ∀ t, ts[idx]? = some t → GoesOn t (f t)) : List.Forall₂ GoesOn ts (ts.modify idx f) :=
  forall₂_modify GoesOn.refl _ _ h

/-- A resolved trigger goes on, and the others as they are. -/
theorem goOn_markResolution (index : ℕ) (resolution : Resolution) (at_ : Option ℚ) :
    List.Forall₂ GoesOn st.printThroughTriggers
      (ptMarkResolution st index resolution at_).printThroughTriggers := by
  unfold ptMarkResolution
  refine forall₂_replaceFirst GoesOn.refl ?_ _
  intro t ht
  refine ⟨rfl, fun h => ?_⟩
  simp only [Bool.and_eq_true, Bool.not_eq_true'] at ht
  simp [ht.2] at h

/-- Counting a completed set keeps the triggers in order. -/
theorem TriggersOk.closeSet (h : TriggersOk st) (index : ℕ) :
    TriggersOk (maybeCloseSet st index) := by
  unfold maybeCloseSet
  split
  · exact h.goOn (goOn_refl _) rfl rfl rfl
  · split_ifs
    · exact h.goOn (goOn_refl _) rfl rfl rfl
    · exact h.goOn (goOn_refl _) rfl rfl rfl
    · exact h.update (f :=
        fun b => { b with completed := true, oneLegged := false, resolved := true })
        (fun _ => rfl) (fun _ => rfl) (fun _ => rfl)
        (goOn_markResolution index .filled none) rfl rfl
          rfl
    · exact h.update (f := fun b => { b with completed := true, oneLegged := false })
        (fun _ => rfl) (fun _ => rfl) (fun _ => rfl) (goOn_refl _) rfl rfl rfl

/-- A trigger that was unresolved takes its resolution. -/
theorem goOn_resolve {idx : ℕ} {t' : PrintThroughTrigger}
    (ht : st.printThroughTriggers[idx]? = some t') (hres : t'.resolved = false)
    (f : PrintThroughTrigger → PrintThroughTrigger) (hf : ∀ t, (f t).batchIndex = t.batchIndex) :
    List.Forall₂ GoesOn st.printThroughTriggers (st.printThroughTriggers.modify idx f) := by
  refine goOn_modify _ _ _ fun t hget => ⟨hf t, fun h => ?_⟩
  rw [ht] at hget
  obtain rfl := Option.some.inj hget
  simp [hres] at h

/-- Unwinding an open trigger keeps the triggers in order. -/
theorem TriggersOk.unwind (h : TriggersOk st) {idx : ℕ} {t t' : PrintThroughTrigger}
    {b : WingBatch} {resolution : Resolution} (ht : st.printThroughTriggers[idx]? = some t')
    (hres : t'.resolved = false) : TriggersOk (ptUnwind st idx t b now resolution).st := by
  have hkept : ∀ f : PrintThroughTrigger → PrintThroughTrigger,
      (∀ t, (f t).batchIndex = t.batchIndex) →
        TriggersOk (replacePt (resizeBatch st b.index b.totalCount) idx f) := fun f hf =>
    h.update (i := b.index) (f := fun x => { x with takenCount := b.totalCount })
      (fun _ => rfl) (fun _ => rfl) (fun _ => rfl) (goOn_resolve ht hres f hf) rfl rfl rfl
  unfold ptUnwind
  dsimp only
  split_ifs
  · refine TriggersOk.closeSet (hkept _ ?_) b.index
    exact fun _ => rfl
  · refine h.keep (goOn_resolve ht hres _ fun _ => rfl) le_rfl (fun _ hi => Or.inl hi)
      fun x hx => Or.inr ⟨x, List.mem_of_mem_filter hx, rfl, rfl, rfl⟩

/-- The fill of a taker leg keeps the triggers in order. -/
theorem TriggersOk.takerFill (h : TriggersOk st) (t : PrintThroughTrigger) (price count : ℚ) :
    TriggersOk (ptBookTakerComplete p st t price count now) := by
  unfold ptBookTakerComplete
  dsimp only
  split_ifs
  · exact h
  · split
    · exact h
    · next b _ =>
      exact h.update (i := b.index)
        (f := fun x => { x with fills :=
          x.fills ++ [V33.takerFill p st b price (qCount count) now] })
        (fun _ => rfl) (fun _ => rfl) (fun _ => rfl) (goOn_refl _) rfl rfl rfl

/-- Closing the open group keeps the triggers in order. -/
theorem TriggersOk.flush (h : TriggersOk st) : TriggersOk (coalesceFlush p st now) := by
  unfold coalesceFlush
  split
  · exact h
  · next g hg =>
    split_ifs
    · refine h.keep (goOn_refl _) le_rfl (by simp [openIndex]) fun b hb => ?_
      rcases List.mem_append.mp hb with hb | hb
      · exact Or.inr ⟨b, hb, rfl, rfl, rfl⟩
      · rw [List.mem_singleton.mp hb]
        exact Or.inl (by simp [openIndex, hg, batchOfGroup])
    · exact h

/-- A trigger that fires takes the next batch index, for a pre-emptive batch on its bucket. -/
theorem TriggersOk.fire (h : TriggersOk st) (hbatches : BatchesOk st) (sd : ℤ)
    (cands : List RestOrder) (ya na yesPrint : ℚ) :
    TriggersOk (ptFire p st sd cands ya na yesPrint now).st := by
  have hopen : ∀ i ∈ openIndex st, i < st.nextBatchIndex := fun i hi =>
    hbatches.below i (List.mem_append_left _ hi)
  refine ⟨?_, fun i hi => ?_, fun i hi hmem => ?_, fun b hb hi => ?_⟩
  · show ((st.printThroughTriggers ++ [_]).map PrintThroughTrigger.batchIndex).Nodup
    rw [List.map_append, List.nodup_append]
    refine ⟨h.nodup, List.nodup_singleton _, fun a ha b hb => ?_⟩
    obtain rfl := List.mem_singleton.mp hb
    exact (h.below a ha).ne
  · change i ∈ (st.printThroughTriggers ++ [_]).map PrintThroughTrigger.batchIndex at hi
    rw [List.map_append, List.mem_append] at hi
    rcases hi with hi | hi
    · exact (h.below i hi).trans (Nat.lt_succ_self _)
    · rw [List.mem_singleton.mp hi]
      exact Nat.lt_succ_self _
  · change i ∈ (st.printThroughTriggers ++ [_]).map PrintThroughTrigger.batchIndex at hi
    rw [List.map_append, List.mem_append] at hi
    rcases hi with hi | hi
    · exact h.apart i hi hmem
    · rw [List.mem_singleton.mp hi] at hmem
      exact absurd (hopen _ hmem) (lt_irrefl _)
  · change b ∈ st.wingBatches ++ [_] at hb
    change b.index ∈ (st.printThroughTriggers ++ [_]).map PrintThroughTrigger.batchIndex at hi
    rcases List.mem_append.mp hb with hb | hb
    · rw [List.map_append, List.mem_append] at hi
      rcases hi with hi | hi
      · exact h.early b hb hi
      · have hlt := hbatches.below b.index
          (List.mem_append_right _ (List.mem_map_of_mem hb))
        exact absurd (List.mem_singleton.mp hi) hlt.ne
    · rw [List.mem_singleton.mp hb]
      exact ⟨rfl, rfl⟩

/-- Every wing operation leaves the triggers in order. -/
theorem TriggersOk.wing (h : TriggersOk st) (hbatches : BatchesOk st)
    (hop : WingOp p now st acts st') : TriggersOk st' := by
  cases hop with
  | flush => exact h.flush
  | mirror => exact h.goOn (goOn_refl _) rfl rfl rfl
  | settle ts steps => exact h.goOn (steps.imp fun _ _ hs => hs.goesOn) rfl rfl rfl
  | flag index f sets keeps =>
    exact h.update keeps.index keeps.printThrough keeps.bucketSd (goOn_refl _) rfl rfl rfl
  | take b sd ya na =>
    exact h.update (i := b.index) (f := fun b => { b with taken := true }) (fun _ => rfl)
      (fun _ => rfl) (fun _ => rfl) (goOn_refl _) rfl rfl rfl
  | takePartial b sd =>
    have htaken : ∀ x : List WingLeg, ∀ n, TriggersOk { st with
        coidSeq := n
        wingLegs := x
        wingBatches := V33.replaceBatch st.wingBatches b.index fun b =>
          { b with taken := true } } :=
      fun _ _ => h.update (i := b.index) (f := fun b => { b with taken := true }) (fun _ => rfl)
        (fun _ => rfl) (fun _ => rfl) (goOn_refl _) rfl rfl rfl
    unfold takeBatchPartial
    dsimp only
    split_ifs
    · split
      · exact htaken _ _
      · exact htaken _ _
      · exact h
    · exact h
  | retry b sd ya na =>
    unfold retryBatch
    dsimp only
    split_ifs
    · exact h
    · exact h
    · obtain ⟨n, hn, -⟩ := @retryLegs_st p now b.index ya na st.wingLegs st
      rw [hn]
      exact h.update (i := b.index)
        (f := fun x => { x with retries := b.retries +
          (retryLegs p b.index ya na now st.wingLegs st).2.acts.length })
        (fun _ => rfl) (fun _ => rfl) (fun _ => rfl) (goOn_refl _) rfl rfl rfl
  | net l m =>
    unfold netPair
    cases l.side <;> exact h.goOn (goOn_refl _) rfl rfl rfl
  | fire sd ya na yesPrint => exact h.fire hbatches sd _ ya na yesPrint
  | unwind idx t t' b resolution ht hres => exact h.unwind ht hres
  | complete idx t t' b shortfall noAsk lockPer ht hres =>
    cases hs : st.shakedown with
    | true =>
      have hbooked := @TriggersOk.takerFill p now st h t noAsk shortfall
      have hresolved : TriggersOk (replacePt (ptBookTakerComplete p st t noAsk shortfall now) idx
          (completedTrigger shortfall noAsk lockPer now t.completeCoid)) := by
        refine hbooked.goOn (goOn_resolve ?_ hres _ fun _ => rfl) rfl rfl rfl
        rw [ptBookTakerComplete_triggers]
        exact ht
      obtain ⟨x, hx, -⟩ := latchIfDone_eq p
        (bookedCompletion p st idx t b shortfall noAsk lockPer now)
      rw [ptComplete_of_shakedown _ _ _ _ _ _ hs, hx]
      exact (hresolved.closeSet b.index).frame rfl
    | false =>
      rw [ptComplete_of_armed _ _ _ _ _ _ hs]
      exact h.goOn (goOn_resolve ht hres _ fun _ => rfl) rfl rfl rfl
  | short idx t' b =>
    exact h.update (i := b.index) (f := fun x => { x with takenCount := b.totalCount })
      (fun _ => rfl) (fun _ => rfl) (fun _ => rfl)
      (goOn_modify _ _ _ fun t _ => ⟨rfl, fun h => ⟨h, rfl⟩⟩) rfl rfl rfl
  | takerFill t price count _ => exact h.takerFill t price count

/-- A fill recorded and handed to the wings. -/
theorem TriggersOk.book (h : TriggersOk st) (r : FillReport) :
    TriggersOk (bookedState p st r now) := by
  have hrecorded : TriggersOk (recordFill p st r now) := h.frame rfl
  unfold bookedState
  split
  · exact hrecorded
  · unfold hedgeFill
    split
    · next t _ =>
      have hattached : TriggersOk { recordFill p st r now with
          wingBatches := V33.replaceBatch st.wingBatches t.batchIndex fun b =>
            { b with fills := b.fills ++ [rungFillOf p st r now] }
          printThroughTriggers := replaceFirst (fun t => !t.resolved && t.rungCoids.contains r.coid)
            (fun t => { t with filledCoids := t.filledCoids ++ [r.coid] })
            st.printThroughTriggers } := by
        refine hrecorded.update (i := t.batchIndex)
          (f := fun b => { b with fills := b.fills ++ [rungFillOf p st r now] })
          (fun _ => rfl) (fun _ => rfl) (fun _ => rfl) ?_ rfl rfl rfl
        refine forall₂_replaceFirst GoesOn.refl ?_ _
        exact fun _ _ => ⟨rfl, fun h => ⟨h, rfl⟩⟩
      exact hattached.closeSet t.batchIndex
    · have hflush : TriggersOk (coalesceFlush p (recordFill p st r now) now) := hrecorded.flush
      unfold coalesceAdd
      dsimp only
      split
      · refine hflush.keep (goOn_refl _) (Nat.le_succ _) (fun i hi => Or.inr ?_)
          fun b hb => Or.inr ⟨b, hb, rfl, rfl, rfl⟩
        simp only [openIndex, Option.map_some, Option.toList_some, List.mem_singleton] at hi
        exact hi.ge
      · next g hg =>
        refine hflush.keep (goOn_refl _) le_rfl (fun i hi => Or.inl ?_)
          fun b hb => Or.inr ⟨b, hb, rfl, rfl, rfl⟩
        simpa [openIndex, hg] using hi

/-- The batches and the triggers are in order. -/
theorem triggersOk_invariant (p : V33Params) :
    WingInvariant p fun st => BatchesOk st ∧ TriggersOk st where
  frame h hwings hfills := ⟨(batchesOk_invariant p).frame h.1 hwings hfills, h.2.frame hwings⟩
  wing hop h := ⟨h.1.wing hop, h.2.wing h.1 hop⟩
  book r _ h := ⟨h.1.book r, h.2.book r⟩
  legs coid _ hf h := ⟨h.1.answered coid hf, h.2.goOn (goOn_refl _) rfl rfl rfl⟩

/-- A new window has no trigger. -/
theorem TriggersOk.new (h : IsNew p st) : TriggersOk st := by
  obtain ⟨_, _, _, _, _, _, rfl⟩ := h
  constructor <;> simp [V33State.new]

/-- The batches and the triggers of every state reached are in order. -/
theorem TriggersOk.reached {ok : V33State → Event → Prop} {evs : List Event}
    (hrun : Reached p ok evs st) : BatchesOk st ∧ TriggersOk st :=
  (triggersOk_invariant p).reached (fun _ hst => ⟨BatchesOk.new hst, TriggersOk.new hst⟩) hrun

end Triggers

end Pilot.V33
