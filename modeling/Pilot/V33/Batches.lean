import Pilot.V33.Runs

/-!
# Batches along a run

The wings change by small operations, by answered legs and by booked fills; what these keep
every run keeps. Batches have different indices, every leg belongs to a batch, and lots are
counted at two decimals.
-/

namespace Pilot.V33

/-! ### Invariants of the wings -/

/-- What holds of the wings and the fills after every small operation, booking and answer. -/
structure WingInvariant (p : V33Params) (I : V33State → Prop) : Prop where
  frame : ∀ {st st' : V33State}, I st → st'.toWings = st.toWings →
    st'.restFills = st.restFills → I st'
  wing : ∀ {now : ℚ} {st st' : V33State} {acts : List V33Action},
    WingOp p now st acts st' → I st → I st'
  book : ∀ {now : ℚ} {st : V33State} (r : FillReport), 0 < r.delta → I st →
    I (bookedState p st r now)
  legs : ∀ {st : V33State} (coid : String) (f : WingLeg → WingLeg), AnswersLeg f → I st →
    I { st with wingLegs := replaceFirst (fun l => l.clientOrderId == coid) f st.wingLegs }

section Invariant

variable {p : V33Params} {I : V33State → Prop} {now : ℚ} {st : V33State}

/-- An operation on the ladder keeps an invariant of the wings. -/
theorem WingInvariant.ladder (h : WingInvariant p I) {P : Permit} {acts : List V33Action}
    {st' : V33State} (hop : LadderOp p now P st acts st') (hI : I st) : I st' :=
  h.frame hI hop.frame.wings (congrArg FillLog.restFills hop.frame.fills)

/-- An invariant of the wings is a law of runs. -/
theorem WingInvariant.law (h : WingInvariant p I) :
    Law p (fun _ => True) (fun (_ : Unit) _ => ()) (fun _ _ => True) (fun st _ => I st) where
  report _ _ _ := ⟨trivial, rfl⟩
  op hop hI := ⟨allAlong_of_forall fun _ _ _ => trivial, h.ladder hop hI⟩
  wing hop hI := ⟨allAlong_of_forall fun _ _ _ => trivial, h.wing hop hI⟩
  book r _ hd hI := h.book r hd hI
  seen _ _ hI := h.frame hI rfl rfl
  legs coid f hf hI := h.legs coid f hf hI

/-- The fallback of a roll keeps an invariant of the wings. -/
theorem WingInvariant.rollFallback (h : WingInvariant p I) (rp : RollPending) (hI : I st) :
    I (rollFallback p st rp now).st := by
  unfold V33.rollFallback
  dsimp only
  split
  · exact h.frame hI rfl rfl
  · split_ifs
    · exact h.frame hI rfl rfl
    · exact h.frame hI rfl rfl

/-- A cleared cancel keeps an invariant of the wings. -/
theorem WingInvariant.clearCancelPending (h : WingInvariant p I) (oid : Option String)
    (hI : I st) : I (clearCancelPending st oid) := by
  obtain ⟨d, hd⟩ := clearCancelPending_eq st oid
  rw [hd]
  exact h.frame hI rfl rfl

/-- The inputs of an event leave the wings alone. -/
theorem WingInvariant.event (h : WingInvariant p I) (hI : I st) (ev : Event) :
    EventLaw p (fun _ => True) (fun (_ : Unit) _ => ()) (fun _ _ => True) (fun st _ => I st)
      st ev () where
  booked _ _ := trivial
  stay _ := hI
  book e _ := by
    obtain ⟨b, hb⟩ := foldBook_eq st e
    obtain ⟨q, x, heq, -⟩ :=
      recomputeContext_eq p (stampStrikeFeed (foldBook st e) e) e.serverTs
    rw [heq, hb]
    exact h.frame hI rfl rfl
  tick now _ := by
    obtain ⟨q, x, heq, -⟩ := recomputeContext_eq p st now
    rw [heq]
    exact h.frame hI rfl rfl
  ack e _ := by
    unfold applyAck
    split_ifs
    · exact h.frame hI rfl rfl
    · exact hI
  filled e _ := h.clearCancelPending e.orderId hI
  amended _ _ _ _ := ⟨h.frame hI rfl rfl, fun _ _ => h.frame hI rfl rfl⟩
  cancelled e _ := h.law.cancelPart e (fun _ _ => trivial) (h.clearCancelPending e.orderId hI)
    fun _ hs => by
      unfold finishCancel
      split
      · exact ⟨allAlong_of_forall fun _ _ _ => trivial, h.rollFallback _ hs⟩
      · obtain ⟨l, n, heq, -⟩ := dropCancelled_eq (reportCancel p st e e.serverTs).st e
          (cancelledOrder (V33.clearCancelPending st e.orderId) e)
        refine h.law.keeps_op (via_ptOnCancelConfirmed _) ?_
        rw [heq]
        exact h.frame hs rfl rfl

/-- Every decision keeps an invariant of the wings. -/
theorem WingInvariant.decide (h : WingInvariant p I) (hcoids : CoidsOk st) (hI : I st)
    (ev : Event) : I (decideV33 p st ev).st :=
  (h.law.decide (J := fun st _ => I st) (h.event hI ev) (fun _ _ hs => hs) fun _ hr _ hs =>
    ⟨allAlong_of_forall fun _ _ _ => trivial,
      Run.preserves (fun _ _ _ hop hI => h.ladder hop hI) (hcoids.via_converge hr) hs⟩).2

/-- An invariant of the wings that a new window satisfies holds in every state reached. -/
theorem WingInvariant.reached (h : WingInvariant p I) (hnew : ∀ st, IsNew p st → I st)
    {ok : V33State → Event → Prop} {evs : List Event} (hrun : Reached p ok evs st) : I st :=
  (hrun.preserves (I := fun st => CoidsOk st ∧ I st)
    (fun st hst => ⟨CoidsOk.new hst, hnew st hst⟩)
    fun _ ev hst _ => ⟨hst.1.decide ev, h.decide hst.1 hst.2 ev⟩).2

end Invariant

/-! ### Batches in order -/

/-- The index of the open group. -/
def openIndex (st : V33State) : List ℕ := (st.coalesceOpen.map CoalesceGroup.index).toList

/-- The indices of the open group and of the batches. -/
def batchIndices (st : V33State) : List ℕ := openIndex st ++ st.wingBatches.map WingBatch.index

/-- The fills that are or will be hedged. -/
def hedgedFills (st : V33State) : List RungFill :=
  (st.coalesceOpen.map CoalesceGroup.fills).getD [] ++ st.wingBatches.flatMap WingBatch.fills

/-- Counts at two decimals. -/
structure LegGrid (l : WingLeg) : Prop where
  count : OnGrid 100 l.count
  netted : OnGrid 100 l.netted

/-- Batches in order: different indices below the next one, legs that belong to a batch, and
lots at two decimals. -/
structure BatchesOk (st : V33State) : Prop where
  indices : (batchIndices st).Nodup
  below : ∀ i ∈ batchIndices st, i < st.nextBatchIndex
  owned : ∀ l ∈ st.wingLegs, l.batch ∈ st.wingBatches.map WingBatch.index
  fills : ∀ f ∈ st.restFills, OnGrid 100 f.count
  hedged : ∀ f ∈ hedgedFills st, OnGrid 100 f.count
  legs : ∀ l ∈ st.wingLegs, LegGrid l
  pairs : ∀ np ∈ st.nettedPairs, OnGrid 100 np.count

section Batches

variable {p : V33Params} {now : ℚ} {st st' : V33State}

/-- No two batches share an index. -/
theorem BatchesOk.batchIndex_nodup (h : BatchesOk st) :
    (st.wingBatches.map WingBatch.index).Nodup :=
  h.indices.sublist (List.sublist_append_right _ _)

/-- The size of a batch has two decimals. -/
theorem BatchesOk.totalCount_onGrid (h : BatchesOk st) {b : WingBatch} (hb : b ∈ st.wingBatches) :
    OnGrid 100 b.totalCount :=
  onGrid_sum fun c hc => by
    obtain ⟨f, hf, rfl⟩ := List.mem_map.mp hc
    exact h.hedged f (List.mem_append.mpr (Or.inr (List.mem_flatMap.mpr ⟨b, hb, hf⟩)))

/-- An update of a batch that keeps its index. -/
theorem map_index_replaceBatch {f : WingBatch → WingBatch} (hf : ∀ b, (f b).index = b.index)
    (batches : List WingBatch) (index : ℕ) :
    (replaceBatch batches index f).map WingBatch.index = batches.map WingBatch.index :=
  map_replaceFirst_of_eq (fun b _ => hf b) batches

/-- The fills of the batches after an update of one. -/
theorem mem_fills_replaceBatch {f : WingBatch → WingBatch} {batches : List WingBatch}
    {index : ℕ} {x : RungFill}
    (h : x ∈ (replaceBatch batches index f).flatMap WingBatch.fills) :
    x ∈ batches.flatMap WingBatch.fills ∨ ∃ b ∈ batches, x ∈ (f b).fills := by
  obtain ⟨b, hb, hx⟩ := List.mem_flatMap.mp h
  rcases mem_replaceFirst hb with hb | ⟨b', hb', -, rfl⟩
  · exact Or.inl (List.mem_flatMap.mpr ⟨b, hb, hx⟩)
  · exact Or.inr ⟨b', hb', hx⟩

/-- An update of a batch that keeps its index and adds at most fills at two decimals. -/
theorem BatchesOk.replaceBatch (h : BatchesOk st) {f : WingBatch → WingBatch} {index : ℕ}
    (hindex : ∀ b, (f b).index = b.index)
    (hfills : ∀ b ∈ st.wingBatches, ∀ x ∈ (f b).fills, x ∈ b.fills ∨ OnGrid 100 x.count)
    {rest : List RungFill} (hrest : ∀ x ∈ rest, OnGrid 100 x.count) {legs : List WingLeg}
    (hlegs : ∀ l ∈ legs, l.batch ∈ st.wingBatches.map WingBatch.index ∧ LegGrid l)
    (hbatches : st'.wingBatches = V33.replaceBatch st.wingBatches index f)
    (hopen : st'.coalesceOpen = st.coalesceOpen) (hnext : st'.nextBatchIndex = st.nextBatchIndex)
    (hfills' : st'.restFills = rest) (hlegs' : st'.wingLegs = legs)
    (hpairs : st'.nettedPairs = st.nettedPairs) : BatchesOk st' := by
  have hids : st'.wingBatches.map WingBatch.index = st.wingBatches.map WingBatch.index := by
    rw [hbatches, map_index_replaceBatch hindex]
  have hall : batchIndices st' = batchIndices st := by
    rw [batchIndices, batchIndices, openIndex, openIndex, hopen, hids]
  refine ⟨hall ▸ h.indices, ?_, ?_, ?_, fun x hx => ?_, ?_, ?_⟩
  · rw [hall, hnext]
    exact h.below
  · rw [hlegs', hids]
    exact fun l hl => (hlegs l hl).1
  · rw [hfills']
    exact hrest
  · rw [hedgedFills, hopen, hbatches, List.mem_append] at hx
    rcases hx with hx | hx
    · exact h.hedged x (List.mem_append.mpr (Or.inl hx))
    · rcases mem_fills_replaceBatch hx with hx | ⟨b, hb, hx⟩
      · exact h.hedged x (List.mem_append.mpr (Or.inr hx))
      · rcases hfills b hb x hx with hx | hx
        · exact h.hedged x (List.mem_append.mpr (Or.inr (List.mem_flatMap.mpr ⟨b, hb, hx⟩)))
        · exact hx
  · rw [hlegs']
    exact fun l hl => (hlegs l hl).2
  · rw [hpairs]
    exact h.pairs

/-- Legs after an update of each that keeps its batch. -/
theorem BatchesOk.relegs (h : BatchesOk st) {legs : List WingLeg} {pairs : List NettedPair}
    (hlegs : ∀ l ∈ legs, l.batch ∈ st.wingBatches.map WingBatch.index ∧ LegGrid l)
    (hpairs : ∀ np ∈ pairs, OnGrid 100 np.count) :
    BatchesOk { st with wingLegs := legs, nettedPairs := pairs } :=
  ⟨h.indices, h.below, fun l hl => (hlegs l hl).1, h.fills, h.hedged,
    fun l hl => (hlegs l hl).2, hpairs⟩

/-- A leg belongs to a batch and has lots at two decimals. -/
theorem BatchesOk.legsOwned (h : BatchesOk st) {l : WingLeg} (hl : l ∈ st.wingLegs) :
    l.batch ∈ st.wingBatches.map WingBatch.index ∧ LegGrid l := ⟨h.owned l hl, h.legs l hl⟩

/-- Closing the open group makes a batch with an index of its own. -/
theorem BatchesOk.flush (h : BatchesOk st) : BatchesOk (coalesceFlush p st now) := by
  unfold coalesceFlush
  split
  · exact h
  · next g hg =>
    split_ifs
    · have hperm : (batchIndices { st with
          wingBatches := st.wingBatches ++ [batchOfGroup g], coalesceOpen := none }).Perm
          (batchIndices st) := by
        simp only [batchIndices, openIndex, hg, Option.map_none, Option.toList_none,
          Option.map_some, Option.toList_some, List.nil_append, List.map_append, List.map_cons,
          List.map_nil, List.singleton_append]
        exact List.perm_append_singleton _ _
      refine ⟨hperm.nodup_iff.mpr h.indices, fun i hi => h.below i (hperm.subset hi),
        fun l hl => ?_, h.fills, fun x hx => h.hedged x ?_, h.legs, h.pairs⟩
      · rw [List.map_append]
        exact List.mem_append_left _ (h.owned l hl)
      · rw [hedgedFills, hg]
        simpa [hedgedFills, batchOfGroup, or_comm] using hx
    · exact h

/-- Adding a fill to the open group keeps the batches in order. -/
theorem BatchesOk.coalesceAdd (h : BatchesOk st) {rf : RungFill} (hrf : OnGrid 100 rf.count) :
    BatchesOk (coalesceAdd p st rf now) := by
  have hflush : BatchesOk (coalesceFlush p st now) := h.flush
  unfold V33.coalesceAdd
  dsimp only
  split
  · next hnone =>
    have hindices : (coalesceFlush p st now).wingBatches.map WingBatch.index =
        batchIndices (coalesceFlush p st now) := by
      simp [batchIndices, openIndex, hnone]
    refine ⟨?_, fun i hi => ?_, hflush.owned, hflush.fills, fun x hx => ?_, hflush.legs,
      hflush.pairs⟩
    · simp only [batchIndices, openIndex, Option.map_some, Option.toList_some,
        List.singleton_append, List.nodup_cons]
      rw [hindices]
      exact ⟨fun hmem => absurd (hflush.below _ hmem) (lt_irrefl _), hflush.indices⟩
    · simp only [batchIndices, openIndex, Option.map_some, Option.toList_some,
        List.singleton_append, List.mem_cons] at hi
      rcases hi with rfl | hi
      · exact Nat.lt_succ_self _
      · exact (hflush.below i (hindices ▸ hi)).trans (Nat.lt_succ_self _)
    · simp only [hedgedFills, Option.map_some, Option.getD_some, List.singleton_append,
        List.mem_cons] at hx
      rcases hx with rfl | hx
      · exact hrf
      · exact hflush.hedged x (List.mem_append.mpr (Or.inr hx))
  · next g hg =>
    have hindices : batchIndices { coalesceFlush p st now with
        coalesceOpen := some { g with fills := g.fills ++ [rf] } } =
        batchIndices (coalesceFlush p st now) := by
      simp [batchIndices, openIndex, hg]
    refine ⟨hindices ▸ hflush.indices, fun i hi => hflush.below i (hindices ▸ hi), hflush.owned,
      hflush.fills, fun x hx => ?_, hflush.legs, hflush.pairs⟩
    simp only [hedgedFills, Option.map_some, Option.getD_some, List.mem_append,
      List.mem_singleton] at hx
    rcases hx with (hx | rfl) | hx
    · exact hflush.hedged x (List.mem_append.mpr (Or.inl (by rw [hg]; exact hx)))
    · exact hrf
    · exact hflush.hedged x (List.mem_append.mpr (Or.inr hx))

/-- A leg sent with a quantized count is on the grid. -/
theorem legGrid_sentLeg (ticker : String) (side : Side) (count limit : ℚ) (coid : String)
    (batch : ℕ) : LegGrid (sentLeg ticker side (qCount count) limit coid batch) :=
  ⟨onGrid_qCount count, onGrid_zero 100⟩

/-- A leg deferred with a quantized count is on the grid. -/
theorem legGrid_deferredLeg (ticker : String) (side : Side) (count : ℚ) (batch : ℕ) :
    LegGrid (deferredLeg ticker side (qCount count) batch) :=
  ⟨onGrid_qCount count, onGrid_zero 100⟩

/-- A batch of the window takes new legs. -/
theorem BatchesOk.take (h : BatchesOk st) {b : WingBatch} (hb : batchOf st b.index = some b)
    (more : List WingLeg) (hmore : ∀ l ∈ more, l.batch = b.index ∧ LegGrid l)
    (hbatches : st'.wingBatches =
      V33.replaceBatch st.wingBatches b.index fun b => { b with taken := true })
    (hlegs : st'.wingLegs = st.wingLegs ++ more) (hopen : st'.coalesceOpen = st.coalesceOpen)
    (hnext : st'.nextBatchIndex = st.nextBatchIndex) (hfills : st'.restFills = st.restFills)
    (hpairs : st'.nettedPairs = st.nettedPairs) : BatchesOk st' := by
  have hmem : b.index ∈ st.wingBatches.map WingBatch.index :=
    List.mem_map_of_mem (List.mem_of_find?_eq_some hb)
  refine h.replaceBatch (f := fun b => { b with taken := true }) (fun _ => rfl)
    (fun _ _ _ hx => Or.inl hx) h.fills (fun l hl => ?_) hbatches hopen hnext hfills hlegs hpairs
  rcases List.mem_append.mp hl with hl | hl
  · exact h.legsOwned hl
  · exact ⟨by rw [(hmore l hl).1]; exact hmem, (hmore l hl).2⟩

/-- A retry keeps the batch and the lots of every leg. -/
theorem retryLegs_lots (index : ℕ) (ya na : ℚ) (legs : List WingLeg) (s : V33State) :
    ∀ l ∈ (retryLegs p index ya na now legs s).1,
      ∃ l' ∈ legs, l.batch = l'.batch ∧ l.count = l'.count ∧ l.netted = l'.netted := by
  induction legs generalizing s with
  | nil => simp [retryLegs]
  | cons leg legs ih =>
    unfold retryLegs
    split_ifs
    · intro l hl
      rcases List.mem_cons.mp hl with rfl | hl
      · exact ⟨leg, by simp, rfl, rfl, rfl⟩
      · obtain ⟨l', hl', heq⟩ := ih _ l hl
        exact ⟨l', by simp [hl'], heq⟩
    · intro l hl
      rcases List.mem_cons.mp hl with rfl | hl
      · exact ⟨l, by simp, rfl, rfl, rfl⟩
      · obtain ⟨l', hl', heq⟩ := ih _ l hl
        exact ⟨l', by simp [hl'], heq⟩

/-- A change of flags that keeps the hedge keeps the batches in order. -/
theorem BatchesOk.flag (h : BatchesOk st) (index : ℕ) {f : WingBatch → WingBatch}
    (hf : KeepsHedge f) (sets : ℚ) :
    BatchesOk { st with
      wingBatches := V33.replaceBatch st.wingBatches index f
      setsDone := sets } :=
  h.replaceBatch (f := f) hf.index (fun b _ x hx => Or.inl (by rwa [hf.fills] at hx)) h.fills
    (fun _ hl => h.legsOwned hl) rfl rfl rfl rfl rfl rfl

/-- A take keeps the batches in order. -/
theorem BatchesOk.takeBatch (h : BatchesOk st) {b : WingBatch} (hb : batchOf st b.index = some b)
    (sd su : ℤ) (ya na : ℚ) : BatchesOk (takeBatch p st b sd su ya na).st := by
  refine h.take hb [_, _] ?_ rfl rfl rfl rfl rfl rfl
  simp only [List.forall_mem_cons]
  exact ⟨⟨rfl, legGrid_sentLeg _ _ _ _ _ _⟩, ⟨rfl, legGrid_sentLeg _ _ _ _ _ _⟩, by simp⟩

/-- A partial take keeps the batches in order. -/
theorem BatchesOk.takeBatchPartial (h : BatchesOk st) {b : WingBatch}
    (hb : batchOf st b.index = some b) (sd su : ℤ) :
    BatchesOk (takeBatchPartial p st b sd su now).st := by
  unfold V33.takeBatchPartial
  dsimp only
  split_ifs
  · split
    · refine h.take hb [_, _] ?_ rfl rfl rfl rfl rfl rfl
      simp only [List.forall_mem_cons]
      exact ⟨⟨rfl, legGrid_sentLeg _ _ _ _ _ _⟩, ⟨rfl, legGrid_deferredLeg _ _ _ _⟩, by simp⟩
    · refine h.take hb [_, _] ?_ rfl rfl rfl rfl rfl rfl
      simp only [List.forall_mem_cons]
      exact ⟨⟨rfl, legGrid_sentLeg _ _ _ _ _ _⟩, ⟨rfl, legGrid_deferredLeg _ _ _ _⟩, by simp⟩
    · exact h
  · exact h

/-- A retry keeps the batches in order. -/
theorem BatchesOk.retryBatch (h : BatchesOk st) (b : WingBatch) (ya na : ℚ) :
    BatchesOk (retryBatch p st b ya na now).st := by
  obtain ⟨n, hn, -⟩ := @retryLegs_st p now b.index ya na st.wingLegs st
  unfold V33.retryBatch
  dsimp only
  split_ifs
  · exact h
  · exact h
  · rw [hn]
    refine h.replaceBatch (f := fun x => { x with retries := b.retries +
        (retryLegs p b.index ya na now st.wingLegs st).2.acts.length }) (fun _ => rfl)
      (fun _ _ _ hx => Or.inl hx) h.fills (fun l hl => ?_) rfl rfl rfl rfl rfl rfl
    obtain ⟨l', hl', hbatch, hcount, hnetted⟩ := retryLegs_lots b.index ya na st.wingLegs st l hl
    have hgrid := h.legs l' hl'
    exact ⟨hbatch ▸ h.owned l' hl', hcount ▸ hgrid.count, hnetted ▸ hgrid.netted⟩

/-- Netting a pair keeps the batches in order. -/
theorem BatchesOk.netPair (h : BatchesOk st) (l m : WingLeg) (lPrice mPrice : ℚ) {q : ℚ}
    (hq : OnGrid 100 q) : BatchesOk (netPair st l m lPrice mPrice q now).st := by
  refine h.relegs (fun x hx => ?_) fun np hnp => ?_
  · obtain ⟨y, hy, rfl⟩ := List.mem_map.mp hx
    split_ifs
    · exact ⟨h.owned y hy, (h.legs y hy).count, onGrid_qCount _⟩
    · exact h.legsOwned hy
  · rcases List.mem_append.mp hnp with hnp | hnp
    · exact h.pairs np hnp
    · rw [List.mem_singleton] at hnp
      subst hnp
      exact hq

/-- A fired trigger adds its batch in order. -/
theorem BatchesOk.fire (h : BatchesOk st) (sd : ℤ) (cands : List RestOrder)
    (ya na yesPrint : ℚ) : BatchesOk (ptFire p st sd cands ya na yesPrint now).st := by
  have hindices : batchIndices (ptFire p st sd cands ya na yesPrint now).st =
      batchIndices st ++ [st.nextBatchIndex] := by
    simp [batchIndices, openIndex, ptFire, syncWingMirrors, mintCoid]
  refine ⟨?_, fun i hi => ?_, fun l hl => ?_, h.fills, fun x hx => h.hedged x ?_, fun l hl => ?_,
    h.pairs⟩
  · rw [hindices, List.nodup_append]
    refine ⟨h.indices, List.nodup_singleton _, fun i hi j hj heq => ?_⟩
    rw [List.mem_singleton] at hj
    exact absurd (h.below i hi) (by omega)
  · rw [hindices, List.mem_append, List.mem_singleton] at hi
    rcases hi with hi | rfl
    · exact (h.below i hi).trans (Nat.lt_succ_self _)
    · exact Nat.lt_succ_self _
  · change l.batch ∈ (st.wingBatches ++ [_]).map WingBatch.index
    rw [List.map_append]
    rcases List.mem_append.mp hl with hl | hl
    · exact List.mem_append_left _ (h.owned l hl)
    · simp only [List.mem_cons, List.not_mem_nil, or_false] at hl
      rcases hl with rfl | rfl
      · exact List.mem_append_right _ (by simp [sentLeg])
      · exact List.mem_append_right _ (by simp [sentLeg])
  · simpa [hedgedFills, ptFire, syncWingMirrors, mintCoid] using hx
  · rcases List.mem_append.mp hl with hl | hl
    · exact h.legs l hl
    · simp only [List.mem_cons, List.not_mem_nil, or_false] at hl
      rcases hl with rfl | rfl
      · exact legGrid_sentLeg _ _ _ _ _ _
      · exact legGrid_sentLeg _ _ _ _ _ _

/-- Shrinking the legs to the size of their batch keeps the batches in order. -/
theorem BatchesOk.shrink (h : BatchesOk st) {b : WingBatch} (hb : b ∈ st.wingBatches) :
    BatchesOk { st with wingLegs := shrinkLegs b.index b.totalCount st.wingLegs } := by
  refine h.relegs (fun x hx => ?_) h.pairs
  obtain ⟨y, hy, rfl⟩ := List.mem_map.mp hx
  split_ifs
  · exact ⟨h.owned y hy, h.totalCount_onGrid hb, (h.legs y hy).netted⟩
  · exact h.legsOwned hy

/-- Dropping the unhedged lots of a batch keeps the batches in order. -/
theorem BatchesOk.dropUnhedged (h : BatchesOk st) (idx : ℕ) (b : WingBatch)
    (f : PrintThroughTrigger → PrintThroughTrigger) : BatchesOk (dropUnhedged st idx b f) := by
  have hsub : (batchIndices (V33.dropUnhedged st idx b f)).Sublist (batchIndices st) :=
    (List.filter_sublist.map _).append_left _
  refine ⟨h.indices.sublist hsub, fun i hi => h.below i (hsub.subset hi), fun l hl => ?_, h.fills,
    fun x hx => h.hedged x ?_, fun l hl => h.legs l (List.mem_of_mem_filter hl), h.pairs⟩
  · obtain ⟨hl, hne⟩ := List.mem_filter.mp hl
    obtain ⟨c, hc, hci⟩ := List.mem_map.mp (h.owned l hl)
    refine List.mem_map.mpr ⟨c, List.mem_filter.mpr ⟨hc, ?_⟩, hci⟩
    rw [hci]
    exact hne
  · rcases List.mem_append.mp hx with hx | hx
    · exact List.mem_append_left _ hx
    · obtain ⟨c, hc, hx⟩ := List.mem_flatMap.mp hx
      exact List.mem_append_right _ (List.mem_flatMap.mpr ⟨c, List.mem_of_mem_filter hc, hx⟩)

/-- A fill at two decimals that is recorded and appended to a batch. -/
theorem BatchesOk.appendFill (h : BatchesOk st) (index : ℕ) {rf : RungFill}
    (hrf : OnGrid 100 rf.count) {rest : List RungFill} (hrest : ∀ x ∈ rest, OnGrid 100 x.count)
    (hbatches : st'.wingBatches =
      V33.replaceBatch st.wingBatches index fun b => { b with fills := b.fills ++ [rf] })
    (hopen : st'.coalesceOpen = st.coalesceOpen) (hnext : st'.nextBatchIndex = st.nextBatchIndex)
    (hfills : st'.restFills = rest) (hlegs : st'.wingLegs = st.wingLegs)
    (hpairs : st'.nettedPairs = st.nettedPairs) : BatchesOk st' := by
  refine h.replaceBatch (f := fun b => { b with fills := b.fills ++ [rf] }) (fun _ => rfl)
    (fun b _ x hx => ?_) hrest (fun l hl => h.legsOwned hl) hbatches hopen hnext hfills hlegs hpairs
  rcases List.mem_append.mp hx with hx | hx
  · exact Or.inl hx
  · rw [List.mem_singleton] at hx
    subst hx
    exact Or.inr hrf

/-- The fill of the taker leg keeps the batches in order. -/
theorem BatchesOk.takerFill (h : BatchesOk st) (t : PrintThroughTrigger) (price count : ℚ) :
    BatchesOk (ptBookTakerComplete p st t price count now) := by
  unfold ptBookTakerComplete
  dsimp only
  split_ifs
  · exact h
  · split
    · exact h
    · next b _ =>
      have hrf : OnGrid 100 (V33.takerFill p st b price (qCount count) now).count :=
        onGrid_qCount count
      exact h.appendFill b.index hrf (List.forall_mem_append.mpr ⟨h.fills, by simpa using hrf⟩)
        rfl rfl rfl rfl rfl rfl

/-- Counting a completed set keeps the batches in order. -/
theorem BatchesOk.closeSet (h : BatchesOk st) (index : ℕ) : BatchesOk (maybeCloseSet st index) := by
  have hkeep : KeepsHedge fun b : WingBatch =>
      { b with completed := true, oneLegged := false, resolved := true } :=
    ⟨fun _ => rfl, fun _ => rfl, fun _ => rfl, fun _ => rfl, fun _ => rfl⟩
  have hkeep' : KeepsHedge fun b : WingBatch => { b with completed := true, oneLegged := false } :=
    ⟨fun _ => rfl, fun _ => rfl, fun _ => rfl, fun _ => rfl, fun _ => rfl⟩
  unfold maybeCloseSet
  split
  · exact ⟨h.indices, h.below, h.owned, h.fills, h.hedged, h.legs, h.pairs⟩
  · next b hb =>
    have hset := h.flag index hkeep (st.setsDone + b.takenCount)
    have hset' := h.flag index hkeep' (st.setsDone + b.totalCount)
    split_ifs
    · exact ⟨h.indices, h.below, h.owned, h.fills, h.hedged, h.legs, h.pairs⟩
    · exact ⟨h.indices, h.below, h.owned, h.fills, h.hedged, h.legs, h.pairs⟩
    · exact ⟨hset.indices, hset.below, hset.owned, hset.fills, hset.hedged, hset.legs, hset.pairs⟩
    · exact ⟨hset'.indices, hset'.below, hset'.owned, hset'.fills, hset'.hedged, hset'.legs,
        hset'.pairs⟩

/-- A batch shrunk to its fills. -/
theorem BatchesOk.resize (h : BatchesOk st) {b : WingBatch} (hb : b ∈ st.wingBatches) (idx : ℕ)
    (f : PrintThroughTrigger → PrintThroughTrigger) :
    BatchesOk (replacePt (resizeBatch st b.index b.totalCount) idx f) := by
  have hshrunk := (h.shrink hb).flag b.index (f := fun x => { x with takenCount := b.totalCount })
    ⟨fun _ => rfl, fun _ => rfl, fun _ => rfl, fun _ => rfl, fun _ => rfl⟩ st.setsDone
  exact ⟨hshrunk.indices, hshrunk.below, hshrunk.owned, hshrunk.fills, hshrunk.hedged,
    hshrunk.legs, hshrunk.pairs⟩

/-- Unwinding a trigger keeps the batches in order. -/
theorem BatchesOk.unwind (h : BatchesOk st) (idx : ℕ) (t : PrintThroughTrigger) {b : WingBatch}
    (resolution : Resolution) (hb : b ∈ st.wingBatches) :
    BatchesOk (ptUnwind st idx t b now resolution).st := by
  unfold ptUnwind
  dsimp only
  split_ifs
  · exact (h.resize hb idx _).closeSet b.index
  · exact h.dropUnhedged idx b _

/-- What leaves the wings alone and records fills at two decimals. -/
theorem BatchesOk.frame (h : BatchesOk st) (hwings : st'.toWings = st.toWings)
    (hfills : ∀ f ∈ st'.restFills, OnGrid 100 f.count) : BatchesOk st' := by
  have hbatches : st'.wingBatches = st.wingBatches := congrArg Wings.wingBatches hwings
  have hopen : st'.coalesceOpen = st.coalesceOpen := congrArg Wings.coalesceOpen hwings
  have hnext : st'.nextBatchIndex = st.nextBatchIndex := congrArg Wings.nextBatchIndex hwings
  have hlegs : st'.wingLegs = st.wingLegs := congrArg Wings.wingLegs hwings
  have hpairs : st'.nettedPairs = st.nettedPairs := congrArg Wings.nettedPairs hwings
  refine ⟨?_, ?_, ?_, hfills, ?_, ?_, ?_⟩
  · rw [batchIndices, openIndex, hopen, hbatches]
    exact h.indices
  · rw [batchIndices, openIndex, hopen, hbatches, hnext]
    exact h.below
  · rw [hlegs, hbatches]
    exact h.owned
  · rw [hedgedFills, hopen, hbatches]
    exact h.hedged
  · rw [hlegs]
    exact h.legs
  · rw [hpairs]
    exact h.pairs

/-- Each operation on the wings keeps the batches in order. -/
theorem BatchesOk.wing (h : BatchesOk st) {acts : List V33Action}
    (hop : WingOp p now st acts st') : BatchesOk st' := by
  cases hop with
  | flush => exact h.flush
  | mirror | settle => exact ⟨h.indices, h.below, h.owned, h.fills, h.hedged, h.legs, h.pairs⟩
  | flag index f sets keeps => exact h.flag index keeps sets
  | take b sd ya na hb => exact h.takeBatch hb _ _ _ _
  | takePartial b sd hb => exact h.takeBatchPartial hb _ _
  | retry b sd ya na => exact h.retryBatch b ya na
  | net l m lPrice mPrice q grid => exact h.netPair l m lPrice mPrice grid
  | fire => exact h.fire _ _ _ _ _
  | unwind idx t t' b resolution ht hres hb =>
    exact h.unwind idx t resolution (List.mem_of_find?_eq_some hb)
  | complete idx t t' b shortfall noAsk lockPer =>
    cases hs : st.shakedown with
    | true =>
      obtain ⟨x, hx, -⟩ := latchIfDone_eq p
        (bookedCompletion p st idx t b shortfall noAsk lockPer now)
      rw [ptComplete_of_shakedown _ _ _ _ _ _ hs, hx]
      have hbooked := @BatchesOk.takerFill p now st h t noAsk shortfall
      have hreplaced : BatchesOk (replacePt (ptBookTakerComplete p st t noAsk shortfall now) idx
          (completedTrigger shortfall noAsk lockPer now t.completeCoid)) :=
        ⟨hbooked.indices, hbooked.below, hbooked.owned, hbooked.fills, hbooked.hedged,
          hbooked.legs, hbooked.pairs⟩
      have hclosed := hreplaced.closeSet b.index
      exact ⟨hclosed.indices, hclosed.below, hclosed.owned, hclosed.fills, hclosed.hedged,
        hclosed.legs, hclosed.pairs⟩
    | false =>
      rw [ptComplete_of_armed _ _ _ _ _ _ hs]
      exact ⟨h.indices, h.below, h.owned, h.fills, h.hedged, h.legs, h.pairs⟩
  | short idx t' b short roundtrip ht hb => exact h.resize (List.mem_of_find?_eq_some hb) _ _
  | takerFill t price count _ => exact h.takerFill t price count

/-- A recorded fill handed to the wings: to the batch that pre-hedged it or to the group. -/
theorem BatchesOk.hedgeFill (h : BatchesOk st) (coid : String) {rf : RungFill}
    (hrf : OnGrid 100 rf.count) : BatchesOk (hedgeFill p st coid rf now) := by
  unfold V33.hedgeFill
  split
  · next t _ =>
    have hattached : BatchesOk { st with
        wingBatches := V33.replaceBatch st.wingBatches t.batchIndex fun b =>
          { b with fills := b.fills ++ [rf] }
        printThroughTriggers := replaceFirst (fun t => !t.resolved && t.rungCoids.contains coid)
          (fun t => { t with filledCoids := t.filledCoids ++ [coid] })
          st.printThroughTriggers } :=
      h.appendFill t.batchIndex hrf h.fills rfl rfl rfl rfl rfl rfl
    exact hattached.closeSet t.batchIndex
  · exact h.coalesceAdd hrf

/-- A booked report keeps the batches in order. -/
theorem BatchesOk.book (h : BatchesOk st) (r : FillReport) :
    BatchesOk (bookedState p st r now) := by
  have hrf : OnGrid 100 (rungFillOf p st r now).count := onGrid_qCount _
  have hrecorded : BatchesOk (recordFill p st r now) :=
    h.frame rfl (List.forall_mem_append.mpr ⟨h.fills, by simpa using hrf⟩)
  unfold bookedState
  split
  · exact hrecorded
  · exact hrecorded.hedgeFill r.coid hrf

/-- An answered leg keeps its batch and its lots. -/
theorem BatchesOk.answered (h : BatchesOk st) (coid : String) {f : WingLeg → WingLeg}
    (hf : AnswersLeg f) :
    BatchesOk { st with
      wingLegs := replaceFirst (fun l => l.clientOrderId == coid) f st.wingLegs } := by
  refine h.relegs (fun x hx => ?_) h.pairs
  rcases mem_replaceFirst hx with hx | ⟨y, hy, -, rfl⟩
  · exact h.legsOwned hx
  · rw [hf.batch]
    exact ⟨h.owned y hy, by rw [hf.count]; exact (h.legs y hy).count,
      by rw [hf.netted]; exact (h.legs y hy).netted⟩

/-- The order of the batches is an invariant of the wings. -/
theorem batchesOk_invariant (p : V33Params) : WingInvariant p BatchesOk where
  frame h hwings hfills := h.frame hwings (hfills ▸ h.fills)
  wing hop h := h.wing hop
  book r _ h := h.book r
  legs coid _ hf h := h.answered coid hf

/-- A new window has no batches. -/
theorem BatchesOk.new (h : IsNew p st) : BatchesOk st := by
  obtain ⟨_, _, _, _, _, _, rfl⟩ := h
  constructor <;> simp [V33State.new, batchIndices, openIndex, hedgedFills]

/-- The batches of every state reached are in order. -/
theorem BatchesOk.reached {ok : V33State → Event → Prop} {evs : List Event}
    (hrun : Reached p ok evs st) : BatchesOk st :=
  (batchesOk_invariant p).reached (fun _ hst => BatchesOk.new hst) hrun

end Batches

end Pilot.V33
