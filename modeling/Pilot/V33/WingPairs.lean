import Pilot.V33.Batches

/-!
# The pair of legs of a batch

A batch that was taken has one leg on each side, one that was not has none. A filled leg has a
price, and the fills of a regular batch name its bucket.
-/

namespace Pilot.V33

/-- Two legs, one on each side. -/
def Paired (legs : List WingLeg) : Prop := ∃ l m, legs = [l, m] ∧ l.side ≠ m.side

/-- A leg goes on: it stays in its batch and on its side, and has a price if it is filled. -/
structure LegGoesOn (l l' : WingLeg) : Prop where
  batch : l'.batch = l.batch
  side : l'.side = l.side
  priced : (l.status = .filled → l.fillPrice.isSome) → l'.status = .filled → l'.fillPrice.isSome

/-- A batch goes on: its index and its kind stay, and so does the bucket its fills name. -/
structure BatchGoesOn (b b' : WingBatch) : Prop where
  index : b'.index = b.index
  taken : b'.taken = b.taken
  printThrough : b'.printThrough = b.printThrough
  bucket : (fillsBucket b.fills).isSome → (fillsBucket b'.fills).isSome

/-- The legs of the batches are in pairs. -/
structure PairsOk (st : V33State) : Prop where
  paired : ∀ b ∈ st.wingBatches, b.taken = true → Paired (batchLegs st b.index)
  untaken : ∀ b ∈ st.wingBatches, b.taken = false → batchLegs st b.index = []
  priced : ∀ l ∈ st.wingLegs, l.status = .filled → l.fillPrice.isSome
  bucketed : ∀ b ∈ st.wingBatches, b.printThrough = false → (fillsBucket b.fills).isSome
  grouped : ∀ g ∈ st.coalesceOpen, (fillsBucket g.fills).isSome

section Pairs

variable {p : V33Params} {now : ℚ} {st st' : V33State} {acts : List V33Action}

/-- A leg goes on as it is. -/
theorem LegGoesOn.refl (l : WingLeg) : LegGoesOn l l := ⟨rfl, rfl, id⟩

/-- A batch goes on as it is. -/
theorem BatchGoesOn.refl (b : WingBatch) : BatchGoesOn b b := ⟨rfl, rfl, rfl, id⟩

/-- Legs go on as they are. -/
theorem legsGoOn_refl (legs : List WingLeg) : List.Forall₂ LegGoesOn legs legs :=
  List.forall₂_same.mpr fun l _ => LegGoesOn.refl l

/-- The legs of a batch after every leg went on. -/
theorem forall₂_batchLegs {R : WingLeg → WingLeg → Prop} (hR : ∀ l l', R l l' → l'.batch = l.batch)
    (h : List.Forall₂ R st.wingLegs st'.wingLegs) (index : ℕ) :
    List.Forall₂ R (batchLegs st index) (batchLegs st' index) := by
  refine List.rel_filter (fun l l' hl => ?_) h
  simp only [decide_eq_true_eq]
  rw [hR l l' hl]

/-- Paired legs stay paired as they go on. -/
theorem Paired.goOn {legs legs' : List WingLeg} (h : Paired legs)
    (hlegs : List.Forall₂ LegGoesOn legs legs') : Paired legs' := by
  obtain ⟨l, m, rfl, hne⟩ := h
  rcases hlegs with _ | ⟨hl, _ | ⟨hm, ⟨⟩⟩⟩
  exact ⟨_, _, rfl, by rwa [hl.side, hm.side]⟩

/-- The legs and the batches go on. -/
theorem PairsOk.keep (h : PairsOk st)
    (hlegs : List.Forall₂ LegGoesOn st.wingLegs st'.wingLegs)
    (hbatches : ∀ b' ∈ st'.wingBatches, ∃ b ∈ st.wingBatches, BatchGoesOn b b')
    (hopen : st'.coalesceOpen = st.coalesceOpen) : PairsOk st' := by
  have hbatch (k : ℕ) : List.Forall₂ LegGoesOn (batchLegs st k) (batchLegs st' k) :=
    forall₂_batchLegs (fun _ _ hl => hl.batch) hlegs k
  refine ⟨fun b' hb' htaken => ?_, fun b' hb' htaken => ?_, fun l' hl' => ?_,
    fun b' hb' hregular => ?_, ?_⟩
  · obtain ⟨b, hb, hgo⟩ := hbatches b' hb'
    rw [hgo.taken] at htaken
    rw [hgo.index]
    exact (h.paired b hb htaken).goOn (hbatch b.index)
  · obtain ⟨b, hb, hgo⟩ := hbatches b' hb'
    rw [hgo.taken] at htaken
    have hnone := hbatch b.index
    rw [h.untaken b hb htaken] at hnone
    rw [hgo.index]
    exact List.forall₂_nil_left_iff.mp hnone
  · obtain ⟨l, hl, hgo⟩ := exists_of_forall₂ hlegs hl'
    exact hgo.priced (h.priced l hl)
  · obtain ⟨b, hb, hgo⟩ := hbatches b' hb'
    rw [hgo.printThrough] at hregular
    exact hgo.bucket (h.bucketed b hb hregular)
  · rw [hopen]
    exact h.grouped

/-- Every batch goes on as itself. -/
theorem goOn_batches (batches : List WingBatch) :
    ∀ b' ∈ batches, ∃ b ∈ batches, BatchGoesOn b b' := fun b hb => ⟨b, hb, BatchGoesOn.refl b⟩

/-- One batch is updated. -/
theorem goOn_replaceBatch {f : WingBatch → WingBatch} (hf : ∀ b, BatchGoesOn b (f b))
    (batches : List WingBatch) (index : ℕ) :
    ∀ b' ∈ replaceBatch batches index f, ∃ b ∈ batches, BatchGoesOn b b' := by
  intro b' hb'
  rcases mem_replaceFirst hb' with hb' | ⟨b, hb, -, rfl⟩
  · exact ⟨b', hb', BatchGoesOn.refl b'⟩
  · exact ⟨b, hb, hf b⟩

/-- A batch goes on through a change that keeps its hedge. -/
theorem KeepsHedge.goesOn {f : WingBatch → WingBatch} (h : KeepsHedge f) (b : WingBatch) :
    BatchGoesOn b (f b) :=
  ⟨h.index b, h.taken b, h.printThrough b, by rw [h.fills]; exact id⟩

/-- A fill appended to a batch. -/
theorem goesOn_appendFill (rf : RungFill) (b : WingBatch) :
    BatchGoesOn b { b with fills := b.fills ++ [rf] } := by
  refine ⟨rfl, rfl, rfl, fun h => ?_⟩
  obtain ⟨sd, hsd⟩ := Option.isSome_iff_exists.mp h
  unfold fillsBucket at hsd ⊢
  rw [List.findSome?_append, hsd]
  rfl

/-- The pairs are a matter of the wings alone. -/
theorem PairsOk.frame (h : PairsOk st) (hwings : st'.toWings = st.toWings) : PairsOk st' := by
  have hlegs : st'.wingLegs = st.wingLegs := congrArg Wings.wingLegs hwings
  have hbatches : st'.wingBatches = st.wingBatches := congrArg Wings.wingBatches hwings
  refine h.keep ?_ ?_ (congrArg Wings.coalesceOpen hwings)
  · rw [hlegs]
    exact legsGoOn_refl _
  · rw [hbatches]
    exact goOn_batches _

/-- Counting a completed set keeps the pairs. -/
theorem PairsOk.closeSet (h : PairsOk st) (index : ℕ) : PairsOk (maybeCloseSet st index) := by
  have hcompleted (b : WingBatch) :
      BatchGoesOn b { b with completed := true, oneLegged := false, resolved := true } :=
    ⟨rfl, rfl, rfl, id⟩
  have hcompleted' (b : WingBatch) :
      BatchGoesOn b { b with completed := true, oneLegged := false } :=
    ⟨rfl, rfl, rfl, id⟩
  unfold maybeCloseSet
  split
  · exact h.keep (legsGoOn_refl _) (goOn_batches _) rfl
  · split_ifs
    · exact h.keep (legsGoOn_refl _) (goOn_batches _) rfl
    · exact h.keep (legsGoOn_refl _) (goOn_batches _) rfl
    · exact h.keep (legsGoOn_refl _) (goOn_replaceBatch hcompleted _ index) rfl
    · exact h.keep (legsGoOn_refl _) (goOn_replaceBatch hcompleted' _ index) rfl

/-- The group that closes had no legs. -/
theorem PairsOk.flush (h : PairsOk st) (hbatches : BatchesOk st) :
    PairsOk (coalesceFlush p st now) := by
  unfold coalesceFlush
  split
  · exact h
  · next g hg =>
    split_ifs
    · have hnone : batchLegs st g.index = [] := by
        refine List.filter_eq_nil_iff.mpr fun l hl => ?_
        rw [decide_eq_true_eq]
        intro heq
        have hnodup := hbatches.indices
        rw [batchIndices, openIndex, hg, Option.map_some, Option.toList_some,
          List.singleton_append, List.nodup_cons] at hnodup
        exact hnodup.1 (heq ▸ hbatches.owned l hl)
      have hgroup := h.grouped g hg
      refine ⟨fun b hb htaken => ?_, fun b hb htaken => ?_, h.priced, fun b hb hregular => ?_,
        fun _ hnew => by simp at hnew⟩
      · rcases List.mem_append.mp hb with hb | hb
        · exact h.paired b hb htaken
        · rw [List.mem_singleton.mp hb] at htaken
          simp [batchOfGroup] at htaken
      · rcases List.mem_append.mp hb with hb | hb
        · exact h.untaken b hb htaken
        · rw [List.mem_singleton.mp hb]
          exact hnone
      · rcases List.mem_append.mp hb with hb | hb
        · exact h.bucketed b hb hregular
        · rw [List.mem_singleton.mp hb]
          exact hgroup
    · exact h

/-- A fill on a known bucket joins the group. -/
theorem PairsOk.coalesceAdd (h : PairsOk st) (hbatches : BatchesOk st) {rf : RungFill}
    (hrf : rf.bucketSd.isSome) : PairsOk (coalesceAdd p st rf now) := by
  have hflush : PairsOk (coalesceFlush p st now) := h.flush hbatches
  unfold V33.coalesceAdd
  dsimp only
  split
  · refine ⟨hflush.paired, hflush.untaken, hflush.priced, hflush.bucketed, fun g hg => ?_⟩
    obtain rfl := Option.some.inj hg
    obtain ⟨sd, hsd⟩ := Option.isSome_iff_exists.mp hrf
    simp [fillsBucket, hsd]
  · next g hg =>
    refine ⟨hflush.paired, hflush.untaken, hflush.priced, hflush.bucketed, fun g' hg' => ?_⟩
    obtain rfl := Option.some.inj hg'
    obtain ⟨sd, hsd⟩ := Option.isSome_iff_exists.mp (hflush.grouped g hg)
    unfold fillsBucket at hsd ⊢
    rw [List.findSome?_append, hsd]
    rfl

/-- A batch after an update is another one, or the updated one. -/
theorem mem_replaceBatch (hbatches : BatchesOk st) {index : ℕ} {f : WingBatch → WingBatch}
    {b : WingBatch} (h : b ∈ replaceBatch st.wingBatches index f) :
    b ∈ st.wingBatches ∧ b.index ≠ index ∨ ∃ c ∈ st.wingBatches, c.index = index ∧ b = f c :=
  mem_replaceFirst_of_nodup (fun _ => beq_iff_eq) hbatches.batchIndex_nodup h

/-- The legs of a batch in two lists are those in each. -/
theorem batchLegs_append (legs more : List WingLeg) (index : ℕ) :
    (legs ++ more).filter (fun l => l.batch = index) =
      legs.filter (fun l => l.batch = index) ++ more.filter (fun l => l.batch = index) :=
  List.filter_append ..

/-- A batch that had no legs takes a pair. -/
theorem PairsOk.take (h : PairsOk st) (hbatches : BatchesOk st) {b : WingBatch}
    (hb : b ∈ st.wingBatches) (huntaken : b.taken = false) {l m : WingLeg}
    (hl : l.batch = b.index) (hm : m.batch = b.index) (hside : l.side ≠ m.side)
    (hlPriced : l.status ≠ .filled) (hmPriced : m.status ≠ .filled)
    (hbatches' : st'.wingBatches =
      replaceBatch st.wingBatches b.index fun b => { b with taken := true })
    (hlegs : st'.wingLegs = st.wingLegs ++ [l, m]) (hopen : st'.coalesceOpen = st.coalesceOpen) :
    PairsOk st' := by
  have hsame (k : ℕ) (hk : k ≠ b.index) : batchLegs st' k = batchLegs st k := by
    rw [batchLegs, hlegs, batchLegs_append]
    simp [hl, hm, hk.symm, batchLegs]
  have hpair : batchLegs st' b.index = [l, m] := by
    have hnone := h.untaken b hb huntaken
    rw [batchLegs] at hnone
    rw [batchLegs, hlegs, batchLegs_append, hnone]
    simp [hl, hm]
  refine ⟨fun x hx htaken => ?_, fun x hx htaken => ?_, fun x hx => ?_, fun x hx hregular => ?_, ?_⟩
  · rw [hbatches'] at hx
    rcases mem_replaceBatch hbatches hx with ⟨hx, hne⟩ | ⟨c, hc, hindex, rfl⟩
    · rw [hsame _ hne]
      exact h.paired x hx htaken
    · show Paired (batchLegs st' c.index)
      rw [hindex, hpair]
      exact ⟨l, m, rfl, hside⟩
  · rw [hbatches'] at hx
    rcases mem_replaceBatch hbatches hx with ⟨hx, hne⟩ | ⟨c, hc, hindex, rfl⟩
    · rw [hsame _ hne]
      exact h.untaken x hx htaken
    · cases htaken
  · rw [hlegs] at hx
    rcases List.mem_append.mp hx with hx | hx
    · exact h.priced x hx
    · simp only [List.mem_cons, List.not_mem_nil, or_false] at hx
      rcases hx with rfl | rfl
      · exact fun hfilled => absurd hfilled hlPriced
      · exact fun hfilled => absurd hfilled hmPriced
  · rw [hbatches'] at hx
    rcases mem_replaceFirst hx with hx | ⟨c, hc, -, rfl⟩
    · exact h.bucketed x hx hregular
    · exact h.bucketed c hc hregular
  · rw [hopen]
    exact h.grouped

/-- A partial take of an untaken batch makes its pair. -/
theorem PairsOk.takePartial (h : PairsOk st) (hbatches : BatchesOk st) {b : WingBatch}
    (hb : b ∈ st.wingBatches) (huntaken : b.taken = false) (sd su : ℤ) :
    PairsOk (takeBatchPartial p st b sd su now).st := by
  unfold takeBatchPartial
  dsimp only
  split_ifs
  · split
    · exact h.take hbatches hb huntaken rfl rfl (fun heq => by cases heq) (fun heq => by cases heq)
        (fun heq => by cases heq) rfl rfl rfl
    · exact h.take hbatches hb huntaken rfl rfl (fun heq => by cases heq) (fun heq => by cases heq)
        (fun heq => by cases heq) rfl rfl rfl
    · exact h
  · exact h

/-- A leg that is sent again stays in its batch and is not filled. -/
theorem goOn_retryLegs (index : ℕ) (ya na : ℚ) (legs : List WingLeg) (s : V33State) :
    List.Forall₂ LegGoesOn legs (retryLegs p index ya na now legs s).1 := by
  induction legs generalizing s with
  | nil => exact List.Forall₂.nil
  | cons leg legs ih =>
    unfold retryLegs
    split_ifs
    · exact List.Forall₂.cons ⟨rfl, rfl, fun _ hfilled => by cases hfilled⟩ (ih _)
    · exact List.Forall₂.cons (LegGoesOn.refl leg) (ih _)

/-- A retry keeps the pairs. -/
theorem PairsOk.retry (h : PairsOk st) (b : WingBatch) (ya na : ℚ) :
    PairsOk (retryBatch p st b ya na now).st := by
  unfold retryBatch
  dsimp only
  split_ifs
  · exact h
  · exact h
  · obtain ⟨n, hn, -⟩ := @retryLegs_st p now b.index ya na st.wingLegs st
    rw [hn]
    refine h.keep (goOn_retryLegs b.index ya na st.wingLegs st) ?_ rfl
    exact goOn_replaceBatch (f := fun x => { x with retries := b.retries +
      (retryLegs p b.index ya na now st.wingLegs st).2.acts.length })
      (fun _ => ⟨rfl, rfl, rfl, id⟩) st.wingBatches b.index

/-- Legs go on through a change under which each goes on. -/
theorem goOn_map {f : WingLeg → WingLeg} (hf : ∀ l, LegGoesOn l (f l)) (legs : List WingLeg) :
    List.Forall₂ LegGoesOn legs (legs.map f) := by
  rw [List.forall₂_map_right_iff]
  exact List.forall₂_same.mpr fun l _ => hf l

/-- Netting keeps the pairs. -/
theorem PairsOk.net (h : PairsOk st) (l m : WingLeg) (lPrice mPrice q : ℚ) :
    PairsOk (netPair st l m lPrice mPrice q now).st := by
  refine h.keep (goOn_map (fun x => ?_) _) (goOn_batches _) rfl
  split_ifs
  · exact ⟨rfl, rfl, id⟩
  · exact LegGoesOn.refl x

/-- A batch of a new index takes a pair. -/
theorem PairsOk.fire (h : PairsOk st) (hbatches : BatchesOk st) (sd : ℤ) (cands : List RestOrder)
    (ya na yesPrint : ℚ) : PairsOk (ptFire p st sd cands ya na yesPrint now).st := by
  have hbelow (b : WingBatch) (hb : b ∈ st.wingBatches) : b.index ≠ st.nextBatchIndex :=
    (hbatches.below b.index (List.mem_append_right _ (List.mem_map_of_mem hb))).ne
  have hfresh : batchLegs st st.nextBatchIndex = [] := by
    refine List.filter_eq_nil_iff.mpr fun l hl => ?_
    rw [decide_eq_true_eq]
    intro heq
    obtain ⟨b, hb, hindex⟩ := List.mem_map.mp (hbatches.owned l hl)
    exact hbelow b hb (hindex.trans heq)
  have hsame (k : ℕ) (hk : k ≠ st.nextBatchIndex) :
      batchLegs (ptFire p st sd cands ya na yesPrint now).st k = batchLegs st k := by
    change (st.wingLegs ++ [_, _]).filter _ = _
    rw [batchLegs_append]
    simp [sentLeg, hk.symm, batchLegs]
  refine ⟨fun b hb htaken => ?_, fun b hb htaken => ?_, fun l hl => ?_, fun b hb hregular => ?_,
    h.grouped⟩
  · rcases List.mem_append.mp hb with hb | hb
    · rw [hsame _ (hbelow b hb)]
      exact h.paired b hb htaken
    · rw [List.mem_singleton.mp hb]
      change Paired ((st.wingLegs ++ [_, _]).filter fun l => l.batch = st.nextBatchIndex)
      rw [batchLegs] at hfresh
      rw [batchLegs_append, hfresh]
      refine ⟨_, _, by simp [sentLeg]; exact ⟨rfl, rfl⟩, ?_⟩
      exact fun heq => by cases heq
  · rcases List.mem_append.mp hb with hb | hb
    · rw [hsame _ (hbelow b hb)]
      exact h.untaken b hb htaken
    · rw [List.mem_singleton.mp hb] at htaken
      cases htaken
  · rcases List.mem_append.mp hl with hl | hl
    · exact h.priced l hl
    · simp only [List.mem_cons, List.not_mem_nil, or_false] at hl
      rcases hl with rfl | rfl
      · exact fun hfilled => by cases hfilled
      · exact fun hfilled => by cases hfilled
  · rcases List.mem_append.mp hb with hb | hb
    · exact h.bucketed b hb hregular
    · rw [List.mem_singleton.mp hb] at hregular
      cases hregular

/-- A batch leaves with its legs. -/
theorem PairsOk.drop (h : PairsOk st) (idx : ℕ) (b : WingBatch)
    (f : PrintThroughTrigger → PrintThroughTrigger) : PairsOk (dropUnhedged st idx b f) := by
  have hsame (k : ℕ) (hk : k ≠ b.index) :
      batchLegs (dropUnhedged st idx b f) k = batchLegs st k := by
    change (st.wingLegs.filter _).filter _ = st.wingLegs.filter _
    rw [List.filter_filter]
    refine List.filter_congr fun l _ => ?_
    by_cases hl : l.batch = k <;> simp [hl, hk]
  have hstays (x : WingBatch) (hx : x ∈ (dropUnhedged st idx b f).wingBatches) :
      x ∈ st.wingBatches ∧ x.index ≠ b.index := by
    obtain ⟨hx, hne⟩ := List.mem_filter.mp hx
    exact ⟨hx, by simpa using hne⟩
  refine ⟨fun x hx htaken => ?_, fun x hx htaken => ?_, fun l hl => ?_, fun x hx => ?_, h.grouped⟩
  · rw [hsame _ (hstays x hx).2]
    exact h.paired x (hstays x hx).1 htaken
  · rw [hsame _ (hstays x hx).2]
    exact h.untaken x (hstays x hx).1 htaken
  · exact h.priced l (List.mem_of_mem_filter hl)
  · exact h.bucketed x (hstays x hx).1

/-- A batch and its filled legs shrink. -/
theorem PairsOk.resize (h : PairsOk st) (index : ℕ) (count : ℚ) (idx : ℕ)
    (f : PrintThroughTrigger → PrintThroughTrigger) :
    PairsOk (replacePt (resizeBatch st index count) idx f) := by
  refine h.keep (goOn_map (fun x => ?_) _) (goOn_replaceBatch
    (f := fun x => { x with takenCount := count }) (fun _ => ⟨rfl, rfl, rfl, id⟩) _ index) rfl
  split_ifs
  · exact ⟨rfl, rfl, id⟩
  · exact LegGoesOn.refl x

/-- The fill of a taker leg keeps the pairs. -/
theorem PairsOk.takerFill (h : PairsOk st) (t : PrintThroughTrigger) (price count : ℚ) :
    PairsOk (ptBookTakerComplete p st t price count now) := by
  unfold ptBookTakerComplete
  dsimp only
  split_ifs
  · exact h
  · split
    · exact h
    · exact h.keep (legsGoOn_refl _) (goOn_replaceBatch (fun b => goesOn_appendFill _ b) _ _) rfl

/-- Every wing operation keeps the pairs. -/
theorem PairsOk.wing (h : PairsOk st) (hbatches : BatchesOk st)
    (hop : WingOp p now st acts st') : PairsOk st' := by
  cases hop with
  | flush => exact h.flush hbatches
  | mirror | settle => exact h.keep (legsGoOn_refl _) (goOn_batches _) rfl
  | flag index f sets keeps =>
    exact h.keep (legsGoOn_refl _) (goOn_replaceBatch keeps.goesOn _ _) rfl
  | take b sd ya na hb huntaken =>
    exact h.take hbatches (List.mem_of_find?_eq_some hb) huntaken rfl rfl (fun heq => by cases heq)
      (fun heq => by cases heq) (fun heq => by cases heq) rfl rfl rfl
  | takePartial b sd hb huntaken =>
    exact h.takePartial hbatches (List.mem_of_find?_eq_some hb) huntaken _ _
  | retry b sd ya na => exact h.retry b ya na
  | net l m lPrice mPrice q => exact h.net l m lPrice mPrice q
  | fire => exact h.fire hbatches _ _ _ _ _
  | unwind idx t t' b resolution =>
    unfold ptUnwind
    dsimp only
    split_ifs
    · exact (h.resize b.index b.totalCount idx _).closeSet b.index
    · exact h.drop idx b _
  | complete idx t t' b shortfall noAsk lockPer =>
    cases hs : st.shakedown with
    | true =>
      have hbooked := @PairsOk.takerFill p now st h t noAsk shortfall
      have hresolved : PairsOk (replacePt (ptBookTakerComplete p st t noAsk shortfall now) idx
          (completedTrigger shortfall noAsk lockPer now t.completeCoid)) :=
        hbooked.keep (legsGoOn_refl _) (goOn_batches _) rfl
      obtain ⟨x, hx, -⟩ := latchIfDone_eq p
        (bookedCompletion p st idx t b shortfall noAsk lockPer now)
      rw [ptComplete_of_shakedown _ _ _ _ _ _ hs, hx]
      exact (hresolved.closeSet b.index).frame rfl
    | false =>
      rw [ptComplete_of_armed _ _ _ _ _ _ hs]
      exact h.keep (legsGoOn_refl _) (goOn_batches _) rfl
  | short idx t' b short => exact h.resize b.index b.totalCount idx _
  | takerFill t price count _ => exact h.takerFill t price count

/-- A fill recorded and handed to the wings. -/
theorem PairsOk.book (h : PairsOk st) (hbatches : BatchesOk st) (r : FillReport) :
    PairsOk (bookedState p st r now) := by
  have hrecorded : PairsOk (recordFill p st r now) := h.frame rfl
  have hrf : OnGrid 100 (rungFillOf p st r now).count := onGrid_qCount _
  have hrecordedBatches : BatchesOk (recordFill p st r now) :=
    hbatches.frame rfl (List.forall_mem_append.mpr ⟨hbatches.fills, by simpa using hrf⟩)
  unfold bookedState
  split
  · exact hrecorded
  · next sd hsd =>
    unfold hedgeFill
    split
    · next t _ =>
      refine PairsOk.closeSet ?_ t.batchIndex
      exact hrecorded.keep (legsGoOn_refl _)
        (goOn_replaceBatch (fun b => goesOn_appendFill (rungFillOf p st r now) b) _ _) rfl
    · exact hrecorded.coalesceAdd hrecordedBatches (by rw [hsd]; rfl)

/-- The answer of a leg keeps the pairs. -/
theorem PairsOk.answered (h : PairsOk st) (coid : String) {f : WingLeg → WingLeg}
    (hf : AnswersLeg f) :
    PairsOk { st with
      wingLegs := replaceFirst (fun l => l.clientOrderId == coid) f st.wingLegs } := by
  refine h.keep ?_ (goOn_batches _) rfl
  exact forall₂_replaceFirst LegGoesOn.refl
    (fun l _ => ⟨hf.batch l, hf.side l, fun _ => hf.priced l⟩) _

/-- The batches and their pairs are in order. -/
theorem pairsOk_invariant (p : V33Params) :
    WingInvariant p fun st => BatchesOk st ∧ PairsOk st where
  frame h hwings hfills := ⟨(batchesOk_invariant p).frame h.1 hwings hfills, h.2.frame hwings⟩
  wing hop h := ⟨h.1.wing hop, h.2.wing h.1 hop⟩
  book r _ h := ⟨h.1.book r, h.2.book h.1 r⟩
  legs coid _ hf h := ⟨h.1.answered coid hf, h.2.answered coid hf⟩

/-- A new window has no pairs. -/
theorem PairsOk.new (h : IsNew p st) : PairsOk st := by
  obtain ⟨_, _, _, _, _, _, rfl⟩ := h
  constructor <;> simp [V33State.new]

/-- The legs of every state reached are in pairs. -/
theorem PairsOk.reached {ok : V33State → Event → Prop} {evs : List Event}
    (hrun : Reached p ok evs st) : BatchesOk st ∧ PairsOk st :=
  (pairsOk_invariant p).reached (fun _ hst => ⟨BatchesOk.new hst, PairsOk.new hst⟩) hrun

end Pairs

end Pilot.V33
