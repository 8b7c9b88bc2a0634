import Pilot.V33.Triggers

/-!
# Every fill has one hedge

A maker fill on a known bucket is in the open group or in one batch, and once. A pre-emptive
batch that its trigger gives up takes the fills attached to it along, and these are the only
ones without a hedge.
-/

namespace Pilot.V33

/-- The maker fills on a known bucket. -/
def makerFills (fills : List RungFill) : List RungFill :=
  fills.filter fun f => !f.taker && f.bucketSd.isSome

/-- A fill of a rung whose trigger is resolved and whose batch was dropped. -/
def DroppedFill (st : V33State) (f : RungFill) : Prop :=
  ∃ t ∈ st.printThroughTriggers, t.resolved = true ∧
    t.batchIndex ∉ st.wingBatches.map WingBatch.index ∧ ∃ coid ∈ t.filledCoids, f.coid = some coid

/-- The maker fills are those of the open group and of the batches, and the dropped ones. -/
def Covered (st : V33State) : Prop :=
  ∃ lost, (makerFills st.restFills).Perm (makerFills (hedgedFills st) ++ lost) ∧
    ∀ f ∈ lost, DroppedFill st f

/-- Every maker fill on a known bucket is in the open group or in one batch, and once. -/
def HedgedOnce (st : V33State) : Prop :=
  (makerFills st.restFills).Perm (makerFills (hedgedFills st))

/-- A trigger goes on and forgets no rung that filled. -/
structure KeepsRungs (t t' : PrintThroughTrigger) : Prop where
  batchIndex : t'.batchIndex = t.batchIndex
  filledCoids : t.filledCoids ⊆ t'.filledCoids
  resolved : t.resolved = true → t'.resolved = true

/-- The fills are covered, a trigger that is not resolved has its batch, and the fills of its
batch are of rungs it knows to have filled. -/
structure CoverOk (st : V33State) : Prop where
  covered : Covered st
  live : ∀ t ∈ st.printThroughTriggers, t.resolved = false →
    t.batchIndex ∈ st.wingBatches.map WingBatch.index
  attached : ∀ t ∈ st.printThroughTriggers, ∀ b ∈ st.wingBatches, b.index = t.batchIndex →
    ∀ f ∈ makerFills b.fills, ∃ coid ∈ t.filledCoids, f.coid = some coid

section Cover

variable {p : V33Params} {now : ℚ} {st st' : V33State} {acts : List V33Action}

/-! ### Maker fills -/

/-- The maker fills of two lists are those of each. -/
theorem makerFills_append (a b : List RungFill) :
    makerFills (a ++ b) = makerFills a ++ makerFills b := List.filter_append ..

/-- The maker fills of the batches are those of each. -/
theorem makerFills_flatMap (batches : List WingBatch) :
    makerFills (batches.flatMap WingBatch.fills) =
      batches.flatMap fun b => makerFills b.fills := by
  unfold makerFills
  rw [List.filter_flatMap]

/-- A taker fill adds no maker fill. -/
theorem makerFills_taker {f : RungFill} (h : f.taker = true) (fills : List RungFill) :
    makerFills (fills ++ [f]) = makerFills fills := by
  rw [makerFills_append]
  simp [makerFills, h]

/-- What a batch hedges of the maker fills. -/
def hedgeOf (b : WingBatch) : ℕ × List RungFill := (b.index, makerFills b.fills)

/-- Batches with the same hedges have the same indices. -/
theorem map_index_hedgeOf {batches batches' : List WingBatch}
    (h : batches'.map hedgeOf = batches.map hedgeOf) :
    batches'.map WingBatch.index = batches.map WingBatch.index := by
  have hfst := congrArg (List.map Prod.fst) h
  simpa [List.map_map, hedgeOf, Function.comp_def] using hfst

/-- The maker fills that are hedged. -/
theorem makerFills_hedged (st : V33State) : makerFills (hedgedFills st) =
    makerFills ((st.coalesceOpen.map CoalesceGroup.fills).getD []) ++
      (st.wingBatches.map hedgeOf).flatMap Prod.snd := by
  rw [hedgedFills, makerFills_append, makerFills_flatMap, List.flatMap_map]
  rfl

/-- An update of one batch that hedges the same. -/
theorem map_hedgeOf_replaceBatch {f : WingBatch → WingBatch} (hf : ∀ b, hedgeOf (f b) = hedgeOf b)
    (batches : List WingBatch) (index : ℕ) :
    (replaceBatch batches index f).map hedgeOf = batches.map hedgeOf :=
  map_replaceFirst_of_eq (fun b _ => hf b) batches

/-! ### Triggers -/

/-- A trigger keeps its rungs. -/
theorem KeepsRungs.refl (t : PrintThroughTrigger) : KeepsRungs t t :=
  ⟨rfl, List.Subset.refl _, id⟩

/-- A step of a trigger keeps its rungs. -/
theorem TriggerStep.keepsRungs {t t' : PrintThroughTrigger} (h : TriggerStep t t') :
    KeepsRungs t t' :=
  ⟨h.batchIndex, by rw [h.filledCoids]; exact List.Subset.refl _, fun hres => (h.resolved hres).1⟩

/-- Triggers keep their rungs. -/
theorem keepsRungs_refl (ts : List PrintThroughTrigger) : List.Forall₂ KeepsRungs ts ts :=
  List.forall₂_same.mpr fun t _ => KeepsRungs.refl t

/-- An update of the trigger at a position. -/
theorem keepsRungs_modify (ts : List PrintThroughTrigger) (idx : ℕ)
    (f : PrintThroughTrigger → PrintThroughTrigger) (h : ∀ t, KeepsRungs t (f t)) :
    List.Forall₂ KeepsRungs ts (ts.modify idx f) :=
  forall₂_modify KeepsRungs.refl _ _ fun t _ => h t

/-- A dropped fill stays dropped while no batch takes the index of a trigger. -/
theorem DroppedFill.keep {f : RungFill} (h : DroppedFill st f)
    (htriggers : List.Forall₂ KeepsRungs st.printThroughTriggers st'.printThroughTriggers)
    (hindices : ∀ t ∈ st.printThroughTriggers, t.batchIndex ∈ st'.wingBatches.map WingBatch.index →
      t.batchIndex ∈ st.wingBatches.map WingBatch.index) : DroppedFill st' f := by
  obtain ⟨t, ht, hres, hgone, coid, hcoid, hf⟩ := h
  obtain ⟨t', ht', hkept⟩ := exists_of_forall₂ (List.Forall₂.flip htriggers) ht
  refine ⟨t', ht', hkept.resolved hres, ?_, coid, hkept.filledCoids hcoid, hf⟩
  rw [hkept.batchIndex]
  exact fun hmem => hgone (hindices t ht hmem)

/-! ### Operations -/

/-- The cover stays while the triggers go on and the group and the batches hedge the same. -/
theorem CoverOk.keep (h : CoverOk st)
    (htriggers : List.Forall₂ KeepsRungs st.printThroughTriggers st'.printThroughTriggers)
    (hbatches : st'.wingBatches.map hedgeOf = st.wingBatches.map hedgeOf)
    (hopen : st'.coalesceOpen = st.coalesceOpen)
    (hfills : makerFills st'.restFills = makerFills st.restFills) : CoverOk st' := by
  have hindices := map_index_hedgeOf hbatches
  refine ⟨?_, fun t' ht' hres => ?_, fun t' ht' b' hb' hindex f hf => ?_⟩
  · obtain ⟨lost, hperm, hlost⟩ := h.covered
    refine ⟨lost, ?_, fun f hf => (hlost f hf).keep htriggers fun t _ hmem => ?_⟩
    · rw [hfills, makerFills_hedged, hopen, hbatches, ← makerFills_hedged]
      exact hperm
    · rwa [hindices] at hmem
  · obtain ⟨t, ht, hkept⟩ := exists_of_forall₂ htriggers ht'
    rw [hindices, hkept.batchIndex]
    apply h.live t ht
    cases ht : t.resolved with
    | false => rfl
    | true =>
      rw [hkept.resolved ht] at hres
      cases hres
  · obtain ⟨t, ht, hkept⟩ := exists_of_forall₂ htriggers ht'
    have hmem : hedgeOf b' ∈ st.wingBatches.map hedgeOf := hbatches ▸ List.mem_map_of_mem hb'
    obtain ⟨b, hb, heq⟩ := List.mem_map.mp hmem
    obtain ⟨hi, hm⟩ := Prod.mk.inj heq
    obtain ⟨coid, hcoid, hfc⟩ := h.attached t ht b hb
      (hi.trans (hindex.trans hkept.batchIndex)) f (by rwa [hm])
    exact ⟨coid, hkept.filledCoids hcoid, hfc⟩

/-- What leaves the wings and the fills alone leaves the cover. -/
theorem CoverOk.frame (h : CoverOk st) (hwings : st'.toWings = st.toWings)
    (hfills : st'.restFills = st.restFills) : CoverOk st' := by
  refine h.keep ?_ ?_ (congrArg Wings.coalesceOpen hwings) (by rw [hfills])
  · rw [congrArg Wings.printThroughTriggers hwings]
    exact keepsRungs_refl _
  · rw [congrArg Wings.wingBatches hwings]

/-- Only the batches and the triggers change, and hedge the same. -/
theorem CoverOk.update (h : CoverOk st) {f : WingBatch → WingBatch} {i : ℕ}
    (hf : ∀ b, hedgeOf (f b) = hedgeOf b)
    (htriggers : List.Forall₂ KeepsRungs st.printThroughTriggers st'.printThroughTriggers)
    (hbatches : st'.wingBatches = replaceBatch st.wingBatches i f)
    (hopen : st'.coalesceOpen = st.coalesceOpen) (hfills : st'.restFills = st.restFills) :
    CoverOk st' :=
  h.keep htriggers (by rw [hbatches]; exact map_hedgeOf_replaceBatch hf _ _) hopen (by rw [hfills])

/-- A resolution that is marked. -/
theorem keepsRungs_markResolution (index : ℕ) (resolution : Resolution) (at_ : Option ℚ) :
    List.Forall₂ KeepsRungs st.printThroughTriggers
      (ptMarkResolution st index resolution at_).printThroughTriggers := by
  unfold ptMarkResolution
  apply forall₂_replaceFirst KeepsRungs.refl
  intro t _
  exact ⟨rfl, List.Subset.refl _, fun _ => rfl⟩

/-- Counting a completed set keeps the cover. -/
theorem CoverOk.closeSet (h : CoverOk st) (index : ℕ) : CoverOk (maybeCloseSet st index) := by
  unfold maybeCloseSet
  split
  · exact h.keep (keepsRungs_refl _) rfl rfl rfl
  · split_ifs
    · exact h.keep (keepsRungs_refl _) rfl rfl rfl
    · exact h.keep (keepsRungs_refl _) rfl rfl rfl
    · exact h.update (i := index)
        (f := fun b => { b with completed := true, oneLegged := false, resolved := true })
        (fun _ => rfl) (keepsRungs_markResolution index .filled none) rfl rfl rfl
    · exact h.update (i := index)
        (f := fun b => { b with completed := true, oneLegged := false })
        (fun _ => rfl) (keepsRungs_refl _) rfl rfl rfl

/-- The group that closes becomes a batch of its own index, with its fills. -/
theorem CoverOk.flush (h : CoverOk st) (htriggers : TriggersOk st) :
    CoverOk (coalesceFlush p st now) := by
  unfold coalesceFlush
  split
  · exact h
  · next g hg =>
    split_ifs
    · have hother : ∀ t ∈ st.printThroughTriggers, t.batchIndex ≠ g.index := by
        intro t ht heq
        apply htriggers.apart t.batchIndex (List.mem_map_of_mem ht)
        simp [openIndex, hg, heq]
      have hmem : ∀ t ∈ st.printThroughTriggers,
          t.batchIndex ∈ (st.wingBatches ++ [batchOfGroup g]).map WingBatch.index →
            t.batchIndex ∈ st.wingBatches.map WingBatch.index := by
        intro t ht hi
        rw [List.map_append, List.mem_append] at hi
        rcases hi with hi | hi
        · exact hi
        · exact absurd (List.mem_singleton.mp hi) (hother t ht)
      refine ⟨?_, fun t ht hres => ?_, fun t ht b hb hindex => ?_⟩
      · obtain ⟨lost, hperm, hlost⟩ := h.covered
        refine ⟨lost, hperm.trans (List.Perm.append_right lost ?_),
          fun f hf => (hlost f hf).keep (keepsRungs_refl _) hmem⟩
        apply List.Perm.filter
        simp only [hedgedFills, hg, Option.map_some, Option.getD_some, Option.map_none,
          Option.getD_none, List.nil_append, List.flatMap_append, List.flatMap_cons,
          List.flatMap_nil, List.append_nil, batchOfGroup]
        exact List.perm_append_comm
      · rw [List.map_append]
        exact List.mem_append_left _ (h.live t ht hres)
      · rcases List.mem_append.mp hb with hb | hb
        · exact h.attached t ht b hb hindex
        · rw [List.mem_singleton.mp hb] at hindex
          exact absurd hindex.symm (hother t ht)
    · exact h

/-- A trigger that fires takes a batch without fills, under an index of its own. -/
theorem CoverOk.fire (h : CoverOk st) (htriggers : TriggersOk st) (hbatches : BatchesOk st)
    (sd : ℤ) (cands : List RestOrder) (ya na yesPrint : ℚ) :
    CoverOk (ptFire p st sd cands ya na yesPrint now).st := by
  have hnew : ∀ t ∈ st.printThroughTriggers, t.batchIndex ≠ st.nextBatchIndex := fun t ht =>
    (htriggers.below _ (List.mem_map_of_mem ht)).ne
  have hold : ∀ b ∈ st.wingBatches, b.index ≠ st.nextBatchIndex := fun b hb =>
    (hbatches.below _ (List.mem_append_right _ (List.mem_map_of_mem hb))).ne
  refine ⟨?_, fun t ht hres => ?_, fun t ht b hb hindex => ?_⟩
  · obtain ⟨lost, hperm, hlost⟩ := h.covered
    refine ⟨lost, ?_, fun f hf => ?_⟩
    · have hsame : hedgedFills (ptFire p st sd cands ya na yesPrint now).st = hedgedFills st := by
        simp [hedgedFills, ptFire, syncWingMirrors, mintCoid]
      rw [hsame]
      exact hperm
    · obtain ⟨t, ht, hres, hgone, hcoid⟩ := hlost f hf
      refine ⟨t, List.mem_append_left _ ht, hres, ?_, hcoid⟩
      change t.batchIndex ∉ (st.wingBatches ++ [_]).map WingBatch.index
      rw [List.map_append, List.mem_append, not_or]
      exact ⟨hgone, fun hi => hnew t ht (List.mem_singleton.mp hi)⟩
  · change t.batchIndex ∈ (st.wingBatches ++ [_]).map WingBatch.index
    rw [List.map_append, List.mem_append]
    rcases List.mem_append.mp ht with ht | ht
    · exact Or.inl (h.live t ht hres)
    · rw [List.mem_singleton.mp ht]
      exact Or.inr (List.mem_singleton_self _)
  · rcases List.mem_append.mp hb with hb | hb
    · rcases List.mem_append.mp ht with ht | ht
      · exact h.attached t ht b hb hindex
      · rw [List.mem_singleton.mp ht] at hindex
        exact absurd hindex (hold b hb)
    · rw [List.mem_singleton.mp hb]
      simp [makerFills]

/-- A taker's lots are no maker fill. -/
theorem CoverOk.takerFill (h : CoverOk st) (t : PrintThroughTrigger) (price count : ℚ) :
    CoverOk (ptBookTakerComplete p st t price count now) := by
  unfold ptBookTakerComplete
  dsimp only
  split_ifs
  · exact h
  · split
    · exact h
    · next b _ =>
      refine h.keep (keepsRungs_refl _) ?_ rfl (makerFills_taker rfl _)
      apply map_hedgeOf_replaceBatch
      intro x
      show (x.index, makerFills (x.fills ++ [V33.takerFill p st b price (qCount count) now])) = _
      rw [makerFills_taker rfl]
      rfl

/-- A batch and its filled legs shrink. -/
theorem CoverOk.resize (h : CoverOk st) (index : ℕ) (count : ℚ) (idx : ℕ)
    (f : PrintThroughTrigger → PrintThroughTrigger) (hf : ∀ t, KeepsRungs t (f t)) :
    CoverOk (replacePt (resizeBatch st index count) idx f) :=
  h.update (i := index) (f := fun x => { x with takenCount := count }) (fun _ => rfl)
    (keepsRungs_modify _ _ _ hf) rfl rfl rfl

/-- The trigger of an index is the one at its position. -/
theorem TriggersOk.position (h : TriggersOk st) {i j : ℕ} {t u : PrintThroughTrigger}
    (ht : st.printThroughTriggers[i]? = some t) (hu : st.printThroughTriggers[j]? = some u)
    (hsame : u.batchIndex = t.batchIndex) : j = i := by
  obtain ⟨hi, hti⟩ := List.getElem?_eq_some_iff.mp ht
  obtain ⟨hj, huj⟩ := List.getElem?_eq_some_iff.mp hu
  refine (@List.Nodup.getElem_inj_iff _ _ h.nodup j (by simpa) i (by simpa)).mp ?_
  rw [List.getElem_map, List.getElem_map, hti, huj, hsame]

/-- A batch that leaves takes its maker fills along: they are dropped fills of its trigger. -/
theorem CoverOk.drop (h : CoverOk st) (hbatches : BatchesOk st) (htriggers : TriggersOk st)
    {idx : ℕ} {t : PrintThroughTrigger} {b : WingBatch}
    (ht : st.printThroughTriggers[idx]? = some t) (hb : batchOf st t.batchIndex = some b)
    {f : PrintThroughTrigger → PrintThroughTrigger} (hf : ∀ t, KeepsRungs t (f t))
    (hres : ∀ t, (f t).resolved = true) : CoverOk (dropUnhedged st idx b f) := by
  have hindex : b.index = t.batchIndex := batchOf_index hb
  have hmem : b ∈ st.wingBatches := List.mem_of_find?_eq_some hb
  have hkept := keepsRungs_modify st.printThroughTriggers idx f hf
  have hstays : ∀ i, i ∈ (st.wingBatches.filter fun x => x.index ≠ b.index).map WingBatch.index →
      i ∈ st.wingBatches.map WingBatch.index ∧ i ≠ b.index := by
    intro i hi
    obtain ⟨x, hx, rfl⟩ := List.mem_map.mp hi
    obtain ⟨hx, hne⟩ := List.mem_filter.mp hx
    exact ⟨List.mem_map_of_mem hx, by simpa using hne⟩
  refine ⟨?_, fun u hu hopen => ?_, fun u hu x hx hi g hg => ?_⟩
  · obtain ⟨lost, hperm, hlost⟩ := h.covered
    refine ⟨makerFills b.fills ++ lost, hperm.trans ?_, ?_⟩
    · have hsplit := perm_cons_filter hmem hbatches.batchIndex_nodup
      have hfills : (makerFills (hedgedFills st)).Perm
          (makerFills (hedgedFills (dropUnhedged st idx b f)) ++ makerFills b.fills) := by
        rw [← makerFills_append]
        apply List.Perm.filter
        show (_ ++ st.wingBatches.flatMap WingBatch.fills).Perm (_ ++ _ ++ b.fills)
        rw [List.append_assoc]
        apply List.Perm.append_left
        exact (hsplit.flatMap_right _).trans List.perm_append_comm
      rw [← List.append_assoc]
      exact hfills.append_right lost
    · intro g hg
      rcases List.mem_append.mp hg with hg | hg
      · obtain ⟨coid, hcoid, hgc⟩ := h.attached t (List.mem_of_getElem? ht) b hmem hindex g hg
        refine ⟨f t, List.mem_of_getElem? (getElem?_replacePt ht), hres t, ?_, coid,
          (hf t).filledCoids hcoid, hgc⟩
        rw [(hf t).batchIndex]
        exact fun hi => (hstays _ hi).2 hindex.symm
      · exact (hlost g hg).keep hkept fun u _ hi => (hstays _ hi).1
  · obtain ⟨j, hj⟩ := List.mem_iff_getElem?.mp hu
    change (st.printThroughTriggers.modify idx f)[j]? = some u at hj
    rw [List.getElem?_modify, Option.map_eq_map, Option.map_eq_some_iff] at hj
    obtain ⟨v, hv, rfl⟩ := hj
    by_cases hidx : idx = j
    · rw [if_pos hidx, hres v] at hopen
      cases hopen
    · rw [if_neg hidx] at hopen ⊢
      have hne : v.batchIndex ≠ b.index := fun heq =>
        hidx (htriggers.position ht hv (heq.trans hindex)).symm
      obtain ⟨x, hx, hxi⟩ := List.mem_map.mp (h.live v (List.mem_of_getElem? hv) hopen)
      refine List.mem_map.mpr ⟨x, List.mem_filter.mpr ⟨hx, ?_⟩, hxi⟩
      rw [hxi]
      simpa using hne
  · obtain ⟨u', hu', hku⟩ := exists_of_forall₂ hkept hu
    obtain ⟨coid, hcoid, hgc⟩ := h.attached u' hu' x (List.mem_of_mem_filter hx)
      (hi.trans hku.batchIndex) g hg
    exact ⟨coid, hku.filledCoids hcoid, hgc⟩

/-- Every wing operation leaves the cover. -/
theorem CoverOk.wing (h : CoverOk st) (hbatches : BatchesOk st) (htriggers : TriggersOk st)
    (hop : WingOp p now st acts st') : CoverOk st' := by
  cases hop with
  | flush => exact h.flush htriggers
  | mirror => exact h.keep (keepsRungs_refl _) rfl rfl rfl
  | settle ts steps => exact h.keep (steps.imp fun _ _ hs => hs.keepsRungs) rfl rfl rfl
  | flag index f sets keeps =>
    refine h.update (f := f) (i := index) (fun b => ?_) (keepsRungs_refl _) rfl rfl rfl
    rw [hedgeOf, keeps.index, keeps.fills]
    rfl
  | take b sd ya na =>
    exact h.update (i := b.index) (f := fun b => { b with taken := true }) (fun _ => rfl)
      (keepsRungs_refl _) rfl rfl rfl
  | takePartial b sd =>
    have htaken : ∀ x : List WingLeg, ∀ n, CoverOk { st with
        coidSeq := n
        wingLegs := x
        wingBatches := replaceBatch st.wingBatches b.index fun b => { b with taken := true } } :=
      fun _ _ => h.update (i := b.index) (f := fun b => { b with taken := true }) (fun _ => rfl)
        (keepsRungs_refl _) rfl rfl rfl
    unfold takeBatchPartial
    dsimp only
    split_ifs
    · split
      · exact htaken _ _
      · exact htaken _ _
      · exact h
    · exact h
  | retry b sd ya na =>
    unfold retryBatch
    dsimp only
    split_ifs
    · exact h
    · exact h
    · obtain ⟨n, hn, -⟩ := @retryLegs_st p now b.index ya na st.wingLegs st
      rw [hn]
      exact h.update (i := b.index)
        (f := fun x => { x with retries := b.retries +
          (retryLegs p b.index ya na now st.wingLegs st).2.acts.length })
        (fun _ => rfl) (keepsRungs_refl _) rfl rfl rfl
  | net l m =>
    unfold netPair
    cases l.side <;> exact h.keep (keepsRungs_refl _) rfl rfl rfl
  | fire sd ya na yesPrint => exact h.fire htriggers hbatches sd _ ya na yesPrint
  | unwind idx t t' b resolution ht hres hb =>
    unfold ptUnwind
    dsimp only
    split_ifs
    · apply CoverOk.closeSet
      exact h.resize b.index b.totalCount idx _ fun _ => ⟨rfl, List.Subset.refl _, fun _ => rfl⟩
    · exact h.drop hbatches htriggers ht hb (fun _ => ⟨rfl, List.Subset.refl _, fun _ => rfl⟩)
        fun _ => rfl
  | complete idx t t' b shortfall noAsk lockPer =>
    have hkept (c : Option String) (u : PrintThroughTrigger) :
        KeepsRungs u (completedTrigger shortfall noAsk lockPer now c u) :=
      ⟨rfl, List.Subset.refl _, fun _ => rfl⟩
    cases hs : st.shakedown with
    | true =>
      have hbooked := @CoverOk.takerFill p now st h t noAsk shortfall
      have hresolved : CoverOk (replacePt (ptBookTakerComplete p st t noAsk shortfall now) idx
          (completedTrigger shortfall noAsk lockPer now t.completeCoid)) :=
        hbooked.keep (keepsRungs_modify _ _ _ (hkept t.completeCoid)) rfl rfl rfl
      obtain ⟨x, hx, -⟩ := latchIfDone_eq p
        (bookedCompletion p st idx t b shortfall noAsk lockPer now)
      rw [ptComplete_of_shakedown _ _ _ _ _ _ hs, hx]
      exact (hresolved.closeSet b.index).frame rfl rfl
    | false =>
      rw [ptComplete_of_armed _ _ _ _ _ _ hs]
      exact h.keep (keepsRungs_modify _ _ _ (hkept _)) rfl rfl rfl
  | short idx t' b short roundtrip =>
    exact h.resize b.index b.totalCount idx _ fun _ => ⟨rfl, List.Subset.refl _, id⟩
  | takerFill t price count _ => exact h.takerFill t price count

/-! ### Bookings -/

/-- A fill on a known bucket is a maker fill. -/
theorem makerFills_booked (fills : List RungFill) {r : FillReport} {sd : ℤ}
    (hsd : (rungFillOf p st r now).bucketSd = some sd) :
    makerFills (fills ++ [rungFillOf p st r now]) =
      makerFills fills ++ [rungFillOf p st r now] := by
  have htaker : (rungFillOf p st r now).taker = false := rfl
  rw [makerFills_append]
  simp [makerFills, htaker, hsd]

/-- A maker fill that joins the group is covered by it. -/
theorem CoverOk.add (h : CoverOk st) {rf : RungFill}
    (hmaker : ∀ fills, makerFills (fills ++ [rf]) = makerFills fills ++ [rf])
    (hgroup : (st'.coalesceOpen.map CoalesceGroup.fills).getD [] =
      (st.coalesceOpen.map CoalesceGroup.fills).getD [] ++ [rf])
    (hbatches : st'.wingBatches = st.wingBatches)
    (htriggers : st'.printThroughTriggers = st.printThroughTriggers)
    (hfills : st'.restFills = st.restFills ++ [rf]) : CoverOk st' := by
  refine ⟨?_, ?_, ?_⟩
  · obtain ⟨lost, hperm, hlost⟩ := h.covered
    refine ⟨lost, ?_, fun f hf => (hlost f hf).keep ?_ fun t _ hi => ?_⟩
    · rw [hfills, hmaker, makerFills_hedged, hgroup, hmaker, hbatches]
      rw [makerFills_hedged] at hperm
      refine (hperm.append_right [rf]).trans ?_
      rw [List.append_assoc, List.append_assoc, List.append_assoc, List.append_assoc]
      apply List.Perm.append_left
      rw [← List.append_assoc]
      exact List.perm_append_comm
    · rw [htriggers]
      exact keepsRungs_refl _
    · rwa [hbatches] at hi
  · rw [htriggers, hbatches]
    exact h.live
  · rw [htriggers, hbatches]
    exact h.attached

/-- A maker fill of a rung that a trigger pre-hedged is covered by its batch. -/
theorem CoverOk.attach (h : CoverOk st) (hok : BatchesOk st) (hts : TriggersOk st) {rf : RungFill}
    {coid : String} {t : PrintThroughTrigger} (ht : ptTriggerForCoid st coid = some t)
    (hcoid : rf.coid = some coid)
    (hmaker : ∀ fills, makerFills (fills ++ [rf]) = makerFills fills ++ [rf])
    (hbatches : st'.wingBatches = replaceBatch st.wingBatches t.batchIndex fun b =>
      { b with fills := b.fills ++ [rf] })
    (htriggers : st'.printThroughTriggers =
      replaceFirst (fun t => !t.resolved && t.rungCoids.contains coid)
        (fun t => { t with filledCoids := t.filledCoids ++ [coid] }) st.printThroughTriggers)
    (hopen : st'.coalesceOpen = st.coalesceOpen)
    (hfills : st'.restFills = st.restFills ++ [rf]) : CoverOk st' := by
  have hmem : t ∈ st.printThroughTriggers := List.mem_of_find?_eq_some ht
  have hunresolved : t.resolved = false := by
    have hfound := List.find?_some ht
    simp only [Bool.and_eq_true, Bool.not_eq_true'] at hfound
    exact hfound.1
  have hkept : List.Forall₂ KeepsRungs st.printThroughTriggers st'.printThroughTriggers := by
    rw [htriggers]
    apply forall₂_replaceFirst KeepsRungs.refl
    intro u _
    exact ⟨rfl, List.subset_append_left _ _, id⟩
  have hindices : st'.wingBatches.map WingBatch.index = st.wingBatches.map WingBatch.index := by
    rw [hbatches]
    apply map_index_replaceBatch
    exact fun _ => rfl
  refine ⟨?_, fun u hu hres => ?_, fun u hu b hb hindex f hf => ?_⟩
  · obtain ⟨lost, hperm, hlost⟩ := h.covered
    refine ⟨lost, ?_, fun f hf => (hlost f hf).keep hkept fun u _ hi => by rwa [hindices] at hi⟩
    obtain ⟨c, hc, hci⟩ := List.mem_map.mp (h.live t hmem hunresolved)
    have hbatch : batchOf st t.batchIndex = some c := by
      rw [← hci]
      exact find?_of_nodup hok.batchIndex_nodup hc
    obtain ⟨front, back, hsplit, hreplaced, -⟩ := replaceFirst_split
      (f := fun b : WingBatch => { b with fills := b.fills ++ [rf] }) hbatch
    have hhedged : (makerFills (hedgedFills st')).Perm (makerFills (hedgedFills st) ++ [rf]) := by
      rw [← hmaker]
      apply List.Perm.filter
      rw [hedgedFills, hedgedFills, hopen, hbatches, replaceBatch, hreplaced, hsplit]
      simp only [List.flatMap_append, List.flatMap_cons, List.append_assoc]
      apply List.Perm.append_left
      apply List.Perm.append_left
      apply List.Perm.append_left
      exact List.perm_append_comm
    rw [hfills, hmaker]
    refine (hperm.append_right [rf]).trans ?_
    refine List.Perm.trans ?_ (hhedged.symm.append_right lost)
    rw [List.append_assoc, List.append_assoc]
    apply List.Perm.append_left
    exact List.perm_append_comm
  · obtain ⟨u', hu', hku⟩ := exists_of_forall₂ hkept hu
    rw [hindices, hku.batchIndex]
    apply h.live u' hu'
    cases hres' : u'.resolved with
    | false => rfl
    | true =>
      rw [hku.resolved hres'] at hres
      cases hres
  · obtain ⟨u', hu', hku⟩ := exists_of_forall₂ hkept hu
    rw [hbatches] at hb
    have hold (c : WingBatch) (hc : c ∈ st.wingBatches) (hci : c.index = u.batchIndex)
        (hf : f ∈ makerFills c.fills) : ∃ coid ∈ u.filledCoids, f.coid = some coid := by
      obtain ⟨d, hd, hfd⟩ := h.attached u' hu' c hc (hci.trans hku.batchIndex) f hf
      exact ⟨d, hku.filledCoids hd, hfd⟩
    rcases mem_replaceFirst_of_nodup (fun _ => beq_iff_eq) hok.batchIndex_nodup hb with
      ⟨hb, -⟩ | ⟨c, hc, hci, rfl⟩
    · exact hold b hb hindex hf
    · rw [hmaker] at hf
      rcases List.mem_append.mp hf with hf | hf
      · exact hold c hc hindex hf
      · -- the trigger of the batch is the one that takes the fill
        rw [List.mem_singleton.mp hf]
        obtain ⟨front, back, hsplit, hreplaced, -⟩ := replaceFirst_split
          (f := fun t : PrintThroughTrigger => { t with filledCoids := t.filledCoids ++ [coid] }) ht
        have hmarked : { t with filledCoids := t.filledCoids ++ [coid] } ∈
            st'.printThroughTriggers := by
          rw [htriggers, hreplaced]
          simp
        have hnodup : (st'.printThroughTriggers.map PrintThroughTrigger.batchIndex).Nodup := by
          have hmap : st'.printThroughTriggers.map PrintThroughTrigger.batchIndex =
              st.printThroughTriggers.map PrintThroughTrigger.batchIndex := by
            rw [htriggers]
            apply map_replaceFirst_of_eq
            exact fun _ _ => rfl
          rw [hmap]
          exact hts.nodup
        have hsame : { t with filledCoids := t.filledCoids ++ [coid] } = u :=
          List.inj_on_of_nodup_map hnodup hmarked hu (hci.symm.trans hindex)
        rw [← hsame]
        exact ⟨coid, by simp, hcoid⟩

/-- The flush of a group reads the wings alone and leaves the fills. -/
theorem coalesceFlush_wings (h : st'.toWings = st.toWings) :
    (coalesceFlush p st' now).toWings = (coalesceFlush p st now).toWings ∧
      (coalesceFlush p st' now).restFills = st'.restFills := by
  unfold coalesceFlush
  rw [congrArg Wings.coalesceOpen h]
  split
  · exact ⟨h, rfl⟩
  · split_ifs
    · rw [h]
      exact ⟨rfl, rfl⟩
    · exact ⟨h, rfl⟩

/-- A fill recorded and handed to the wings stays covered. -/
theorem CoverOk.book (h : CoverOk st) (hbatches : BatchesOk st) (htriggers : TriggersOk st)
    (r : FillReport) : CoverOk (bookedState p st r now) := by
  unfold bookedState
  cases hsd : (rungFillOf p st r now).bucketSd with
  | none =>
    refine h.keep (keepsRungs_refl _) rfl rfl ?_
    show makerFills (st.restFills ++ [rungFillOf p st r now]) = _
    rw [makerFills_append]
    simp [makerFills, hsd]
  | some sd =>
    have hmaker (fills : List RungFill) := makerFills_booked fills hsd
    dsimp only
    unfold hedgeFill
    split
    · next t ht =>
      apply CoverOk.closeSet
      exact h.attach hbatches htriggers ht rfl hmaker rfl rfl rfl rfl
    · obtain ⟨hwings, hfills⟩ := @coalesceFlush_wings p now st (recordFill p st r now) rfl
      have hopen := congrArg Wings.coalesceOpen hwings
      have hsame := congrArg Wings.wingBatches hwings
      have hgo := congrArg Wings.printThroughTriggers hwings
      have hflush : CoverOk (coalesceFlush p st now) := h.flush htriggers
      have hrest : (coalesceFlush p (recordFill p st r now) now).restFills =
          (coalesceFlush p st now).restFills ++ [rungFillOf p st r now] := by
        rw [hfills, (@coalesceFlush_wings p now st st rfl).2]
        rfl
      unfold coalesceAdd
      dsimp only
      split
      · next hnone =>
        refine hflush.add hmaker ?_ hsame hgo hrest
        rw [← hopen, hnone]
        rfl
      · next g hg =>
        refine hflush.add hmaker ?_ hsame hgo hrest
        rw [← hopen, hg]
        rfl

/-- The batches, the triggers and the cover are in order. -/
theorem coverOk_invariant (p : V33Params) :
    WingInvariant p fun st => (BatchesOk st ∧ TriggersOk st) ∧ CoverOk st where
  frame h hwings hfills :=
    ⟨(triggersOk_invariant p).frame h.1 hwings hfills, h.2.frame hwings hfills⟩
  wing hop h := ⟨(triggersOk_invariant p).wing hop h.1, h.2.wing h.1.1 h.1.2 hop⟩
  book r hd h := ⟨(triggersOk_invariant p).book r hd h.1, h.2.book h.1.1 h.1.2 r⟩
  legs coid f hf h := ⟨(triggersOk_invariant p).legs coid f hf h.1,
    h.2.keep (keepsRungs_refl _) rfl rfl rfl⟩

/-- A new window has nothing to cover. -/
theorem CoverOk.new (h : IsNew p st) : CoverOk st := by
  obtain ⟨_, _, _, _, _, _, rfl⟩ := h
  refine ⟨⟨[], ?_, ?_⟩, ?_, ?_⟩ <;> simp [V33State.new, hedgedFills, makerFills]

/-- In every state reached each maker fill on a known bucket is in the open group or in one
batch, and once, except those attached to a pre-emptive batch that its resolved trigger gave
up. -/
theorem fills_hedged_once {evs : List Event}
    (hrun : Reached p (fun _ _ => True) evs st) : Covered st :=
  ((coverOk_invariant p).reached
    (fun _ hst => ⟨⟨BatchesOk.new hst, TriggersOk.new hst⟩, CoverOk.new hst⟩) hrun).2.covered

end Cover

/-- A print pre-hedges both rungs, one of them fills, and then only one of the wings does. -/
def halfWinged : List Event :=
  sampleOpening ++
    [.trade ⟨"B100", 40 / 100, .yes, 1, 1002⟩,
      .fill ⟨some "v1", "c-1", 1, some (59 / 100), .no, 1003, some "B100", none⟩,
      .fill ⟨none, "c-3", 2, some (70 / 100), .yes, 1003, some "S100", none⟩,
      .fill ⟨none, "c-4", 0, none, .no, 1003, some "S200", none⟩]

/-- The sample covers its fill as the fill of a batch that was given up. -/
theorem fills_hedged_once_sample :
    Covered (after samplePolicy (sampleWindow samplePolicy) halfWinged) :=
  fills_hedged_once (reached_sample (allAlong_of_forall fun _ _ _ => trivial))

/-- The batch is sold back and leaves with the fill of the rung: nothing hedges it. -/
theorem given_up_fill_unhedged :
    ¬∀ (p : V33Params) (evs : List Event) (st : V33State), Reached p (fun _ _ => True) evs st →
      HedgedOnce st := by
  intro hall
  have hperm := hall samplePolicy halfWinged _
    (reached_sample (allAlong_of_forall fun _ _ _ => trivial))
  have hlength := hperm.length_eq
  revert hlength
  decide +kernel

end Pilot.V33
