import Pilot.V33.Netting
import Pilot.V33.Batches
import Mathlib.Algebra.Order.BigOperators.Group.List

/-!
# Netting along a run

Without early takes the legs change in three ways: a batch takes new ones, missed ones are
sent again, and a fill answers one and nets it. Netted lots are conserved along every run in
which no fill answers a netted leg as missed.
-/

namespace Pilot.V33

/-- No early take is under way, the fills to hedge and the legs are in order, and the markets
with few legs are settled. -/
structure NettingOk (st : V33State) : Prop where
  triggers : st.printThroughTriggers = []
  lots : ∀ f ∈ hedgedFills st, 0 ≤ f.count
  legs : StLegsOk st
  minted : ∀ l ∈ st.wingLegs,
    l.clientOrderId = "" ∨ MintedBy st.toWindow st.coidSeq l.clientOrderId
  settled : ∀ t, FewLegs st.wingLegs t → SettledOn st.wingLegs t

section Steps

variable {p : V33Params} {now : ℚ} {st st' : V33State}

/-- What leaves the legs alone keeps them in order. -/
theorem NettingOk.frame (h : NettingOk st) (hwindow : st'.toWindow = st.toWindow)
    (hseq : st.coidSeq ≤ st'.coidSeq) (hlegs : st'.wingLegs = st.wingLegs)
    (hpairs : st'.nettedPairs = st.nettedPairs)
    (htriggers : st'.printThroughTriggers = st.printThroughTriggers)
    (hlots : ∀ f ∈ hedgedFills st', f ∈ hedgedFills st ∨ 0 ≤ f.count) : NettingOk st' where
  triggers := htriggers.trans h.triggers
  lots f hf := (hlots f hf).elim (h.lots f) id
  legs := by
    rw [StLegsOk, hlegs, hpairs]
    exact h.legs
  minted := by
    rw [hwindow, hlegs]
    exact fun l hl => (h.minted l hl).imp_right fun hm => hm.mono hseq
  settled := by
    rw [hlegs]
    exact h.settled

/-- What leaves the wings alone keeps them in order. -/
theorem NettingOk.wings (h : NettingOk st) (hwindow : st'.toWindow = st.toWindow)
    (hseq : st.coidSeq ≤ st'.coidSeq) (hwings : st'.toWings = st.toWings) : NettingOk st' := by
  refine h.frame hwindow hseq (congrArg Wings.wingLegs hwings) (congrArg Wings.nettedPairs hwings)
    (congrArg Wings.printThroughTriggers hwings) fun f hf => Or.inl ?_
  have hgroup : st'.coalesceOpen = st.coalesceOpen := congrArg Wings.coalesceOpen hwings
  have hbatches : st'.wingBatches = st.wingBatches := congrArg Wings.wingBatches hwings
  rwa [hedgedFills, hgroup, hbatches] at hf

/-- A run of ladder operations keeps them in order. -/
theorem NettingOk.ladder (h : NettingOk st) {P : Permit} {acts : List V33Action}
    (hrun : Run (LadderOp p now P) st acts st') : NettingOk st' :=
  have hframe := Run.ladderFrame hrun
  h.wings hframe.window hframe.seq hframe.wings

/-- The mirrors of the wings are no part of the netting. -/
theorem NettingOk.sync (h : NettingOk st) : NettingOk (syncWingMirrors st) :=
  h.frame rfl le_rfl rfl rfl rfl fun _ hf => Or.inl hf

/-- An update of a batch that keeps its fills. -/
theorem NettingOk.flag (h : NettingOk st) (index : ℕ) {f : WingBatch → WingBatch}
    (hf : KeepsHedge f) (sets : ℚ) :
    NettingOk { st with wingBatches := replaceBatch st.wingBatches index f, setsDone := sets } := by
  refine h.frame rfl le_rfl rfl rfl rfl fun x hx => Or.inl ?_
  rw [hedgedFills, List.mem_append, List.mem_flatMap] at hx ⊢
  refine hx.imp_right ?_
  rintro ⟨b, hb, hxb⟩
  rcases mem_replaceFirst hb with hb | ⟨b', hb', -, rfl⟩
  · exact ⟨b, hb, hxb⟩
  · exact ⟨b', hb', by rwa [hf.fills] at hxb⟩

/-- A flush makes a batch of fills of no negative count. -/
theorem NettingOk.flush (h : NettingOk st) : NettingOk (coalesceFlush p st now) := by
  unfold coalesceFlush
  split
  · exact h
  · next g hg =>
    split_ifs
    · refine h.frame rfl le_rfl rfl rfl rfl fun x hx => Or.inl ?_
      rw [hedgedFills, hg]
      simpa [hedgedFills, batchOfGroup, or_comm] using hx
    · exact h

/-- So does a fill, which joins the open group or opens another. -/
theorem NettingOk.coalesceAdd (h : NettingOk st) {rf : RungFill} (hrf : 0 ≤ rf.count) :
    NettingOk (coalesceAdd p st rf now) := by
  have hflush : NettingOk (coalesceFlush p st now) := h.flush
  unfold V33.coalesceAdd
  dsimp only
  split
  · next hnone =>
    refine hflush.frame rfl le_rfl rfl rfl rfl fun x hx => ?_
    simp only [hedgedFills, hnone, Option.map_some, Option.map_none, Option.getD_some,
      Option.getD_none, List.singleton_append, List.nil_append, List.mem_cons] at hx ⊢
    rcases hx with rfl | hx
    · exact Or.inr hrf
    · exact Or.inl hx
  · next g hg =>
    refine hflush.frame rfl le_rfl rfl rfl rfl fun x hx => ?_
    simp only [hedgedFills, hg, Option.map_some, Option.getD_some, List.mem_append,
      List.mem_singleton] at hx ⊢
    rcases hx with (hx | rfl) | hx
    · exact Or.inl (Or.inl hx)
    · exact Or.inr hrf
    · exact Or.inl (Or.inr hx)

/-- Without triggers nothing can be resolved. -/
theorem NettingOk.ptMarkResolution (h : NettingOk st) (index : ℕ) (resolution : Resolution)
    (at_ : Option ℚ) : NettingOk (ptMarkResolution st index resolution at_) := by
  refine h.frame rfl le_rfl rfl rfl ?_ fun x hx => Or.inl hx
  simp [V33.ptMarkResolution, h.triggers]

/-- A closed set keeps its legs. -/
theorem NettingOk.maybeCloseSet (h : NettingOk st) (index : ℕ) :
    NettingOk (maybeCloseSet st index) := by
  unfold V33.maybeCloseSet
  split
  · exact h.sync
  · next b hb =>
    have hresolved : KeepsHedge fun b : WingBatch =>
        { b with completed := true, oneLegged := false, resolved := true } := by
      constructor <;> simp
    have hcompleted : KeepsHedge fun b : WingBatch =>
        { b with completed := true, oneLegged := false } := by
      constructor <;> simp
    split_ifs
    · exact h.sync
    · exact h.sync
    · exact ((h.flag index hresolved _).ptMarkResolution _ _ _).sync
    · exact (h.flag index hcompleted _).sync

/-- A batch given up at the cutoff keeps its legs. -/
theorem NettingOk.cutoffBatch (h : NettingOk st) (b : WingBatch) :
    NettingOk (cutoffBatch now b st).st := by
  have hended : KeepsHedge fun b : WingBatch => { b with oneLegged := true, resolved := true } := by
    constructor <;> simp
  have hlegged : KeepsHedge fun b : WingBatch => { b with oneLegged := true } := by
    constructor <;> simp
  unfold V33.cutoffBatch
  split_ifs
  · exact h
  · exact (h.flag b.index hended st.setsDone).ptMarkResolution _ _ _
  · exact h
  · exact h.flag b.index hlegged st.setsDone

/-! ### Legs are taken and sent again -/

/-- The count of a batch is not negative. -/
theorem NettingOk.totalCount_nonneg (h : NettingOk st) {b : WingBatch}
    (hb : b ∈ st.wingBatches) : 0 ≤ b.totalCount := by
  refine List.sum_nonneg fun c hc => ?_
  obtain ⟨f, hf, rfl⟩ := List.mem_map.mp hc
  exact h.lots f (List.mem_append.mpr (Or.inr (List.mem_flatMap.mpr ⟨b, hb, hf⟩)))

/-- A leg just sent has no fill. -/
theorem unfilled_sentLeg {count : ℚ} (hcount : 0 ≤ count) (ticker : String) (side : Side)
    (limit : ℚ) (coid : String) (batch : ℕ) :
    Unfilled (sentLeg ticker side (qCount count) limit coid batch) :=
  ⟨by simp [sentLeg], rfl, qCount_nonneg hcount, onGrid_qCount count⟩

/-- A deferred leg has no fill. -/
theorem unfilled_deferredLeg {count : ℚ} (hcount : 0 ≤ count) (ticker : String) (side : Side)
    (batch : ℕ) : Unfilled (deferredLeg ticker side (qCount count) batch) :=
  ⟨by simp [deferredLeg], rfl, qCount_nonneg hcount, onGrid_qCount count⟩

/-- New legs that are not filled leave the markets settled. -/
theorem settled_append {legs more : List WingLeg}
    (h : ∀ t, FewLegs legs t → SettledOn legs t) (hmore : ∀ l ∈ more, Unfilled l) (t : String)
    (hfew : FewLegs (legs ++ more) t) : SettledOn (legs ++ more) t := by
  have hfew' : FewLegs legs t := fun side => by
    have hlength := hfew side
    rw [sideLegs, List.filter_append, List.length_append] at hlength
    exact lt_of_le_of_lt (Nat.le_add_right _ _) hlength
  have hback : ∀ side, OpenOn (legs ++ more) t side → OpenOn legs t side := by
    rintro side ⟨l, hl, hticker, hside, ho⟩
    rcases List.mem_append.mp hl with hl | hl
    · exact ⟨l, hl, hticker, hside, ho⟩
    · exact absurd ho (hmore l hl).not_open
  exact fun hboth => h t hfew' ⟨hback _ hboth.1, hback _ hboth.2⟩

/-- The ids of one leg more: a deferred leg has none. -/
theorem legIds_cons (l : WingLeg) (legs : List WingLeg) :
    legIds (l :: legs) = if l.clientOrderId ≠ "" then l.clientOrderId :: legIds legs
      else legIds legs := by
  simp only [legIds, List.map_cons, List.filter_cons, decide_eq_true_eq]

/-- The ids of the legs are those that are not empty. -/
theorem mem_legIds {legs : List WingLeg} {c : String} :
    c ∈ legIds legs ↔ c ∈ legs.map WingLeg.clientOrderId ∧ c ≠ "" := by
  simp [legIds]

/-- A batch takes new legs. -/
theorem NettingOk.take (h : NettingOk st) {index k : ℕ} {more : List WingLeg}
    (hmore : ∀ l ∈ more, Unfilled l)
    (hids : ∀ l ∈ more, l.clientOrderId = "" ∨
      ∃ i, st.coidSeq < i ∧ i ≤ st.coidSeq + k ∧ l.clientOrderId = coidAt st.toWindow i)
    (hnodup : (legIds more).Nodup) :
    NettingOk { st with
      wingLegs := st.wingLegs ++ more
      wingBatches := replaceBatch st.wingBatches index fun b => { b with taken := true }
      coidSeq := st.coidSeq + k } where
  triggers := h.triggers
  lots x hx := by
    rw [hedgedFills, List.mem_append, List.mem_flatMap] at hx
    refine h.lots x (List.mem_append.mpr (hx.imp_right ?_))
    rintro ⟨b, hb, hxb⟩
    rcases mem_replaceFirst hb with hb | ⟨b', hb', -, rfl⟩
    · exact List.mem_flatMap.mpr ⟨b, hb, hxb⟩
    · exact List.mem_flatMap.mpr ⟨b', hb', hxb⟩
  legs := by
    refine h.legs.append hmore (fun c hc hold => ?_) hnodup
    obtain ⟨hmem, hne⟩ := mem_legIds.mp hc
    obtain ⟨x, hx, rfl⟩ := List.mem_map.mp hmem
    obtain ⟨y, hy, hyx⟩ := List.mem_map.mp (mem_legIds.mp hold).1
    obtain ⟨i, hi, -, heq⟩ := (hids x hx).resolve_left hne
    obtain ⟨j, hj, heq'⟩ := (h.minted y hy).resolve_left (hyx ▸ hne)
    have := coidAt_injective st.toWindow (heq.symm.trans (hyx.symm.trans heq'))
    omega
  minted := by
    refine List.forall_mem_append.mpr ⟨fun l hl => ?_, fun l hl => ?_⟩
    · exact (h.minted l hl).imp_right fun hm => hm.mono (Nat.le_add_right _ _)
    · refine (hids l hl).imp_right ?_
      rintro ⟨i, -, hi, heq⟩
      exact ⟨i, hi, heq⟩
  settled := settled_append h.settled hmore

/-- A take adds two legs without a fill, under new ids. -/
theorem NettingOk.takeBatch (h : NettingOk st) {b : WingBatch} (hb : b ∈ st.wingBatches)
    (sd su : ℤ) (ya na : ℚ) : NettingOk (takeBatch p st b sd su ya na).st := by
  have hcount := h.totalCount_nonneg hb
  refine h.take (k := 2) ?_ ?_ ?_
  · simp only [List.forall_mem_cons]
    exact ⟨unfilled_sentLeg hcount _ _ _ _ _, unfilled_sentLeg hcount _ _ _ _ _, by simp⟩
  · simp only [List.forall_mem_cons]
    exact ⟨Or.inr ⟨st.coidSeq + 1, by omega, by omega, rfl⟩,
      Or.inr ⟨st.coidSeq + 2, by omega, by omega, rfl⟩, by simp⟩
  · have hne : coidAt st.toWindow (st.coidSeq + 1) ≠ coidAt st.toWindow (st.coidSeq + 2) :=
      fun heq => by
        have := coidAt_injective st.toWindow heq
        omega
    have hids : legIds [sentLeg (strikeTicker st sd) .yes (qCount b.totalCount)
          (takerLimit ya p.wingMargin) (coidAt st.toWindow (st.coidSeq + 1)) b.index,
        sentLeg (strikeTicker st su) .no (qCount b.totalCount)
          (takerLimit na p.wingMargin) (coidAt st.toWindow (st.coidSeq + 2)) b.index] =
        [coidAt st.toWindow (st.coidSeq + 1), coidAt st.toWindow (st.coidSeq + 2)] := by
      simp [legIds, sentLeg, coidAt_ne_empty]
    exact (congrArg List.Nodup hids).mpr (by simpa using hne)

/-- So does a partial take, one of whose legs is deferred. -/
theorem NettingOk.takeBatchPartial (h : NettingOk st) {b : WingBatch} (hb : b ∈ st.wingBatches)
    (sd su : ℤ) : NettingOk (takeBatchPartial p st b sd su now).st := by
  have hcount := h.totalCount_nonneg hb
  have hsend : ∀ (sent missed : String) (sendSide missSide : Side) (limit : ℚ),
      NettingOk { st with
        wingLegs := st.wingLegs ++
          [sentLeg sent sendSide (qCount b.totalCount) limit
              (coidAt st.toWindow (st.coidSeq + 1)) b.index,
            deferredLeg missed missSide (qCount b.totalCount) b.index]
        wingBatches := replaceBatch st.wingBatches b.index fun b => { b with taken := true }
        coidSeq := st.coidSeq + 1 } := by
    intro sent missed sendSide missSide limit
    refine h.take (k := 1) ?_ ?_ ?_
    · simp only [List.forall_mem_cons]
      exact ⟨unfilled_sentLeg hcount _ _ _ _ _, unfilled_deferredLeg hcount _ _ _, by simp⟩
    · simp only [List.forall_mem_cons]
      exact ⟨Or.inr ⟨st.coidSeq + 1, by omega, by omega, rfl⟩, Or.inl rfl, by simp⟩
    · simp [legIds, sentLeg, deferredLeg, coidAt_ne_empty]
  unfold V33.takeBatchPartial
  dsimp only
  split_ifs
  · split
    · exact hsend _ _ _ _ _
    · exact hsend _ _ _ _ _
    · exact h
  · exact h

/-- A leg that is sent again: it was missed, and goes on under a new id. -/
theorem legStays_resent {l : WingLeg} (hmissed : l.status = .unfilled) (limit : ℚ)
    (coid : String) (ts : Option ℚ) :
    LegStays l
      { l with status := .pending, limit := limit, clientOrderId := coid, lastRetryTs := ts } :=
  ⟨rfl, rfl, rfl, rfl, rfl, by simp, by simp [hmissed], by simp⟩

/-- The legs after a retry: each one stays, under its id or under an id minted on the way. -/
structure Retries (w : Window) (n n' : ℕ) (legs legs' : List WingLeg) : Prop where
  stays : List.Forall₂ LegStays legs legs'
  ids : ∀ l' ∈ legs', l'.clientOrderId ∈ legs.map WingLeg.clientOrderId ∨
    ∃ k, n < k ∧ k ≤ n' ∧ l'.clientOrderId = coidAt w k
  nodup : (legIds legs).Nodup → (∀ l ∈ legs, l.clientOrderId = "" ∨ MintedBy w n l.clientOrderId) →
    (legIds legs').Nodup

/-- The legs of a batch after a retry. -/
theorem retries_retryLegs (index : ℕ) (ya na : ℚ) (legs : List WingLeg) (st : V33State) :
    Retries st.toWindow st.coidSeq (retryLegs p index ya na now legs st).2.st.coidSeq legs
      (retryLegs p index ya na now legs st).1 := by
  induction legs generalizing st with
  | nil => exact ⟨List.Forall₂.nil, by simp [retryLegs], fun _ _ => List.nodup_nil⟩
  | cons l legs ih =>
    unfold retryLegs
    split_ifs with hdue
    · -- The leg takes the next id, those after it later ones.
      have hmissed : l.status = .unfilled := by
        simp only [retryDue, Bool.and_eq_true, beq_iff_eq] at hdue
        exact hdue.1.2
      have hrest := ih (mintCoid st).2
      obtain ⟨n, hn, hle⟩ := @retryLegs_st p now index ya na legs (mintCoid st).2
      have hseq : (retryLegs p index ya na now legs (mintCoid st).2).2.st.coidSeq = n := by
        rw [hn]
      have hle' : st.coidSeq + 1 ≤ n := hle
      simp only [hseq] at hrest ⊢
      refine ⟨List.Forall₂.cons (legStays_resent hmissed _ _ _) hrest.stays, ?_, ?_⟩
      · rw [List.forall_mem_cons]
        refine ⟨Or.inr ⟨st.coidSeq + 1, by omega, hle', rfl⟩, fun l' hl' => ?_⟩
        rcases hrest.ids l' hl' with hold | ⟨k, hk, hkn, heq⟩
        · exact Or.inl (List.mem_cons_of_mem _ hold)
        · have hk' : st.coidSeq + 1 < k := hk
          exact Or.inr ⟨k, by omega, hkn, heq⟩
      · intro hnodup hminted
        rw [legIds_cons] at hnodup
        have hnodup' : (legIds legs).Nodup := by
          split_ifs at hnodup
          · exact (List.nodup_cons.mp hnodup).2
          · exact hnodup
        have hminted' : ∀ x ∈ legs, x.clientOrderId = "" ∨
            MintedBy st.toWindow (st.coidSeq + 1) x.clientOrderId := fun x hx =>
          (hminted x (by simp [hx])).imp_right fun hm => hm.mono (Nat.le_succ _)
        rw [legIds_cons, if_pos (show (mintCoid st).1 ≠ "" from coidAt_ne_empty _ _),
          List.nodup_cons]
        refine ⟨fun hmem => ?_, hrest.nodup hnodup' hminted'⟩
        obtain ⟨x, hx, hxid⟩ := List.mem_map.mp (mem_legIds.mp hmem).1
        rcases hrest.ids x hx with hold | ⟨k, hk, -, heq⟩
        · obtain ⟨y, hy, hyid⟩ := List.mem_map.mp hold
          have hne : y.clientOrderId ≠ "" := by
            rw [hyid, hxid]
            exact coidAt_ne_empty _ _
          exact ((hminted y (by simp [hy])).resolve_left hne).ne_next (hyid.trans hxid)
        · have hk' : st.coidSeq + 1 < k := hk
          have := coidAt_injective st.toWindow (heq.symm.trans hxid)
          omega
    · have hrest := ih st
      refine ⟨List.Forall₂.cons (LegStays.refl l) hrest.stays, ?_, ?_⟩
      · rw [List.forall_mem_cons]
        refine ⟨Or.inl (by simp), fun l' hl' => ?_⟩
        exact (hrest.ids l' hl').imp_left fun hold => List.mem_cons_of_mem _ hold
      · intro hnodup hminted
        have hminted' : ∀ x ∈ legs, x.clientOrderId = "" ∨
            MintedBy st.toWindow st.coidSeq x.clientOrderId := fun x hx => hminted x (by simp [hx])
        rw [legIds_cons] at hnodup ⊢
        split_ifs at hnodup ⊢ with hid
        · rw [List.nodup_cons] at hnodup ⊢
          refine ⟨fun hmem => ?_, hrest.nodup hnodup.2 hminted'⟩
          obtain ⟨x, hx, hxid⟩ := List.mem_map.mp (mem_legIds.mp hmem).1
          rcases hrest.ids x hx with hold | ⟨k, hk, -, heq⟩
          · exact hnodup.1 (mem_legIds.mpr ⟨hxid ▸ hold, hid⟩)
          · obtain ⟨j, hj, hjeq⟩ := (hminted l (by simp)).resolve_left hid
            have := coidAt_injective st.toWindow (heq.symm.trans (hxid.trans hjeq))
            omega
        · exact hrest.nodup hnodup hminted'

/-- A retry sends deferred and missed legs under new ids. -/
theorem NettingOk.retryBatch (h : NettingOk st) (b : WingBatch) (ya na : ℚ) :
    NettingOk (retryBatch p st b ya na now).st := by
  have hretries := @retries_retryLegs p now b.index ya na st.wingLegs st
  obtain ⟨n, hn, hle⟩ := @retryLegs_st p now b.index ya na st.wingLegs st
  unfold V33.retryBatch
  dsimp only
  split_ifs
  · exact h
  · exact h
  · rw [hn] at hretries ⊢
    have hminted : ∀ l ∈ (retryLegs p b.index ya na now st.wingLegs st).1, l.clientOrderId = "" ∨
        MintedBy st.toWindow n l.clientOrderId := by
      intro l hl
      rcases hretries.ids l hl with hold | ⟨k, -, hk, heq⟩
      · obtain ⟨x, hx, hxid⟩ := List.mem_map.mp hold
        rw [← hxid]
        exact (h.minted x hx).imp_right fun hm => hm.mono hle
      · exact Or.inr ⟨k, hk, heq⟩
    have hok : NettingOk { st with
        wingLegs := (retryLegs p b.index ya na now st.wingLegs st).1
        coidSeq := n } :=
      { triggers := h.triggers
        lots := h.lots
        legs := h.legs.stays hretries.stays (hretries.nodup h.legs.nodup h.minted)
        minted := hminted
        settled := fun t hfew => by
          refine (h.settled t fun side => ?_).of_forall₂ hretries.stays
            fun l l' hs => ⟨hs.ticker, hs.side, hs.isOpen⟩
          rw [← length_sideLegs (fun _ _ hs => hs.ticker) (fun _ _ hs => hs.side) hretries.stays]
          exact hfew side }
    have hkeep : KeepsHedge fun x : WingBatch => { x with retries := b.retries +
        (retryLegs p b.index ya na now st.wingLegs st).2.acts.length } := by
      constructor <;> simp
    exact hok.flag b.index hkeep st.setsDone

/-- Whatever the service does with a batch, the netting is in order. -/
theorem NettingOk.serveBatch (h : NettingOk st) (index : ℕ) :
    NettingOk (serveBatch p now index st).st := by
  unfold V33.serveBatch
  split
  · exact h
  · next b hb =>
    have hmem : b ∈ st.wingBatches := List.mem_of_find?_eq_some hb
    by_cases hended : b.completed ∨ b.printThrough
    · rw [if_pos hended]
      exact h
    · rw [if_neg hended]
      by_cases htaken : b.taken
      · simp only [if_pos htaken]
        split
        · exact h
        · split
          · exact h
          · exact h.retryBatch b _ _
      · simp only [if_neg htaken]
        split
        · exact h
        · split
          · exact h.takeBatchPartial hmem _ _
          · exact h.takeBatch hmem _ _ _ _

/-- What each turn of a loop keeps the loop keeps. -/
theorem NettingOk.forEach {α : Type} {body : α → V33State → Outcome}
    (hbody : ∀ x s, NettingOk s → NettingOk (body x s).st) (xs : List α) (h : NettingOk st) :
    NettingOk (forEach xs body st).st := by
  induction xs generalizing st with
  | nil => exact h
  | cons x xs ih => exact ih (hbody x st h)

/-- The wing step keeps the netting in order. -/
theorem NettingOk.wingStep (h : NettingOk st) : NettingOk (wingStep p st now).st := by
  have hflush : NettingOk (coalesceFlush p st now) := h.flush
  unfold V33.wingStep
  dsimp only
  split_ifs
  · exact hflush.sync
  · exact (NettingOk.forEach (fun b _ hs => hs.cutoffBatch b) _ hflush).sync
  · exact (NettingOk.forEach (fun i _ hs => hs.serveBatch i) _ hflush).sync

/-! ### Bookings -/

/-- A recorded fill goes to the group, as there are no triggers. -/
theorem NettingOk.bookedState (h : NettingOk st) {r : FillReport} (hr : 0 < r.delta) :
    NettingOk (bookedState p st r now) := by
  have hrecord : NettingOk (recordFill p st r now) := h.wings rfl le_rfl rfl
  unfold V33.bookedState
  split
  · exact hrecord
  · unfold hedgeFill
    have hnone : ptTriggerForCoid (recordFill p st r now) r.coid = none := by
      unfold ptTriggerForCoid
      rw [hrecord.triggers]
      rfl
    rw [hnone]
    exact hrecord.coalesceAdd (qCount_nonneg (qCount_nonneg hr.le))

/-- A stand-down changes the pacing alone. -/
theorem standdown_eq (st : V33State) (reason : Reason) :
    ∃ x : Pacing, (standdown st reason).st = { st with toPacing := x } := by
  unfold standdown
  split
  · exact ⟨{ st.toPacing with standDownReason := some reason }, rfl⟩
  · exact ⟨{ st.toPacing with lastStanddownReason := some reason, standDownReason := some reason },
      rfl⟩

/-- A stand-down keeps the netting in order. -/
theorem NettingOk.standdown (h : NettingOk st) (reason : Reason) :
    NettingOk (standdown st reason).st := by
  obtain ⟨x, hx⟩ := standdown_eq st reason
  rw [hx]
  exact h.wings rfl le_rfl rfl

/-- So does a fill of an unknown bucket. -/
theorem NettingOk.failBucketUnknown (h : NettingOk st) :
    NettingOk (failBucketUnknown st).st := by
  have hlatched : NettingOk
      { st with bucketUnknown := true, stoodDown := true, restAllotmentDone := true } :=
    h.wings rfl le_rfl rfl
  unfold V33.failBucketUnknown
  dsimp only
  rw [mapSt_st, andThen_st]
  refine NettingOk.sync (NettingOk.standdown ?_ _)
  split_ifs
  · exact hlatched
  · rw [cancelAll_st]
    exact hlatched.wings rfl le_rfl rfl

/-- So does the latch of a finished hour. -/
theorem NettingOk.latchIfDone (h : NettingOk st) : NettingOk (latchIfDone p st) := by
  obtain ⟨x, hx, -⟩ := latchIfDone_eq p st
  rw [hx]
  exact h.wings rfl le_rfl rfl

/-- A booked fill adds lots of a positive count. -/
theorem NettingOk.bookRungFill (h : NettingOk st) {r : FillReport} (hr : 0 < r.delta) :
    NettingOk (bookRungFill p st r now).st := by
  have hbooked : NettingOk (V33.bookedState p st r now) := h.bookedState hr
  unfold V33.bookedState at hbooked
  unfold V33.bookRungFill
  dsimp only
  split
  · next hb =>
    rw [hb] at hbooked
    exact hbooked.failBucketUnknown
  · next sd hb =>
    rw [hb] at hbooked
    exact hbooked.latchIfDone.wingStep.sync

/-- The law of the bookings. -/
theorem nettingBookLaw (p : V33Params) :
    BookLaw p (fun _ => True) (fun (_ : Unit) _ => ()) (fun _ _ => True)
      (fun st _ => NettingOk st) where
  report _ _ _ := ⟨trivial, rfl⟩
  seen _ _ h := h.wings rfl le_rfl rfl
  fill _ _ hr h := ⟨allAlong_of_forall fun _ _ _ => trivial, h.bookRungFill hr⟩

/-! ### Answers of the legs -/

/-- Legs under the same ids. -/
theorem NettingOk.minted_of_ids (h : NettingOk st) {legs : List WingLeg}
    (hids : legs.map WingLeg.clientOrderId = st.wingLegs.map WingLeg.clientOrderId) :
    ∀ l ∈ legs, l.clientOrderId = "" ∨ MintedBy st.toWindow st.coidSeq l.clientOrderId := by
  intro l hl
  obtain ⟨x, hx, hxl⟩ := List.mem_map.mp (hids ▸ List.mem_map_of_mem hl)
  rw [← hxl]
  exact h.minted x hx

/-- The fill of a leg that has an id nets it. -/
theorem NettingOk.filledLeg (h : NettingOk st) {coid : String} (hne : coid ≠ "") (price : ℚ) :
    NettingOk (netWings { st with
      wingLegs := replaceFirst (fun l => l.clientOrderId == coid) (answeredLeg price)
        st.wingLegs } coid now).st := by
  have hanswered : StLegsOk { st with
      wingLegs := replaceFirst (fun l => l.clientOrderId == coid) (answeredLeg price)
        st.wingLegs } := h.legs.answered hne price
  obtain ⟨hlegs, hnets, -⟩ := @netLoop_spec _ now coid hanswered 64
  have hsettled : ∀ t, FewLegs (netWings { st with
      wingLegs := replaceFirst (fun l => l.clientOrderId == coid) (answeredLeg price)
        st.wingLegs } coid now).st.wingLegs t → SettledOn (netWings { st with
      wingLegs := replaceFirst (fun l => l.clientOrderId == coid) (answeredLeg price)
        st.wingLegs } coid now).st.wingLegs t := fun t hfew =>
    settled_netWings h.legs hne h.settled price t rfl hfew
  have hkept : ∀ l : WingLeg, (l.clientOrderId == coid) = true →
      (answeredLeg price l).clientOrderId = l.clientOrderId := fun _ _ => rfl
  have hids := (map_eq_of_forall₂ (fun _ _ hn => NetsLeg.id hn) hnets.legs).trans
    (map_replaceFirst_of_eq hkept st.wingLegs)
  obtain ⟨legs, pairs, heq⟩ := hnets.frame
  unfold netWings at hsettled ⊢
  rw [heq] at hlegs hsettled hids ⊢
  exact ⟨h.triggers, h.lots, hlegs, h.minted_of_ids hids, hsettled⟩

/-- A leg without netted lots that is reported as missed only changes its status. -/
theorem NettingOk.missedLeg (h : NettingOk st) {coid : String}
    (hleg : ∀ l, legOf st coid = some l → l.netted = 0) :
    NettingOk { st with
      wingLegs := replaceFirst (fun l => l.clientOrderId == coid)
        (fun l => { l with status := .unfilled }) st.wingLegs } := by
  have hstays : List.Forall₂ LegStays st.wingLegs
      (replaceFirst (fun l => l.clientOrderId == coid)
        (fun l => { l with status := .unfilled }) st.wingLegs) := by
    cases hfind : legOf st coid with
    | none =>
      unfold legOf at hfind
      rw [replaceFirst_of_find?_none hfind]
      exact List.forall₂_same.mpr fun l _ => LegStays.refl l
    | some leg =>
      obtain ⟨front, back, heq, hrep, -⟩ := replaceFirst_split
        (f := fun l : WingLeg => { l with status := .unfilled }) hfind
      rw [hrep, heq]
      refine List.rel_append ?_ (List.Forall₂.cons ?_ ?_)
      · exact List.forall₂_same.mpr fun l _ => LegStays.refl l
      · exact ⟨rfl, rfl, rfl, rfl, rfl, by simp, fun _ _ => hleg leg hfind, by simp⟩
      · exact List.forall₂_same.mpr fun l _ => LegStays.refl l
  have hkept : ∀ l : WingLeg, (l.clientOrderId == coid) = true →
      WingLeg.clientOrderId { l with status := .unfilled } = l.clientOrderId := fun _ _ => rfl
  have hids := map_replaceFirst_of_eq hkept st.wingLegs
  refine ⟨h.triggers, h.lots, h.legs.stays hstays ?_, h.minted_of_ids hids, fun t hfew => ?_⟩
  · rw [legIds, hids]
    exact h.legs.nodup
  · refine (h.settled t fun side => ?_).of_forall₂ hstays
      fun l l' hs => ⟨hs.ticker, hs.side, hs.isOpen⟩
    rw [← length_sideLegs (fun _ _ hs => hs.ticker) (fun _ _ hs => hs.side) hstays]
    exact hfew side

/-- A wing fill that may be netted: one with lots names its leg by an id, one without lots
answers a leg that has netted nothing. -/
def LegAnswer (st : V33State) (ev : Fill) : Prop :=
  ∀ l ∈ legOf st ev.clientOrderId,
    if 0 < ev.count then ev.clientOrderId ≠ "" else l.netted = 0

instance (st : V33State) (ev : Fill) : Decidable (LegAnswer st ev) :=
  inferInstanceAs (Decidable (∀ l ∈ _, _))

/-- Without triggers a pre-hedged batch does not fail. -/
theorem ptFailClosed_of_no_triggers (h : st.printThroughTriggers = []) (index : ℕ) :
    ptFailClosed p st index now = st.quiet := by
  unfold ptFailClosed
  rw [h]
  rfl

/-- A wing fill answers its leg, and may net it. -/
theorem NettingOk.applyWingFill (h : NettingOk st) {leg : WingLeg} {ev : Fill} {r : Outcome}
    (hleg : legOf st ev.clientOrderId = some leg) (hanswer : LegAnswer st ev)
    (hr : applyWingFill p st leg ev now = some r) : NettingOk r.st := by
  have hallowed := hanswer leg hleg
  unfold V33.applyWingFill at hr
  dsimp only at hr
  split_ifs at hr hallowed with hcount
  · rw [Option.map_eq_some_iff] at hr
    obtain ⟨price, -, rfl⟩ := hr
    exact (h.filledLeg hallowed price).maybeCloseSet _
  · simp only [Option.some.injEq] at hr
    subst hr
    have hmissed := @NettingOk.missedLeg st h ev.clientOrderId fun l hl => by
      obtain rfl := Option.some.inj (hleg.symm.trans hl)
      exact hallowed
    split
    · split_ifs
      · rw [ptFailClosed_of_no_triggers hmissed.triggers]
        exact hmissed
      · exact hmissed.maybeCloseSet _
    · exact hmissed.maybeCloseSet _

/-! ### Events -/

/-- What an event has to satisfy: a wing fill may be netted. -/
def NetsCleanly (st : V33State) (ev : Event) : Prop :=
  match ev with
  | .fill e => LegAnswer st e
  | _ => True

instance (st : V33State) (ev : Event) : Decidable (NetsCleanly st ev) := by
  unfold NetsCleanly
  split <;> infer_instance

/-- A released price is no part of the netting. -/
theorem NettingOk.clear (h : NettingOk st) (oid : Option String) :
    NettingOk (clearCancelPending st oid) := by
  obtain ⟨d, hd⟩ := clearCancelPending_eq st oid
  rw [hd]
  exact h.wings rfl le_rfl rfl

/-- A released price changes no leg. -/
theorem legOf_clearCancelPending (st : V33State) (oid : Option String) (coid : String) :
    legOf (clearCancelPending st oid) coid = legOf st coid := by
  obtain ⟨d, hd⟩ := clearCancelPending_eq st oid
  rw [hd]
  rfl

/-- A fill of a rung or a wing keeps the netting in order. -/
theorem NettingOk.applyFill (h : NettingOk st) {ev : Fill} (hanswer : LegAnswer st ev) :
    NettingOk (applyFill p st ev now).st := by
  have hclear := h.clear ev.orderId
  unfold V33.applyFill
  dsimp only
  have hnone : ptApplyCompleteFill p (clearCancelPending st ev.orderId) ev now = none := by
    unfold ptApplyCompleteFill
    rw [hclear.triggers]
    rfl
  rw [hnone]
  dsimp only
  split
  · next leg hleg =>
    cases hr : V33.applyWingFill p (clearCancelPending st ev.orderId) leg ev now with
    | none => exact h
    | some r =>
      refine hclear.applyWingFill hleg (fun l hl => ?_) hr
      rw [legOf_clearCancelPending] at hl
      exact hanswer l hl
  · split
    · next order _ =>
      exact ((nettingBookLaw p).applyRungFill (g := ()) order ev (fun _ _ => trivial) hclear).2
    · exact ((nettingBookLaw p).applyOrphanFill (g := ()) ev (fun _ _ => trivial) hclear).2

/-- Without triggers and without early takes the stall policy has nothing to do. -/
theorem ptStallStep_of_no_triggers (h : st.printThroughTriggers = []) :
    ptStallStep p st now = st.quiet := by
  unfold ptStallStep
  rw [h]
  split_ifs <;> rfl

/-- The shadows are no part of the netting. -/
theorem NettingOk.shadowComplete (h : NettingOk st) : NettingOk (shadowComplete p st now) := by
  obtain ⟨x, hx⟩ := shadowComplete_eq p st now
  rw [hx]
  exact h.wings rfl le_rfl rfl

/-- The service of the wings keeps the netting in order. -/
theorem NettingOk.serveWings (h : NettingOk st) : NettingOk (serveWings p st now).st := by
  have hcontext : NettingOk (recomputeContext p st now) := by
    obtain ⟨q, x, heq, -⟩ := recomputeContext_eq p st now
    rw [heq]
    exact h.wings rfl le_rfl rfl
  have hshadow : NettingOk (V33.shadowComplete p (recomputeContext p st now) now) :=
    hcontext.shadowComplete
  have hwings := @NettingOk.wingStep p now _ hshadow
  unfold V33.serveWings
  rw [andThen_st, ptStallStep_of_no_triggers hwings.triggers]
  exact hwings

/-- A print without the print-through keeps the netting in order. -/
theorem NettingOk.applyTrade (h : NettingOk st) (hpt : p.printThrough = false) (ev : Trade) :
    NettingOk (applyTrade p st ev now).st := by
  have hshadow : NettingOk (shadowOnTrade p st ev).st := by
    obtain ⟨x, hx⟩ := shadowOnTrade_eq p st ev
    rw [hx]
    exact h.wings rfl le_rfl rfl
  have hwings := @NettingOk.wingStep p now _ (@NettingOk.shadowComplete p now _ hshadow)
  have hquiet : ∀ s, printThroughStep p s ev now = s.quiet := by
    intro s
    unfold printThroughStep
    split
    · rfl
    · rw [if_neg (by simp [hpt])]
  unfold V33.applyTrade
  rw [andThen_st, andThen_st, andThen_st, mapSt_st, hquiet, quiet_st,
    ptStallStep_of_no_triggers hwings.triggers]
  exact hwings

/-- So does a confirmed amend, whose crossing lots are booked. -/
theorem NettingOk.confirmAmend (h : NettingOk st) (rp : RollPending) (ev : OrderAmended) :
    NettingOk (confirmAmend p st rp ev now).st := by
  unfold V33.confirmAmend
  dsimp only
  split
  · exact h.wings rfl le_rfl rfl
  · have hmoved : NettingOk (confirmRoll p (dropRoll st rp.oldCoid) rp
        (ev.price.getD rp.targetPrice) now) := h.wings rfl le_rfl rfl
    exact ((nettingBookLaw p).bookAmendCross (g := ()) rp _ ev (fun _ _ => trivial) hmoved).2

/-- So does the fallback of a failed amend. -/
theorem NettingOk.rollFallback (h : NettingOk st) (rp : RollPending) :
    NettingOk (rollFallback p st rp now).st := by
  unfold V33.rollFallback
  dsimp only
  split
  · exact h.wings rfl le_rfl rfl
  · split_ifs
    · exact h.wings rfl (Nat.le_succ _) rfl
    · exact h.wings rfl le_rfl rfl

/-- So does the end of a cancel. -/
theorem NettingOk.finishCancel (h : NettingOk st) (live : Option RestOrder)
    (ev : OrderCancelled) : NettingOk (finishCancel p live ev now st).st := by
  unfold V33.finishCancel
  split
  · exact h.rollFallback _
  · obtain ⟨l, n, heq, -⟩ := dropCancelled_eq st ev live
    have hdropped : NettingOk (dropCancelled st ev live) := by
      rw [heq]
      exact h.wings rfl le_rfl rfl
    unfold ptOnCancelConfirmed
    split
    · exact hdropped
    · rw [hdropped.triggers]
      exact hdropped

/-- So does an ack. -/
theorem NettingOk.applyAck (h : NettingOk st) (ev : OrderAck) : NettingOk (applyAck st ev) := by
  unfold V33.applyAck
  split_ifs
  · exact h.wings rfl le_rfl rfl
  · exact h

/-- So does everything an event does before its convergence. -/
theorem NettingOk.beforeConverge (h : NettingOk st) {ev : Event} {r : Outcome}
    (hr : beforeConverge p st ev = some r) : NettingOk r.st := by
  cases ev with
  | bookUpdate e =>
    obtain rfl := Option.some.inj hr
    obtain ⟨b, hb⟩ := foldBook_eq st e
    have hfold : NettingOk { st with toBooks := b } := h.wings rfl le_rfl rfl
    have hserved := @NettingOk.serveWings p e.serverTs _ hfold
    rw [← hb] at hserved
    exact hserved
  | clockTick now =>
    obtain rfl := Option.some.inj hr
    exact h.serveWings
  | orderAmended e =>
    simp only [V33.beforeConverge, Option.map_eq_some_iff] at hr
    obtain ⟨rp, -, rfl⟩ := hr
    exact h.confirmAmend rp e
  | orderCancelled e =>
    obtain rfl := Option.some.inj hr
    have hreport : NettingOk (reportCancel p st e e.serverTs).st :=
      ((nettingBookLaw p).reportCancel (g := ()) e (fun _ _ => trivial) (h.clear e.orderId)).2
    exact hreport.finishCancel _ e
  | _ => simp [V33.beforeConverge] at hr

/-- Without early takes every event whose wing fill may be netted keeps the legs in order. -/
theorem NettingOk.decide (h : NettingOk st) (hcoids : CoidsOk st) (hpt : p.printThrough = false)
    {ev : Event} (hev : NetsCleanly st ev) : NettingOk (decideV33 p st ev).st := by
  cases hr : V33.beforeConverge p st ev with
  | some r =>
    rw [decideV33_of_beforeConverge hr]
    exact (h.beforeConverge hr).ladder (hcoids.via_converge hr)
  | none =>
    rw [decideV33_of_not_beforeConverge hr]
    cases ev with
    | trade e => exact h.applyTrade hpt e
    | orderAck e => exact h.applyAck e
    | fill e => exact h.applyFill hev
    | _ => exact h

/-- A new window has no legs. -/
theorem NettingOk.new (h : IsNew p st) : NettingOk st := by
  obtain ⟨_, _, _, _, _, _, rfl⟩ := h
  refine ⟨rfl, by simp [hedgedFills, V33State.new], LegsOk.nil, by simp [V33State.new],
    fun t _ hboth => ?_⟩
  obtain ⟨l, hl, -⟩ := hboth.1
  simp [V33State.new] at hl

/-- What the legs in order give: netted lots are conserved. -/
theorem NettingOk.conserved (h : NettingOk st) : NettingConserved st :=
  ⟨fun l hl => (h.legs.each l hl).nonneg, fun l hl => (h.legs.each l hl).le_count,
    h.legs.balanced⟩

/-- Without early takes netted lots are conserved, and the markets with few legs are settled,
in every run in which no fill reports a netted leg as missed. -/
theorem netting_conserved (hpt : p.printThrough = false) {evs : List Event}
    (h : Reached p NetsCleanly evs st) :
    NettingConserved st ∧ ∀ t, FewLegs st.wingLegs t → SettledOn st.wingLegs t := by
  have hok : CoidsOk st ∧ NettingOk st :=
    h.preserves (I := fun st => CoidsOk st ∧ NettingOk st)
      (fun st hnew => ⟨CoidsOk.new hnew, NettingOk.new hnew⟩)
      fun st ev hst hev => ⟨hst.1.decide ev, hst.2.decide hst.1 hpt hev⟩
  exact ⟨hok.2.conserved, hok.2.settled⟩

end Steps

/-! ### Two batches that net -/

/-- The sample policy without early takes. -/
def plainPolicy : V33Params := { samplePolicy with printThrough := false }

/-- A fill reported by the private channel. -/
def reportedFill (coid : String) (count price : ℚ) (side : Side) (ts : ℚ) (ticker : String) :
    Event :=
  .fill ⟨none, coid, count, some price, side, ts, some ticker, none⟩

/-- One lot fills on each of the two buckets, their wings are taken, and three of them fill:
two of them net on the strike between the buckets. -/
def netRun : List Event :=
  sampleOpening ++
    [centBook "B200" 30 32 1000, reportedFill "c-1" 1 (59 / 100) .no 1002 "B100",
      reportedFill "x" 1 (50 / 100) .no 1003 "B200", .clockTick 1006,
      reportedFill "c-3" 1 (70 / 100) .yes 1007 "S100",
      reportedFill "c-4" 1 (50 / 100) .no 1007 "S200",
      reportedFill "c-5" 1 (52 / 100) .yes 1007 "S200"]

/-- The sample nets two legs on the strike between the buckets, and their lots add up. -/
theorem netting_conserved_sample :
    NettingConserved (after plainPolicy (sampleWindow plainPolicy) netRun) ∧
      ∀ t, FewLegs (after plainPolicy (sampleWindow plainPolicy) netRun).wingLegs t →
        SettledOn (after plainPolicy (sampleWindow plainPolicy) netRun).wingLegs t :=
  netting_conserved rfl (reached_sample (by decide +kernel))

/-- A second answer to a netted leg, without lots, takes the leg out of the filled ones. -/
theorem netting_breaks :
    ¬∀ (p : V33Params) (evs : List Event) (st : V33State), p.printThrough = false →
      Reached p (fun _ _ => True) evs st →
        NettingConserved st ∧ ∀ t, FewLegs st.wingLegs t → SettledOn st.wingLegs t := by
  intro h
  have hall := h plainPolicy (netRun ++ [reportedFill "c-5" 0 (52 / 100) .yes 1008 "S200"]) _ rfl
    (reached_sample (allAlong_of_forall fun _ _ _ => trivial))
  have hyes := hall.1.balanced "S200" .yes
  have hno := hall.1.balanced "S200" .no
  have hdiffer : nettedOn (after plainPolicy (sampleWindow plainPolicy)
      (netRun ++ [reportedFill "c-5" 0 (52 / 100) .yes 1008 "S200"])).wingLegs "S200" .yes ≠
    nettedOn (after plainPolicy (sampleWindow plainPolicy)
      (netRun ++ [reportedFill "c-5" 0 (52 / 100) .yes 1008 "S200"])).wingLegs "S200" .no := by
    decide +kernel
  exact hdiffer (hyes.trans hno.symm)

end Pilot.V33
