import Pilot.V33.ServeRuns
import Pilot.V33.Triggers

/-!
# Wings on the bucket of their fills

A regular batch hedges one bucket: its fills are of that bucket and its legs are on the two
strikes around it. This holds while no fill of another bucket joins an open group and no leg is
recorded on a strike whose ticker was never seen.
-/

namespace Pilot.V33

/-- The ticker is not empty and belongs to the strike of the given floor. -/
structure StrikeOf (st : V33State) (ticker : String) (floor : ℤ) : Prop where
  named : ticker ≠ ""
  floor : classifyTicker ticker st.bucketMap st.strikeFloorMap = some (.strike floor)

/-- The wings of a batch are on the bucket of all its fills: YES on its floor, NO on the next
strike. -/
structure RightHedge (p : V33Params) (st : V33State) (b : WingBatch) (sd : ℤ) : Prop where
  filled : b.fills ≠ []
  fills : ∀ f ∈ b.fills, f.bucketSd = some sd
  pair : Paired (batchLegs st b.index)
  yes : ∀ l ∈ batchLegs st b.index, l.side = .yes → StrikeOf st l.ticker sd
  no : ∀ l ∈ batchLegs st b.index, l.side = .no → StrikeOf st l.ticker (sd + p.bucketWidth)

/-! ### The condition -/

/-- One of the strikes of a bucket can be bought. -/
def Quoted (p : V33Params) (st : V33State) (sd : ℤ) (now : ℚ) : Prop :=
  strikeFeedAlive p st now = true ∧ ((wingLegAsk p st sd .yes now).isSome ∨
    (wingLegAsk p st (sd + p.bucketWidth) .no now).isSome)

/-- Both strikes of a bucket have been seen. -/
def BothSeen (p : V33Params) (st : V33State) (sd : ℤ) : Prop :=
  strikeTicker st sd ≠ "" ∧ strikeTicker st (sd + p.bucketWidth) ≠ ""

/-- If one of its strikes can be bought, both strikes of the bucket have been seen. -/
def KnownBucket (p : V33Params) (st : V33State) (sd : ℤ) (now : ℚ) : Prop :=
  Quoted p st sd now → BothSeen p st sd

/-- The strikes are known of every bucket whose batch waits for its take, and of the bucket of a
group that has expired. -/
structure KnownStrikes (p : V33Params) (st : V33State) (now : ℚ) : Prop where
  waiting : ∀ b ∈ st.wingBatches, b.printThrough = false → b.taken = false →
    ∀ sd ∈ batchBucket b, KnownBucket p st sd now
  expired : ∀ g ∈ st.coalesceOpen, groupExpired p g now = true →
    ∀ sd ∈ fillsBucket g.fills, KnownBucket p st sd now

/-- A window below zero gives a fill no time to coalesce: the strikes of its bucket are known. -/
def KnownFill (p : V33Params) (st : V33State) (ev : Event) : Prop :=
  p.wingCoalesceMs < 0 → ∀ rf ∈ bookedFill p st ev, ∀ sd ∈ rf.bucketSd,
    KnownBucket p (withBook st ev) sd ev.serverTs

/-- A fill that no trigger pre-hedged and that finds an open group is of the group's bucket. -/
def JoinsOwn (p : V33Params) (st : V33State) (ev : Event) : Prop :=
  ∀ rf ∈ bookedFill p st ev, ∀ sd ∈ rf.bucketSd, rf.coid.bind (ptTriggerForCoid st) = none →
    ∀ g ∈ st.coalesceOpen, groupExpired p g ev.serverTs = false →
      ∀ f ∈ g.fills, f.bucketSd = some sd

/-- The event mixes no buckets in a group and takes no batch on an unknown strike. -/
def KeepsBucket (p : V33Params) (st : V33State) (ev : Event) : Prop :=
  JoinsOwn p st ev ∧ (servesWings p st ev = true →
    p.noOrdersAfterSToSettle ≤ (st.closeEpoch : ℚ) - ev.serverTs →
      KnownStrikes p (withBook st ev) ev.serverTs ∧ KnownFill p st ev)

instance (p : V33Params) (st : V33State) (sd : ℤ) (now : ℚ) : Decidable (Quoted p st sd now) :=
  inferInstanceAs (Decidable (_ ∧ _))

instance (p : V33Params) (st : V33State) (sd : ℤ) : Decidable (BothSeen p st sd) :=
  inferInstanceAs (Decidable (_ ∧ _))

instance (p : V33Params) (st : V33State) (sd : ℤ) (now : ℚ) :
    Decidable (KnownBucket p st sd now) :=
  inferInstanceAs (Decidable (Quoted p st sd now → BothSeen p st sd))

instance (p : V33Params) (st : V33State) (now : ℚ) : Decidable (KnownStrikes p st now) :=
  decidable_of_iff
    ((∀ b ∈ st.wingBatches, b.printThrough = false → b.taken = false →
      ∀ sd ∈ batchBucket b, KnownBucket p st sd now) ∧
      ∀ g ∈ st.coalesceOpen, groupExpired p g now = true →
        ∀ sd ∈ fillsBucket g.fills, KnownBucket p st sd now)
    ⟨fun h => ⟨h.1, h.2⟩, fun h => ⟨h.waiting, h.expired⟩⟩

instance (p : V33Params) (st : V33State) (ev : Event) : Decidable (KnownFill p st ev) :=
  inferInstanceAs (Decidable (p.wingCoalesceMs < 0 → ∀ rf ∈ bookedFill p st ev,
    ∀ sd ∈ rf.bucketSd, KnownBucket p (withBook st ev) sd ev.serverTs))

instance (p : V33Params) (st : V33State) (ev : Event) : Decidable (JoinsOwn p st ev) :=
  inferInstanceAs (Decidable (∀ rf ∈ bookedFill p st ev, ∀ sd ∈ rf.bucketSd,
    rf.coid.bind (ptTriggerForCoid st) = none → ∀ g ∈ st.coalesceOpen,
      groupExpired p g ev.serverTs = false → ∀ f ∈ g.fills, f.bucketSd = some sd))

instance (p : V33Params) (st : V33State) (ev : Event) : Decidable (KeepsBucket p st ev) :=
  inferInstanceAs (Decidable (_ ∧ _))

/-! ### The invariant -/

/-- The fills are there and are all of one bucket. -/
def OneBucket (fills : List RungFill) : Prop := fills ≠ [] ∧ ∃ sd, ∀ f ∈ fills, f.bucketSd = some sd

/-- The strike of a leg on a side of a bucket. -/
def legFloor (p : V33Params) (sd : ℤ) (side : Side) : ℤ :=
  match side with
  | .yes => sd
  | .no => sd + p.bucketWidth

/-- Tickers are kept under their strikes, groups and regular batches are of one bucket, and the
legs of a regular batch are on its strikes. -/
structure HedgesOk (p : V33Params) (st : V33State) : Prop where
  tickers : ∀ strike ticker, st.strikeTickers.get? strike = some ticker →
    classifyTicker ticker st.bucketMap st.strikeFloorMap = some (.strike strike)
  grouped : ∀ g ∈ st.coalesceOpen, OneBucket g.fills
  bucketed : ∀ b ∈ st.wingBatches, b.printThrough = false → OneBucket b.fills
  placed : ∀ b ∈ st.wingBatches, b.printThrough = false → ∀ l ∈ st.wingLegs, l.batch = b.index →
    ∃ sd, batchBucket b = some sd ∧ StrikeOf st l.ticker (legFloor p sd l.side)

/-- A regular batch goes on: it hedges the same fills. -/
structure RegularStays (b b' : WingBatch) : Prop where
  regular : b.printThrough = false
  index : b'.index = b.index
  fills : b'.fills = b.fills
  bucketSd : b'.bucketSd = b.bucketSd
  taken : b.taken = true → b'.taken = true

/-- The open group stays, and so does every regular batch. -/
structure SameRegular (st st' : V33State) : Prop where
  opened : st'.coalesceOpen = st.coalesceOpen
  batches : ∀ b' ∈ st'.wingBatches, b'.printThrough = false →
    ∃ b ∈ st.wingBatches, RegularStays b b'

section Hedges

variable {p : V33Params} {now : ℚ} {st st' st'' : V33State} {acts : List V33Action}

/-- The bucket of a batch whose fills are of one. -/
theorem OneBucket.bucket {b : WingBatch} (h : OneBucket b.fills) :
    ∃ sd, batchBucket b = some sd ∧ ∀ f ∈ b.fills, f.bucketSd = some sd := by
  obtain ⟨hne, sd, hall⟩ := h
  obtain ⟨f, rest, hcons⟩ := List.exists_cons_of_ne_nil hne
  refine ⟨sd, ?_, hall⟩
  have hf : f.bucketSd = some sd := hall f (by simp [hcons])
  simp [batchBucket, fillsBucket, hcons, hf]

/-- A regular batch that stays keeps its bucket. -/
theorem RegularStays.batchBucket {b b' : WingBatch} (h : RegularStays b b') :
    batchBucket b' = V33.batchBucket b := by
  unfold V33.batchBucket
  rw [h.fills, h.bucketSd]

/-- A regular batch stays as it is. -/
theorem RegularStays.refl {b : WingBatch} (h : b.printThrough = false) : RegularStays b b :=
  ⟨h, rfl, rfl, rfl, id⟩

/-- A regular batch stays from step to step. -/
theorem RegularStays.trans {a b c : WingBatch} (h : RegularStays a b) (k : RegularStays b c) :
    RegularStays a c :=
  ⟨h.regular, k.index.trans h.index, k.fills.trans h.fills, k.bucketSd.trans h.bucketSd,
    fun ht => k.taken (h.taken ht)⟩

/-- Nothing changes. -/
theorem SameRegular.refl (st : V33State) : SameRegular st st :=
  ⟨rfl, fun b hb hregular => ⟨b, hb, RegularStays.refl hregular⟩⟩

/-- Two steps that keep the regular batches keep them together. -/
theorem SameRegular.trans (h : SameRegular st st') (k : SameRegular st' st'') :
    SameRegular st st'' := by
  refine ⟨k.opened.trans h.opened, fun b'' hb'' hregular => ?_⟩
  obtain ⟨b', hb', hstays'⟩ := k.batches b'' hb'' hregular
  obtain ⟨b, hb, hstays⟩ := h.batches b' hb' hstays'.regular
  exact ⟨b, hb, hstays.trans hstays'⟩

/-- One batch is updated, and hedges the same if it is regular. -/
theorem SameRegular.update {f : WingBatch → WingBatch} {i : ℕ}
    (hf : ∀ b ∈ st.wingBatches, b.index = i → (f b).printThrough = false → RegularStays b (f b))
    (hbatches : st'.wingBatches = replaceBatch st.wingBatches i f)
    (hopen : st'.coalesceOpen = st.coalesceOpen) : SameRegular st st' := by
  refine ⟨hopen, fun b' hb' hregular => ?_⟩
  rw [hbatches] at hb'
  rcases mem_replaceFirst hb' with hb' | ⟨b, hb, hi, rfl⟩
  · exact ⟨b', hb', RegularStays.refl hregular⟩
  · exact ⟨b, hb, hf b hb (by simpa using hi) hregular⟩

/-- A step that spares the batches and the open group keeps the regular batches. -/
theorem SameRegular.same (hbatches : st'.wingBatches = st.wingBatches)
    (hopen : st'.coalesceOpen = st.coalesceOpen) : SameRegular st st' := by
  refine ⟨hopen, fun b hb hregular => ⟨b, ?_, RegularStays.refl hregular⟩⟩
  rwa [hbatches] at hb

/-- Counting a completed set keeps the regular batches. -/
theorem sameRegular_closeSet (index : ℕ) : SameRegular st (maybeCloseSet st index) := by
  unfold maybeCloseSet
  split
  · exact .same rfl rfl
  · split_ifs
    · exact .same rfl rfl
    · exact .same rfl rfl
    · exact .update (i := index)
        (f := fun b => { b with completed := true, oneLegged := false, resolved := true })
        (fun b _ _ h => ⟨h, rfl, rfl, rfl, id⟩) rfl rfl
    · exact .update (i := index)
        (f := fun b => { b with completed := true, oneLegged := false })
        (fun b _ _ h => ⟨h, rfl, rfl, rfl, id⟩) rfl rfl

/-- Resizing a trigger's batch keeps the regular batches. -/
theorem sameRegular_resize (index : ℕ) (count : ℚ) (idx : ℕ)
    (f : PrintThroughTrigger → PrintThroughTrigger) :
    SameRegular st (replacePt (resizeBatch st index count) idx f) :=
  .update (i := index) (f := fun x => { x with takenCount := count })
    (fun _ _ _ h => ⟨h, rfl, rfl, rfl, id⟩) rfl rfl

/-- The batch of a trigger is pre-emptive: a taker's lots join no regular batch. -/
theorem sameRegular_takerFill (h : TriggersOk st) {t : PrintThroughTrigger}
    (ht : t.batchIndex ∈ st.printThroughTriggers.map PrintThroughTrigger.batchIndex)
    (price count : ℚ) : SameRegular st (ptBookTakerComplete p st t price count now) := by
  unfold ptBookTakerComplete
  dsimp only
  split_ifs
  · exact .refl st
  · split
    · exact .refl st
    · next b hb =>
      refine .update (i := b.index) (f := fun x => { x with fills :=
        x.fills ++ [takerFill p st b price (qCount count) now] }) (fun c hc hci hregular => ?_)
        rfl rfl
      have hearly := (h.early c hc (by rw [hci, batchOf_index hb]; exact ht)).1
      rw [hearly] at hregular
      cases hregular

/-- Every wing operation but the flush of the group leaves the regular batches. -/
theorem WingOp.sameRegular (hop : WingOp p now st acts st') (h : TriggersOk st) :
    st' = coalesceFlush p st now ∨ SameRegular st st' := by
  cases hop with
  | flush => exact Or.inl rfl
  | mirror | settle => exact Or.inr (.same rfl rfl)
  | flag index f sets keeps =>
    refine Or.inr (.update (i := index) (f := f) (fun b _ _ hr => ?_) rfl rfl)
    refine ⟨?_, keeps.index b, keeps.fills b, keeps.bucketSd b, fun ht => ?_⟩
    · rw [← keeps.printThrough b]
      exact hr
    · rw [keeps.taken b]
      exact ht
  | take b sd ya na =>
    exact Or.inr (.update (i := b.index) (f := fun b => { b with taken := true })
      (fun _ _ _ hr => ⟨hr, rfl, rfl, rfl, fun _ => rfl⟩) rfl rfl)
  | takePartial b sd =>
    have htaken : ∀ x : List WingLeg, ∀ n, SameRegular st { st with
        coidSeq := n
        wingLegs := x
        wingBatches := replaceBatch st.wingBatches b.index fun b => { b with taken := true } } :=
      fun _ _ => .update (i := b.index) (f := fun b => { b with taken := true })
        (fun _ _ _ hr => ⟨hr, rfl, rfl, rfl, fun _ => rfl⟩) rfl rfl
    right
    unfold takeBatchPartial
    dsimp only
    split_ifs
    · split
      · exact htaken _ _
      · exact htaken _ _
      · exact .refl st
    · exact .refl st
  | retry b sd ya na =>
    right
    unfold retryBatch
    dsimp only
    split_ifs
    · exact .refl st
    · exact .refl st
    · obtain ⟨n, hn, -⟩ := @retryLegs_st p now b.index ya na st.wingLegs st
      rw [hn]
      exact .update (i := b.index) (f := fun x => { x with retries := b.retries +
        (retryLegs p b.index ya na now st.wingLegs st).2.acts.length })
        (fun _ _ _ hr => ⟨hr, rfl, rfl, rfl, id⟩) rfl rfl
  | net l m =>
    right
    unfold netPair
    cases l.side <;> exact .same rfl rfl
  | fire sd ya na yesPrint =>
    refine Or.inr ⟨rfl, fun b hb hregular => ?_⟩
    rcases List.mem_append.mp hb with hb | hb
    · exact ⟨b, hb, RegularStays.refl hregular⟩
    · rw [List.mem_singleton.mp hb] at hregular
      cases hregular
  | unwind idx t t' b resolution =>
    right
    unfold ptUnwind
    dsimp only
    split_ifs
    · exact (sameRegular_resize _ _ _ _).trans (sameRegular_closeSet _)
    · exact ⟨rfl, fun x hx hregular =>
        ⟨x, List.mem_of_mem_filter hx, RegularStays.refl hregular⟩⟩
  | complete idx t t' b shortfall noAsk lockPer ht hres hsame =>
    right
    cases hs : st.shakedown with
    | true =>
      have hearly : t.batchIndex ∈
          st.printThroughTriggers.map PrintThroughTrigger.batchIndex := by
        rw [← hsame]
        exact List.mem_map_of_mem (List.mem_of_getElem? ht)
      have hbooked := @sameRegular_takerFill p now st h t hearly noAsk shortfall
      have hresolved : SameRegular (ptBookTakerComplete p st t noAsk shortfall now)
          (replacePt (ptBookTakerComplete p st t noAsk shortfall now) idx
            (completedTrigger shortfall noAsk lockPer now t.completeCoid)) := .same rfl rfl
      obtain ⟨x, hx, -⟩ := latchIfDone_eq p
        (bookedCompletion p st idx t b shortfall noAsk lockPer now)
      rw [ptComplete_of_shakedown _ _ _ _ _ _ hs, hx]
      have hclosed := (hbooked.trans hresolved).trans (sameRegular_closeSet b.index)
      exact ⟨hclosed.opened, hclosed.batches⟩
    | false =>
      rw [ptComplete_of_armed _ _ _ _ _ _ hs]
      exact .same rfl rfl
  | short idx t' b => exact Or.inr (sameRegular_resize _ _ _ _)
  | takerFill t price count early => exact Or.inr (sameRegular_takerFill h early price count)

/-! ### Legs -/

/-- A leg of the same batch on the same side of the same market. -/
structure SameMarket (l l' : WingLeg) : Prop where
  batch : l'.batch = l.batch
  ticker : l'.ticker = l.ticker
  side : l'.side = l.side

/-- What an operation does to the legs: it leaves their markets, it takes a regular batch on the
strikes of its bucket while one of them is quoted, or it takes a new batch. -/
inductive LegsAfter (p : V33Params) (now : ℚ) (st st' : V33State) : Prop
  | stay (h : ∀ l' ∈ st'.wingLegs, ∃ l ∈ st.wingLegs, SameMarket l l')
  | take (b : WingBatch) (sd : ℤ) (more : List WingLeg) (batch : batchOf st b.index = some b)
      (regular : b.printThrough = false) (fresh : b.taken = false)
      (bucket : batchBucket b = some sd) (quoted : Quoted p st sd now)
      (legs : st'.wingLegs = st.wingLegs ++ more)
      (placed : ∀ l ∈ more, l.batch = b.index ∧
        l.ticker = strikeTicker st (legFloor p sd l.side))
  | early (more : List WingLeg) (legs : st'.wingLegs = st.wingLegs ++ more)
      (placed : ∀ l ∈ more, l.batch = st.nextBatchIndex)

/-- A leg is in its own market. -/
theorem SameMarket.refl (l : WingLeg) : SameMarket l l := ⟨rfl, rfl, rfl⟩

/-- Legs that are left alone are the old ones. -/
theorem legsAfter_same (h : st'.wingLegs = st.wingLegs) : LegsAfter p now st st' := by
  apply LegsAfter.stay
  rw [h]
  exact fun l hl => ⟨l, hl, SameMarket.refl l⟩

/-- Legs changed within their markets are the old ones. -/
theorem legsAfter_map {f : WingLeg → WingLeg} (hf : ∀ l, SameMarket l (f l))
    (h : st'.wingLegs = st.wingLegs.map f) : LegsAfter p now st st' := by
  apply LegsAfter.stay
  rw [h]
  intro l' hl'
  obtain ⟨l, hl, rfl⟩ := List.mem_map.mp hl'
  exact ⟨l, hl, hf l⟩

/-- A leg that is sent again stays on its market. -/
theorem sameMarket_retryLegs (index : ℕ) (ya na : ℚ) (legs : List WingLeg) (s : V33State) :
    ∀ l' ∈ (retryLegs p index ya na now legs s).1, ∃ l ∈ legs, SameMarket l l' := by
  induction legs generalizing s with
  | nil => simp [retryLegs]
  | cons leg legs ih =>
    have hrest (r : List WingLeg) (hr : ∀ l' ∈ r, ∃ l ∈ legs, SameMarket l l') :
        ∀ l' ∈ r, ∃ l ∈ leg :: legs, SameMarket l l' := fun l' hl' => by
      obtain ⟨l, hl, hsame⟩ := hr l' hl'
      exact ⟨l, List.mem_cons_of_mem _ hl, hsame⟩
    unfold retryLegs
    split_ifs
    · refine List.forall_mem_cons.mpr ⟨⟨leg, by simp, rfl, rfl, rfl⟩, hrest _ (ih _)⟩
    · exact List.forall_mem_cons.mpr ⟨⟨leg, by simp, SameMarket.refl leg⟩, hrest _ (ih _)⟩

/-- Prices for both wings mean that the feed is alive and that the lower strike is quoted. -/
theorem quoted_of_prices {sd : ℤ} {ya na : ℚ}
    (h : wingPricesForBucket p st sd (sd + p.bucketWidth) now = some (ya, na)) :
    Quoted p st sd now := by
  unfold wingPricesForBucket at h
  split_ifs at h with halive
  refine ⟨halive, Or.inl ?_⟩
  unfold wingPrices at h
  split at h
  · next sdTop suTop hsd hsu =>
    split_ifs at h with h1 h2 h3
    rw [not_or] at h1
    split at h
    · next y n hy hn =>
      split_ifs at h with hvalid
      simp only [wingLegAsk, hsd, hy]
      rw [if_neg h1.1, if_neg h2, Option.filter_some]
      simp [hvalid.1]
    · cases h
  · cases h

/-- A partial take of a regular batch adds legs on its bucket's strikes. -/
theorem legsAfter_takePartial {b : WingBatch} {sd : ℤ} (hb : batchOf st b.index = some b)
    (hregular : b.printThrough = false) (hfresh : b.taken = false)
    (hbucket : batchBucket b = some sd) :
    LegsAfter p now st (takeBatchPartial p st b sd (sd + p.bucketWidth) now).st := by
  unfold takeBatchPartial
  dsimp only
  split_ifs with halive
  · cases hya : wingLegAsk p st sd .yes now with
    | some ya =>
      refine .take b sd _ hb hregular hfresh hbucket ⟨halive, Or.inl (by rw [hya]; rfl)⟩ rfl ?_
      simp only [List.forall_mem_cons]
      exact ⟨⟨rfl, rfl⟩, ⟨rfl, rfl⟩, by simp⟩
    | none =>
      cases hna : wingLegAsk p st (sd + p.bucketWidth) .no now with
      | some na =>
        refine .take b sd _ hb hregular hfresh hbucket ⟨halive, Or.inr (by rw [hna]; rfl)⟩ rfl ?_
        simp only [List.forall_mem_cons]
        exact ⟨⟨rfl, rfl⟩, ⟨rfl, rfl⟩, by simp⟩
      | none => exact legsAfter_same rfl
  · exact legsAfter_same rfl

/-- Counting a completed set changes no leg. -/
theorem wingLegs_closeSet (index : ℕ) : (maybeCloseSet st index).wingLegs = st.wingLegs := by
  unfold maybeCloseSet
  split
  · rfl
  · split_ifs <;> rfl

/-- The fill of a taker leg changes no leg. -/
theorem wingLegs_takerFill (t : PrintThroughTrigger) (price count : ℚ) :
    (ptBookTakerComplete p st t price count now).wingLegs = st.wingLegs := by
  unfold ptBookTakerComplete
  dsimp only
  split_ifs
  · rfl
  · split <;> rfl

/-- A shrunk leg stays in its market. -/
theorem sameMarket_shrink (index : ℕ) (count : ℚ) (l : WingLeg) : SameMarket l
    (if l.batch = index ∧ l.status = .filled then { l with count := count } else l) := by
  split_ifs
  · exact ⟨rfl, rfl, rfl⟩
  · exact SameMarket.refl l

/-- Each operation on the wings keeps the legs, or adds some on their bucket's strikes. -/
theorem WingOp.legsAfter (hop : WingOp p now st acts st') : LegsAfter p now st st' := by
  cases hop with
  | flush =>
    apply legsAfter_same
    unfold coalesceFlush
    split
    · rfl
    · split_ifs <;> rfl
  | mirror | settle | flag => exact legsAfter_same rfl
  | take b sd ya na hb hfresh hregular hbucket hprices =>
    refine .take b sd _ hb hregular hfresh hbucket (quoted_of_prices hprices) rfl ?_
    simp only [List.forall_mem_cons]
    exact ⟨⟨rfl, rfl⟩, ⟨rfl, rfl⟩, by simp⟩
  | takePartial b sd hb hfresh hregular hbucket =>
    exact legsAfter_takePartial hb hregular hfresh hbucket
  | retry b sd ya na =>
    unfold retryBatch
    dsimp only
    split_ifs
    · exact legsAfter_same rfl
    · exact legsAfter_same rfl
    · exact .stay (sameMarket_retryLegs b.index ya na st.wingLegs st)
  | net l m =>
    have hnet (x : WingLeg) (q : ℚ) : SameMarket x
        (if x.clientOrderId = l.clientOrderId ∨ x.clientOrderId = m.clientOrderId then
          { x with netted := qCount (x.netted + q) } else x) := by
      split_ifs
      · exact ⟨rfl, rfl, rfl⟩
      · exact SameMarket.refl x
    unfold netPair
    cases l.side <;> exact legsAfter_map (fun x => hnet x _) rfl
  | fire sd ya na yesPrint =>
    refine .early _ rfl ?_
    simp only [List.forall_mem_cons]
    exact ⟨rfl, rfl, by simp⟩
  | unwind idx t t' b =>
    unfold ptUnwind
    dsimp only
    split_ifs
    · refine legsAfter_map (sameMarket_shrink b.index b.totalCount) ?_
      exact wingLegs_closeSet b.index
    · exact .stay fun l hl => ⟨l, List.mem_of_mem_filter hl, SameMarket.refl l⟩
  | complete idx t t' b shortfall noAsk lockPer =>
    cases hs : st.shakedown with
    | true =>
      obtain ⟨x, hx, -⟩ := latchIfDone_eq p
        (bookedCompletion p st idx t b shortfall noAsk lockPer now)
      rw [ptComplete_of_shakedown _ _ _ _ _ _ hs, hx]
      apply legsAfter_same
      exact (wingLegs_closeSet b.index).trans (wingLegs_takerFill t noAsk shortfall)
    | false =>
      rw [ptComplete_of_armed _ _ _ _ _ _ hs]
      exact legsAfter_same rfl
  | short idx t' b => exact legsAfter_map (sameMarket_shrink b.index b.totalCount) rfl
  | takerFill t price count => exact legsAfter_same (wingLegs_takerFill t price count)

/-! ### What keeps the hedges -/

/-- The strike of a ticker is a matter of the window. -/
theorem StrikeOf.window {ticker : String} {floor : ℤ} (h : StrikeOf st ticker floor)
    (hwindow : st'.toWindow = st.toWindow) : StrikeOf st' ticker floor := by
  refine ⟨h.named, ?_⟩
  rw [congrArg Window.bucketMap hwindow, congrArg Window.strikeFloorMap hwindow]
  exact h.floor

/-- A strike that was seen has its ticker. -/
theorem HedgesOk.strikeOf (h : HedgesOk p st) {strike : ℤ} (hseen : strikeTicker st strike ≠ "") :
    StrikeOf st (strikeTicker st strike) strike := by
  refine ⟨hseen, ?_⟩
  unfold strikeTicker at hseen ⊢
  cases hget : st.strikeTickers.get? strike with
  | none =>
    rw [hget] at hseen
    exact absurd rfl hseen
  | some ticker => exact h.tickers strike ticker hget

/-- The batches after a flush: those there were, and that of an expired group. -/
theorem mem_flush {b : WingBatch} : b ∈ (coalesceFlush p st now).wingBatches ↔
    b ∈ st.wingBatches ∨ ∃ g, st.coalesceOpen = some g ∧ groupExpired p g now = true ∧
      b = batchOfGroup g := by
  unfold coalesceFlush
  split
  · next hnone => simp [hnone]
  · next g hg =>
    split_ifs with hexpired
    · simp [hg, hexpired]
    · simp [hg, hexpired]

/-- The buckets of the batches that wait after a flush have known strikes. -/
theorem knownStrikes_iff : KnownStrikes p st now ↔
    ∀ b ∈ (coalesceFlush p st now).wingBatches, b.printThrough = false → b.taken = false →
      ∀ sd ∈ batchBucket b, KnownBucket p st sd now := by
  have hgroup (g : CoalesceGroup) : batchBucket (batchOfGroup g) = fillsBucket g.fills := by
    simp [batchBucket, batchOfGroup]
  constructor
  · intro h b hb hr hfresh sd hsd
    rcases mem_flush.mp hb with hb | ⟨g, hg, hexpired, rfl⟩
    · exact h.waiting b hb hr hfresh sd hsd
    · rw [hgroup] at hsd
      exact h.expired g hg hexpired sd hsd
  · intro h
    constructor
    · intro b hb hr hfresh sd hsd
      exact h b (mem_flush.mpr (Or.inl hb)) hr hfresh sd hsd
    · intro g hg hexpired sd hsd
      refine h (batchOfGroup g) (mem_flush.mpr (Or.inr ⟨g, hg, hexpired, rfl⟩)) rfl rfl sd ?_
      rw [hgroup]
      exact hsd

/-- The books and the window stay, the regular batches too, and the legs stay on their markets
or are placed on strikes that were seen. -/
theorem HedgesOk.keep (h : HedgesOk p st) (hbatches : BatchesOk st)
    (hwindow : st'.toWindow = st.toWindow) (hbooks : st'.toBooks = st.toBooks)
    (hregular : SameRegular st st') (hlegs : LegsAfter p now st st')
    (hknown : KnownStrikes p st now) : HedgesOk p st' := by
  refine ⟨?_, ?_, fun b' hb' hr => ?_, fun b' hb' hr l' hl' hi => ?_⟩
  · rw [congrArg Books.strikeTickers hbooks, congrArg Window.bucketMap hwindow,
      congrArg Window.strikeFloorMap hwindow]
    exact h.tickers
  · rw [hregular.opened]
    exact h.grouped
  · obtain ⟨b, hb, hstays⟩ := hregular.batches b' hb' hr
    rw [hstays.fills]
    exact h.bucketed b hb hstays.regular
  · obtain ⟨b, hb, hstays⟩ := hregular.batches b' hb' hr
    rw [hstays.batchBucket]
    have hold (l : WingLeg) (hl : l ∈ st.wingLegs) (hsame : SameMarket l l') :
        ∃ sd, batchBucket b = some sd ∧ StrikeOf st' l'.ticker (legFloor p sd l'.side) := by
      have hlb : l.batch = b.index := by rw [← hsame.batch, hi, hstays.index]
      obtain ⟨sd, hsd, hstrike⟩ := h.placed b hb hstays.regular l hl hlb
      refine ⟨sd, hsd, ?_⟩
      rw [hsame.ticker, hsame.side]
      exact hstrike.window hwindow
    cases hlegs with
    | stay hstay =>
      obtain ⟨l, hl, hsame⟩ := hstay l' hl'
      exact hold l hl hsame
    | take c sd more hc hcr hfresh hbucket hquoted hlegs hplaced =>
      rw [hlegs] at hl'
      rcases List.mem_append.mp hl' with hl' | hl'
      · exact hold l' hl' (SameMarket.refl l')
      · obtain ⟨hlc, hticker⟩ := hplaced l' hl'
        have hmem : c ∈ st.wingBatches := List.mem_of_find?_eq_some hc
        have hbc : b = c := List.inj_on_of_nodup_map hbatches.batchIndex_nodup hb hmem
          (by rw [← hstays.index, ← hi, hlc])
        have hflushed : c ∈ (coalesceFlush p st now).wingBatches := by
          obtain ⟨more, hmore, -⟩ := (@grown_flush p now st).batches
          rw [hmore]
          exact List.mem_append_left _ hmem
        obtain ⟨hyes, hno⟩ := knownStrikes_iff.mp hknown c hflushed hcr hfresh sd hbucket hquoted
        refine ⟨sd, hbc ▸ hbucket, ?_⟩
        rw [hticker]
        cases l'.side with
        | yes => exact (h.strikeOf hyes).window hwindow
        | no => exact (h.strikeOf hno).window hwindow
    | early more hlegs hplaced =>
      rw [hlegs] at hl'
      rcases List.mem_append.mp hl' with hl' | hl'
      · exact hold l' hl' (SameMarket.refl l')
      · have hlt := hbatches.below b.index (List.mem_append_right _ (List.mem_map_of_mem hb))
        rw [← hstays.index, ← hi, hplaced l' hl'] at hlt
        exact absurd hlt (lt_irrefl _)

/-- The wings and the window stay, and the tickers are kept under their strikes. -/
theorem HedgesOk.reticker (h : HedgesOk p st) (hwindow : st'.toWindow = st.toWindow)
    (hwings : st'.toWings = st.toWings)
    (htickers : ∀ strike ticker, st'.strikeTickers.get? strike = some ticker →
      classifyTicker ticker st.bucketMap st.strikeFloorMap = some (.strike strike)) :
    HedgesOk p st' := by
  refine ⟨?_, ?_, ?_, fun b hb hr l hl hi => ?_⟩
  · rw [congrArg Window.bucketMap hwindow, congrArg Window.strikeFloorMap hwindow]
    exact htickers
  · rw [congrArg Wings.coalesceOpen hwings]
    exact h.grouped
  · rw [congrArg Wings.wingBatches hwings]
    exact h.bucketed
  · rw [congrArg Wings.wingBatches hwings] at hb
    rw [congrArg Wings.wingLegs hwings] at hl
    obtain ⟨sd, hsd, hstrike⟩ := h.placed b hb hr l hl hi
    exact ⟨sd, hsd, hstrike.window hwindow⟩

/-- What leaves the wings, the books and the window alone. -/
theorem HedgesOk.frame (h : HedgesOk p st) (hwindow : st'.toWindow = st.toWindow)
    (hbooks : st'.toBooks = st.toBooks) (hwings : st'.toWings = st.toWings) : HedgesOk p st' := by
  apply h.reticker hwindow hwings
  rw [congrArg Books.strikeTickers hbooks]
  exact h.tickers

/-- The group that closes is of one bucket, and its batch has no legs. -/
theorem HedgesOk.flush (h : HedgesOk p st) (hbatches : BatchesOk st) :
    HedgesOk p (coalesceFlush p st now) := by
  unfold coalesceFlush
  split
  · exact h
  · next g hg =>
    split_ifs
    · have hgroup := h.grouped g hg
      refine ⟨h.tickers, by simp, fun b hb hr => ?_, fun b hb hr l hl hi => ?_⟩
      · rcases List.mem_append.mp hb with hb | hb
        · exact h.bucketed b hb hr
        · rw [List.mem_singleton.mp hb]
          exact hgroup
      · rcases List.mem_append.mp hb with hb | hb
        · obtain ⟨sd, hsd, hstrike⟩ := h.placed b hb hr l hl hi
          exact ⟨sd, hsd, hstrike.window rfl⟩
        · rw [List.mem_singleton.mp hb] at hi
          have hnodup := hbatches.indices
          rw [batchIndices, openIndex, hg, Option.map_some, Option.toList_some,
            List.singleton_append, List.nodup_cons] at hnodup
          have howned := hbatches.owned l hl
          rw [hi] at howned
          exact absurd howned hnodup.1
    · exact h

/-- Every wing operation keeps the hedges while the strikes of the waiting batches are known. -/
theorem HedgesOk.wing (h : HedgesOk p st) (hbatches : BatchesOk st) (htriggers : TriggersOk st)
    (hknown : KnownStrikes p st now) (hop : WingOp p now st acts st') : HedgesOk p st' := by
  rcases hop.sameRegular htriggers with heq | hregular
  · rw [heq]
    exact h.flush hbatches
  · exact h.keep hbatches hop.frame.window hop.frame.books hregular hop.legsAfter hknown

/-- Under the dead feed nothing is quoted. -/
theorem knownStrikes_deadFeed (st : V33State) : KnownStrikes (deadFeed p) st now := by
  rw [knownStrikes_iff]
  rintro b - - - sd - ⟨halive, -⟩
  unfold strikeFeedAlive fresh deadFeed at halive
  split at halive
  · cases halive
  · next t _ =>
    rw [decide_eq_true_eq] at halive
    linarith [halive.1, halive.2]

/-- The dead feed changes no strike of a batch. -/
theorem hedgesOk_deadFeed : HedgesOk (deadFeed p) st ↔ HedgesOk p st :=
  ⟨fun h => ⟨h.tickers, h.grouped, h.bucketed, h.placed⟩,
    fun h => ⟨h.tickers, h.grouped, h.bucketed, h.placed⟩⟩

/-- No leg is placed. -/
theorem HedgesOk.stay (h : HedgesOk p st) (hbatches : BatchesOk st)
    (hwindow : st'.toWindow = st.toWindow) (hbooks : st'.toBooks = st.toBooks)
    (hregular : SameRegular st st')
    (hlegs : ∀ l' ∈ st'.wingLegs, ∃ l ∈ st.wingLegs, SameMarket l l') : HedgesOk p st' := by
  have hdead : HedgesOk (deadFeed p) st := hedgesOk_deadFeed.mpr h
  have hkept := @HedgesOk.keep (deadFeed p) 0 st st' hdead hbatches hwindow hbooks hregular
    (.stay hlegs) (knownStrikes_deadFeed st)
  exact hedgesOk_deadFeed.mp hkept

/-- What is known of a bucket is known from the books. -/
theorem KnownBucket.books {sd : ℤ} (h : KnownBucket p st sd now)
    (hbooks : st'.toBooks = st.toBooks) : KnownBucket p st' sd now := by
  unfold KnownBucket Quoted BothSeen strikeFeedAlive wingLegAsk strikeTicker at h ⊢
  rwa [congrArg Books.strikeTops hbooks, congrArg Books.strikeTs hbooks,
    congrArg Books.strikeFeedTs hbooks, congrArg Books.strikeTickers hbooks]

/-- The books stay, and every batch that waits is one that waited. -/
theorem KnownStrikes.keep (h : KnownStrikes p st now) (hbooks : st'.toBooks = st.toBooks)
    (hsub : ∀ b' ∈ (coalesceFlush p st' now).wingBatches, b'.printThrough = false →
      ∃ b ∈ (coalesceFlush p st now).wingBatches, RegularStays b b') : KnownStrikes p st' now := by
  rw [knownStrikes_iff] at h ⊢
  intro b' hb' hr huntaken sd hsd
  obtain ⟨b, hb, hstays⟩ := hsub b' hb' hr
  have huntaken' : b.taken = false := by
    cases ht : b.taken with
    | false => rfl
    | true =>
      rw [hstays.taken ht] at huntaken
      cases huntaken
  exact (h b hb hstays.regular huntaken' sd (by rwa [← hstays.batchBucket])).books hbooks

/-- The batches that wait while the regular batches stay. -/
theorem SameRegular.waiting (h : SameRegular st st') :
    ∀ b' ∈ (coalesceFlush p st' now).wingBatches, b'.printThrough = false →
      ∃ b ∈ (coalesceFlush p st now).wingBatches, RegularStays b b' := by
  intro b' hb' hr
  rcases mem_flush.mp hb' with hb' | ⟨g, hg, hexpired, rfl⟩
  · obtain ⟨b, hb, hstays⟩ := h.batches b' hb' hr
    exact ⟨b, mem_flush.mpr (Or.inl hb), hstays⟩
  · rw [h.opened] at hg
    exact ⟨_, mem_flush.mpr (Or.inr ⟨g, hg, hexpired, rfl⟩), RegularStays.refl hr⟩

/-- No group is expired right after a flush. -/
theorem unexpired_flush {g : CoalesceGroup} (hg : (coalesceFlush p st now).coalesceOpen = some g) :
    st.coalesceOpen = some g ∧ groupExpired p g now = false := by
  unfold coalesceFlush at hg
  split at hg
  · next hnone =>
    rw [hnone] at hg
    cases hg
  · next g' hg' =>
    split_ifs at hg with hexpired
    rw [hg'] at hg
    obtain rfl := Option.some.inj hg
    exact ⟨hg', by simpa using hexpired⟩

/-- Known strikes stay known through an operation on the wings. -/
theorem KnownStrikes.wing (h : KnownStrikes p st now) (htriggers : TriggersOk st)
    (hop : WingOp p now st acts st') : KnownStrikes p st' now := by
  rcases hop.sameRegular htriggers with rfl | hregular
  · refine h.keep hop.frame.books fun b' hb' hr => ⟨b', ?_, RegularStays.refl hr⟩
    rcases mem_flush.mp hb' with hb' | ⟨g, hg, hexpired, -⟩
    · exact hb'
    · rw [(unexpired_flush hg).2] at hexpired
      cases hexpired
  · exact h.keep hop.frame.books hregular.waiting

/-! ### Runs -/

/-- The batches and the triggers are in order, and so are the hedges. -/
structure HedgingOk (p : V33Params) (st : V33State) : Prop where
  batches : BatchesOk st
  triggers : TriggersOk st
  hedges : HedgesOk p st

/-- A step that hands the wings on keeps the hedging in order. -/
theorem HedgingOk.hands (h : HedgingOk p st) (hands : HandsOn st st') : HedgingOk p st' := by
  obtain ⟨hbatches, htriggers⟩ :=
    (triggersOk_invariant p).frame ⟨h.batches, h.triggers⟩ hands.wings hands.fills
  exact ⟨hbatches, htriggers, h.hedges.frame hands.window hands.books hands.wings⟩

/-- An operation on the wings with known strikes keeps the hedging in order. -/
theorem HedgingOk.wing (h : HedgingOk p st) (hknown : KnownStrikes p st now)
    (hop : WingOp p now st acts st') : HedgingOk p st' := by
  obtain ⟨hbatches, htriggers⟩ := (triggersOk_invariant p).wing hop ⟨h.batches, h.triggers⟩
  exact ⟨hbatches, htriggers, h.hedges.wing h.batches h.triggers hknown hop⟩

/-- A step that takes no batch keeps the hedges. -/
theorem HedgingOk.calmStep (h : HedgingOk p st) (hstep : CalmStep p now st st') :
    HedgingOk p st' := by
  cases hstep with
  | hands hands => exact h.hands hands
  | wing hop =>
    have hdead : HedgingOk (deadFeed p) st :=
      ⟨h.batches, h.triggers, hedgesOk_deadFeed.mpr h.hedges⟩
    have hdone := hdead.wing (knownStrikes_deadFeed st) hop
    exact ⟨hdone.batches, hdone.triggers, hedgesOk_deadFeed.mp hdone.hedges⟩
  | answer coid f hf =>
    obtain ⟨hbatches, htriggers⟩ :=
      (triggersOk_invariant p).legs coid f hf ⟨h.batches, h.triggers⟩
    refine ⟨hbatches, htriggers, h.hedges.stay h.batches rfl rfl (.same rfl rfl) fun l' hl' => ?_⟩
    rcases mem_replaceFirst hl' with hl' | ⟨l, hl, -, rfl⟩
    · exact ⟨l', hl', SameMarket.refl l'⟩
    · exact ⟨l, hl, hf.batch l, hf.ticker l, hf.side l⟩
  | unknown r pos hsd =>
    obtain ⟨hbatches, htriggers⟩ := (triggersOk_invariant p).book r pos ⟨h.batches, h.triggers⟩
    have hbooked : bookedState p st r now = recordFill p st r now := by rw [bookedState, hsd]
    refine ⟨hbatches, htriggers, ?_⟩
    rw [hbooked]
    exact h.hedges.frame rfl rfl rfl

/-- A calm stretch keeps the hedging in order. -/
theorem HedgingOk.calm (h : HedgingOk p st) (hrun : Calm p now st st') : HedgingOk p st' := by
  induction hrun with
  | refl => exact h
  | tail _ hstep ih => exact ih.calmStep hstep

/-- The wing step keeps the hedges while the strikes of the waiting batches are known. -/
theorem HedgingOk.wingStep (h : HedgingOk p st) (hknown : KnownStrikes p st now) :
    HedgingOk p (wingStep p st now).st := by
  have hrun := Run.preserves
    (I := fun s => HedgingOk p s ∧ KnownStrikes p s now)
    (fun _ _ _ hop hs => ⟨hs.1.wing hs.2 hop, hs.2.wing hs.1.triggers hop⟩)
    (@via_wingStep p now st) ⟨h, hknown⟩
  exact hrun.1

/-- A fill that is attached joins the batch of its trigger, which is not regular. -/
theorem sameRegular_attachFill (h : TriggersOk st) {t : PrintThroughTrigger} {coid : String}
    (ht : ptTriggerForCoid st coid = some t) (rf : RungFill) :
    SameRegular st (attachFill st t coid rf) := by
  have hmem : t.batchIndex ∈ st.printThroughTriggers.map PrintThroughTrigger.batchIndex :=
    List.mem_map_of_mem (List.mem_of_find?_eq_some ht)
  have hattached : SameRegular st { st with
      wingBatches := replaceBatch st.wingBatches t.batchIndex fun b =>
        { b with fills := b.fills ++ [rf] }
      printThroughTriggers := replaceFirst (fun t => !t.resolved && t.rungCoids.contains coid)
        (fun t => { t with filledCoids := t.filledCoids ++ [coid] })
        st.printThroughTriggers } := by
    refine .update (i := t.batchIndex) (f := fun b => { b with fills := b.fills ++ [rf] })
      (fun c hc hci hregular => ?_) rfl rfl
    have hearly := (h.early c hc (by rw [hci]; exact hmem)).1
    rw [hearly] at hregular
    cases hregular
  exact hattached.trans (sameRegular_closeSet t.batchIndex)

/-- A fill of the group's bucket, or of any bucket once the group is closed, joins the group. -/
theorem HedgesOk.coalesceAdd (h : HedgesOk p st) (hbatches : BatchesOk st) {rf : RungFill} {sd : ℤ}
    (hsd : rf.bucketSd = some sd)
    (hjoins : ∀ g ∈ st.coalesceOpen, groupExpired p g now = false →
      ∀ f ∈ g.fills, f.bucketSd = some sd) : HedgesOk p (coalesceAdd p st rf now) := by
  have hflush : HedgesOk p (coalesceFlush p st now) := h.flush hbatches
  have hplaced {s : V33State} (hwindow : s.toWindow = (coalesceFlush p st now).toWindow)
      (b : WingBatch) (hb : b ∈ (coalesceFlush p st now).wingBatches)
      (hr : b.printThrough = false) (l : WingLeg) (hl : l ∈ (coalesceFlush p st now).wingLegs)
      (hi : l.batch = b.index) :
      ∃ sd, batchBucket b = some sd ∧ StrikeOf s l.ticker (legFloor p sd l.side) := by
    obtain ⟨sd, hsd, hstrike⟩ := hflush.placed b hb hr l hl hi
    exact ⟨sd, hsd, hstrike.window hwindow⟩
  unfold V33.coalesceAdd
  dsimp only
  split
  · refine ⟨hflush.tickers, fun g hg => ?_, hflush.bucketed, hplaced rfl⟩
    obtain rfl := Option.some.inj hg
    exact ⟨by simp, sd, by simpa using hsd⟩
  · next g hg =>
    obtain ⟨hopen, hexpired⟩ := unexpired_flush hg
    refine ⟨hflush.tickers, fun g' hg' => ?_, hflush.bucketed, hplaced rfl⟩
    obtain rfl := Option.some.inj hg'
    refine ⟨by simp, sd, fun f hf => ?_⟩
    rcases List.mem_append.mp hf with hf | hf
    · exact hjoins g hopen hexpired f hf
    · rw [List.mem_singleton.mp hf]
      exact hsd

/-- A batch that waits after a fill joined the group waited before, or is that of the fill alone
when there is no time to coalesce. -/
theorem waiting_coalesceAdd (rf : RungFill) :
    ∀ b ∈ (coalesceFlush p (coalesceAdd p st rf now) now).wingBatches,
      b ∈ (coalesceFlush p st now).wingBatches ∨ p.wingCoalesceMs < 0 ∧ b.fills = [rf] := by
  have hbatches : (coalesceAdd p st rf now).wingBatches = (coalesceFlush p st now).wingBatches := by
    unfold coalesceAdd
    dsimp only
    split <;> rfl
  intro b hb
  rcases mem_flush.mp hb with hb | ⟨g, hg, hexpired, rfl⟩
  · rw [hbatches] at hb
    exact Or.inl hb
  · right
    unfold coalesceAdd at hg
    dsimp only at hg
    split at hg
    · obtain rfl := Option.some.inj hg
      have hneg : (p.wingCoalesceMs : ℚ) / 1000 < 0 := by simpa [groupExpired] using hexpired
      have hneg' : (p.wingCoalesceMs : ℚ) < 0 := by linarith
      exact ⟨by exact_mod_cast hneg', rfl⟩
    · next g' hg' =>
      obtain rfl := Option.some.inj hg
      have hopen : groupExpired p g' now = false := (unexpired_flush hg').2
      have hboth : groupExpired p g' now = true := hexpired
      rw [hopen] at hboth
      cases hboth

/-- A fill on a known bucket that is booked: it joins the batch that pre-hedged its rung, or the
group. -/
theorem HedgingOk.book (h : HedgingOk p st) (r : FillReport) (pos : 0 < r.delta) {sd : ℤ}
    (hsd : (rungFillOf p st r now).bucketSd = some sd)
    (hjoins : ptTriggerForCoid st r.coid = none → ∀ g ∈ st.coalesceOpen,
      groupExpired p g now = false → ∀ f ∈ g.fills, f.bucketSd = some sd) :
    HedgingOk p (bookedState p st r now) ∧ ((p.wingCoalesceMs < 0 → KnownBucket p st sd now) →
      KnownStrikes p st now → KnownStrikes p (bookedState p st r now) now) := by
  obtain ⟨hbatches, htriggers⟩ := (triggersOk_invariant p).book r pos ⟨h.batches, h.triggers⟩
  have hrecordedBatches : BatchesOk (recordFill p st r now) :=
    h.batches.frame rfl (List.forall_mem_append.mpr
      ⟨h.batches.fills, List.forall_mem_singleton.mpr (onGrid_qCount (qCount r.delta))⟩)
  have hrecorded : HedgesOk p (recordFill p st r now) := h.hedges.frame rfl rfl rfl
  have hbooked : bookedState p st r now =
      hedgeFill p (recordFill p st r now) r.coid (rungFillOf p st r now) now := by
    rw [bookedState, hsd]
  suffices hboth : HedgesOk p (bookedState p st r now) ∧
      ((p.wingCoalesceMs < 0 → KnownBucket p st sd now) → KnownStrikes p st now →
        KnownStrikes p (bookedState p st r now) now) from
    ⟨⟨hbatches, htriggers, hboth.1⟩, hboth.2⟩
  have hsame : SameRegular st (recordFill p st r now) := .same rfl rfl
  have hknown (k : KnownStrikes p st now) : KnownStrikes p (recordFill p st r now) now :=
    k.keep rfl hsame.waiting
  rw [hbooked]
  unfold hedgeFill
  split
  · next t ht =>
    have hregular := @sameRegular_attachFill (recordFill p st r now) (h.triggers.frame rfl) t
      r.coid ht (rungFillOf p st r now)
    have hframe := @hedgeFill_frame p now (recordFill p st r now) r.coid (rungFillOf p st r now)
    unfold hedgeFill at hframe
    rw [ht] at hframe
    refine ⟨hrecorded.stay hrecordedBatches hframe.window hframe.books hregular ?_,
      fun _ k => (hknown k).keep hframe.books hregular.waiting⟩
    unfold attachFill
    rw [wingLegs_closeSet]
    exact fun l hl => ⟨l, hl, SameMarket.refl l⟩
  · next hnone =>
    refine ⟨hrecorded.coalesceAdd hrecordedBatches hsd (hjoins hnone), fun hbucket k => ?_⟩
    have hbooks : (coalesceAdd p (recordFill p st r now) (rungFillOf p st r now) now).toBooks =
        st.toBooks := (grown_coalesceAdd (recordFill p st r now) _).books
    rw [knownStrikes_iff]
    intro b hb hr hfresh x hx
    rcases waiting_coalesceAdd _ b hb with hold | ⟨hneg, hfills⟩
    · exact (knownStrikes_iff.mp (hknown k) b hold hr hfresh x hx).books hbooks
    · have hxsd : x = sd := by
        simpa [batchBucket, fillsBucket, hfills, hsd, eq_comm] using hx
      rw [hxsd]
      exact (hbucket hneg).books hbooks

/-- An event moves the books alone before anything else. -/
theorem withBook_eq (st : V33State) (ev : Event) :
    ∃ b : Books, withBook st ev = { st with toBooks := b } := by
  cases ev with
  | bookUpdate e => exact foldBook_eq st e
  | _ => exact ⟨st.toBooks, rfl⟩

/-- A book is kept under the strike of its ticker. -/
theorem strikeTicker_foldBook (e : BookUpdate) {strike : ℤ} {ticker : String}
    (h : (stampStrikeFeed (foldBook st e) e).strikeTickers.get? strike = some ticker) :
    st.strikeTickers.get? strike = some ticker ∨
      classifyTicker ticker st.bucketMap st.strikeFloorMap = some (.strike strike) := by
  obtain ⟨t, ht⟩ := stampStrikeFeed_eq (foldBook st e) e
  rw [ht] at h
  unfold foldBook at h
  dsimp only at h
  split at h
  · exact Or.inl h
  · next floor hclass =>
    rw [Dict.get?_set] at h
    split_ifs at h with hfloor
    · obtain rfl := Option.some.inj h
      rw [hfloor]
      exact Or.inr hclass
    · exact Or.inl h
  · exact Or.inl h

/-- A book update keeps the hedging in order. -/
theorem HedgesOk.withBook (h : HedgesOk p st) (ev : Event) : HedgesOk p (withBook st ev) := by
  cases ev with
  | bookUpdate e =>
    obtain ⟨b, hb⟩ := withBook_eq st (.bookUpdate e)
    refine h.reticker (by rw [hb]) (by rw [hb]) fun strike ticker hget => ?_
    rcases strikeTicker_foldBook e hget with hold | hnew
    · exact h.tickers strike ticker hold
    · exact hnew
  | _ => exact h

/-- Only a book update moves the books, and it books no fill. -/
theorem withBook_of_booked {ev : Event} {rf : RungFill} (h : bookedFill p st ev = some rf) :
    withBook st ev = st := by
  cases ev with
  | bookUpdate e => simp [bookedFill, booking] at h
  | _ => rfl

/-- The wing step starts in the window of the event. -/
theorem Serves.closeEpoch {ev : Event} (h : Serves p st ev st') :
    st'.closeEpoch = st.closeEpoch := by
  cases h with
  | found hands =>
    obtain ⟨b, hb⟩ := withBook_eq st ev
    rw [congrArg Window.closeEpoch hands.window, hb]
  | @booked s t r pos hands fill known k =>
    have hframe := @bookedState_frame p ev.serverTs s r
    rw [congrArg Window.closeEpoch k.window, congrArg Window.closeEpoch hframe.window]
    exact congrArg Window.closeEpoch hands.window

/-- The wing step starts with the hedges in order, and on known strikes if the event says so. -/
theorem HedgingOk.serves (h : HedgingOk p st) {ev : Event} (hjoins : JoinsOwn p st ev)
    (start : Serves p st ev st') :
    HedgingOk p st' ∧ (KnownStrikes p (withBook st ev) ev.serverTs → KnownFill p st ev →
      KnownStrikes p st' ev.serverTs) := by
  have hmoved {s t : V33State} (hands : HandsOn s t) (k : KnownStrikes p s ev.serverTs) :
      KnownStrikes p t ev.serverTs := by
    have hsame : SameRegular s t := .same (congrArg Wings.wingBatches hands.wings)
      (congrArg Wings.coalesceOpen hands.wings)
    exact k.keep hands.books hsame.waiting
  cases start with
  | found hands =>
    have hbook : HedgingOk p (withBook st ev) := by
      obtain ⟨b, hb⟩ := withBook_eq st ev
      obtain ⟨hbatches, htriggers⟩ :=
        (triggersOk_invariant p).frame ⟨h.batches, h.triggers⟩
          (show (withBook st ev).toWings = st.toWings by rw [hb]) (by rw [hb])
      exact ⟨hbatches, htriggers, h.hedges.withBook ev⟩
    exact ⟨hbook.hands hands, fun k _ => hmoved hands k⟩
  | @booked s t r pos hands fill known k =>
    obtain ⟨sd, hsd⟩ := Option.isSome_iff_exists.mp known
    have hbook := (h.hands hands).book r pos hsd fun hnone g hg hexpired => by
      rw [ptTriggerForCoid, congrArg Wings.printThroughTriggers hands.wings] at hnone
      rw [congrArg Wings.coalesceOpen hands.wings] at hg
      exact hjoins _ fill sd hsd hnone g hg hexpired
    refine ⟨hbook.1.hands k, fun kstrikes kfill => ?_⟩
    have hstart : withBook st ev = st := withBook_of_booked fill
    rw [KnownFill, hstart] at kfill
    rw [hstart] at kstrikes
    apply hmoved k
    apply hbook.2 ?_ (hmoved hands kstrikes)
    intro hneg
    exact (kfill hneg _ fill sd hsd).books hands.books

/-- An event that mixes no buckets and takes no batch on an unknown strike keeps the hedges. -/
theorem HedgingOk.decide (h : HedgingOk p st) (hcoids : CoidsOk st) {ev : Event}
    (hkeeps : KeepsBucket p st ev) : HedgingOk p (decideV33 p st ev).st := by
  obtain ⟨hjoins, hknown⟩ := hkeeps
  cases serveRun_decide hcoids ev with
  | calm hcalm =>
    have hbook := (h.serves hjoins (.found (HandsOn.refl _))).1
    exact hbook.calm hcalm
  | served s hserves start hcalm =>
    obtain ⟨hstart, hstrikes⟩ := h.serves hjoins start
    refine HedgingOk.calm ?_ hcalm
    by_cases hcutoff : p.noOrdersAfterSToSettle ≤ (st.closeEpoch : ℚ) - ev.serverTs
    · obtain ⟨hwaiting, hfill⟩ := hknown hserves hcutoff
      exact hstart.wingStep (hstrikes hwaiting hfill)
    · have hepoch : s.closeEpoch = st.closeEpoch := start.closeEpoch
      refine hstart.calm (calm_wingStep s ?_)
      rw [hepoch]
      exact not_le.mp hcutoff

/-- A new window has nothing to hedge. -/
theorem HedgingOk.new (h : IsNew p st) : HedgingOk p st := by
  refine ⟨BatchesOk.new h, TriggersOk.new h, ?_⟩
  obtain ⟨_, _, _, _, _, _, rfl⟩ := h
  constructor <;> simp [V33State.new]

/-- In every run that mixes no buckets in a group and takes no batch on an unknown strike, each
regular batch that is taken has one leg on each strike of the bucket of its fills. -/
theorem right_bucket_hedge {evs : List Event} (hrun : Reached p (KeepsBucket p) evs st) :
    ∀ b ∈ st.wingBatches, b.taken = true → b.printThrough = false → ∃ sd, RightHedge p st b sd := by
  have hok : CoidsOk st ∧ HedgingOk p st := Reached.preserves
    (I := fun s => CoidsOk s ∧ HedgingOk p s)
    (fun _ hnew => ⟨CoidsOk.new hnew, HedgingOk.new hnew⟩)
    (fun _ ev hst hkeeps => ⟨hst.1.decide ev, hst.2.decide hst.1 hkeeps⟩) hrun
  have hpaired := (PairsOk.reached hrun).2.paired
  intro b hb htaken hregular
  have hbucketed := hok.2.hedges.bucketed b hb hregular
  obtain ⟨sd, hsd, hfills⟩ := hbucketed.bucket
  have hleg (l : WingLeg) (hl : l ∈ batchLegs st b.index) :
      StrikeOf st l.ticker (legFloor p sd l.side) := by
    obtain ⟨hmem, hi⟩ := List.mem_filter.mp hl
    obtain ⟨x, hx, hstrike⟩ := hok.2.hedges.placed b hb hregular l hmem (by simpa using hi)
    obtain rfl : sd = x := Option.some.inj (hsd.symm.trans hx)
    exact hstrike
  refine ⟨sd, hbucketed.1, hfills, hpaired b hb htaken, fun l hl hside => ?_, fun l hl hside => ?_⟩
  · have hstrike := hleg l hl
    rw [hside] at hstrike
    exact hstrike
  · have hstrike := hleg l hl
    rw [hside] at hstrike
    exact hstrike

end Hedges

/-- Two rungs of a bucket fill within one coalescing window, and the wings of their batch are taken
once it has passed. -/
def oneHedge : List Event :=
  sampleOpening ++
    [reportedFill "c-1" 1 (59 / 100) .no 1002 "B100",
      reportedFill "c-2" 1 (58 / 100) .no (1002 + 1 / 5) "B100", .clockTick 1004]

/-- The sample takes a batch of two fills, which has its wings on the strikes of their bucket. -/
theorem right_bucket_hedge_sample :
    ∃ b ∈ (after samplePolicy (sampleWindow samplePolicy) oneHedge).wingBatches,
      b.fills.length = 2 ∧
        ∃ sd, RightHedge samplePolicy (after samplePolicy (sampleWindow samplePolicy) oneHedge) b
          sd := by
  have htaken : ∃ b ∈ (after samplePolicy (sampleWindow samplePolicy) oneHedge).wingBatches,
      b.taken = true ∧ b.printThrough = false ∧ b.fills.length = 2 := by decide +kernel
  obtain ⟨b, hb, ht, hr, htwo⟩ := htaken
  exact ⟨b, hb, htwo, right_bucket_hedge (reached_sample (by decide +kernel)) b hb ht hr⟩

/-- The bucket switches. The cancel of the upper rung reports a lot that filled on the bucket
left, and a rung placed on the bucket entered fills within the same coalescing window. -/
def mixedBuckets : List Event :=
  sampleOpening ++
    [centBook "B200" 60 62 1002, .orderCancelled ⟨some "v1", 1003, 1, none, none, none⟩,
      .orderCancelled ⟨some "v2", 1003, 0, none, none, none⟩, .orderAck ⟨"c-3", "v3", 1003⟩,
      .fill ⟨some "v3", "c-3", 1, some (39 / 100), .no, 1003 + 1 / 5, some "B200", none⟩,
      .clockTick 1004]

/-- The two fills close into one batch, whose wings hedge the first bucket alone. -/
theorem mixed_buckets_misplaced :
    ¬∀ (p : V33Params) (evs : List Event) (st : V33State), Reached p (fun _ _ => True) evs st →
      ∀ b ∈ st.wingBatches, b.taken = true → b.printThrough = false →
        ∃ sd, RightHedge p st b sd := by
  intro hall
  have hmixed : ∃ b ∈ (after samplePolicy (sampleWindow samplePolicy) mixedBuckets).wingBatches,
      b.taken = true ∧ b.printThrough = false ∧
        ∃ f ∈ b.fills, ∃ g ∈ b.fills, f.bucketSd ≠ g.bucketSd := by decide +kernel
  obtain ⟨b, hb, htaken, hregular, f, hf, g, hg, hne⟩ := hmixed
  obtain ⟨sd, hhedge⟩ := hall samplePolicy mixedBuckets _
    (reached_sample (allAlong_of_forall fun _ _ _ => trivial)) b hb htaken hregular
  apply hne
  rw [hhedge.fills f hf, hhedge.fills g hg]

end Pilot.V33
