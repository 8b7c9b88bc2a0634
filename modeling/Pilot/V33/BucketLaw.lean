import Pilot.V33.Runs

/-!
# The bucket of the ladder

Every order rests on the ladder's bucket, and an amend names that bucket and a price of
a ladder top solved for it, as long as no bucket switch commits while amends are in
flight. The convergence skips its bucket change while an amend is in flight, so such a
switch rolls the old bucket's orders onto the new one.
-/

namespace Pilot.V33

/-- The ladder top is solved for bucket `sd` on the books in hand: under the cap of that
bucket, with the wings at its two strikes. -/
def SolvedFor (p : V33Params) (st : V33State) (sd : ℤ) (nTop : ℚ) : Prop :=
  ∃ now, solveN ((v33ComputeW p st sd (sd + p.bucketWidth) now).map fun w => 2 - p.eMin - w)
    (bucketCap st sd) = some nTop

/-- An amend is about an order of the ladder's bucket: it names the ticker of the bucket the
order rests on and a price derived from a ladder top solved for that bucket. -/
def AmendsOnBucket (p : V33Params) (st : V33State) (a : V33Action) : Prop :=
  a.kind.isAmend = true → ∃ o sd ticker nTop m,
    a.rest = some o ∧ a.orderId = o.orderId ∧ a.clientOrderId = some o.clientOrderId ∧
      o.bucketSd = some sd ∧ st.bucketTickers.get? sd = some ticker ∧ a.ticker = some ticker ∧
        SolvedFor p st sd nTop ∧ a.price = some (priceOfMargin p nTop m)

/-- The switch of the effective bucket at `now` commits to the ladder's bucket or away from
none, or no amend is in flight. -/
def switchesAtRest (p : V33Params) (st : V33State) (now : ℚ) : Prop :=
  st.rollsInFlight = [] ∨ (effectiveBucket p st now).sd = none ∨
    (effectiveBucket p st now).sd = st.restBucketSd

/-- The state with the book of the event, if it carries one. -/
def withBook (st : V33State) (ev : Event) : V33State :=
  match ev with
  | .bookUpdate e => stampStrikeFeed (foldBook st e) e
  | _ => st

/-- No bucket switch commits at the event while amends are in flight. -/
def SwitchesAtRest (p : V33Params) (st : V33State) (ev : Event) : Prop :=
  match ev with
  | .bookUpdate e => switchesAtRest p (withBook st ev) e.serverTs
  | .clockTick now => switchesAtRest p st now
  | _ => True

instance (p : V33Params) (st : V33State) (now : ℚ) : Decidable (switchesAtRest p st now) :=
  inferInstanceAs (Decidable (_ ∨ _ ∨ _))

instance (p : V33Params) (st : V33State) : ∀ ev, Decidable (SwitchesAtRest p st ev)
  | .bookUpdate e => inferInstanceAs (Decidable (switchesAtRest p _ e.serverTs))
  | .clockTick now => inferInstanceAs (Decidable (switchesAtRest p st now))
  | .trade _ | .orderAck _ | .orderAmended _ | .orderCancelled _ | .fill _ => .isTrue trivial

/-- The buckets of the state. -/
structure BucketsOk (p : V33Params) (st : V33State) : Prop where
  onRest : ∀ o ∈ st.ladder, o.bucketSd = st.restBucketSd
  named : st.ladder ≠ [] ∨ st.rollsInFlight ≠ [] → st.restBucketSd.isSome
  still : st.rollsInFlight ≠ [] → st.spotSd = none ∨ st.spotSd = st.restBucketSd
  solved : ∀ n, st.nTop = some n → ∃ sd, st.spotSd = some sd ∧ SolvedFor p st sd n
  spotSeen : ∀ sd, st.spotSd = some sd → st.bucketTickers.contains sd = true
  restSeen : ∀ sd, st.restBucketSd = some sd → st.bucketTickers.contains sd = true
  topSeen : ∀ sd, st.bucketTops.contains sd = true → st.bucketTickers.contains sd = true

section Buckets

variable {p : V33Params} {now : ℚ} {P : Permit} {st st' : V33State} {acts : List V33Action}

/-- Whether a top is solved for a bucket depends on the books alone. -/
theorem solvedFor_congr (h : st'.toBooks = st.toBooks) {sd : ℤ} {n : ℚ} :
    SolvedFor p st' sd n ↔ SolvedFor p st sd n := by
  have hW : ∀ now, v33ComputeW p st' sd (sd + p.bucketWidth) now =
      v33ComputeW p st sd (sd + p.bucketWidth) now := by
    intro now
    unfold v33ComputeW strikeFeedAlive computeW
    rw [h]
  have hcap : bucketCap st' sd = bucketCap st sd := by simp only [bucketCap, h]
  simp only [SolvedFor, hW, hcap]

/-- The buckets stay in order when orders and amends only leave. -/
theorem BucketsOk.shrink (h : BucketsOk p st) (hbooks : st'.toBooks = st.toBooks)
    (hquote : st'.toQuote = st.toQuote) (hrest : st'.restBucketSd = st.restBucketSd)
    (hladder : ∀ o ∈ st'.ladder, ∃ o' ∈ st.ladder, o'.bucketSd = o.bucketSd)
    (hrolls : st'.rollsInFlight ⊆ st.rollsInFlight) : BucketsOk p st' := by
  have hspot : st'.spotSd = st.spotSd := congrArg Quote.spotSd hquote
  have htop : st'.nTop = st.nTop := congrArg Quote.nTop hquote
  have htickers : st'.bucketTickers = st.bucketTickers := congrArg Books.bucketTickers hbooks
  have htops : st'.bucketTops = st.bucketTops := congrArg Books.bucketTops hbooks
  have hne : st'.rollsInFlight ≠ [] → st.rollsInFlight ≠ [] := by
    intro hn he
    rw [he] at hrolls
    exact hn (List.subset_nil.mp hrolls)
  refine ⟨fun o ho => ?_, fun hn => ?_, fun hn => ?_, fun n hn => ?_, ?_, ?_, ?_⟩
  · obtain ⟨o', ho', he⟩ := hladder o ho
    rw [hrest, ← he]
    exact h.onRest o' ho'
  · rw [hrest]
    refine h.named (hn.imp (fun hl he => ?_) hne)
    obtain ⟨o, ho⟩ := List.exists_mem_of_ne_nil _ hl
    obtain ⟨o', ho', -⟩ := hladder o ho
    simp [he] at ho'
  · rw [hspot, hrest]
    exact h.still (hne hn)
  · rw [htop] at hn
    rw [hspot]
    obtain ⟨sd, hsd, hsolved⟩ := h.solved n hn
    exact ⟨sd, hsd, (solvedFor_congr hbooks).mpr hsolved⟩
  · rw [hspot, htickers]
    exact h.spotSeen
  · rw [hrest, htickers]
    exact h.restSeen
  · rw [htops, htickers]
    exact h.topSeen

/-- What a quotable slot says of the spot bucket: with orders or amends about, it is the
ladder's bucket. -/
theorem BucketsOk.spot_eq_rest (h : BucketsOk p st) {nTop : ℚ} {m : ℕ} {price : ℚ}
    (hg : SlotGuard p now st nTop m price) : st.spotSd = st.restBucketSd ∧ st.spotSd.isSome := by
  have hq := quoting_of_gate hg.gate
  refine ⟨?_, hq.spot⟩
  rcases hg.bucket with hrolls | hrest | ⟨hnone, hladder⟩
  · rcases h.still hrolls with hspot | hspot
    · have := hq.spot
      simp [hspot] at this
    · exact hspot
  · exact hrest.symm
  · have := h.named (Or.inl hladder)
    simp [hnone] at this

/-- Every small ladder operation keeps the buckets in order. -/
theorem BucketsOk.op (hop : LadderOp p now P st acts st') (h : BucketsOk p st) :
    BucketsOk p st' := by
  have hself : ∀ o ∈ st.ladder, ∃ o' ∈ st.ladder, o'.bucketSd = o.bucketSd := fun o ho =>
    ⟨o, ho, rfl⟩
  cases hop with
  | drop =>
    rw [cancelAll_st]
    exact h.shrink rfl rfl rfl (by simp) (by simp)
  | clear =>
    rw [cancelAllThenReplace_st, cancelAll_st]
    exact h.shrink rfl rfl rfl (by simp) (by simp)
  | leaveBucket hempty hstill =>
    refine ⟨?_, ?_, ?_, h.solved, h.spotSeen, by simp, h.topSeen⟩
    · simp [hempty]
    · simp [hempty, hstill]
    · simp [hstill]
  | enterBucket hempty hstill hsettled hspot =>
    refine ⟨?_, fun _ => hspot, ?_, h.solved, h.spotSeen, h.spotSeen, h.topSeen⟩
    · simp [hempty]
    · simp [hstill]
  | create nTop m price guard =>
    obtain ⟨hrest, hspot⟩ := h.spot_eq_rest guard
    refine ⟨fun o ho => ?_, fun _ => hrest ▸ hspot, h.still, h.solved, h.spotSeen, h.restSeen,
      h.topSeen⟩
    simp only [placeSlot, placeOne, List.mem_append, List.mem_singleton] at ho
    rcases ho with ho | rfl
    · exact h.onRest o ho
    · exact hrest
  | roll o nTop m price guard =>
    obtain ⟨hrest, hspot⟩ := h.spot_eq_rest guard
    exact ⟨h.onRest, fun _ => hrest ▸ hspot, fun _ => Or.inr hrest, h.solved, h.spotSeen,
      h.restSeen, h.topSeen⟩
  | shrink o =>
    unfold shrinkOne
    dsimp only
    rw [retainCancelled_eq]
    exact h.shrink rfl rfl rfl (fun o ho => ⟨o, List.mem_of_mem_filter ho, rfl⟩) (by simp)
  | stallCancel coid =>
    unfold ptCancelRung
    split
    · exact h
    · dsimp only
      rw [retainCancelled_eq]
      exact h.shrink rfl rfl rfl (fun o ho => ⟨o, List.mem_of_mem_filter ho, rfl⟩) (by simp)
  | _ => exact h.shrink rfl rfl rfl hself (List.Subset.refl _)

/-- The amend of a roll is on the ladder's bucket. -/
theorem amendsOnBucket_roll (h : BucketsOk p st) {o : RestOrder} {nTop price : ℚ} {m : ℕ}
    (guard : SlotGuard p now st nTop m price) (movable : MovableGuard st o) :
    ∀ a ∈ (emitRoll p st o price m now).acts, AmendsOnBucket p st a := by
  intro a ha _
  obtain ⟨hrest, hspot⟩ := h.spot_eq_rest guard
  obtain ⟨sd, hsd⟩ := Option.isSome_iff_exists.mp hspot
  obtain ⟨ticker, hticker⟩ := Dict.contains_eq_true.mp (h.spotSeen sd hsd)
  obtain ⟨sd', hsd', hsolved⟩ := h.solved nTop (quoting_of_gate guard.gate).top
  obtain rfl : sd' = sd := Option.some.inj (hsd'.symm.trans hsd)
  have hprice : price = priceOfMargin p nTop m := by
    obtain ⟨k, -, hk⟩ := List.mem_map.mp (List.mem_of_mem_filter guard.slot)
    obtain ⟨rfl, rfl⟩ := Prod.mk.inj hk
    rfl
  simp only [emitRoll, List.mem_singleton] at ha
  subst ha
  refine ⟨o, sd', ticker, nTop, m, rfl, rfl, rfl, ?_, hticker, ?_, hsolved, ?_⟩
  · rw [h.onRest o movable.mem, ← hrest, hsd]
  · simp [mk, spotTicker, mintCoid, hsd, hticker]
  · simp [mk, hprice]

/-- The amends of every small ladder operation are on the ladder's bucket. -/
theorem amendsOnBucket_op {books : V33State} (hop : LadderOp p now P st acts st')
    (h : BucketsOk p st) (hbooks : st.toBooks = books.toBooks) :
    ∀ a ∈ acts, AmendsOnBucket p books a := by
  have hcongr : ∀ a, AmendsOnBucket p st a → AmendsOnBucket p books a := by
    intro a ha ham
    obtain ⟨o, sd, ticker, nTop, m, h1, h2, h3, h4, h5, h6, h7, h8⟩ := ha ham
    exact ⟨o, sd, ticker, nTop, m, h1, h2, h3, h4, congrArg Books.bucketTickers hbooks ▸ h5, h6,
      (solvedFor_congr hbooks).mp h7, h8⟩
  intro a ha
  cases hop.emits a ha with
  | report kind => exact fun ham => by cases hk : a.kind <;> simp [hk, ActionKind.isReport,
      ActionKind.isAmend] at kind ham
  | cancel o _ eq =>
    subst eq
    intro ham
    simp only [cancelAction, mk, twinKind] at ham
    cases hs : st.shakedown <;> simp [hs, ActionKind.isAmend] at ham
  | create nTop m price _ mem =>
    simp only [placeSlot, placeOne, List.mem_singleton] at mem
    subst mem
    intro ham
    simp only [placeAction, mk, twinKind] at ham
    split at ham <;> simp [ActionKind.isAmend] at ham
  | amend o nTop m price guard movable mem =>
    exact hcongr a (amendsOnBucket_roll h guard movable a mem)

/-- An order left after a fill rests on the bucket of one that was there. -/
theorem exists_bucket_of_mem_reduceOrder {ladder : List RestOrder} {coid : String} {delta : ℚ}
    {o : RestOrder} (ho : o ∈ reduceOrder ladder coid delta) :
    ∃ o' ∈ ladder, o'.bucketSd = o.bucketSd := by
  have hmem := List.mem_map_of_mem (f := RestOrder.bucketSd) ho
  simpa using (map_reduceOrder_sublist ladder coid delta RestOrder.bucketSd
    fun _ _ => rfl).subset hmem

/-- The law of the buckets, with the books of the decision. -/
theorem bucketsLaw (p : V33Params) (books : V33State) :
    LadderLaw p (fun (_ : Unit) _ => ()) (fun _ a => AmendsOnBucket p books a)
      (fun st _ => BucketsOk p st ∧ st.toBooks = books.toBooks) where
  frame hframe h :=
    ⟨h.1.shrink hframe.books hframe.quote (congrArg Ladder.restBucketSd hframe.ladder)
      (by
        rw [congrArg Ladder.ladder hframe.ladder]
        exact fun o ho => ⟨o, ho, rfl⟩)
      (by rw [congrArg Ladder.rollsInFlight hframe.ladder]; exact List.Subset.refl _),
      hframe.books.trans h.2⟩
  ignored _ a ha := ⟨fun ham => by
    cases hk : a.kind <;> simp [hk, ActionKind.isAmend, ActionKind.isReport, ActionKind.isWing]
      at ham ha, rfl⟩
  op hop h := ⟨allAlong_of_forall fun a ha _ => amendsOnBucket_op hop h.1 h.2 a ha,
    h.1.op hop, hop.frame.books.trans h.2⟩
  record r _ h := ⟨h.1.shrink rfl rfl rfl (fun o ho => exists_bucket_of_mem_reduceOrder ho)
    (List.Subset.refl _), h.2⟩
  seen _ _ h := ⟨h.1.shrink rfl rfl rfl (fun o ho => ⟨o, ho, rfl⟩) (List.Subset.refl _), h.2⟩

/-! ### Events -/

/-- The recomputed context keeps the buckets in order when no switch commits under amends in
flight. -/
theorem BucketsOk.recompute (onRest : ∀ o ∈ st.ladder, o.bucketSd = st.restBucketSd)
    (named : st.ladder ≠ [] ∨ st.rollsInFlight ≠ [] → st.restBucketSd.isSome)
    (restSeen : ∀ sd, st.restBucketSd = some sd → st.bucketTickers.contains sd = true)
    (topSeen : ∀ sd, st.bucketTops.contains sd = true → st.bucketTickers.contains sd = true)
    (hswitch : switchesAtRest p st now) : BucketsOk p (recomputeContext p st now) := by
  obtain ⟨q, x, heq, hspot, htop, -⟩ := recomputeContext_eq p st now
  have hladder : (recomputeContext p st now).ladder = [] ↔ st.ladder = [] := by
    rw [heq]
    simp
  have hsolved : ∀ n, q.nTop = some n → ∃ sd, q.spotSd = some sd ∧ SolvedFor p st sd n := by
    intro n hn
    obtain ⟨sd, hsd, hsolve⟩ := recomputedTop_eq_some (htop.symm.trans hn)
    exact ⟨sd, hspot.trans hsd, now, hsolve⟩
  rw [heq] at hladder ⊢
  refine ⟨?_, ?_, fun hrolls => ?_, fun n hn => ?_, fun sd hsd => ?_, restSeen, topSeen⟩
  · intro o ho
    obtain ⟨o', ho', rfl⟩ := List.mem_map.mp ho
    rw [refresh_bucketSd]
    exact onRest o' ho'
  · intro hn
    exact named (hn.imp_left (mt hladder.mpr))
  · show q.spotSd = none ∨ q.spotSd = st.restBucketSd
    rw [hspot]
    exact hswitch.resolve_left hrolls
  · obtain ⟨sd, hsd, hsolve⟩ := hsolved n hn
    exact ⟨sd, hsd, (solvedFor_congr rfl).mpr hsolve⟩
  · rcases effectiveBucket_cases (hspot.symm.trans hsd) with hraw | hrest
    · exact topSeen sd (contains_of_selectSpot hraw)
    · exact restSeen sd hrest

/-- The keys after a write: the old ones and the written one. -/
theorem contains_set {κ ν : Type*} [DecidableEq κ] {d : Dict κ ν} {k j : κ} {v : ν} :
    (d.set k v).contains j = true ↔ j = k ∨ d.contains j = true := by
  unfold Dict.contains
  rw [Dict.get?_set]
  by_cases hj : j = k <;> simp [hj]

/-- A book adds a ticker whenever it adds a top, and never forgets one. -/
theorem bucketTickers_fold (ev : BookUpdate)
    (topSeen : ∀ sd, st.bucketTops.contains sd = true → st.bucketTickers.contains sd = true) :
    (∀ sd, st.bucketTickers.contains sd = true →
        (stampStrikeFeed (foldBook st ev) ev).bucketTickers.contains sd = true) ∧
      ∀ sd, (stampStrikeFeed (foldBook st ev) ev).bucketTops.contains sd = true →
        (stampStrikeFeed (foldBook st ev) ev).bucketTickers.contains sd = true := by
  obtain ⟨t, ht⟩ := stampStrikeFeed_eq (foldBook st ev) ev
  rw [ht]
  unfold foldBook
  dsimp only
  split
  · exact ⟨fun _ h => h, topSeen⟩
  · exact ⟨fun _ h => h, topSeen⟩
  · refine ⟨fun sd h => contains_set.mpr (Or.inr h), fun sd h => contains_set.mpr ?_⟩
    exact (contains_set.mp h).imp_right (topSeen sd)

/-- A book with a recompute keeps the buckets in order. -/
theorem BucketsOk.fold (h : BucketsOk p st) (ev : BookUpdate)
    (hswitch : switchesAtRest p (stampStrikeFeed (foldBook st ev) ev) now) :
    BucketsOk p (recomputeContext p (stampStrikeFeed (foldBook st ev) ev) now) := by
  obtain ⟨hkeep, htop⟩ := bucketTickers_fold ev h.topSeen
  obtain ⟨b, hb⟩ := foldBook_eq st ev
  have hladder : (stampStrikeFeed (foldBook st ev) ev).toLadder = st.toLadder := by rw [hb]
  refine BucketsOk.recompute ?_ ?_ ?_ htop hswitch
  · rw [congrArg Ladder.ladder hladder, congrArg Ladder.restBucketSd hladder]
    exact h.onRest
  · rw [congrArg Ladder.ladder hladder, congrArg Ladder.restBucketSd hladder,
      congrArg Ladder.rollsInFlight hladder]
    exact h.named
  · rw [congrArg Ladder.restBucketSd hladder]
    exact fun sd hsd => hkeep sd (h.restSeen sd hsd)

/-- Orders and amends leave, or change in ways the buckets do not see. -/
theorem BucketsOk.confirmRoll (h : BucketsOk p st) (rp : RollPending) (newPrice : ℚ) :
    BucketsOk p (confirmRoll p (dropRoll st rp.oldCoid) rp newPrice now) := by
  refine h.shrink rfl rfl rfl (fun o ho => ?_) List.filter_sublist.subset
  rcases mem_replaceFirst ho with ho | ⟨o', ho', -, rfl⟩
  · exact ⟨o, ho, rfl⟩
  · exact ⟨o', ho', rfl⟩

/-- An acknowledgement keeps the buckets in order. -/
theorem BucketsOk.applyAck (h : BucketsOk p st) (ev : OrderAck) : BucketsOk p (applyAck st ev) := by
  unfold V33.applyAck
  split_ifs
  · refine h.shrink rfl rfl rfl (fun o ho => ?_) (List.Subset.refl _)
    rcases mem_replaceFirst ho with ho | ⟨o', ho', -, rfl⟩
    · exact ⟨o, ho, rfl⟩
    · exact ⟨o', ho', rfl⟩
  · exact h

/-- A cancelled order leaves the buckets in order. -/
theorem BucketsOk.dropCancelled (h : BucketsOk p st) (ev : OrderCancelled)
    (live : Option RestOrder) : BucketsOk p (dropCancelled st ev live) := by
  obtain ⟨l, n, heq, hl⟩ := dropCancelled_eq st ev live
  rw [heq]
  exact h.shrink rfl rfl rfl (fun o ho => ⟨o, hl.subset ho, rfl⟩) (List.Subset.refl _)

/-- The order a fallback re-places rests on the bucket its roll was for. -/
theorem BucketsOk.rollFallback (h : BucketsOk p st) {rp : RollPending}
    (hrp : rp ∈ st.rollsInFlight) : BucketsOk p (rollFallback p st rp now).st := by
  have hdropped : BucketsOk p
      { V33.dropRoll st rp.oldCoid with
        ladder := dropOrder (V33.dropRoll st rp.oldCoid).ladder rp.oldCoid } :=
    h.shrink rfl rfl rfl (fun o ho => ⟨o, List.mem_of_mem_filter ho, rfl⟩)
      List.filter_sublist.subset
  unfold V33.rollFallback
  dsimp only
  split
  · exact hdropped
  · next nTop htop =>
    split_ifs
    · obtain ⟨sd, hsd, -⟩ := h.solved nTop htop
      have hrest : st.spotSd = st.restBucketSd :=
        (h.still (List.ne_nil_of_mem hrp)).resolve_left (by simp [hsd])
      refine ⟨fun o ho => ?_, fun _ => hrest ▸ Option.isSome_of_eq_some hsd,
        fun _ => Or.inr hrest, hdropped.solved, h.spotSeen, h.restSeen, h.topSeen⟩
      simp only [placeOne, List.mem_append, List.mem_singleton] at ho
      rcases ho with ho | rfl
      · exact hdropped.onRest o ho
      · exact hrest
    · exact hdropped

/-- The fallback of a roll leaves the books alone. -/
theorem rollFallback_books (rp : RollPending) :
    (rollFallback p st rp now).st.toBooks = st.toBooks := by
  unfold V33.rollFallback
  dsimp only
  split
  · rfl
  · split_ifs <;> rfl

/-- The fallback amends nothing. -/
theorem isAmend_rollFallback (rp : RollPending) :
    ∀ a ∈ (rollFallback p st rp now).acts, a.kind.isAmend = false := by
  unfold V33.rollFallback
  dsimp only
  split
  · simp
  · split_ifs
    · intro a ha
      rw [placeOne, List.mem_singleton] at ha
      subst ha
      simp only [placeAction, mk, twinKind]
      split <;> rfl
    · simp

/-- What the pieces of an event leave alone. -/
theorem BucketsOk.clearCancelPending (h : BucketsOk p st) (oid : Option String) :
    BucketsOk p (clearCancelPending st oid) := by
  obtain ⟨d, hd⟩ := clearCancelPending_eq st oid
  rw [hd]
  exact h.shrink rfl rfl rfl (fun o ho => ⟨o, ho, rfl⟩) (List.Subset.refl _)

/-- A dropped roll keeps the buckets in order. -/
theorem BucketsOk.dropRoll (h : BucketsOk p st) (coid : String) : BucketsOk p (dropRoll st coid) :=
  h.shrink rfl rfl rfl (fun o ho => ⟨o, ho, rfl⟩) List.filter_sublist.subset

/-- The inputs of an event without an untimely switch keep the buckets in order. -/
theorem buckets_event (h : BucketsOk p st) (ev : Event)
    (hok : SwitchesAtRest p st ev) :
    EventLaw p (fun _ => True) (fun (_ : Unit) _ => ())
      (fun _ a => AmendsOnBucket p (withBook st ev) a)
      (fun s _ => BucketsOk p s ∧ s.toBooks = (withBook st ev).toBooks) st ev () where
  booked _ _ := trivial
  stay hnone := by
    refine ⟨h, ?_⟩
    cases ev with
    | bookUpdate => simp [beforeConverge] at hnone
    | _ => rfl
  book e he := by
    subst he
    obtain ⟨q, x, heq, -⟩ := recomputeContext_eq p (stampStrikeFeed (foldBook st e) e) e.serverTs
    exact ⟨h.fold e hok, by rw [heq]; rfl⟩
  tick now he := by
    subst he
    obtain ⟨q, x, heq, -⟩ := recomputeContext_eq p st now
    exact ⟨BucketsOk.recompute h.onRest h.named h.restSeen h.topSeen hok, by rw [heq]; rfl⟩
  ack e he := by
    subst he
    refine ⟨h.applyAck e, ?_⟩
    unfold V33.applyAck
    split_ifs <;> rfl
  filled e he := by
    subst he
    refine ⟨h.clearCancelPending _, ?_⟩
    obtain ⟨d, hd⟩ := clearCancelPending_eq st e.orderId
    rw [hd]
    rfl
  amended e rp he _ := by
    subst he
    exact ⟨⟨h.dropRoll _, rfl⟩, fun _ _ => ⟨h.confirmRoll rp _, rfl⟩⟩
  cancelled e he := by
    subst he
    have hclear : (clearCancelPending st e.orderId).toBooks =
        (withBook st (.orderCancelled e)).toBooks := by
      obtain ⟨d, hd⟩ := clearCancelPending_eq st e.orderId
      rw [hd]
      rfl
    refine (bucketsLaw p _).law.cancelPart e (fun _ _ => trivial)
      ⟨h.clearCancelPending _, hclear⟩ fun _ hs => ?_
    unfold finishCancel
    split
    · next rp hrp =>
      refine ⟨allAlong_of_forall fun a ha _ ham => ?_,
        hs.1.rollFallback (mem_of_rollOfCancel hrp), (rollFallback_books rp).trans hs.2⟩
      rw [isAmend_rollFallback rp a ha] at ham
      exact absurd ham (by simp)
    · obtain ⟨l, n, heq, -⟩ := dropCancelled_eq (reportCancel p st e e.serverTs).st e
        (cancelledOrder (clearCancelPending st e.orderId) e)
      refine (bucketsLaw p _).law.keeps_op (via_ptOnCancelConfirmed _) ⟨hs.1.dropCancelled e _, ?_⟩
      rw [heq]
      exact hs.2

/-- A decision without an untimely switch keeps the buckets, and its amends are on them. -/
theorem BucketsOk.decide (hcoids : CoidsOk st) (h : BucketsOk p st) (ev : Event)
    (hok : SwitchesAtRest p st ev) :
    (∀ a ∈ (decideV33 p st ev).acts, AmendsOnBucket p (withBook st ev) a) ∧
      BucketsOk p (decideV33 p st ev).st := by
  obtain ⟨hacts, hst⟩ := (bucketsLaw p (withBook st ev)).law.decide (buckets_event h ev hok)
    (fun _ _ hs => hs) fun _ hr _ hs => (hcoids.via_converge hr).keeps hs fun hop hI =>
      ⟨allAlong_of_forall fun a ha _ => amendsOnBucket_op hop hI.1 hI.2 a ha, hI.1.op hop,
        hop.frame.books.trans hI.2⟩
  exact ⟨forall_of_allAlong hacts, hst.1⟩

end Buckets

/-! ### Runs -/

/-- A new window has no bucket. -/
theorem BucketsOk.new {p : V33Params} {st : V33State} (h : IsNew p st) : BucketsOk p st := by
  obtain ⟨_, _, _, _, _, _, rfl⟩ := h
  constructor <;> simp [V33State.new, Dict.contains]

/-- Along every run in which no bucket switch commits under amends in flight, every order
rests on the ladder's bucket, and so does every amend of the next such event. -/
theorem ladder_bucket_consistent (p : V33Params) (evs : List Event) (st : V33State)
    (h : Reached p (SwitchesAtRest p) evs st) :
    (∀ o ∈ st.ladder, o.bucketSd = st.restBucketSd) ∧
      ∀ ev, SwitchesAtRest p st ev →
        ∀ a ∈ (decideV33 p st ev).acts, AmendsOnBucket p (withBook st ev) a := by
  have hI : CoidsOk st ∧ BucketsOk p st := h.preserves
    (I := fun st => CoidsOk st ∧ BucketsOk p st)
    (fun st hst => ⟨CoidsOk.new hst, BucketsOk.new hst⟩)
    (fun st ev hst hok => ⟨hst.1.decide ev, (hst.2.decide hst.1 ev hok).2⟩)
  exact ⟨hI.2.onRest, fun ev hok => (hI.2.decide hI.1 ev hok).1⟩

/-- The sample ladder with both orders on their way one cent down. -/
def amendsInFlight : List Event := sampleOpening ++ [centBook "B100" 41 43 1002]

/-- The ladder follows a switch that commits after its amends are confirmed. -/
theorem ladder_bucket_consistent_sample :
    let evs := amendsInFlight ++
      [.orderAmended ⟨"v1", "c-3", none, 1003, 0, none⟩,
        .orderAmended ⟨"v2", "c-4", none, 1003, 0, none⟩, centBook "B200" 60 62 1004]
    (∀ o ∈ (after samplePolicy (sampleWindow samplePolicy) evs).ladder,
        o.bucketSd = (after samplePolicy (sampleWindow samplePolicy) evs).restBucketSd) ∧
      ∀ ev, SwitchesAtRest samplePolicy (after samplePolicy (sampleWindow samplePolicy) evs) ev →
        ∀ a ∈ (decideV33 samplePolicy (after samplePolicy (sampleWindow samplePolicy) evs) ev).acts,
          AmendsOnBucket samplePolicy
            (withBook (after samplePolicy (sampleWindow samplePolicy) evs) ev) a :=
  ladder_bucket_consistent samplePolicy _ _ (reached_sample (by decide +kernel))

/-- A switch that commits under amends in flight: the other order of the old bucket is
amended onto the new bucket's ticker. -/
theorem amend_across_buckets :
    let st := after samplePolicy (sampleWindow samplePolicy) amendsInFlight
    ∃ a ∈ (decideV33 samplePolicy st (centBook "B200" 60 62 1003)).acts,
      ¬AmendsOnBucket samplePolicy (withBook st (centBook "B200" 60 62 1003)) a := by
  intro st
  have hacts : ∃ a ∈ (decideV33 samplePolicy st (centBook "B200" 60 62 1003)).acts,
      a.kind = .amendRest ∧ a.ticker = some "B200" ∧
        a.rest.bind RestOrder.bucketSd = some 100 := by decide +kernel
  have hticker : (withBook st (centBook "B200" 60 62 1003)).bucketTickers.get? 100 =
      some "B100" := by decide +kernel
  obtain ⟨a, ha, hkind, hname, hrest⟩ := hacts
  refine ⟨a, ha, fun h => ?_⟩
  obtain ⟨o, sd, ticker, _, _, ho, _, _, hsd, hget, hname', _⟩ := h (by rw [hkind]; rfl)
  rw [ho, Option.bind_some, hsd] at hrest
  obtain rfl := Option.some.inj hrest
  rw [hticker] at hget
  rw [hname, ← hget] at hname'
  exact absurd hname' (by decide)

end Pilot.V33
