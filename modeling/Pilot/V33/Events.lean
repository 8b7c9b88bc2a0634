import Pilot.V33.WingSteps

/-!
# Events

What an event does before its convergence, and how a booked fill continues once it is
recorded. An invariant is shown for the few inputs an event adds to the small steps.
-/

namespace Pilot.V33

/-! ### Booking a fill -/

/-- The state in which a fill is recorded and, on a known bucket, handed to the wings. -/
def bookedState (p : V33Params) (st : V33State) (r : FillReport) (now : ℚ) : V33State :=
  match (rungFillOf p st r now).bucketSd with
  | none => recordFill p st r now
  | some _ => hedgeFill p (recordFill p st r now) r.coid (rungFillOf p st r now) now

section Booking

variable {p : V33Params} {now : ℚ} {st : V33State}

/-- Handing a fill to the wings leaves the ladder alone. -/
theorem hedgeFill_frame (coid : String) (rf : RungFill) :
    WingFrame st (hedgeFill p st coid rf now) := by
  unfold hedgeFill
  split
  · next t ht =>
    unfold attachFill
    refine WingFrame.trans ?_ (Run.wingFrame (@run_maybeCloseSet p now _ _))
    exact ⟨rfl, rfl, rfl, rfl, rfl, rfl, rfl, rfl, rfl, le_rfl⟩
  · unfold coalesceAdd
    dsimp only
    refine WingFrame.trans (@WingOp.flush p now st).frame ?_
    split <;> exact ⟨rfl, rfl, rfl, rfl, rfl, rfl, rfl, rfl, rfl, le_rfl⟩

/-- Booking a report touches the wings alone, once the fill is recorded. -/
theorem bookedState_frame (r : FillReport) :
    WingFrame (recordFill p st r now) (bookedState p st r now) := by
  unfold bookedState
  split
  · exact WingFrame.refl _
  · exact hedgeFill_frame _ _

/-- A fill on no known bucket ends the hour. -/
theorem via_failBucketUnknown : (failBucketUnknown st).Via (Op p now) st := by
  refine via_of_step (Op.ladder (LadderOp.latch st
    { st.toLatches with bucketUnknown := true, stoodDown := true, restAllotmentDone := true }
    ⟨fun _ => rfl, fun _ => rfl, id, fun _ => rfl⟩)) ?_
  unfold failBucketUnknown
  dsimp only
  refine Outcome.Via.mapSt (Outcome.Via.andThen ?_ (via_standdown_op _))
    (Op.wing via_syncWingMirrors)
  split_ifs
  · exact via_quiet _ _
  · exact Run.single (Op.ladder (LadderOp.drop _ rfl))

/-- After a fill is recorded and handed to the wings, its booking is a run of small steps. -/
theorem via_bookRungFill (r : FillReport) :
    (bookRungFill p st r now).Via (Op p now) (bookedState p st r now) := by
  unfold bookRungFill bookedState
  split
  · next h =>
    simp only [h]
    exact via_failBucketUnknown
  · next sd h =>
    simp only [h]
    refine Outcome.Via.mapSt ?_ (Op.wing via_syncWingMirrors)
    obtain ⟨x, hx, hle⟩ := latchIfDone_eq p
      (hedgeFill p (recordFill p st r now) r.coid (rungFillOf p st r now) now)
    rw [hx]
    exact via_of_step (Op.ladder (LadderOp.latch _ x hle)) (via_wingStep _).wing

end Booking

/-! ### The quote context -/

section Context

variable {p : V33Params} {now : ℚ} {st : V33State}

/-- The ladder top of a recompute: solved for the gated bucket. -/
def recomputedTop (p : V33Params) (st : V33State) (now : ℚ) : Option ℚ :=
  let gated := gatedBucket p st now
  let W := gated.bind fun sd => v33ComputeW p st sd (sd + p.bucketWidth) now
  solveN (W.map fun w => 2 - p.eMin - w) (gated.bind fun sd => bucketCap st sd)

/-- The labels of an order under a recomputed top, if there is one. -/
def refresh (p : V33Params) (top : Option ℚ) (o : RestOrder) : RestOrder :=
  match top with
  | some n => relabel p n o
  | none => o

/-- A refresh of an order keeps its price. -/
@[simp] theorem refresh_price (top : Option ℚ) (o : RestOrder) :
    (refresh p top o).price = o.price := by cases top <;> rfl

/-- A refresh of an order keeps its count. -/
@[simp] theorem refresh_count (top : Option ℚ) (o : RestOrder) :
    (refresh p top o).count = o.count := by cases top <;> rfl

/-- A refresh of an order keeps its id. -/
@[simp] theorem refresh_clientOrderId (top : Option ℚ) (o : RestOrder) :
    (refresh p top o).clientOrderId = o.clientOrderId := by cases top <;> rfl

/-- A refresh of an order keeps the venue's id. -/
@[simp] theorem refresh_orderId (top : Option ℚ) (o : RestOrder) :
    (refresh p top o).orderId = o.orderId := by cases top <;> rfl

/-- A refresh of an order keeps its bucket. -/
@[simp] theorem refresh_bucketSd (top : Option ℚ) (o : RestOrder) :
    (refresh p top o).bucketSd = o.bucketSd := by cases top <;> rfl

/-- A recompute replaces the quote and the shadows and refreshes the labels. -/
theorem recomputeContext_eq (p : V33Params) (st : V33State) (now : ℚ) :
    ∃ (q : Quote) (x : Pacing),
      recomputeContext p st now =
          { st with
            toQuote := q
            toPacing := x
            ladder := st.ladder.map (refresh p (recomputedTop p st now)) } ∧
        q.spotSd = (effectiveBucket p st now).sd ∧ q.nTop = recomputedTop p st now ∧
          q.cap = (gatedBucket p st now).bind fun sd => bucketCap st sd := by
  unfold recomputeContext
  dsimp only
  cases htop : recomputedTop p st now with
  | none =>
    unfold recomputedTop at htop
    dsimp only at htop
    have hid : st.ladder.map (refresh p none) = st.ladder := List.map_id _
    rw [htop, hid]
    split_ifs <;> exact ⟨_, _, rfl, rfl, rfl, rfl⟩
  | some top =>
    unfold recomputedTop at htop
    dsimp only at htop
    rw [htop]
    split_ifs <;> exact ⟨_, _, rfl, rfl, rfl, rfl⟩

/-- Stamping the strike feed changes the books alone. -/
theorem stampStrikeFeed_eq (st : V33State) (ev : BookUpdate) :
    ∃ t, stampStrikeFeed st ev = { st with strikeFeedTs := t } := by
  unfold stampStrikeFeed
  dsimp only
  split
  · split
    · split_ifs
      · exact ⟨st.strikeFeedTs, rfl⟩
      · exact ⟨_, rfl⟩
    · exact ⟨_, rfl⟩
  · exact ⟨st.strikeFeedTs, rfl⟩

/-- A book changes the books alone. -/
theorem foldBook_eq (st : V33State) (ev : BookUpdate) :
    ∃ b : Books, stampStrikeFeed (foldBook st ev) ev = { st with toBooks := b } := by
  obtain ⟨t, ht⟩ := stampStrikeFeed_eq (foldBook st ev) ev
  rw [ht]
  unfold foldBook
  dsimp only
  split
  · exact ⟨{ st.toBooks with strikeFeedTs := t }, rfl⟩
  · exact ⟨{ st.toBooks with
      strikeTops := _, strikeTs := _, strikeTickers := _, strikeFeedTs := t }, rfl⟩
  · exact ⟨{ st.toBooks with
      bucketTops := _, bucketTs := _, bucketTickers := _, strikeFeedTs := t }, rfl⟩

/-- The raw spot is a bucket whose book was seen. -/
theorem contains_of_selectSpot {sd : ℤ} (h : selectSpot st = some sd) :
    st.bucketTops.contains sd = true := by
  unfold selectSpot at h
  rw [Option.map_eq_some_iff] at h
  obtain ⟨x, hfold, rfl⟩ := h
  -- every candidate of the scan was looked up among the books
  refine List.foldlRecOn (motive := fun best : Option (ℤ × ℚ) =>
    ∀ x, best = some x → st.bucketTops.contains x.1 = true) _ _ ?_ ?_ x hfold
  · simp
  · intro best hbest floor _ y hy
    cases hv : (st.bucketTops.get? floor).bind validTwoSided with
    | none => exact hbest y (by simpa [hv] using hy)
    | some q =>
      have hfloor : st.bucketTops.contains floor = true := by
        obtain ⟨top, htop, -⟩ := Option.bind_eq_some_iff.mp hv
        exact Dict.contains_eq_true.mpr ⟨top, htop⟩
      rw [hv] at hy
      dsimp only at hy
      split at hy
      · obtain rfl := Option.some.inj hy
        exact hfloor
      · split_ifs at hy
        · obtain rfl := Option.some.inj hy
          exact hfloor
        · exact hbest y hy

/-- The effective bucket is the raw spot or the ladder's bucket. -/
theorem effectiveBucket_cases {sd : ℤ} (h : (effectiveBucket p st now).sd = some sd) :
    selectSpot st = some sd ∨ st.restBucketSd = some sd := by
  unfold effectiveBucket resolveEffectiveBucket at h
  cases hraw : selectSpot st with
  | none => simp [hraw] at h
  | some raw =>
    cases hrest : st.restBucketSd with
    | none =>
      rw [hraw, hrest] at h
      exact Or.inl h
    | some rest =>
      rw [hraw, hrest] at h
      dsimp only at h
      by_cases hsame : raw = rest
      · rw [if_pos hsame] at h
        exact Or.inl h
      · rw [if_neg hsame] at h
        -- the timer decides which of the two it is
        split_ifs at h
        all_goals first
          | exact Or.inl h
          | exact Or.inr h

/-- A solved top belongs to the effective bucket. -/
theorem recomputedTop_eq_some {n : ℚ} (h : recomputedTop p st now = some n) :
    ∃ sd, (effectiveBucket p st now).sd = some sd ∧
      solveN ((v33ComputeW p st sd (sd + p.bucketWidth) now).map fun w => 2 - p.eMin - w)
        (bucketCap st sd) = some n := by
  unfold recomputedTop at h
  cases hg : gatedBucket p st now with
  | none => simp [hg, solveN] at h
  | some sd =>
    refine ⟨sd, ?_, by simpa [hg] using h⟩
    unfold gatedBucket at hg
    exact (Option.filter_eq_some_iff.mp hg).1

end Context

/-! ### Before the convergence -/

/-- What an event does before its convergence, if it ends with one. -/
def beforeConverge (p : V33Params) (st : V33State) (ev : Event) : Option Outcome :=
  match ev with
  | .bookUpdate e => some (serveWings p (stampStrikeFeed (foldBook st e) e) e.serverTs)
  | .orderAmended e => (rollOfAmend st e).map fun rp => confirmAmend p st rp e e.serverTs
  | .orderCancelled e =>
    some ((reportCancel p st e e.serverTs).andThen
      (finishCancel p (cancelledOrder (clearCancelPending st e.orderId) e) e e.serverTs))
  | .clockTick now => some (serveWings p st now)
  | _ => none

/-- An event that converges does so on the state its first part leaves. -/
theorem decideV33_of_beforeConverge {p : V33Params} {st : V33State} {ev : Event} {r : Outcome}
    (h : beforeConverge p st ev = some r) :
    decideV33 p st ev = r.andThen fun st => converge p st ev.serverTs := by
  cases ev with
  | bookUpdate e => obtain rfl := Option.some.inj h; rfl
  | clockTick now => obtain rfl := Option.some.inj h; rfl
  | orderAmended e =>
    simp only [beforeConverge, Option.map_eq_some_iff] at h
    obtain ⟨rp, hrp, rfl⟩ := h
    simp only [decideV33, applyAmended, hrp]
    rfl
  | orderCancelled e => obtain rfl := Option.some.inj h; rfl
  | _ => simp [beforeConverge] at h

/-- The events without a convergence. -/
theorem decideV33_of_not_beforeConverge {p : V33Params} {st : V33State} {ev : Event}
    (h : beforeConverge p st ev = none) :
    decideV33 p st ev = match ev with
      | .trade e => applyTrade p st e e.serverTs
      | .orderAck e => (applyAck st e).quiet
      | .fill e => applyFill p st e e.serverTs
      | _ => st.quiet := by
  cases ev with
  | orderAmended e =>
    simp only [beforeConverge, Option.map_eq_none_iff] at h
    simp [decideV33, applyAmended, h]
  | bookUpdate | orderCancelled | clockTick => simp [beforeConverge] at h
  | _ => rfl

/-! ### What an event books -/

/-- The report of a fill of an order the core lost. -/
def orphanReport (p : V33Params) (st : V33State) (coid : String) (orderId : Option String)
    (price delta : ℚ) (ticker : Option String) (retainedSd : Option ℤ) : FillReport :=
  { coid := coid, price := price, delta := delta, rung := (orphanLabels p st price).1,
    eRung := (orphanLabels p st price).2.1, retainedSd := retainedSd, fillTicker := ticker,
    orphan := !(orphanLabels p st price).2.2, orderId := orderId }

/-- The fill a cancel confirm books. -/
def cancelBooking (p : V33Params) (st : V33State) (ev : OrderCancelled) : Option FillReport :=
  let filled := qCount ev.filledCountBeforeCancel
  let unbooked (coid : String) : ℚ := filled - qCount (st.restBookedByCoid.getD coid 0)
  if 0 < filled then
    match cancelledOf st ev with
    | some c =>
      if 0 < unbooked c.coid then
        some { coid := c.coid, price := c.price, delta := unbooked c.coid, rung := c.rung,
               eRung := c.eRung, retainedSd := c.bucketSd }
      else none
    | none =>
      match orphanCoid ev, ev.price with
      | some coid, some price =>
        if 0 < unbooked coid then
          some (orphanReport p st coid ev.orderId price (unbooked coid) ev.marketTicker none)
        else none
      | _, _ => none
  else none

/-- The cross an amend confirm books, once the order has moved. -/
def amendBooking (st : V33State) (rp : RollPending) (newPrice : ℚ) (ev : OrderAmended) :
    Option FillReport :=
  if 0 < qCount ev.fillCount then
    (orderOf st rp.newCoid).map fun moved =>
      { coid := moved.clientOrderId, price := ev.averageFillPrice.getD newPrice,
        delta := qCount ev.fillCount, rung := moved.rung, eRung := moved.eRung,
        retainedSd := moved.bucketSd }
  else none

/-- The lots a fill of an order on the ladder books: what an amend cross has not booked. -/
def rungDelta (st : V33State) (order : RestOrder) (ev : Fill) : ℚ :=
  (skipCrossed st (order.orderId.or ev.orderId) (qCount ev.count)).1

/-- The fill a fill of an order on the ladder books. -/
def rungBooking (st : V33State) (order : RestOrder) (ev : Fill) : Option FillReport :=
  if 0 < rungDelta st order ev then
    some { coid := order.clientOrderId, price := order.price, delta := rungDelta st order ev,
           rung := order.rung, eRung := order.eRung, retainedSd := order.bucketSd,
           fillTicker := ev.marketTicker }
  else none

/-- The lots an orphan fill books: a poll delta whole, of an increment what exceeds the booked
lots. -/
def orphanDelta (st : V33State) (ev : Fill) : ℚ :=
  if ev.source = some .poll then qCount ev.count
  else min (qCount ev.count)
    ((noteSeen st ev.clientOrderId (qCount ev.count)).fillSeenByCoid.getD ev.clientOrderId 0 -
      qCount (st.restBookedByCoid.getD ev.clientOrderId 0))

/-- The fill an orphan fill books. -/
def orphanBooking (p : V33Params) (st : V33State) (ev : Fill) : Option FillReport :=
  if qCount ev.count ≤ 0 ∨ orphanDelta st ev ≤ 0 then none
  else
    ev.price.map fun price =>
      orphanReport p st ev.clientOrderId
        (ev.orderId.or ((ctxOfCoid st ev.clientOrderId).map Prod.fst)) price (orphanDelta st ev)
        ev.marketTicker ((ctxOfCoid st ev.clientOrderId).bind fun c => c.2.bucketSd)

/-- The fill a private fill may book as a rung fill. -/
def fillBooking (p : V33Params) (st : V33State) (ev : Fill) : Option FillReport :=
  match orderOf st ev.clientOrderId with
  | some order => rungBooking st order ev
  | none => orphanBooking p st ev

/-- The fill an event may book. Its record holds the lots, the price and the bucket. -/
def booking (p : V33Params) (st : V33State) (ev : Event) : Option FillReport :=
  match ev with
  | .fill e => fillBooking p (clearCancelPending st e.orderId) e
  | .orderCancelled e => cancelBooking p (clearCancelPending st e.orderId) e
  | .orderAmended e =>
    (rollOfAmend st e).bind fun rp =>
      let newPrice := e.price.getD rp.targetPrice
      amendBooking (confirmRoll p (dropRoll st rp.oldCoid) rp newPrice e.serverTs) rp newPrice e
  | _ => none

/-! ### Laws of runs -/

section Law

variable {γ : Type}

/-- The outcome keeps `I`, and each of its actions meets `P` when it is emitted. The observer
`f` reads the actions. -/
def Outcome.Keeps (f : γ → V33Action → γ) (P : γ → V33Action → Prop) (I : V33State → γ → Prop)
    (g : γ) (r : Outcome) : Prop :=
  AllAlong f P g r.acts ∧ I r.st (r.acts.foldl f g)

/-- An update of a leg that answers it: the leg stays what it is. -/
structure AnswersLeg (f : WingLeg → WingLeg) : Prop where
  coid : ∀ l, (f l).clientOrderId = l.clientOrderId
  ticker : ∀ l, (f l).ticker = l.ticker
  side : ∀ l, (f l).side = l.side
  count : ∀ l, (f l).count = l.count
  batch : ∀ l, (f l).batch = l.batch
  netted : ∀ l, (f l).netted = l.netted
  priced : ∀ l, (f l).status = .filled → (f l).fillPrice.isSome

/-- A law of runs: every small operation, every answered leg and every booking of an allowed
report keeps `I`, and reports do not matter to it. -/
structure Law (p : V33Params) (ok : FillReport → Prop) (f : γ → V33Action → γ)
    (P : γ → V33Action → Prop) (I : V33State → γ → Prop) : Prop where
  report : ∀ g a, a.kind.isReport = true → P g a ∧ f g a = g
  op : ∀ {now st acts st' g},
    LadderOp p now Permit.leave st acts st' → I st g →
      AllAlong f P g acts ∧ I st' (acts.foldl f g)
  wing : ∀ {now st acts st' g},
    WingOp p now st acts st' → I st g → AllAlong f P g acts ∧ I st' (acts.foldl f g)
  book : ∀ {now st g} (r : FillReport), ok r → 0 < r.delta → I st g → I (bookedState p st r now) g
  seen : ∀ {st g} (crossed seen : Dict String ℚ), I st g →
    I { st with amendCrossPending := crossed, fillSeenByCoid := seen } g
  legs : ∀ {st g} (coid : String) (h : WingLeg → WingLeg), AnswersLeg h → I st g →
    I { st with wingLegs := replaceFirst (fun l => l.clientOrderId == coid) h st.wingLegs } g

/-- What the bookings of the fill and cancel events ask of a law. -/
structure BookLaw (p : V33Params) (ok : FillReport → Prop) (f : γ → V33Action → γ)
    (P : γ → V33Action → Prop) (I : V33State → γ → Prop) : Prop where
  report : ∀ g a, a.kind.isReport = true → P g a ∧ f g a = g
  seen : ∀ {st g} (crossed seen : Dict String ℚ), I st g →
    I { st with amendCrossPending := crossed, fillSeenByCoid := seen } g
  fill : ∀ {now st g} (r : FillReport), ok r → 0 < r.delta → I st g →
    Outcome.Keeps f P I g (bookRungFill p st r now)

/-- A law of the ladder: the wings and the reports do not matter to it, and every small ladder
operation and every recorded fill keep it. -/
structure LadderLaw (p : V33Params) (f : γ → V33Action → γ) (P : γ → V33Action → Prop)
    (I : V33State → γ → Prop) : Prop where
  frame : ∀ {st st' g}, WingFrame st st' → I st g → I st' g
  ignored : ∀ g a, a.kind.isReport = true ∨ a.kind.isWing = true → P g a ∧ f g a = g
  op : ∀ {now st acts st' g},
    LadderOp p now Permit.leave st acts st' → I st g →
      AllAlong f P g acts ∧ I st' (acts.foldl f g)
  record : ∀ {now st g} (r : FillReport), 0 < r.delta → I st g → I (recordFill p st r now) g
  seen : ∀ {st g} (crossed seen : Dict String ℚ), I st g →
    I { st with amendCrossPending := crossed, fillSeenByCoid := seen } g

variable {p : V33Params} {ok : FillReport → Prop} {f : γ → V33Action → γ}
  {P : γ → V33Action → Prop} {I : V33State → γ → Prop} {now : ℚ} {st : V33State} {g : γ}
  {r : Outcome}

/-- Doing nothing keeps what holds. -/
theorem keeps_quiet (h : I st g) : st.quiet.Keeps f P I g := ⟨trivial, h⟩

/-- What a part keeps may be weakened. -/
theorem Outcome.Keeps.imp {J : V33State → γ → Prop} (h : r.Keeps f P I g)
    (hIJ : ∀ s g', I s g' → J s g') : r.Keeps f P J g := ⟨h.1, hIJ _ _ h.2⟩

/-- A part that keeps `I`, followed by one that leads from `I` to `J`. -/
theorem Outcome.Keeps.andThen_to {J : V33State → γ → Prop} {next : V33State → Outcome}
    (h : r.Keeps f P I g) (k : ∀ g', I r.st g' → (next r.st).Keeps f P J g') :
    (r.andThen next).Keeps f P J g := by
  obtain ⟨hP, hI⟩ := h
  obtain ⟨hP', hI'⟩ := k _ hI
  exact ⟨allAlong_append.mpr ⟨hP, hP'⟩, by rw [andThen_acts, List.foldl_append]; exact hI'⟩

/-- The second part starts from the observer's state after the first. -/
theorem Outcome.Keeps.andThen_at {J : V33State → γ → Prop} {next : V33State → Outcome}
    (h : r.Keeps f P I g) (k : (next r.st).Keeps f P J (r.acts.foldl f g)) :
    (r.andThen next).Keeps f P J g := by
  refine ⟨allAlong_append.mpr ⟨h.1, k.1⟩, ?_⟩
  rw [andThen_acts, List.foldl_append]
  exact k.2

/-- Two parts that keep an invariant keep it one after the other. -/
theorem Outcome.Keeps.andThen {next : V33State → Outcome} (h : r.Keeps f P I g)
    (k : ∀ g', I r.st g' → (next r.st).Keeps f P I g') : (r.andThen next).Keeps f P I g :=
  h.andThen_to k

/-- A change that keeps the invariant may follow. -/
theorem Outcome.Keeps.mapSt {h : V33State → V33State} (k : r.Keeps f P I g)
    (hI : ∀ g', I r.st g' → I (h r.st) g') : (r.mapSt h).Keeps f P I g := ⟨k.1, hI _ k.2⟩

/-- An outcome reached by steps that keep `I` keeps it. -/
theorem Outcome.Via.keeps {R : V33State → List V33Action → V33State → Prop} (h : r.Via R st)
    (hI : I st g) (hstep : ∀ {s a t g}, R s a t → I s g → AllAlong f P g a ∧ I t (a.foldl f g)) :
    r.Keeps f P I g :=
  Run.observe (I := I) (f := f) (P := P) (fun _ _ _ _ hs hI => hstep hs hI) h hI

/-- A law of the ladder is a law of runs. -/
theorem LadderLaw.law (law : LadderLaw p f P I) : Law p (fun _ => True) f P I where
  report g a ha := law.ignored g a (Or.inl ha)
  op hop hI := law.op hop hI
  wing {_ _ acts _ g} hop hI := by
    have hfold : acts.foldl f g = g :=
      foldl_ignored fun a ha g => (law.ignored g a (Or.inr (hop.isWing a ha))).2
    rw [hfold]
    exact ⟨allAlong_of_forall fun a ha g => (law.ignored g a (Or.inr (hop.isWing a ha))).1,
      law.frame hop.frame hI⟩
  book rep _ hd hI := law.frame (bookedState_frame rep) (law.record rep hd hI)
  seen crossed seen hI := law.seen crossed seen hI
  legs {st _} _ _ _ hI := @LadderLaw.frame _ _ _ _ _ law st _ _
    ⟨rfl, rfl, rfl, rfl, rfl, rfl, rfl, rfl, rfl, le_rfl⟩ hI

/-- Reports in front of a state. -/
theorem BookLaw.reports (law : BookLaw p ok f P I) {acts : List V33Action}
    (h : ∀ a ∈ acts, a.kind.isReport = true) (hI : I st g) :
    (⟨st, acts⟩ : Outcome).Keeps f P I g := by
  refine ⟨allAlong_of_forall fun a ha g => (law.report g a (h a ha)).1, ?_⟩
  rw [foldl_ignored fun a ha g => (law.report g a (h a ha)).2]
  exact hI

/-- A part made of wing operations keeps a lawful invariant. -/
theorem Law.keeps_wing (law : Law p ok f P I) (h : r.Via (WingOp p now) st)
    (hI : I st g) : r.Keeps f P I g := h.keeps hI law.wing

/-- A part made of operations keeps a lawful invariant. -/
theorem Law.keeps_op (law : Law p ok f P I) (h : r.Via (Op p now) st) (hI : I st g) :
    r.Keeps f P I g :=
  h.keeps hI fun hs hI => by
    cases hs with
    | ladder hs => exact law.op hs hI
    | wing hs => exact law.wing hs hI

/-- A law of runs is one of bookings. -/
theorem Law.bookLaw (law : Law p ok f P I) : BookLaw p ok f P I where
  report := law.report
  seen := law.seen
  fill rep hok hd hI := law.keeps_op (via_bookRungFill rep) (law.book rep hok hd hI)

/-- Booking a fill without an order keeps the invariant. -/
theorem BookLaw.bookOrphanFill (law : BookLaw p ok f P I) (coid : String)
    (orderId : Option String) (price delta : ℚ) (ticker : Option String) (retainedSd : Option ℤ)
    (hok : ok (orphanReport p st coid orderId price delta ticker retainedSd)) (hd : 0 < delta)
    (hI : I st g) :
    (bookOrphanFill p st coid orderId price delta ticker now retainedSd).Keeps f P I g := by
  unfold V33.bookOrphanFill
  dsimp only
  obtain ⟨hP, hI'⟩ := @BookLaw.fill _ _ _ _ _ _ law now _ _
    (orphanReport p st coid orderId price delta ticker retainedSd) hok hd hI
  obtain ⟨hPa, hfa⟩ := law.report g
    (alarmAction .orphanRungFillHedged (some coid) orderId ticker delta (some price)) rfl
  refine ⟨⟨hPa, by rw [hfa]; exact hP⟩, ?_⟩
  rw [List.foldl_cons, hfa]
  exact hI'

/-- The report of a cancel confirm. -/
theorem BookLaw.reportCancel (law : BookLaw p ok f P I) (ev : OrderCancelled)
    (hok : ∀ rep, cancelBooking p (clearCancelPending st ev.orderId) ev = some rep → ok rep)
    (hI : I (clearCancelPending st ev.orderId) g) :
    (reportCancel p st ev now).Keeps f P I g := by
  have hbook : ∀ s g, (∀ rep, cancelBooking p s ev = some rep → ok rep) → I s g →
      (bookCancelFill p s ev now).Keeps f P I g := by
    intro s g hok hs
    unfold bookCancelFill
    unfold cancelBooking at hok
    dsimp only at hok ⊢
    split_ifs at hok ⊢ with h1
    · cases hc : cancelledOf s ev with
      | some c =>
        rw [hc] at hok
        dsimp only at hok ⊢
        split_ifs at hok ⊢ with hd
        · exact law.fill _ (hok _ rfl) hd hs
        · exact keeps_quiet hs
      | none =>
        rw [hc] at hok
        dsimp only at hok ⊢
        cases ho : orphanCoid ev with
        | none => exact law.reports (by simp [alarmAction, ActionKind.isReport]) hs
        | some coid =>
          cases hprice : ev.price with
          | none => exact law.reports (by simp [alarmAction, ActionKind.isReport]) hs
          | some price =>
            rw [ho, hprice] at hok
            dsimp only at hok ⊢
            split_ifs at hok ⊢ with hd
            · exact law.bookOrphanFill _ _ _ _ _ _ (hok _ rfl) hd hs
            · exact keeps_quiet hs
    · exact keeps_quiet hs
  unfold V33.reportCancel
  dsimp only
  split_ifs
  · exact (law.reports (by simp [alarmAction, ActionKind.isReport]) hI).andThen
      fun g' hs => hbook _ g' hok hs
  · exact (keeps_quiet hI).andThen fun g' hs => hbook _ g' hok hs

/-- The cross of an amend. -/
theorem BookLaw.bookAmendCross (law : BookLaw p ok f P I) (rp : RollPending) (newPrice : ℚ)
    (ev : OrderAmended) (hok : ∀ rep, amendBooking st rp newPrice ev = some rep → ok rep)
    (hI : I st g) : (bookAmendCross p st rp newPrice ev now).Keeps f P I g := by
  unfold V33.bookAmendCross
  unfold amendBooking at hok
  dsimp only
  split_ifs at hok ⊢ with hd
  · cases ho : orderOf st rp.newCoid with
    | none => exact keeps_quiet hI
    | some moved =>
      rw [ho] at hok
      refine (law.fill _ (hok _ rfl) hd hI).mapSt fun g' hs => ?_
      split_ifs
      · exact law.seen _ _ hs
      · exact hs
  · exact keeps_quiet hI

/-- Skipping what crossed keeps the invariant. -/
theorem BookLaw.skipCrossed (law : BookLaw p ok f P I) (oid : Option String) (delta : ℚ)
    (hI : I st g) : I (skipCrossed st oid delta).2 g := by
  unfold V33.skipCrossed
  split
  · exact hI
  · split_ifs
    · exact law.seen _ st.fillSeenByCoid hI
    · exact hI

/-- Noting a seen count keeps the invariant. -/
theorem BookLaw.noteSeen (law : BookLaw p ok f P I) (coid : String) (count : ℚ) (hI : I st g) :
    I (noteSeen st coid count) g := law.seen st.amendCrossPending _ hI

/-- The response of a wing leg. -/
theorem Law.applyWingFill (law : Law p ok f P I) (leg : WingLeg) (ev : Fill)
    (hI : I st g) (h : applyWingFill p st leg ev now = some r) : r.Keeps f P I g := by
  have hclose : ∀ s g, I s g → (maybeCloseSet s leg.batch).quiet.Keeps f P I g := fun s g hs =>
    @keeps_wing _ _ _ _ _ _ now s _ (maybeCloseSet s leg.batch).quiet law
      (run_maybeCloseSet leg.batch) hs
  have hfilled : ∀ price : ℚ, AnswersLeg fun l =>
      { l with status := .filled, fillPrice := some price, fillFee := some (fee price) } :=
    fun _ => ⟨fun _ => rfl, fun _ => rfl, fun _ => rfl, fun _ => rfl, fun _ => rfl, fun _ => rfl,
      fun _ _ => rfl⟩
  have hmissed : AnswersLeg fun l => { l with status := .unfilled } :=
    ⟨fun _ => rfl, fun _ => rfl, fun _ => rfl, fun _ => rfl, fun _ => rfl, fun _ => rfl,
      fun _ h => by cases h⟩
  unfold V33.applyWingFill at h
  dsimp only at h
  split_ifs at h
  · rw [Option.map_eq_some_iff] at h
    obtain ⟨price, -, rfl⟩ := h
    exact (law.keeps_wing (via_netWings _) (law.legs _ _ (hfilled price) hI)).mapSt
      fun g' hs => (hclose _ _ hs).2
  · simp only [Option.some.injEq] at h
    subst h
    split
    · split_ifs
      · exact law.keeps_op (via_ptFailClosed _) (law.legs _ _ hmissed hI)
      · exact hclose _ _ (law.legs _ _ hmissed hI)
    · exact hclose _ _ (law.legs _ _ hmissed hI)

/-- What is skipped does not depend on the seen counts. -/
theorem skipCrossed_noteSeen (coid : String) (count : ℚ) (oid : Option String) (delta : ℚ) :
    (skipCrossed (noteSeen st coid count) oid delta).1 = (skipCrossed st oid delta).1 := by
  unfold skipCrossed
  cases oid with
  | none => rfl
  | some oid =>
    dsimp only
    split_ifs <;> first | rfl | contradiction

/-- A fill of an order on the ladder. -/
theorem BookLaw.applyRungFill (law : BookLaw p ok f P I) (order : RestOrder) (ev : Fill)
    (hok : ∀ rep, rungBooking st order ev = some rep → ok rep) (hI : I st g) :
    (applyRungFill p st order ev now).Keeps f P I g := by
  have hnoted : ∀ s, (s = st ∨ ∃ coid count, s = V33.noteSeen st coid count) → I s g ∧
      (V33.skipCrossed s (order.orderId.or ev.orderId) (qCount ev.count)).1 =
        rungDelta st order ev := by
    rintro s (rfl | ⟨coid, count, rfl⟩)
    · exact ⟨hI, rfl⟩
    · exact ⟨law.noteSeen _ _ hI, skipCrossed_noteSeen _ _ _ _⟩
  have hbook : ∀ s, (s = st ∨ ∃ coid count, s = V33.noteSeen st coid count) →
      0 < (V33.skipCrossed s (order.orderId.or ev.orderId) (qCount ev.count)).1 →
      (V33.bookRungFill p (V33.skipCrossed s (order.orderId.or ev.orderId) (qCount ev.count)).2
        { coid := order.clientOrderId, price := order.price,
          delta := (V33.skipCrossed s (order.orderId.or ev.orderId) (qCount ev.count)).1,
          rung := order.rung, eRung := order.eRung, retainedSd := order.bucketSd,
          fillTicker := ev.marketTicker } now).Keeps f P I g := by
    intro s hs hd
    obtain ⟨hIs, hdelta⟩ := hnoted s hs
    refine law.fill _ (hok _ ?_) hd (law.skipCrossed _ _ hIs)
    rw [rungBooking, ← hdelta, if_pos hd]
  unfold V33.applyRungFill
  dsimp only
  split_ifs with h1 h2 h2
  · exact hbook _ (Or.inr ⟨_, _, rfl⟩) h2
  · exact keeps_quiet (law.skipCrossed _ _ (law.noteSeen _ _ hI))
  · exact hbook _ (Or.inl rfl) h2
  · exact keeps_quiet (law.skipCrossed _ _ hI)

/-- A fill of an order the core lost. -/
theorem BookLaw.applyOrphanFill (law : BookLaw p ok f P I) (ev : Fill)
    (hok : ∀ rep, orphanBooking p st ev = some rep → ok rep) (hI : I st g) :
    (applyOrphanFill p st ev now).Keeps f P I g := by
  unfold V33.applyOrphanFill
  cases hp : ev.price with
  | none =>
    dsimp only
    split_ifs
    · exact keeps_quiet hI
    · exact law.reports (by simp [alarmAction, ActionKind.isReport]) hI
  | some price =>
    dsimp only
    have hbooked : ∀ rep, 0 < qCount ev.count → 0 < orphanDelta st ev →
        rep = orphanReport p st ev.clientOrderId
          (ev.orderId.or ((ctxOfCoid st ev.clientOrderId).map Prod.fst)) price (orphanDelta st ev)
          ev.marketTicker ((ctxOfCoid st ev.clientOrderId).bind fun c => c.2.bucketSd) →
        ok rep := by
      intro rep hc hd heq
      refine hok rep ?_
      rw [orphanBooking, if_neg (by simp [hc, hd]), hp, heq]
      rfl
    split_ifs with h1 h2 h3 h4
    · exact keeps_quiet hI
    · exact law.reports (by simp [alarmAction, ActionKind.isReport]) hI
    · have hdelta : orphanDelta st ev = qCount ev.count := by rw [orphanDelta, if_pos h3]
      refine law.bookOrphanFill _ _ _ _ _ _ (hbooked _ (not_le.mp h1) ?_ ?_) (not_le.mp h1) hI
      · rw [hdelta]
        exact not_le.mp h1
      · rw [hdelta]
    · exact keeps_quiet (law.noteSeen _ _ hI)
    · have hdelta : orphanDelta st ev = min (qCount ev.count)
          ((V33.noteSeen st ev.clientOrderId (qCount ev.count)).fillSeenByCoid.getD
            ev.clientOrderId 0 - qCount (st.restBookedByCoid.getD ev.clientOrderId 0)) := by
        rw [orphanDelta, if_neg h3]
      refine law.bookOrphanFill _ _ _ _ _ _ (hbooked _ (not_le.mp h1) ?_ ?_) (not_le.mp h4)
        (law.noteSeen _ _ hI)
      · rw [hdelta]
        exact not_le.mp h4
      · rw [hdelta]
        rfl

/-- A private fill. -/
theorem Law.applyFill (law : Law p ok f P I) (ev : Fill)
    (hok : ∀ rep, fillBooking p (clearCancelPending st ev.orderId) ev = some rep → ok rep)
    (hst : I st g) (hI : I (clearCancelPending st ev.orderId) g) :
    (applyFill p st ev now).Keeps f P I g := by
  unfold V33.applyFill
  dsimp only
  split
  · next r hr => exact law.keeps_op (via_ptApplyCompleteFill ev hr) hI
  · split
    · next leg hleg =>
      cases hw : V33.applyWingFill p (clearCancelPending st ev.orderId) leg ev now with
      | none => exact keeps_quiet hst
      | some r => exact law.applyWingFill leg ev hI hw
    · unfold fillBooking at hok
      split
      · next order ho =>
        exact law.bookLaw.applyRungFill order ev
          (fun rep hrep => hok rep (by rw [ho]; exact hrep)) hI
      · next ho =>
        exact law.bookLaw.applyOrphanFill ev
          (fun rep hrep => hok rep (by rw [ho]; exact hrep)) hI

/-- A change of the pacing with its reports. -/
theorem Law.pacing (law : Law p ok f P I) (x : Pacing) {acts : List V33Action}
    (h : ∀ a ∈ acts, a.kind.isReport = true) (hI : I st g) :
    (⟨{ st with toPacing := x }, acts⟩ : Outcome).Keeps f P I g :=
  law.op (@LadderOp.report p 0 _ st x acts h) hI

/-- The shadow completion changes the pacing only. -/
theorem shadowComplete_eq (p : V33Params) (st : V33State) (now : ℚ) :
    ∃ x : Pacing, shadowComplete p st now = { st with toPacing := x } := by
  unfold shadowComplete
  split
  · split
    · exact ⟨st.toPacing, rfl⟩
    · exact ⟨{ st.toPacing with shadows := _ }, rfl⟩
  · exact ⟨st.toPacing, rfl⟩

/-- The shadow completion keeps the invariant. -/
theorem Law.shadowComplete (law : Law p ok f P I) (hI : I st g) :
    I (shadowComplete p st now) g := by
  obtain ⟨x, hx⟩ := shadowComplete_eq p st now
  rw [hx]
  exact (@pacing _ _ _ _ _ _ _ _ law x [] (by simp) hI).2

/-- A shadow print only reports. -/
theorem isReport_shadowPrint (ev : Trade) (sub : ShadowSub) :
    ∀ a ∈ (shadowPrint p st ev sub).2, a.kind.isReport = true := by
  unfold shadowPrint
  split
  · dsimp only
    split_ifs <;> simp [ActionKind.isReport]
  · simp

/-- The shadows only report. -/
theorem isReport_shadowOnTrade (ev : Trade) :
    ∀ a ∈ (shadowOnTrade p st ev).acts, a.kind.isReport = true := by
  unfold shadowOnTrade
  split
  · split_ifs
    · intro a ha
      obtain ⟨_, hprint, ha⟩ := List.mem_flatMap.mp ha
      obtain ⟨sub, _, rfl⟩ := List.mem_map.mp hprint
      exact isReport_shadowPrint ev sub a ha
    · simp
  · simp

/-- The shadow of a trade changes the pacing only. -/
theorem shadowOnTrade_eq (p : V33Params) (st : V33State) (ev : Trade) :
    ∃ x : Pacing, (shadowOnTrade p st ev).st = { st with toPacing := x } := by
  unfold shadowOnTrade
  split
  · split_ifs
    · exact ⟨{ st.toPacing with shadows := _ }, rfl⟩
    · exact ⟨st.toPacing, rfl⟩
  · exact ⟨st.toPacing, rfl⟩

/-- A public print. -/
theorem Law.applyTrade (law : Law p ok f P I) (ev : Trade) (hI : I st g) :
    (applyTrade p st ev now).Keeps f P I g := by
  have hshadow : (shadowOnTrade p st ev).Keeps f P I g := by
    obtain ⟨x, hx⟩ := shadowOnTrade_eq p st ev
    obtain ⟨hP, hI'⟩ := law.pacing x (@isReport_shadowOnTrade p st ev) hI
    refine ⟨hP, ?_⟩
    rw [hx]
    exact hI'
  unfold V33.applyTrade
  refine (((hshadow.mapSt fun _ hs => law.shadowComplete hs).andThen fun _ hs => ?_).andThen
    fun _ hs => ?_).andThen fun _ hs => ?_
  · exact law.keeps_wing (via_wingStep _) hs
  · exact law.keeps_wing (via_printThroughStep ev) hs
  · exact law.keeps_op (via_ptStallStep _) hs

/-- The wings and the stalls of a tick, from the recomputed context. -/
theorem Law.serveWings (law : Law p ok f P I) (hI : I (recomputeContext p st now) g) :
    (serveWings p st now).Keeps f P I g := by
  unfold V33.serveWings
  exact Outcome.Keeps.andThen (law.keeps_wing (via_wingStep _) (law.shadowComplete hI))
    fun _ hs => law.keeps_op (via_ptStallStep _) hs

/-- The part of a cancel confirm before its convergence. -/
theorem Law.cancelPart {J : V33State → γ → Prop} (law : Law p ok f P I)
    (ev : OrderCancelled)
    (hok : ∀ rep, cancelBooking p (clearCancelPending st ev.orderId) ev = some rep → ok rep)
    (hI : I (clearCancelPending st ev.orderId) g)
    (hfinish : ∀ g', I (V33.reportCancel p st ev now).st g' →
      (finishCancel p (cancelledOrder (clearCancelPending st ev.orderId) ev) ev now
        (V33.reportCancel p st ev now).st).Keeps f P J g') :
    ((V33.reportCancel p st ev now).andThen
      (finishCancel p (cancelledOrder (clearCancelPending st ev.orderId) ev) ev now)).Keeps
        f P J g :=
  (law.bookLaw.reportCancel ev hok hI).andThen_to hfinish

/-- What a law asks of the inputs of one event. -/
structure EventLaw (p : V33Params) (ok : FillReport → Prop) (f : γ → V33Action → γ)
    (P : γ → V33Action → Prop) (I : V33State → γ → Prop) (st : V33State) (ev : Event) (g : γ) :
    Prop where
  booked : ∀ rep, booking p st ev = some rep → ok rep
  stay : V33.beforeConverge p st ev = none → I st g
  book : ∀ e, ev = .bookUpdate e →
    I (recomputeContext p (stampStrikeFeed (foldBook st e) e) e.serverTs) g
  tick : ∀ now, ev = .clockTick now → I (recomputeContext p st now) g
  ack : ∀ e, ev = .orderAck e → I (applyAck st e) g
  filled : ∀ e, ev = .fill e → I (clearCancelPending st e.orderId) g
  cancelled : ∀ e, ev = .orderCancelled e →
    ((reportCancel p st e e.serverTs).andThen
      (finishCancel p (cancelledOrder (clearCancelPending st e.orderId) e) e e.serverTs)).Keeps
        f P I g
  amended : ∀ e rp, ev = .orderAmended e → rollOfAmend st e = some rp →
    I (dropRoll st rp.oldCoid) g ∧
      ∀ o, orderOf (dropRoll st rp.oldCoid) rp.oldCoid = some o →
        I (confirmRoll p (dropRoll st rp.oldCoid) rp (e.price.getD rp.targetPrice) e.serverTs) g

/-- What an event does before its convergence keeps a law. -/
theorem Law.beforeConverge (law : Law p ok f P I) {ev : Event}
    (h : EventLaw p ok f P I st ev g) {r : Outcome} (hr : beforeConverge p st ev = some r) :
    r.Keeps f P I g := by
  cases ev with
  | bookUpdate e =>
    obtain rfl := Option.some.inj hr
    exact law.serveWings (h.book e rfl)
  | clockTick now =>
    obtain rfl := Option.some.inj hr
    exact law.serveWings (h.tick now rfl)
  | orderAmended e =>
    simp only [V33.beforeConverge, Option.map_eq_some_iff] at hr
    obtain ⟨rp, hrp, rfl⟩ := hr
    obtain ⟨hdrop, hmoved⟩ := h.amended e rp rfl hrp
    unfold confirmAmend
    dsimp only
    split
    · exact keeps_quiet hdrop
    · next o ho =>
      refine law.bookLaw.bookAmendCross rp _ e (fun rep hrep => h.booked rep ?_) (hmoved o ho)
      simpa only [booking, hrp, Option.bind_some] using hrep
  | orderCancelled e =>
    obtain rfl := Option.some.inj hr
    exact h.cancelled e rfl
  | _ => simp [V33.beforeConverge] at hr

/-- A decision keeps a law up to its convergence, and whatever the convergence makes of it. -/
theorem Law.decide {J : V33State → γ → Prop} (law : Law p ok f P I) {ev : Event}
    (h : EventLaw p ok f P I st ev g) (hweaken : ∀ s g', I s g' → J s g')
    (hconverge : ∀ r, V33.beforeConverge p st ev = some r → ∀ g', I r.st g' →
      (converge p r.st ev.serverTs).Keeps f P J g') : (decideV33 p st ev).Keeps f P J g := by
  cases hr : V33.beforeConverge p st ev with
  | some r =>
    rw [decideV33_of_beforeConverge hr]
    exact (law.beforeConverge h hr).andThen_to (hconverge r hr)
  | none =>
    rw [decideV33_of_not_beforeConverge hr]
    cases ev with
    | trade e => exact (law.applyTrade e (h.stay hr)).imp hweaken
    | orderAck e => exact keeps_quiet (hweaken _ _ (h.ack e rfl))
    | fill e => exact (law.applyFill e h.booked (h.stay hr) (h.filled e rfl)).imp hweaken
    | _ => exact keeps_quiet (hweaken _ _ (h.stay hr))

/-- A law of the state alone, with nothing to observe. -/
theorem LadderLaw.ofState {p : V33Params} {I : V33State → Prop}
    (frame : ∀ {st st'}, WingFrame st st' → I st → I st')
    (op : ∀ {now st acts st'}, LadderOp p now Permit.leave st acts st' → I st → I st')
    (record : ∀ {now st} (r : FillReport), 0 < r.delta → I st → I (recordFill p st r now))
    (seen : ∀ {st} (crossed seen : Dict String ℚ), I st →
      I { st with amendCrossPending := crossed, fillSeenByCoid := seen }) :
    LadderLaw p (fun (_ : Unit) _ => ()) (fun _ _ => True) (fun st _ => I st) where
  frame h hI := frame h hI
  ignored _ _ _ := ⟨trivial, rfl⟩
  op h hI := ⟨allAlong_of_forall fun _ _ _ => trivial, op h hI⟩
  record r hd hI := record r hd hI
  seen c s hI := seen c s hI

end Law

/-! ### Orders that only leave -/

/-- Dropping an order adds none. -/
theorem dropOrder_sublist (ladder : List RestOrder) (coid : String) :
    (dropOrder ladder coid).Sublist ladder := List.filter_sublist

/-- A reduction changes counts only, and adds no order. -/
theorem map_reduceOrder_sublist {β : Type} (ladder : List RestOrder) (coid : String) (delta : ℚ)
    (g : RestOrder → β) (hg : ∀ o c, g { o with count := c } = g o) :
    ((reduceOrder ladder coid delta).map g).Sublist (ladder.map g) := by
  unfold reduceOrder
  split
  · exact List.Sublist.refl _
  · dsimp only
    split_ifs
    · exact (dropOrder_sublist _ _).map _
    · rw [replaceOrder, map_replaceFirst_of_eq fun o _ => hg o _]

/-- Since `s` orders and amends have only left: an order that is still there kept its ids, its
price and its bucket, and the amends in flight are the same or gone. -/
structure Leaves (s t : V33State) : Prop where
  quote : t.toQuote = s.toQuote
  ladder : ∀ o ∈ t.ladder, ∃ o' ∈ s.ladder, o'.clientOrderId = o.clientOrderId ∧
    o'.orderId = o.orderId ∧ o'.price = o.price ∧ o'.bucketSd = o.bucketSd
  rolls : t.rollsInFlight = s.rollsInFlight ∨ t.rollsInFlight = []
  awaiting : t.awaitingReplace = s.awaitingReplace
  latches : s.toLatches.le t.toLatches

section Leaves

variable {p : V33Params} {now : ℚ} {s t u : V33State} {acts : List V33Action}

/-- Nothing leaves. -/
theorem Leaves.refl (s : V33State) : Leaves s s :=
  ⟨rfl, fun o ho => ⟨o, ho, rfl, rfl, rfl, rfl⟩, Or.inl rfl, rfl, Latches.le_refl _⟩

/-- Orders leave step by step. -/
theorem Leaves.trans (h : Leaves s t) (k : Leaves t u) : Leaves s u := by
  refine ⟨k.quote.trans h.quote, fun o ho => ?_, ?_, k.awaiting.trans h.awaiting,
    h.latches.trans k.latches⟩
  · obtain ⟨o', ho', h1, h2, h3, h4⟩ := k.ladder o ho
    obtain ⟨o'', ho'', k1, k2, k3, k4⟩ := h.ladder o' ho'
    exact ⟨o'', ho'', k1.trans h1, k2.trans h2, k3.trans h3, k4.trans h4⟩
  · rcases k.rolls with hk | hk
    · exact h.rolls.imp hk.trans hk.trans
    · exact Or.inr hk

/-- An update of the ladder to a part of it. -/
theorem leaves_of_sublist (hquote : t.toQuote = s.toQuote) (hladder : t.ladder.Sublist s.ladder)
    (hrolls : t.rollsInFlight = s.rollsInFlight ∨ t.rollsInFlight = [])
    (hawait : t.awaitingReplace = s.awaitingReplace) (hlatches : s.toLatches.le t.toLatches) :
    Leaves s t :=
  ⟨hquote, fun o ho => ⟨o, hladder.subset ho, rfl, rfl, rfl, rfl⟩, hrolls, hawait, hlatches⟩

/-- An operation that may only take orders off lets orders leave. -/
theorem leaves_op (h : LadderOp p now Permit.leave s acts t) : Leaves s t := by
  cases h with
  | report =>
    exact leaves_of_sublist rfl (List.Sublist.refl _) (Or.inl rfl) rfl (Latches.le_refl _)
  | latch x le => exact leaves_of_sublist rfl (List.Sublist.refl _) (Or.inl rfl) rfl le
  | drop =>
    rw [cancelAll_st]
    exact leaves_of_sublist rfl (List.nil_sublist _) (Or.inr rfl) rfl (Latches.le_refl _)
  | stallCancel coid =>
    unfold ptCancelRung
    split
    · exact Leaves.refl _
    · dsimp only
      rw [retainCancelled_eq]
      exact leaves_of_sublist rfl (dropOrder_sublist _ _) (Or.inl rfl) rfl (Latches.le_refl _)
  | clear permitted => exact absurd permitted id
  | create nTop m price guard weight budget permitted => exact absurd permitted id
  | leaveBucket empty still permitted => exact absurd permitted id
  | resume empty still settled permitted => exact absurd permitted id
  | enterBucket empty still settled spot permitted => exact absurd permitted id
  | roll o nTop m price guard movable room permitted => exact absurd permitted id
  | shrink o movable permitted => exact absurd permitted id

/-- A filled order rests on with fewer lots or leaves. -/
theorem mem_reduceOrder {ladder : List RestOrder} {coid : String} {delta : ℚ} {o : RestOrder}
    (h : o ∈ reduceOrder ladder coid delta) :
    o ∈ ladder ∨ ∃ o' ∈ ladder, o'.clientOrderId = coid ∧ 0 < qCount (o'.count - delta) ∧
      o = { o' with count := qCount (o'.count - delta) } := by
  unfold reduceOrder at h
  split at h
  · exact Or.inl h
  · next o' hfind =>
    dsimp only at h
    split_ifs at h with hdone
    · exact Or.inl (List.mem_of_mem_filter h)
    · obtain ⟨front, back, heq, hrep, -⟩ := replaceFirst_split
        (f := fun o => { o with count := qCount (o'.count - delta) }) hfind
      unfold replaceOrder at h
      rw [hrep] at h
      rw [heq]
      simp only [List.mem_append, List.mem_cons] at h ⊢
      rcases h with h | rfl | h
      · exact Or.inl (Or.inl h)
      · exact Or.inr ⟨o', Or.inr (Or.inl rfl), by simpa using List.find?_some hfind,
          not_le.mp hdone, rfl⟩
      · exact Or.inl (Or.inr (Or.inr h))

/-- Recording a fill lets orders leave. -/
theorem leaves_record (r : FillReport) : Leaves s (recordFill p s r now) := by
  refine ⟨rfl, fun o ho => ?_, Or.inl rfl, rfl, Latches.le_refl _⟩
  rcases mem_reduceOrder ho with ho | ⟨o', ho', -, -, rfl⟩
  · exact ⟨o, ho, rfl, rfl, rfl, rfl⟩
  · exact ⟨o', ho', rfl, rfl, rfl, rfl⟩

/-- Outside the convergence and the fallback orders only leave. -/
theorem leavesLaw (p : V33Params) (s : V33State) :
    LadderLaw p (fun (_ : Unit) _ => ()) (fun _ _ => True) (fun t _ => Leaves s t) :=
  LadderLaw.ofState
    (fun hframe h => h.trans (leaves_of_sublist hframe.quote
      (by rw [congrArg Ladder.ladder hframe.ladder])
      (Or.inl (congrArg Ladder.rollsInFlight hframe.ladder))
      (congrArg Ladder.awaitingReplace hframe.ladder)
      (by rw [hframe.latches]; exact Latches.le_refl _)))
    (fun hop h => h.trans (leaves_op hop))
    (fun r _ h => h.trans (leaves_record r))
    (fun _ _ h => h.trans (leaves_of_sublist rfl (List.Sublist.refl _) (Or.inl rfl) rfl
      (Latches.le_refl _)))

/-- A reported cancel lets orders leave. -/
theorem leaves_reportCancel (ev : OrderCancelled) :
    Leaves s (reportCancel p s ev now).st := by
  refine ((leavesLaw p s).law.bookLaw.reportCancel (g := ()) ev (fun _ _ => trivial) ?_).2
  unfold clearCancelPending
  split
  · exact Leaves.refl _
  · exact leaves_of_sublist rfl (List.Sublist.refl _) (Or.inl rfl) rfl (Latches.le_refl _)

/-- The roll a cancel confirm finishes was in flight when the confirm arrived. -/
theorem Leaves.rollOfCancel (h : Leaves s t) {ev : OrderCancelled} {rp : RollPending}
    (hrp : rollOfCancel t ev = some rp) : rollOfCancel s ev = some rp := by
  rcases h.rolls with he | he
  · unfold V33.rollOfCancel at hrp ⊢
    rw [← he]
    exact hrp
  · unfold V33.rollOfCancel at hrp
    rw [he] at hrp
    split at hrp <;> simp at hrp

/-- The price of a fallback is the same after orders left. -/
theorem Leaves.fallbackPrice (h : Leaves s t) (rp : RollPending) :
    fallbackPrice t rp = fallbackPrice s rp := by
  unfold V33.fallbackPrice
  rw [h.quote]

/-- The lots that still rested under a roll. -/
def moverLots (st : V33State) (rp : RollPending) : ℤ :=
  match orderOf st rp.oldCoid with
  | some mover => truncInt mover.count
  | none => 0

/-- The state without a roll and without its order. -/
def withoutMover (st : V33State) (rp : RollPending) : V33State :=
  { dropRoll st rp.oldCoid with ladder := dropOrder (dropRoll st rp.oldCoid).ladder rp.oldCoid }

/-- The fallback of a failed amend re-places its order: there is a top, no latch is closed, lots
still rested, the window is open, and the floor and the contracts of the hour allow them. -/
def Replaces (p : V33Params) (st : V33State) (rp : RollPending) (now : ℚ) : Prop :=
  st.nTop.isSome = true ∧ st.restAllotmentDone = false ∧ st.stoodDown = false ∧
    0 < moverLots st rp ∧ inWindow p st now = true ∧ p.nMin ≤ fallbackPrice st rp ∧
      filledContracts st + restingContracts (withoutMover st rp) + moverLots st rp ≤ allotment p

instance (p : V33Params) (st : V33State) (rp : RollPending) (now : ℚ) :
    Decidable (Replaces p st rp now) :=
  inferInstanceAs (Decidable (_ ∧ _ ∧ _ ∧ _ ∧ _ ∧ _ ∧ _))

/-- The fallback, its guards read before the order is dropped. -/
theorem rollFallback_eq (p : V33Params) (st : V33State) (rp : RollPending) (now : ℚ) :
    rollFallback p st rp now =
      match st.nTop with
      | none => (withoutMover st rp).quiet
      | some nTop =>
        if ¬st.restAllotmentDone ∧ ¬st.stoodDown ∧ 0 < moverLots st rp ∧ inWindow p st now ∧
            p.nMin ≤ fallbackPrice st rp ∧
            filledContracts st + restingContracts (withoutMover st rp) + moverLots st rp ≤
              allotment p then
          placeOne p (withoutMover st rp) (fallbackPrice st rp) (rungOf nTop (fallbackPrice st rp))
            (eRungOf p nTop (fallbackPrice st rp)) now (moverLots st rp)
        else (withoutMover st rp).quiet :=
  rfl

/-- A fallback drops the order, and places its lots anew if its guards are met. -/
theorem rollFallback_cases (p : V33Params) (st : V33State) (rp : RollPending) (now : ℚ) :
    (Replaces p st rp now ∧ ∃ nTop, st.nTop = some nTop ∧ rollFallback p st rp now =
        placeOne p (withoutMover st rp) (fallbackPrice st rp) (rungOf nTop (fallbackPrice st rp))
          (eRungOf p nTop (fallbackPrice st rp)) now (moverLots st rp)) ∨
      ¬Replaces p st rp now ∧ rollFallback p st rp now = (withoutMover st rp).quiet := by
  rw [rollFallback_eq]
  unfold Replaces
  cases htop : st.nTop with
  | none => exact Or.inr ⟨fun h => absurd h.1 (by simp), rfl⟩
  | some nTop =>
    dsimp only
    simp only [Bool.not_eq_true]
    split_ifs with hplace
    · exact Or.inl ⟨⟨rfl, hplace⟩, nTop, rfl, rfl⟩
    · exact Or.inr ⟨fun h => hplace h.2, rfl⟩

/-- A fallback bids exactly when its guards are met. -/
theorem rollFallback_acts_ne_nil {p : V33Params} {st : V33State} {rp : RollPending} {now : ℚ} :
    (rollFallback p st rp now).acts ≠ [] ↔ Replaces p st rp now := by
  rcases rollFallback_cases p st rp now with ⟨hplaces, nTop, -, heq⟩ | ⟨hnot, heq⟩
  · rw [heq]
    exact iff_of_true (List.cons_ne_nil _ _) hplaces
  · rw [heq]
    exact iff_of_false (fun h => h rfl) hnot

/-- Latches only close. -/
theorem latched_of_le {a b : V33State} (h : a.toLatches.le b.toLatches) (ha : latched a = true) :
    latched b = true := by
  simp only [latched, Bool.or_eq_true] at ha ⊢
  exact ha.imp h.2.1 h.2.2.2

/-- Whether the pilot is latched is a matter of its latches. -/
theorem latched_congr {a b : V33State} (h : b.toLatches = a.toLatches) :
    latched b = latched a := by
  unfold latched
  rw [h]

/-- Without a latch a cancel confirm changes no count, no memory and no amend while it books. -/
structure Still (s t : V33State) : Prop where
  outstanding : t.outstandingCancels = s.outstandingCancels
  ctx : t.cancelCtx = s.cancelCtx
  rolls : t.rollsInFlight = s.rollsInFlight

/-- Standing down sets no latch. -/
theorem standdown_latches (t : V33State) (reason : Reason) :
    (standdown t reason).st.toLatches = t.toLatches := by
  unfold standdown
  split <;> rfl

/-- Failing on an unknown bucket latches the pilot. -/
theorem latched_failBucketUnknown : latched (failBucketUnknown s).st = true := by
  have hcancel : ∀ t, latched (cancelAll t false).st = latched t := fun t =>
    latched_congr (by rw [cancelAll_st])
  unfold failBucketUnknown
  change latched (standdown _ _).st = true
  rw [latched_congr (standdown_latches _ _)]
  split_ifs
  · rfl
  · rw [hcancel]
    rfl

/-- A booked fill changes the ladder where it is recorded and nowhere else, and emits wing
actions, unless it latches. -/
theorem bookRungFill_ladder (r : FillReport) :
    latched (bookRungFill p s r now).st = true ∨
      (bookRungFill p s r now).st.toLadder = (recordFill p s r now).toLadder ∧
        ∀ a ∈ (bookRungFill p s r now).acts, a.kind.isWing = true := by
  unfold bookRungFill
  dsimp only
  split
  · exact Or.inl latched_failBucketUnknown
  · right
    obtain ⟨x, hx, -⟩ := latchIfDone_eq p
      (hedgeFill p (recordFill p s r now) r.coid (rungFillOf p s r now) now)
    rw [mapSt_st, mapSt_acts, hx]
    have hvia := @via_wingStep p now { hedgeFill p (recordFill p s r now) r.coid
      (rungFillOf p s r now) now with toLatches := x }
    exact ⟨(Run.wingFrame hvia).ladder.trans (hedgeFill_frame _ _).ladder, Run.isWing hvia⟩

/-- A cancel confirm reports, and books at most one fill. -/
theorem reportCancel_cases (ev : OrderCancelled) :
    ∃ pre : List V33Action, (∀ a ∈ pre, a.kind.isReport = true) ∧
      (reportCancel p s ev now = ⟨clearCancelPending s ev.orderId, pre⟩ ∨
        ∃ r, reportCancel p s ev now =
          ⟨(bookRungFill p (clearCancelPending s ev.orderId) r now).st,
            pre ++ (bookRungFill p (clearCancelPending s ev.orderId) r now).acts⟩) := by
  have hbook : ∀ t, ∃ pre : List V33Action, (∀ a ∈ pre, a.kind.isReport = true) ∧
      (bookCancelFill p t ev now = ⟨t, pre⟩ ∨ ∃ r, bookCancelFill p t ev now =
        ⟨(bookRungFill p t r now).st, pre ++ (bookRungFill p t r now).acts⟩) := by
    intro t
    unfold bookCancelFill
    dsimp only
    split_ifs
    · split
      · split_ifs
        · exact ⟨[], by simp, Or.inr ⟨_, rfl⟩⟩
        · exact ⟨[], by simp, Or.inl rfl⟩
      · split
        · split_ifs
          · exact ⟨[_], by simp [alarmAction, ActionKind.isReport], Or.inr ⟨_, rfl⟩⟩
          · exact ⟨[], by simp, Or.inl rfl⟩
        · exact ⟨[_], by simp [alarmAction, ActionKind.isReport], Or.inl rfl⟩
    · exact ⟨[], by simp, Or.inl rfl⟩
  obtain ⟨pre, hpre, hcases⟩ := hbook (clearCancelPending s ev.orderId)
  unfold reportCancel
  dsimp only
  split_ifs
  · refine ⟨alarmAction .cancelUnattributed none none none (qCount ev.filledCountBeforeCancel)
      none :: pre, fun a ha => ?_, ?_⟩
    · rcases List.mem_cons.mp ha with rfl | ha
      · rfl
      · exact hpre a ha
    · rcases hcases with h | ⟨r, h⟩
      · exact Or.inl (by simp only [Outcome.andThen, h, List.singleton_append])
      · exact Or.inr ⟨r, by simp only [Outcome.andThen, h, List.cons_append, List.nil_append]⟩
  · refine ⟨pre, hpre, ?_⟩
    rcases hcases with h | ⟨r, h⟩
    · exact Or.inl (by simp only [Outcome.andThen, h, quiet_st, quiet_acts, List.nil_append])
    · exact Or.inr ⟨r, by simp only [Outcome.andThen, h, quiet_st, quiet_acts, List.nil_append]⟩

/-- Without a latch a cancel confirm releases its price, books, and cancels nothing. -/
theorem reportCancel_quiet (ev : OrderCancelled) :
    latched (reportCancel p s ev now).st = true ∨
      Still s (reportCancel p s ev now).st ∧
        (reportCancel p s ev now).st.cancelPendingPx =
          (clearCancelPending s ev.orderId).cancelPendingPx ∧
        ∀ a ∈ (reportCancel p s ev now).acts, a.kind.isReport = true ∨ a.kind.isWing = true := by
  have hclear : Still s (clearCancelPending s ev.orderId) := by
    unfold clearCancelPending
    split <;> exact ⟨rfl, rfl, rfl⟩
  obtain ⟨pre, hpre, h | ⟨r, h⟩⟩ := @reportCancel_cases p now s ev
  · rw [h]
    exact Or.inr ⟨hclear, rfl, fun a ha => Or.inl (hpre a ha)⟩
  · rw [h]
    rcases @bookRungFill_ladder p now (clearCancelPending s ev.orderId) r with hl | ⟨hladder, hwing⟩
    · exact Or.inl hl
    refine Or.inr ⟨?_, ?_, fun a ha => ?_⟩
    · exact ⟨(congrArg Ladder.outstandingCancels hladder).trans hclear.outstanding,
        (congrArg Ladder.cancelCtx hladder).trans hclear.ctx,
        (congrArg Ladder.rollsInFlight hladder).trans hclear.rolls⟩
    · exact (congrArg Ladder.cancelPendingPx hladder).trans rfl
    · exact (List.mem_append.mp ha).imp (hpre a) (hwing a)

/-- A reported cancel latches the pilot or leaves it still. -/
theorem still_reportCancel (ev : OrderCancelled) :
    latched (reportCancel p s ev now).st = true ∨ Still s (reportCancel p s ev now).st :=
  (reportCancel_quiet ev).imp id And.left

end Leaves

end Pilot.V33
