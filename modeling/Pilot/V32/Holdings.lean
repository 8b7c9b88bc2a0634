import Pilot.V32.MoneyMath
import Pilot.V32.RightBucket

/-!
# What a decision does to the holdings

The holdings of the core are the lots of its batches and its filled wings. An input either
leaves them alone, adds the batch of the lots it books, or fills one wing.
-/

namespace Pilot.V32

open V33 (Event Fill HeldLeg OrderAmended OrderCancelled settlementPayoff)

variable {p : V32Params} {t : ℚ} {st st' st'' : V32State}

/-! ### The relations -/

/-- What the ledger reads of a batch. -/
def batchLot (b : WingBatch) : ℕ × ℚ := (b.index, b.fillCount)

/-- The filled wings. -/
def filledWings (legs : List WingLeg) : List WingLeg := legs.filter fun l => l.status = .filled

/-- What the ledger reads of a filled wing. -/
def wingLot (l : WingLeg) : String × Side × ℚ × ℕ := (l.ticker, l.side, l.count, l.batch)

/-- Every wing belongs to a batch. -/
def Owned (st : V32State) : Prop := ∀ l ∈ st.wingLegs, l.batch ∈ st.wingBatches.map WingBatch.index

/-- The batches, the fills and the filled wings stay as they are. -/
structure SameHoldings (st st' : V32State) : Prop where
  batches : st'.wingBatches.map batchLot = st.wingBatches.map batchLot
  next : st'.nextBatchIndex = st.nextBatchIndex
  fills : st'.restFills = st.restFills
  mirror : st.restFill = st.restFills.getLast? → st'.restFill = st'.restFills.getLast?
  owned : Owned st → Owned st'
  wings : (filledWings st'.wingLegs).map wingLot = (filledWings st.wingLegs).map wingLot

/-- One batch of the given lots is added. -/
structure AddsBatch (lots : ℚ) (st st' : V32State) : Prop where
  batches : st'.wingBatches.map batchLot =
    st.wingBatches.map batchLot ++ [(st.nextBatchIndex, lots)]
  next : st'.nextBatchIndex = st.nextBatchIndex + 1
  mirror : st'.restFill = st'.restFills.getLast?
  filled : st'.restFills ≠ []
  owned : Owned st → Owned st'
  wings : (filledWings st'.wingLegs).map wingLot = (filledWings st.wingLegs).map wingLot

/-- Nothing changes. -/
theorem SameHoldings.refl (st : V32State) : SameHoldings st st := ⟨rfl, rfl, rfl, id, id, rfl⟩

/-- Two steps that leave the holdings alone do so together. -/
theorem SameHoldings.trans (h : SameHoldings st st') (h' : SameHoldings st' st'') :
    SameHoldings st st'' :=
  ⟨h'.batches.trans h.batches, h'.next.trans h.next, h'.fills.trans h.fills,
    fun hm => h'.mirror (h.mirror hm), fun ho => h'.owned (h.owned ho), h'.wings.trans h.wings⟩

/-- A state with the same wings has the same holdings. -/
theorem SameHoldings.ofWings (h : st'.toWings = st.toWings) : SameHoldings st st' := by
  have hlegs : st'.wingLegs = st.wingLegs := congrArg Wings.wingLegs h
  have hbatches : st'.wingBatches = st.wingBatches := congrArg Wings.wingBatches h
  have hfill : st'.restFill = st.restFill := congrArg Wings.restFill h
  have hfills : st'.restFills = st.restFills := congrArg Wings.restFills h
  refine ⟨by rw [hbatches], congrArg Wings.nextBatchIndex h, hfills, fun hm => ?_, fun ho => ?_,
    by rw [hlegs]⟩
  · rw [hfill, hfills, hm]
  · unfold Owned
    rw [hlegs, hbatches]
    exact ho

/-- A step that spares the wings leaves the holdings alone. -/
theorem SameHoldings.ofRestOnly (h : RestOnly st st') : SameHoldings st st' :=
  SameHoldings.ofWings h.wings

/-- A batch is added after a step that leaves the holdings alone. -/
theorem AddsBatch.after {lots : ℚ} (h : SameHoldings st st') (h' : AddsBatch lots st' st'') :
    AddsBatch lots st st'' := by
  refine ⟨?_, ?_, h'.mirror, h'.filled, fun ho => h'.owned (h.owned ho), h'.wings.trans h.wings⟩
  · rw [h'.batches, h.batches, h.next]
  · rw [h'.next, h.next]

/-- A batch is added before a step that leaves the holdings alone. -/
theorem AddsBatch.before {lots : ℚ} (h : AddsBatch lots st st') (h' : SameHoldings st' st'') :
    AddsBatch lots st st'' := by
  refine ⟨h'.batches.trans h.batches, h'.next.trans h.next, h'.mirror h.mirror, ?_,
    fun ho => h'.owned (h.owned ho), h'.wings.trans h.wings⟩
  rw [h'.fills]
  exact h.filled

/-! ### The wings -/

/-- The mirrors follow the fills. -/
theorem syncWingMirrors_holdings (st : V32State) : SameHoldings st (syncWingMirrors st) :=
  ⟨rfl, rfl, rfl, fun _ => rfl, id, rfl⟩

/-- An update of a batch that keeps its lots. -/
theorem replaceBatch_lots (batches : List WingBatch) (index : ℕ) {f : WingBatch → WingBatch}
    (hf : ∀ b, batchLot (f b) = batchLot b) :
    (replaceBatch batches index f).map batchLot = batches.map batchLot :=
  map_replaceFirst_of_eq (fun b _ => hf b) batches

/-- The indices are among what the ledger reads. -/
theorem indices_eq {bs bs' : List WingBatch} (h : bs'.map batchLot = bs.map batchLot) :
    bs'.map WingBatch.index = bs.map WingBatch.index := by
  have hfst := congrArg (List.map Prod.fst) h
  rw [List.map_map, List.map_map] at hfst
  exact hfst

/-- Updating a batch keeps the wings owned. -/
theorem replaceBatch_holdings (st : V32State) (index : ℕ) {f : WingBatch → WingBatch}
    (hf : ∀ b, batchLot (f b) = batchLot b) (n : ℕ) :
    SameHoldings st
      { st with wingBatches := replaceBatch st.wingBatches index f, setsDone := n } := by
  have hlots := replaceBatch_lots st.wingBatches index hf
  refine ⟨hlots, rfl, rfl, id, fun ho l hl => ?_, rfl⟩
  exact (indices_eq hlots).symm ▸ ho l hl

/-- A take fills no wing. -/
theorem takeBatch_holdings (st : V32State) {b : WingBatch} (hb : b ∈ st.wingBatches) (ya na : ℚ) :
    SameHoldings st (takeBatch p st b ya na).st := by
  have hlots : (takeBatch p st b ya na).st.wingBatches.map batchLot = st.wingBatches.map batchLot :=
    replaceBatch_lots _ _ fun _ => rfl
  refine ⟨hlots, rfl, rfl, id, fun ho l hl => ?_, ?_⟩
  · rw [indices_eq hlots]
    rcases List.mem_append.mp hl with hl | hl
    · exact ho l hl
    · have hbatch : l.batch = b.index := by
        rcases List.mem_cons.mp hl with rfl | hl
        · rfl
        · rw [List.mem_singleton.mp hl]
      rw [hbatch]
      exact List.mem_map_of_mem hb
  · have hpending : filledWings (takeBatch p st b ya na).st.wingLegs = filledWings st.wingLegs := by
      simp [takeBatch, filledWings, mintCoid]
    rw [hpending]

/-- A retry is for a wing that is not filled. -/
theorem retryLegs_filled (index : ℕ) (ya na : ℚ) (legs : List WingLeg) (st : V32State) :
    filledWings (retryLegs p index ya na legs st).1 = filledWings legs := by
  induction legs generalizing st with
  | nil => rfl
  | cons leg rest ih =>
    unfold retryLegs
    split
    · rename_i hmissed
      have hleg : leg.status ≠ .filled := by simp [hmissed.2]
      have hrest := ih (mintCoid st).2
      simp only [filledWings] at hrest ⊢
      simp [hleg, hrest]
    · have hrest := ih st
      simp only [filledWings] at hrest ⊢
      rw [List.filter_cons, List.filter_cons, hrest]

/-- A retry fills no wing. -/
theorem retryBatch_holdings (st : V32State) (b : WingBatch) (ya na : ℚ) :
    SameHoldings st (retryBatch p st b ya na).st := by
  unfold retryBatch
  split
  · exact SameHoldings.refl st
  · have hkept := retryLegs_wings (p := p) b.index ya na st.wingLegs st
    have hsame := SameHoldings.ofWings hkept
    refine ⟨hsame.batches, hsame.next, hsame.fills, hsame.mirror, fun ho l hl => ?_, ?_⟩
    · obtain ⟨l', hl', hplace⟩ :=
        exists_legPlace (retryLegs_places (p := p) b.index ya na st.wingLegs st) hl
      have hbatch : l'.batch = l.batch := congrArg (fun place => place.2.2) hplace
      rw [indices_eq hsame.batches, ← hbatch]
      exact ho l' hl'
    · rw [← retryLegs_filled (p := p) b.index ya na st.wingLegs st]

/-- Serving a batch fills no wing. -/
theorem serveBatch_holdings (ya na : ℚ) (index : ℕ) (st : V32State) :
    SameHoldings st (serveBatch p ya na index st).st := by
  unfold serveBatch
  split
  · exact SameHoldings.refl st
  · rename_i b hb
    split_ifs
    · exact SameHoldings.refl st
    · exact retryBatch_holdings st b ya na
    · exact takeBatch_holdings st (List.mem_of_find?_eq_some hb) ya na

/-- The cutoff fills no wing. -/
theorem cutoffBatch_holdings (b : WingBatch) (st : V32State) :
    SameHoldings st (cutoffBatch b st).st := by
  unfold cutoffBatch
  split_ifs
  · exact SameHoldings.refl st
  · refine replaceBatch_holdings st b.index ?_ st.setsDone
    exact fun _ => rfl

/-- A loop of steps that leave the holdings alone leaves them alone. -/
theorem SameHoldings.forEach {α : Type} {body : α → V32State → Outcome}
    (hbody : ∀ x st, SameHoldings st (body x st).st) (xs : List α) (st : V32State) :
    SameHoldings st (forEach xs body st).st := by
  induction xs generalizing st with
  | nil => exact SameHoldings.refl st
  | cons x xs ih => exact (hbody x st).trans (ih _)

/-- The step of the wings fills no wing. -/
theorem wingStep_holdings (st : V32State) (t : ℚ) : SameHoldings st (wingStep p st t).st := by
  unfold wingStep
  split_ifs
  · exact SameHoldings.refl st
  · exact (SameHoldings.forEach cutoffBatch_holdings _ st).trans (syncWingMirrors_holdings _)
  · split
    · exact SameHoldings.refl st
    · exact (SameHoldings.forEach (serveBatch_holdings _ _) _ st).trans
        (syncWingMirrors_holdings _)

/-- Counting a completed set leaves the holdings alone. -/
theorem maybeCloseSet_holdings (st : V32State) (index : ℕ) :
    SameHoldings st (maybeCloseSet st index) := by
  unfold maybeCloseSet
  split
  · exact syncWingMirrors_holdings st
  · split_ifs
    · exact syncWingMirrors_holdings st
    · refine SameHoldings.trans ?_ (syncWingMirrors_holdings _)
      refine replaceBatch_holdings st index ?_ (st.setsDone + 1)
      exact fun _ => rfl

/-! ### Bookings -/

/-- A booking adds the batch of its lots. -/
theorem bookRestDelta_adds (st : V32State) (coid : String) (price delta t : ℚ) :
    AddsBatch (qCount delta) st (bookRestDelta p st coid price delta t).st := by
  obtain ⟨-, hlegs, hnext, hbatches⟩ := settleRest_wings (p := p) st coid price delta t
  have hfills : (settleRest p st coid price delta t).restFills =
      st.restFills ++ [⟨price, qCount delta, t⟩] := by
    simp only [settleRest]
    split <;> rfl
  have hstep := (wingStep_holdings (p := p) (settleRest p st coid price delta t) t).trans
    (syncWingMirrors_holdings _)
  refine ⟨?_, hstep.next.trans hnext, rfl, ?_, fun ho => hstep.owned fun l hl => ?_, ?_⟩
  · refine hstep.batches.trans ?_
    rw [hbatches, List.map_append]
    rfl
  · refine fun hnil => absurd (hstep.fills.symm.trans hnil) ?_
    simp [hfills]
  · rw [hlegs] at hl
    rw [hbatches, List.map_append]
    exact List.mem_append_left _ (ho l hl)
  · refine hstep.wings.trans ?_
    rw [hlegs]

/-- A late fill of the rest adds its batch. -/
theorem bookLateRestFill_adds (hnone : st.restFill = none) (price count ts : ℚ) (sd : Option ℤ) :
    AddsBatch (qCount count) st (bookLateRestFill p st price count ts sd).st := by
  unfold bookLateRestFill
  rw [if_neg (by simp [hnone])]
  dsimp only
  have hstep (st' : V32State) := (wingStep_holdings (p := p) st' ts).trans
    (syncWingMirrors_holdings _)
  refine ⟨?_, ?_, rfl, ?_, fun ho => (hstep _).owned fun l hl => ?_, ?_⟩
  · refine (hstep _).batches.trans ?_
    rw [List.map_append]
    rfl
  · exact (hstep _).next
  · refine fun hnil => absurd ((hstep _).fills.symm.trans hnil) ?_
    simp
  · rw [List.map_append]
    exact List.mem_append_left _ (ho l hl)
  · exact (hstep _).wings

/-! ### Inputs -/

/-- The lots an input books. -/
def lotsBooked (st : V32State) (i : Input) : ℚ :=
  if books st i then
    match i with
    | .event (.fill e) =>
      match matchFill st e.clientOrderId with
      | none => 0
      | some o => qCount (skipAmendCross st (o.orderId.or e.orderId) (qCount e.count)).1
    | .event (.orderCancelled e) =>
      match cancelAttribution st (matchCancelled st e.orderId).1 e.orderId with
      | none => qCount (qCount e.filledCountBeforeCancel)
      | some (coid, _) =>
        qCount (qCount (qCount e.filledCountBeforeCancel -
          qCount (st.restBookedByCoid.getD coid 0)))
    | .event (.orderAmended e) => qCount (qCount e.fillCount)
    | .lateFill _ count _ _ => qCount count
    | _ => 0
  else 0

/-- The wing a fill names. -/
def namedWing (st : V32State) : Input → Option WingLeg
  | .event (.fill e) => st.wingLegs.find? fun l => l.clientOrderId == e.clientOrderId
  | _ => none

/-- An input with lots to book adds their batch; any other that names no wing leaves the
holdings alone. -/
def Holds (p : V32Params) (st : V32State) (i : Input) : Prop :=
  (books st i = true → AddsBatch (lotsBooked st i) st (core p st i).st) ∧
    (books st i = false → namedWing st i = none → SameHoldings st (core p st i).st)

/-- A fill adds its batch, or leaves the holdings alone. -/
theorem applyFill_holds (st : V32State) (e : Fill) : Holds p st (.event (.fill e)) := by
  show (fillBooks st e = true → AddsBatch _ st (applyFill p st e e.serverTs).st) ∧
    (fillBooks st e = false → _ → SameHoldings st (applyFill p st e e.serverTs).st)
  unfold applyFill
  cases hleg : st.wingLegs.find? fun l => l.clientOrderId == e.clientOrderId with
  | some leg =>
    refine ⟨fun hbooks => ?_, fun _ hnone => ?_⟩
    · simp [fillBooks, hleg] at hbooks
    · rw [namedWing, hleg] at hnone
      cases hnone
  | none =>
    cases hmatch : matchFill st e.clientOrderId with
    | none =>
      refine ⟨fun hbooks => ?_, fun _ _ => SameHoldings.refl st⟩
      simp [fillBooks, hmatch] at hbooks
    | some o =>
      have hbooks : fillBooks st e = decide
          (0 < (skipAmendCross st (o.orderId.or e.orderId) (qCount e.count)).1) := by
        simp [fillBooks, hleg, hmatch]
      have hskip := SameHoldings.ofRestOnly
        (skipAmendCross_restOnly st (o.orderId.or e.orderId) (qCount e.count))
      dsimp only
      constructor
      · intro hb
        rw [if_pos (of_decide_eq_true (hbooks ▸ hb))]
        have hlots : lotsBooked st (.event (.fill e)) =
            qCount (skipAmendCross st (o.orderId.or e.orderId) (qCount e.count)).1 := by
          simp only [lotsBooked, books, hb, if_true, hmatch]
        rw [hlots]
        exact AddsBatch.after hskip (bookRestDelta_adds _ _ _ _ _)
      · intro hb _
        rw [if_neg (of_decide_eq_false (hbooks ▸ hb))]
        exact hskip

/-- A cancel report adds the batch of what filled before it. -/
theorem applyCancelled_holds (st : V32State) (e : OrderCancelled) :
    Holds p st (.event (.orderCancelled e)) := by
  obtain ⟨hslot, hctx, hbooked⟩ := clearedBy_spec st e
  have hidle := SameHoldings.ofRestOnly hslot
  have hfills : (clearedBy st e).restFills = st.restFills := congrArg Wings.restFills hslot.wings
  have hattr : cancelAttribution (clearedBy st e) (matchCancelled st e.orderId).1 e.orderId =
      cancelAttribution st (matchCancelled st e.orderId).1 e.orderId := by
    simp only [cancelAttribution, hctx]
  have heq : core p st (.event (.orderCancelled e)) = applyCancelled p st e e.serverTs := rfl
  unfold Holds
  rw [heq, applyCancelled_eq, hattr, hbooked, hfills]
  by_cases hle : qCount e.filledCountBeforeCancel ≤ 0
  · rw [if_pos hle]
    refine ⟨fun hbooks => ?_, fun _ _ => hidle⟩
    simp [books, cancelBooks, not_lt.mpr hle] at hbooks
  · rw [if_neg hle]
    have hpos := not_le.mp hle
    cases hsome : cancelAttribution st (matchCancelled st e.orderId).1 e.orderId with
    | some named =>
      obtain ⟨coid, price⟩ := named
      have hbooks : books st (.event (.orderCancelled e)) = decide
          (0 < qCount (qCount e.filledCountBeforeCancel -
          qCount (st.restBookedByCoid.getD coid 0))) := by
        simp [books, cancelBooks, hpos, hsome]
      dsimp only
      constructor
      · intro hb
        have hlots : lotsBooked st (.event (.orderCancelled e)) =
            qCount (qCount (qCount e.filledCountBeforeCancel -
              qCount (st.restBookedByCoid.getD coid 0))) := by
          simp only [lotsBooked, hb, if_true, hsome]
        rw [if_pos (of_decide_eq_true (hbooks ▸ hb)), hlots]
        exact AddsBatch.after hidle (bookRestDelta_adds _ _ _ _ _)
      · intro hb _
        rw [if_neg (of_decide_eq_false (hbooks ▸ hb))]
        exact hidle
    | none =>
      have hbooks : books st (.event (.orderCancelled e)) = st.restFills.isEmpty := by
        simp [books, cancelBooks, hpos, hsome]
      dsimp only
      constructor
      · intro hb
        have hlots : lotsBooked st (.event (.orderCancelled e)) =
            qCount (qCount e.filledCountBeforeCancel) := by
          simp only [lotsBooked, hb, if_true, hsome]
        rw [if_pos (hbooks ▸ hb), hlots]
        exact AddsBatch.after hidle (bookRestDelta_adds _ _ _ _ _)
      · intro hb _
        rw [if_neg (by rw [← hbooks, hb]; exact Bool.false_ne_true)]
        exact hidle

/-- An amend report adds the batch of what crossed. -/
theorem applyAmended_holds (st : V32State) (e : OrderAmended) :
    Holds p st (.event (.orderAmended e)) := by
  show (amendBooks st e = true → AddsBatch _ st (applyAmended p st e e.serverTs).st) ∧
    (amendBooks st e = false → _ → SameHoldings st (applyAmended p st e e.serverTs).st)
  unfold applyAmended
  cases hlive : st.restLive.filter fun o =>
      o.orderId = some e.orderId ∨ o.clientOrderId = e.clientOrderId with
  | none =>
    refine ⟨fun hbooks => ?_, fun _ _ => SameHoldings.ofWings rfl⟩
    cases hrest : st.restLive with
    | none => simp [amendBooks, hrest] at hbooks
    | some o =>
      rw [hrest, Option.filter_some] at hlive
      split at hlive
      · cases hlive
      · rename_i hnot
        simp only [amendBooks, hrest, Option.any_some, Bool.and_eq_true] at hbooks
        exact absurd hbooks.1 hnot
  | some o =>
    obtain ⟨hmem, hnames⟩ := Option.filter_eq_some_iff.mp hlive
    have hbooks : amendBooks st e = decide (0 < qCount e.fillCount) := by
      simp only [amendBooks, hmem, Option.any_some, hnames, Bool.true_and]
    dsimp only
    constructor
    · intro hb
      rw [if_pos (of_decide_eq_true (hbooks ▸ hb))]
      have hlots : lotsBooked st (.event (.orderAmended e)) = qCount (qCount e.fillCount) := by
        simp only [lotsBooked, books, hb, if_true]
      rw [hlots]
      refine AddsBatch.before (AddsBatch.after ?_ (bookRestDelta_adds _ _ _ _ _))
        (SameHoldings.ofRestOnly (guardAmend_restOnly _ e.orderId _))
      exact SameHoldings.ofWings rfl
    · intro hb _
      rw [if_neg (of_decide_eq_false (hbooks ▸ hb))]
      exact SameHoldings.ofWings rfl

/-- A step of the wings and of the quote leaves the holdings alone. -/
theorem refresh_holdings (st : V32State) (t : ℚ) : SameHoldings st (refresh p st t).st := by
  have hcontext : SameHoldings st (recomputeContext p st t) := by
    obtain ⟨q, hq⟩ := recomputeContext_eq (p := p) st t
    rw [hq]
    exact SameHoldings.ofWings rfl
  exact (hcontext.trans (wingStep_holdings _ t)).trans
    (SameHoldings.ofRestOnly (requote_restOnly _ t))

/-- Every input of the core adds its batch, or leaves the holdings alone. -/
theorem core_holds (st : V32State) (i : Input) : Holds p st i := by
  have hidle {i : Input} (hbooks : books st i = false) (h : SameHoldings st (core p st i).st) :
      Holds p st i := by
    refine ⟨fun hb => ?_, fun _ _ => h⟩
    rw [hbooks] at hb
    cases hb
  cases i with
  | lateFill price count ts sd =>
    constructor
    · intro hb
      have hnone : st.restFill = none := Option.isNone_iff_eq_none.mp hb
      have hlots : lotsBooked st (.lateFill price count ts sd) = qCount count := by
        simp only [lotsBooked, hb, if_true]
      rw [hlots]
      exact bookLateRestFill_adds hnone price count ts sd
    · intro hb _
      have hsome : st.restFill.isSome := by
        cases hfill : st.restFill with
        | none => simp [books, hfill] at hb
        | some f => rfl
      show SameHoldings st (bookLateRestFill p st price count ts sd).st
      unfold bookLateRestFill
      rw [if_pos hsome]
      exact SameHoldings.refl st
  | event ev =>
    cases ev with
    | bookUpdate e =>
      apply hidle rfl
      have hfold : SameHoldings st (foldBook st e) := by
        obtain ⟨b, hb⟩ := foldBook_eq st e
        rw [hb]
        exact SameHoldings.ofWings rfl
      exact hfold.trans (refresh_holdings _ _)
    | clockTick now => exact hidle rfl (refresh_holdings st now)
    | trade e => exact hidle rfl (SameHoldings.refl st)
    | orderAck e =>
      apply hidle rfl
      show SameHoldings st (applyAck st e)
      unfold applyAck
      split
      · exact SameHoldings.refl st
      · split
        · exact SameHoldings.refl st
        · exact SameHoldings.ofWings rfl
    | orderAmended e => exact applyAmended_holds st e
    | orderCancelled e => exact applyCancelled_holds st e
    | fill e => exact applyFill_holds st e

/-! ### A wing is answered -/

/-- One wing joins the filled ones. -/
structure FillsWing (leg : WingLeg) (st st' : V32State) : Prop where
  batches : st'.wingBatches.map batchLot = st.wingBatches.map batchLot
  next : st'.nextBatchIndex = st.nextBatchIndex
  fills : st'.restFills = st.restFills
  mirror : st.restFill = st.restFills.getLast? → st'.restFill = st'.restFills.getLast?
  owned : Owned st → Owned st'
  wings : ((filledWings st'.wingLegs).map wingLot).Perm
    (wingLot leg :: (filledWings st.wingLegs).map wingLot)

/-- A wing joins the filled ones before a step that leaves the holdings alone. -/
theorem FillsWing.before {leg : WingLeg} (h : FillsWing leg st st') (h' : SameHoldings st' st'') :
    FillsWing leg st st'' := by
  refine ⟨h'.batches.trans h.batches, h'.next.trans h.next, h'.fills.trans h.fills,
    fun hm => h'.mirror (h.mirror hm), fun ho => h'.owned (h.owned ho), ?_⟩
  rw [h'.wings]
  exact h.wings

/-- Updating an open wing leaves the filled ones alone, unless it joins them. -/
theorem filledWings_replaceFirst {legs : List WingLeg} {leg : WingLeg} {q : WingLeg → Bool}
    {f : WingLeg → WingLeg} (hfind : legs.find? q = some leg) (hopen : leg.status ≠ .filled) :
    ((f leg).status ≠ .filled → filledWings (replaceFirst q f legs) = filledWings legs) ∧
      ((f leg).status = .filled →
        (filledWings (replaceFirst q f legs)).Perm (f leg :: filledWings legs)) := by
  obtain ⟨front, back, hlegs, hlegs', -⟩ := replaceFirst_split (f := f) hfind
  rw [hlegs', hlegs]
  simp only [filledWings, List.filter_append, List.filter_cons, hopen, decide_false]
  constructor
  · intro hstill
    simp [hstill]
  · intro hfilled
    simp [hfilled]

/-- The wing with what a fill says of it. -/
def answered (e : Fill) (l : WingLeg) : WingLeg :=
  if 0 < e.count then
    { l with status := .filled, fillPrice := e.price, fillFee := e.price.map fee }
  else { l with status := .unfilled }

/-- The answer of a wing that is not filled: with lots it fills, without it stays open. -/
theorem core_answer {e : Fill} {leg : WingLeg} (hleg : namedWing st (.event (.fill e)) = some leg)
    (hopen : leg.status ≠ .filled) :
    (e.count ≤ 0 → SameHoldings st (core p st (.event (.fill e))).st) ∧
      (0 < e.count → FillsWing leg st (core p st (.event (.fill e))).st) := by
  have hfind : st.wingLegs.find? (fun l => l.clientOrderId == e.clientOrderId) = some leg := hleg
  have hcore : (core p st (.event (.fill e))).st = applyLegFill st leg e := by
    show (applyFill p st e e.serverTs).st = _
    unfold applyFill
    rw [hfind]
    rfl
  rw [hcore]
  unfold applyLegFill
  dsimp only
  have howned (ho : Owned st) : ∀ l ∈ replaceFirst (fun l => l.clientOrderId == e.clientOrderId)
      (answered e) st.wingLegs, l.batch ∈ st.wingBatches.map WingBatch.index := by
    intro l hl
    rcases mem_replaceFirst hl with hl | ⟨l', hl', -, rfl⟩
    · exact ho l hl
    · have hbatch : (answered e l').batch = l'.batch := by
        unfold answered
        split_ifs <;> rfl
      rw [hbatch]
      exact ho l' hl'
  constructor
  · intro hcount
    refine SameHoldings.trans ?_ (maybeCloseSet_holdings _ _)
    refine ⟨rfl, rfl, rfl, id, howned, ?_⟩
    have hstill : (answered e leg).status ≠ .filled := by simp [answered, not_lt.mpr hcount]
    exact congrArg (List.map wingLot)
      ((filledWings_replaceFirst (f := answered e) hfind hopen).1 hstill)
  · intro hcount
    refine FillsWing.before ?_ (maybeCloseSet_holdings _ _)
    refine ⟨rfl, rfl, rfl, id, howned, ?_⟩
    have hfilled : (answered e leg).status = .filled := by simp [answered, hcount]
    have hlot : wingLot (answered e leg) = wingLot leg := by simp [answered, hcount, wingLot]
    have hjoins := ((filledWings_replaceFirst (f := answered e) hfind hopen).2 hfilled).map wingLot
    rw [List.map_cons, hlot] at hjoins
    exact hjoins

end Pilot.V32
