import Pilot.V33.DecisionContext

/-!
# Fresh placement

An empty ladder is placed on the effective bucket. It is the bucket the books select unless
a switch is still being debounced, for the bucket of the last ladder is not forgotten with
its orders.
-/

namespace Pilot.V33

/-- The bucket a switch is being debounced to at an event. -/
def pendingSwitch (p : V33Params) (st : V33State) (ev : Event) : Option ℤ :=
  match ev with
  | .bookUpdate e => (effectiveBucket p (withBook st ev) e.serverTs).pendingSd
  | .clockTick now => (effectiveBucket p st now).pendingSd
  | _ => st.pendingSwitchSd

/-- An action names the bucket the books select. -/
def NamesSpot (books : V33State) (a : V33Action) : Prop :=
  ∃ sd ticker, selectSpot books = some sd ∧ a.ticker = some ticker ∧
    classifyTicker ticker books.bucketMap books.strikeFloorMap = some (.bucket sd)

/-- The convergence of the event finds an empty ladder: what it creates is a placement of the
whole ladder. -/
def PlacesAll (p : V33Params) (st : V33State) (ev : Event) (r : Outcome) : Prop :=
  beforeConverge p st ev = some r ∧ r.st.ladder = [] ∧ r.st.rollsInFlight = []

/-- Every create on an empty ladder names the bucket the books select. -/
def PlacesOnSpot (p : V33Params) (st : V33State) (ev : Event) : Prop :=
  ∀ r, PlacesAll p st ev r → ∀ a ∈ (converge p r.st ev.serverTs).acts, a.kind.isPlace = true →
    NamesSpot (withBook st ev) a

/-- An open slot fits into a budget, and its price awaits no cancel. -/
def SlotFits (p : V33Params) (held : List ℚ) (budget : ℚ) (slots : List (ℕ × ℚ)) : Prop :=
  ∃ s ∈ slots, weightOfMargin p s.1 ≠ 0 ∧ (weightOfMargin p s.1 : ℚ) ≤ budget ∧ s.2 ∉ held

/-- An empty ladder is placed: the convergence may quote, rungs and contracts of the hour are left,
and an open slot fits among the contracts. -/
def PlacesFresh (p : V33Params) (st : V33State) (now : ℚ) : Prop :=
  quotes p st now = true ∧ st.rungsFilled < p.maxSetsPerHour ∧ ∃ nTop, st.nTop = some nTop ∧
    SlotFits p (heldCancelPrices st) (allotment p - filledContracts st - restingContracts st)
      (placeableOpenSlots p st nTop)

/-- The event places an order on an empty ladder. -/
def PlacesLadder (p : V33Params) (st : V33State) (ev : Event) : Prop :=
  ∃ r, PlacesAll p st ev r ∧ PlacesFresh p r.st ev.serverTs

/-- The buckets of a state are known by their tickers, and the spot is what the books select
exactly when no switch is being debounced. -/
structure SpotKnown (st : V33State) : Prop where
  named : ∀ sd ticker, st.bucketTickers.get? sd = some ticker →
    classifyTicker ticker st.bucketMap st.strikeFloorMap = some (.bucket sd)
  topSeen : ∀ sd, st.bucketTops.contains sd = true → st.bucketTickers.contains sd = true
  restSeen : ∀ sd, st.restBucketSd = some sd → st.bucketTickers.contains sd = true
  spotSeen : ∀ sd, st.spotSd = some sd → st.bucketTickers.contains sd = true
  synced : st.pendingSwitchSd = none ↔ st.spotSd = selectSpot st

section Guards

variable {p : V33Params} {now : ℚ} {s t st st' : V33State} {ev : Event} {r : Outcome}

/-! ### When an empty ladder is placed -/

/-- The outcome creates an order. -/
def Outcome.Places (r : Outcome) : Prop := ∃ a ∈ r.acts, a.kind.isPlace = true

/-- The slots are placed one after the other: the first that fits is created. -/
theorem placeSlots_places (p : V33Params) (held : List ℚ) (budget now : ℚ)
    (slots : List (ℕ × ℚ)) (used : ℚ) (st : V33State) :
    (placeSlots p held budget now slots used st).Places ↔
      SlotFits p held (budget - used) slots := by
  induction slots with
  | nil =>
    refine iff_of_false ?_ ?_
    · rintro ⟨a, ha, -⟩
      cases ha
    · rintro ⟨s, hs, -⟩
      cases hs
  | cons s rest ih =>
    obtain ⟨m, price⟩ := s
    unfold placeSlots
    dsimp only
    split_ifs with hskip
    · rw [ih]
      constructor
      · rintro ⟨s, hs, hfits⟩
        exact ⟨s, List.mem_cons_of_mem _ hs, hfits⟩
      rintro ⟨s, hs, hw, hle, hheld⟩
      rcases List.mem_cons.mp hs with rfl | hs
      · rcases hskip with hzero | hover | hin
        · exact absurd hzero hw
        · exact absurd hover (by linarith)
        · exact absurd hin hheld
      · exact ⟨s, hs, hw, hle, hheld⟩
    · simp only [not_or, not_lt] at hskip
      refine iff_of_true ?_ ?_
      · refine ⟨_, List.mem_append_left _ (List.mem_singleton_self _), ?_⟩
        exact isPlace_placeAction _ _ _
      · exact ⟨(m, price), List.mem_cons_self, hskip.1, by linarith [hskip.2.1], hskip.2.2⟩

/-- A slot that fits leaves contracts. -/
theorem SlotFits.pos {held : List ℚ} {budget : ℚ} {slots : List (ℕ × ℚ)}
    (h : SlotFits p held budget slots) : 0 < budget := by
  obtain ⟨s, -, hw, hle, -⟩ := h
  have hpos : (0 : ℚ) < weightOfMargin p s.1 := by
    exact_mod_cast Nat.pos_of_ne_zero hw
  linarith

/-- The whole ladder is placed exactly if rungs are left and a slot fits. -/
theorem placeAll_places (p : V33Params) (st : V33State) (nTop now : ℚ) :
    (placeAll p st nTop now).Places ↔ st.rungsFilled < p.maxSetsPerHour ∧
      SlotFits p (heldCancelPrices st) (allotment p - filledContracts st - restingContracts st)
        (placeableOpenSlots p st nTop) := by
  have hslots := placeSlots_places p (heldCancelPrices st)
    (allotment p - filledContracts st - restingContracts st) now (placeableOpenSlots p st nTop) 0 st
  rw [sub_zero] at hslots
  unfold placeAll
  dsimp only
  split_ifs with hdone hnone
  · refine iff_of_false (fun ⟨a, ha, _⟩ => by cases ha) ?_
    rintro ⟨hless, hfits⟩
    rcases hdone with hover | hfull
    · exact absurd hfits.pos (not_lt.mpr hover)
    · omega
  · simp only [not_or, not_le] at hdone
    rw [hslots, and_iff_right hdone.2]
  · simp only [not_or, not_le] at hdone
    rw [and_iff_right hdone.2]
    exact hslots

/-- Reports, cancels and amends are no creates. -/
theorem isPlace_eq_false {k : ActionKind}
    (h : k.isReport = true ∨ k.isCancel = true ∨ k.isAmend = true) : k.isPlace = false := by
  cases k <;> simp [ActionKind.isReport, ActionKind.isCancel, ActionKind.isAmend] at h <;> rfl

/-- An operation that may not create emits no create. -/
theorem LadderOp.places_nothing {P : Permit} {acts : List V33Action}
    (h : LadderOp p now P st acts st') (hcreate : ∀ s, ¬P.create s) :
    ∀ a ∈ acts, a.kind.isPlace = false := by
  intro a ha
  apply isPlace_eq_false
  have hcancels {s : V33State} (hmem : a ∈ s.ladder.map (cancelAction s)) :
      a.kind.isCancel = true := by
    obtain ⟨o, -, rfl⟩ := List.mem_map.mp hmem
    exact isCancel_cancelAction s o
  cases h with
  | report _ _ reports => exact Or.inl (reports a ha)
  | drop => exact Or.inr (Or.inl (hcancels (cancelAll_acts st false ▸ ha)))
  | clear => exact Or.inr (Or.inl (hcancels (cancelAllThenReplace_acts st ▸ ha)))
  | create nTop m price guard weight budget permitted => exact absurd permitted (hcreate st)
  | roll o nTop m price =>
    rw [emitRoll, List.mem_singleton] at ha
    subst ha
    simp only [mk, twinKind]
    split <;> exact Or.inr (Or.inr rfl)
  | shrink o =>
    rw [List.mem_singleton.mp ha]
    exact Or.inr (Or.inl (isCancel_cancelAction st o))
  | stallCancel coid =>
    unfold ptCancelRung at ha
    split at ha
    · cases ha
    · next o ho =>
      rw [List.mem_singleton.mp ha]
      exact Or.inr (Or.inl (isCancel_cancelAction st o))
  | _ => cases ha

/-- The stage that places an empty ladder creates orders exactly if rungs are left and a slot
fits. -/
theorem placeStage_places (p : V33Params) (st : V33State) (nTop now : ℚ) :
    (placeStage p nTop now st).Places ↔ st.rungsFilled < p.maxSetsPerHour ∧
      SlotFits p (heldCancelPrices st) (allotment p - filledContracts st - restingContracts st)
        (placeableOpenSlots p st nTop) := by
  unfold placeStage
  split_ifs with hawait hfull
  · exact placeAll_places p { st with awaitingReplace := false } nTop now
  · refine iff_of_false (fun ⟨a, ha, _⟩ => by cases ha) ?_
    rintro ⟨-, s, hs, -⟩
    rw [List.isEmpty_iff.mp hfull.2] at hs
    cases hs
  · exact placeAll_places p st nTop now

/-- A convergence that may not quote creates nothing. -/
theorem quotes_of_places (hempty : st.ladder = []) (h : (converge p st now).Places) :
    quotes p st now = true := by
  by_contra hnot
  have hslots : slotsToCreate p st now = [] :=
    slotsToCreate_of_not_quotes (by simpa using hnot)
  have hvia := @via_converge p now ⟨fun _ => True, fun _ => False, True, True, False⟩ st
    (by simp [hempty]) (fun _ _ _ => trivial) trivial (fun _ _ => trivial)
    fun s _ hs => by simp [hslots, hempty] at hs
  obtain ⟨a, ha, hplace⟩ := h
  have hnone := (Run.outputs (I := fun _ => True) (P := fun a => a.kind.isPlace = false)
    (fun _ _ _ hop _ => ⟨trivial, hop.places_nothing fun _ => id⟩) hvia trivial).2 a ha
  rw [hplace] at hnone
  cases hnone

/-- What a convergence that may quote has found. -/
theorem quotes_eq_true (h : quotes p st now = true) : ∃ nTop, ¬st.restAllotmentDone = true ∧
    ¬(replaceRateAlarm p st now = true ∧ (!st.stoodDown) = true) ∧ bucketMoved st = false ∧
      ¬(st.awaitingReplace = true ∧ 0 < st.outstandingCancels) ∧
        quoteGate p st now = .quote nTop := by
  unfold quotes at h
  simp only [Bool.and_eq_true, Bool.not_eq_true'] at h
  obtain ⟨⟨hon, hwaits⟩, hgate⟩ := h
  simp only [convergesOn, Bool.and_eq_true, Bool.not_eq_true'] at hon
  simp only [quoteWaits, Bool.or_eq_false_iff] at hwaits
  split at hgate
  · next nTop hg =>
    exact ⟨nTop, by simp [hon.1], by simpa using hon.2, hwaits.1, by simpa using hwaits.2, hg⟩
  · cases hgate

/-- On an empty ladder a convergence creates orders exactly if its guards are met. -/
theorem converge_places (hempty : st.ladder = []) (hstill : st.rollsInFlight = []) :
    (converge p st now).Places ↔ PlacesFresh p st now := by
  by_cases hquotes : quotes p st now = true
  swap
  · exact iff_of_false (fun h => hquotes (quotes_of_places hempty h)) fun h => hquotes h.1
  obtain ⟨nTop, hdone, halarm, hmoved, hawaits, hgate⟩ := quotes_eq_true hquotes
  have htop : st.nTop = some nTop := (quoting_of_gate hgate).top
  obtain ⟨x, hx⟩ := resumeQuoting_eq st
  have hstep : quoteStep p nTop st.holdSince.isSome now { st with toPacing := x } =
      placeStage p nTop now { st with toPacing := x } := by
    have hstays : bucketMoved { st with toPacing := x } = false := hmoved
    unfold quoteStep
    rw [if_neg (by rw [hstays]; exact Bool.false_ne_true), if_neg hawaits,
      if_pos (by simp [hempty, hstill])]
  have hconverge : (converge p st now).acts =
      (resumeQuoting st).acts ++ (placeStage p nTop now { st with toPacing := x }).acts := by
    unfold converge
    rw [if_neg hdone, if_neg halarm, hgate]
    show ((resumeQuoting st).andThen (quoteStep p nTop st.holdSince.isSome now)).acts = _
    rw [andThen_acts, hx, hstep]
  have hresume : ∀ a ∈ (resumeQuoting st).acts, a.kind.isPlace = false := by
    simp only [resumeQuoting]
    split_ifs <;> simp [standdownAction, ActionKind.isPlace]
  have hplaces : (converge p st now).Places ↔
      (placeStage p nTop now { st with toPacing := x }).Places := by
    unfold Outcome.Places
    rw [hconverge]
    constructor
    · rintro ⟨a, ha, hplace⟩
      rcases List.mem_append.mp ha with ha | ha
      · rw [hresume a ha] at hplace
        cases hplace
      · exact ⟨a, ha, hplace⟩
    · rintro ⟨a, ha, hplace⟩
      exact ⟨a, List.mem_append_right _ ha, hplace⟩
  rw [hplaces, placeStage_places]
  unfold PlacesFresh
  rw [and_iff_right hquotes, htop]
  simp only [Option.some.injEq, exists_eq_left']
  exact Iff.rfl

end Guards

section Placement

variable {p : V33Params} {now : ℚ} {s t st st' : V33State} {ev : Event} {r : Outcome}

/-- What the books select depends on the books alone. -/
theorem selectSpot_congr (h : st'.toBooks = st.toBooks) : selectSpot st' = selectSpot st := by
  simp only [selectSpot, congrArg Books.bucketTops h]

/-- The context is kept with what is known of the buckets. -/
theorem SpotKnown.sameContext (h : SpotKnown s) (k : SameContext s t) : SpotKnown t := by
  have hmap : t.bucketMap = s.bucketMap := congrArg Window.bucketMap k.window
  have hfloors : t.strikeFloorMap = s.strikeFloorMap := congrArg Window.strikeFloorMap k.window
  have htickers : t.bucketTickers = s.bucketTickers := congrArg Books.bucketTickers k.books
  have hspot : t.spotSd = s.spotSd := congrArg Quote.spotSd k.quote
  refine ⟨?_, ?_, fun sd hsd => ?_, ?_, ?_⟩
  · rw [htickers, hmap, hfloors]
    exact h.named
  · rw [congrArg Books.bucketTops k.books, htickers]
    exact h.topSeen
  · rw [htickers]
    rcases k.rest with hrest | hrest | hrest
    · exact h.restSeen sd (hrest ▸ hsd)
    · rw [hrest] at hsd
      cases hsd
    · exact h.spotSeen sd (hrest ▸ hsd)
  · rw [htickers, hspot]
    exact h.spotSeen
  · rw [congrArg Quote.pendingSwitchSd k.quote, hspot, selectSpot_congr k.books]
    exact h.synced

/-- The effective bucket is what the books select unless a switch away is debounced. -/
theorem effectiveBucket_synced (p : V33Params) (st : V33State) (now : ℚ) :
    (effectiveBucket p st now).pendingSd = none ↔
      (effectiveBucket p st now).sd = selectSpot st := by
  unfold effectiveBucket resolveEffectiveBucket
  cases hraw : selectSpot st with
  | none => simp
  | some raw =>
    cases hrest : st.restBucketSd with
    | none => simp
    | some rest =>
      dsimp only
      by_cases hsame : raw = rest
      · simp [hsame]
      · rw [if_neg hsame]
        -- the timer decides between the candidate and the ladder's bucket
        split_ifs
        all_goals simp [Ne.symm hsame]

/-- The pending switch after the context is re-derived. -/
theorem recomputeContext_pending (p : V33Params) (st : V33State) (now : ℚ) :
    (recomputeContext p st now).pendingSwitchSd = (effectiveBucket p st now).pendingSd := by
  unfold recomputeContext
  dsimp only
  split <;> split_ifs <;> rfl

/-- A recompute brings the spot and the switch up to date. -/
theorem SpotKnown.recompute (named : ∀ sd ticker, st.bucketTickers.get? sd = some ticker →
      classifyTicker ticker st.bucketMap st.strikeFloorMap = some (.bucket sd))
    (topSeen : ∀ sd, st.bucketTops.contains sd = true → st.bucketTickers.contains sd = true)
    (restSeen : ∀ sd, st.restBucketSd = some sd → st.bucketTickers.contains sd = true) :
    SpotKnown (recomputeContext p st now) := by
  have hpending := recomputeContext_pending p st now
  obtain ⟨q, x, heq, hspot, -, -⟩ := recomputeContext_eq p st now
  rw [heq] at hpending ⊢
  refine ⟨named, topSeen, restSeen, fun sd hsd => ?_, ?_⟩
  · rcases effectiveBucket_cases (hspot.symm.trans hsd) with hraw | hrest
    · exact topSeen sd (contains_of_selectSpot hraw)
    · exact restSeen sd hrest
  · show q.pendingSwitchSd = none ↔ q.spotSd = selectSpot st
    have hpending' : q.pendingSwitchSd = (effectiveBucket p st now).pendingSd := hpending
    rw [hpending', hspot]
    exact effectiveBucket_synced p st now

/-- A book is recorded under the bucket its ticker names. -/
theorem bucketTickers_named (e : BookUpdate)
    (named : ∀ sd ticker, st.bucketTickers.get? sd = some ticker →
      classifyTicker ticker st.bucketMap st.strikeFloorMap = some (.bucket sd)) :
    ∀ sd ticker, (foldBook st e).bucketTickers.get? sd = some ticker →
      classifyTicker ticker st.bucketMap st.strikeFloorMap = some (.bucket sd) := by
  unfold foldBook
  dsimp only
  split
  · exact named
  · exact named
  · rename_i floor hclass
    intro sd ticker hticker
    simp only [Dict.get?_set] at hticker
    split_ifs at hticker with heq
    · rw [← Option.some.inj hticker, heq]
      exact hclass
    · exact named sd ticker hticker

/-- Every event is decided in a context whose buckets are known. -/
theorem SpotKnown.contextAt (h : SpotKnown st) (ev : Event) : SpotKnown (contextAt p st ev) := by
  cases ev with
  | bookUpdate e =>
    obtain ⟨t, ht⟩ := stampStrikeFeed_eq (foldBook st e) e
    obtain ⟨hkeep, htop⟩ := bucketTickers_fold e h.topSeen
    obtain ⟨b, hb⟩ := foldBook_eq st e
    have hrest : (stampStrikeFeed (foldBook st e) e).restBucketSd = st.restBucketSd := by rw [hb]
    have hwindow : (stampStrikeFeed (foldBook st e) e).toWindow = st.toWindow := by rw [hb]
    refine SpotKnown.recompute ?_ htop fun sd hsd => hkeep sd (h.restSeen sd (hrest ▸ hsd))
    have htickers : (stampStrikeFeed (foldBook st e) e).bucketTickers =
        (foldBook st e).bucketTickers := by rw [ht]
    intro sd ticker hticker
    show classifyTicker ticker (stampStrikeFeed (foldBook st e) e).bucketMap
      (stampStrikeFeed (foldBook st e) e).strikeFloorMap = _
    rw [congrArg Window.bucketMap hwindow, congrArg Window.strikeFloorMap hwindow]
    exact bucketTickers_named e h.named sd ticker (htickers ▸ hticker)
  | clockTick now => exact SpotKnown.recompute h.named h.topSeen h.restSeen
  | _ => exact h

/-- A decision keeps the spot known. -/
theorem SpotKnown.decide (hcoids : CoidsOk st) (h : SpotKnown st) (ev : Event) :
    SpotKnown (decideV33 p st ev).st :=
  (h.contextAt ev).sameContext (hcoids.sameContext ev)

/-- A new window has no spot to know. -/
theorem SpotKnown.new {p : V33Params} {st : V33State} (h : IsNew p st) : SpotKnown st := by
  obtain ⟨closeTime, closeEpoch, bucketMap, shakedown, strikeFloorMap, coidPrefix, rfl⟩ := h
  have hspot : selectSpot (V33State.new closeTime closeEpoch bucketMap p shakedown strikeFloorMap
      coidPrefix) = none := rfl
  refine ⟨?_, ?_, ?_, ?_, ?_⟩
  · simp [V33State.new]
  · simp [V33State.new, Dict.contains]
  · simp [V33State.new]
  · simp [V33State.new]
  · rw [hspot]
    simp [V33State.new]

/-- The switch of an event is that of its context. -/
theorem pendingSwitch_eq (p : V33Params) (st : V33State) (ev : Event) :
    pendingSwitch p st ev = (contextAt p st ev).pendingSwitchSd := by
  cases ev with
  | bookUpdate e => exact (recomputeContext_pending p _ _).symm
  | clockTick now => exact (recomputeContext_pending p _ _).symm
  | _ => rfl

/-- The context of an event has the window and the books after it. -/
theorem withBook_context (p : V33Params) (st : V33State) (ev : Event) :
    (contextAt p st ev).toWindow = (withBook st ev).toWindow ∧
      (contextAt p st ev).toBooks = (withBook st ev).toBooks := by
  cases ev with
  | bookUpdate e =>
    obtain ⟨q, x, heq, -⟩ := recomputeContext_eq p (withBook st (.bookUpdate e)) e.serverTs
    simp only [contextAt, heq]
    exact ⟨trivial, trivial⟩
  | clockTick now =>
    obtain ⟨q, x, heq, -⟩ := recomputeContext_eq p st now
    simp only [contextAt, withBook, heq]
    exact ⟨trivial, trivial⟩
  | _ => exact ⟨rfl, rfl⟩

/-- A create of the convergence names the spot bucket of the event's context. -/
theorem SpotKnown.place_named (hcoids : CoidsOk st) (h : SpotKnown st)
    (hr : beforeConverge p st ev = some r) {a : V33Action}
    (ha : a ∈ (converge p r.st ev.serverTs).acts) (hplace : a.kind.isPlace = true) :
    ∃ sd ticker, (V33.contextAt p st ev).spotSd = some sd ∧ a.ticker = some ticker ∧
      classifyTicker ticker (withBook st ev).bucketMap (withBook st ev).strikeFloorMap =
        some (.bucket sd) := by
  obtain ⟨hticker, hsome⟩ := hcoids.place_ticker hr a ha hplace
  obtain ⟨sd, hsd⟩ := Option.isSome_iff_exists.mp hsome
  have hctx := h.contextAt (p := p) ev
  obtain ⟨ticker, hget⟩ := Dict.contains_eq_true.mp (hctx.spotSeen sd hsd)
  have hnamed := hctx.named sd ticker hget
  rw [congrArg Window.bucketMap (withBook_context p st ev).1,
    congrArg Window.strikeFloorMap (withBook_context p st ev).1] at hnamed
  refine ⟨sd, ticker, hsd, ?_, hnamed⟩
  rw [hticker, spotTicker, hsd, Option.bind_some, hget, Option.getD_some]

end Placement

/-! ### Runs -/

/-- After every run, what an event creates on an empty ladder names the bucket the books select
exactly when no switch is still being debounced at it. -/
theorem places_on_spot_iff (p : V33Params) (evs : List Event) (st : V33State)
    (h : Reached p (fun _ _ => True) evs st) (ev : Event) :
    PlacesOnSpot p st ev ↔ (PlacesLadder p st ev → pendingSwitch p st ev = none) := by
  obtain ⟨hcoids, hknown⟩ : CoidsOk st ∧ SpotKnown st := h.preserves
    (I := fun st => CoidsOk st ∧ SpotKnown st)
    (fun st hst => ⟨CoidsOk.new hst, SpotKnown.new hst⟩)
    (fun st ev hst _ => ⟨hst.1.decide ev, hst.2.decide hst.1 ev⟩)
  have hspot : selectSpot (withBook st ev) = selectSpot (contextAt p st ev) :=
    (selectSpot_congr (withBook_context p st ev).2).symm
  rw [pendingSwitch_eq, (hknown.contextAt ev).synced, ← hspot]
  constructor
  · rintro hon ⟨r, hr, hfresh⟩
    obtain ⟨a, ha, hplace⟩ := (converge_places hr.2.1 hr.2.2).mpr hfresh
    obtain ⟨sd, ticker, hsd, hticker, hnamed⟩ := hknown.place_named hcoids hr.1 ha hplace
    obtain ⟨sd', ticker', hsd', hticker', hnamed'⟩ := hon r hr a ha hplace
    rw [hticker, Option.some.injEq] at hticker'
    subst hticker'
    rw [hnamed, Option.some.injEq, TickerClass.bucket.injEq] at hnamed'
    rw [hsd, hsd', hnamed']
  · intro hpending r hr a ha hplace
    obtain ⟨sd, ticker, hsd, hticker, hnamed⟩ := hknown.place_named hcoids hr.1 ha hplace
    have hsync := hpending ⟨r, hr, (converge_places hr.2.1 hr.2.2).mp ⟨a, ha, hplace⟩⟩
    exact ⟨sd, ticker, hsync ▸ hsd, hticker, hnamed⟩

/-- The last book of the sample opening places the ladder on the bucket the books select. -/
theorem places_on_spot_sample :
    let st := after samplePolicy (sampleWindow samplePolicy) (sampleOpening.take 3)
    (∃ a ∈ (decideV33 samplePolicy st (centBook "S100" 68 70 1000)).acts,
        a.kind.isPlace = true) ∧
      PlacesOnSpot samplePolicy st (centBook "S100" 68 70 1000) :=
  ⟨by decide +kernel,
    (places_on_spot_iff samplePolicy _ _ (reached_sample (by decide +kernel)) _).mpr
      fun _ => by decide +kernel⟩

/-- The sample policy with a debounce of five seconds. -/
def slowSwitch : V33Params :=
  { samplePolicy with
    bucketSwitchDebMs := 5000
    bucketSwitchMaxPendingMs := 5000
    maxPending_ge_deb := by decide }

/-- One order of the ladder is filled and the spot moves to the second bucket. -/
def filledUnderSwitch : List Event :=
  sampleOpening ++
    [centBook "B200" 60 62 1002,
      .fill ⟨some "v1", "c-1", 1, some (59 / 100), .no, 1002, none, none⟩]

/-- The window with one order left on the first bucket. -/
def oneLeft : V33State := after slowSwitch (sampleWindow slowSwitch) filledUnderSwitch

/-- The venue cancels the order that is left. -/
def lastCancelled : OrderCancelled := ⟨some "v2", 1003, 0, none, none, none⟩

/-- What the last cancel does before its convergence. -/
def lastReport : Outcome :=
  (reportCancel slowSwitch oneLeft lastCancelled 1003).andThen
    (finishCancel slowSwitch
      (cancelledOrder (clearCancelPending oneLeft (some "v2")) lastCancelled) lastCancelled 1003)

/-- The emptied ladder is placed on the bucket it had while the books select the other. -/
theorem emptied_ladder_misplaced :
    ¬∀ p evs st, Reached p (fun _ _ => True) evs st → ∀ ev, PlacesOnSpot p st ev := by
  intro h
  have hon : PlacesOnSpot slowSwitch oneLeft (.orderCancelled lastCancelled) :=
    h slowSwitch filledUnderSwitch _ (reached_sample (by decide +kernel)) _
  have hempty : lastReport.st.ladder = [] ∧ lastReport.st.rollsInFlight = [] := by decide +kernel
  have hplaced : ∃ a ∈ (converge slowSwitch lastReport.st 1003).acts,
      a.kind.isPlace = true ∧ a.ticker = some "B100" := by decide +kernel
  have hspot : selectSpot oneLeft = some 200 := by decide +kernel
  have hnamed : classifyTicker "B100" oneLeft.bucketMap oneLeft.strikeFloorMap =
      some (.bucket 100) := by decide +kernel
  obtain ⟨a, ha, hplace, hticker⟩ := hplaced
  obtain ⟨sd, ticker, hsd, hticker', hnamed'⟩ := hon lastReport ⟨rfl, hempty⟩ a ha hplace
  simp only [withBook] at hsd hnamed'
  rw [hspot, Option.some.injEq] at hsd
  rw [hticker, Option.some.injEq] at hticker'
  rw [← hticker', hnamed, ← hsd] at hnamed'
  simp at hnamed'

end Pilot.V33
