import Pilot.V32.Driver
import Pilot.V32.RequoteSteps

/-!
# Wings on the filled bucket

A core that is fed events and late fills, beside a record of the market each order was
placed on and of the bucket each fill came from. A leg is on the strikes of its fill's
bucket when the wings were taken while that bucket was the spot.
-/

namespace Pilot.V32

open V33 (ActionKind BookUpdate Event Fill OrderAmended OrderCancelled classifyTicker)

variable {p : V32Params} {t : ℚ} {st st' : V32State} {r r' : Outcome}

/-! ### Inputs of the core -/

/-- What the core is fed: an event, or a fill of an order it no longer tracks. -/
inductive Input where
  | event (ev : Event)
  | lateFill (price count serverTs : ℚ) (bucketSd : Option ℤ)

/-- The core on an input. -/
def core (p : V32Params) (st : V32State) : Input → Outcome
  | .event ev => decideV32 p st ev
  | .lateFill price count ts sd => bookLateRestFill p st price count ts sd

/-- The core with a record of the fills it booked. -/
structure Watched where
  st : V32State
  /-- The market of each client order id. -/
  markets : Dict String String
  /-- The client order id each order id was acknowledged for. -/
  names : Dict String String
  /-- The bucket of the order whose fill made the batch of an index. -/
  buckets : Dict ℕ ℤ

/-- The market a create names, and the one an amended order keeps under its new id. -/
def noteMarket (markets : Dict String String) (a : V32Action) : Dict String String :=
  match a.kind with
  | .placeRest | .wouldPlaceRest => markets.set (a.clientOrderId.getD "") (a.ticker.getD "")
  | .amendRest | .wouldAmendRest =>
    match a.clientOrderId.bind fun coid => markets.get? coid with
    | none => markets
    | some market => markets.set (a.updatedClientOrderId.getD "") market
  | _ => markets

/-- The client order id an acknowledgement names. -/
def noteName (names : Dict String String) : Input → Dict String String
  | .event (.orderAck e) => names.set e.orderId e.clientOrderId
  | _ => names

/-- The market of the order an input reports lots of. -/
def filledMarket (w : Watched) : Input → Option String
  | .event (.fill e) => w.markets.get? e.clientOrderId
  | .event (.orderCancelled e) =>
    (e.orderId.bind fun oid => w.names.get? oid).bind fun coid => w.markets.get? coid
  | .event (.orderAmended e) => (w.names.get? e.orderId).bind fun coid => w.markets.get? coid
  | _ => none

/-- The floor of a bucket market. -/
def bucketFloor (st : V32State) (market : String) : Option ℤ :=
  match classifyTicker market st.bucketMap st.strikeFloorMap with
  | some (.bucket floor) => some floor
  | _ => none

/-- The bucket of the order an input reports lots of; a late fill says it itself. -/
def filledBucket (w : Watched) : Input → Option ℤ
  | .lateFill _ _ _ sd => sd
  | i => (filledMarket w i).bind (bucketFloor w.st)

/-- The buckets with that of the fill the core booked, if it booked one. -/
def noteBucket (p : V32Params) (w : Watched) (i : Input) : Dict ℕ ℤ :=
  match filledBucket w i with
  | none => w.buckets
  | some sd =>
    if (core p w.st i).st.nextBatchIndex = w.st.nextBatchIndex then w.buckets
    else w.buckets.set w.st.nextBatchIndex sd

/-- The watched core after an input. -/
def watch (p : V32Params) (w : Watched) (i : Input) : Watched where
  st := (core p w.st i).st
  markets := (core p w.st i).acts.foldl noteMarket w.markets
  names := noteName w.names i
  buckets := noteBucket p w i

/-- A watched core at the start of a window. -/
def IsNewWatch (w : Watched) : Prop :=
  ∃ closeTime closeEpoch bucketMap shakedown strikeFloorMap,
    w = ⟨V32State.new closeTime closeEpoch bucketMap shakedown strikeFloorMap, Dict.empty,
      Dict.empty, Dict.empty⟩

/-- A run of the core from the start of a window, of inputs that meet a condition. -/
def Fills (p : V32Params) (ok : Watched → Input → Prop) (is : List Input) (w : Watched) : Prop :=
  ∃ start, IsNewWatch start ∧ Fed (watch p) ok start is w

/-! ### The condition -/

/-- The time of an input. -/
def Input.time : Input → ℚ
  | .event ev => ev.serverTs
  | .lateFill _ _ ts _ => ts

/-- The state whose spot the wings of an input are taken on: books and ticks re-derive it, a
late fill sets it to its own bucket, and the other events keep the last one. -/
def wingContext (p : V32Params) (st : V32State) : Input → V32State
  | .event (.bookUpdate e) => recomputeContext p (foldBook st e) e.serverTs
  | .event (.clockTick now) => recomputeContext p st now
  | .lateFill _ _ _ sd =>
    { st with
      spotSd := sd.or st.spotSd
      spotSu := match sd.or st.spotSd with
        | some sd => some (sd + p.bucketWidth)
        | none => st.spotSu }
  | _ => st

/-- The wings can be taken: before the cutoff, with both asks quoted and fresh. -/
def Takes (p : V32Params) (st : V32State) (now : ℚ) : Prop :=
  (p.noOrdersAfterSToSettle : ℚ) ≤ st.closeEpoch - now ∧ (wingPrices p st now).isSome

instance (p : V32Params) (st : V32State) (now : ℚ) : Decidable (Takes p st now) :=
  inferInstanceAs (Decidable (_ ∧ _))

/-- A private fill has lots to book: it names the order of the slot, and not all of them were
booked from an amend. -/
def fillBooks (st : V32State) (e : Fill) : Bool :=
  (st.wingLegs.find? fun l => l.clientOrderId == e.clientOrderId).isNone &&
    (matchFill st e.clientOrderId).any fun o =>
      decide (0 < (skipAmendCross st (o.orderId.or e.orderId) (qCount e.count)).1)

/-- A cancel confirm has lots to book: more than were booked of the order it names, or, of an
unknown order, the first of the window. -/
def cancelBooks (st : V32State) (e : OrderCancelled) : Bool :=
  let filled := qCount e.filledCountBeforeCancel
  decide (0 < filled) &&
    match cancelAttribution st (matchCancelled st e.orderId).1 e.orderId with
    | some (coid, _) => decide (0 < qCount (filled - qCount (st.restBookedByCoid.getD coid 0)))
    | none => st.restFills.isEmpty

/-- An amend confirm has lots to book: it names the live order and crossed. -/
def amendBooks (st : V32State) (e : OrderAmended) : Bool :=
  st.restLive.any (fun o => o.orderId = some e.orderId ∨ o.clientOrderId = e.clientOrderId) &&
    decide (0 < qCount e.fillCount)

/-- An input has lots to book. -/
def books (st : V32State) : Input → Bool
  | .event (.fill e) => fillBooks st e
  | .event (.orderCancelled e) => cancelBooks st e
  | .event (.orderAmended e) => amendBooks st e
  | .lateFill _ _ _ _ => st.restFill.isNone
  | _ => false

/-- A batch waits for its first take. -/
def WingBatch.waiting (b : WingBatch) : Bool := !b.taken && !b.completed

/-- An input at which wings can be taken finds the spot on the bucket of every fill that waits
for them, the one it books included. -/
def SpotOnFills (p : V32Params) (w : Watched) (i : Input) : Prop :=
  Takes p (wingContext p w.st i) i.time →
    (∀ b ∈ w.st.wingBatches, b.waiting = true →
      w.buckets.get? b.index = (wingContext p w.st i).spotSd) ∧
      (books w.st i = true → filledBucket w i = (wingContext p w.st i).spotSd)

instance (p : V32Params) (w : Watched) (i : Input) : Decidable (SpotOnFills p w i) :=
  inferInstanceAs (Decidable (_ → _ ∧ _))

/-! ### Legs on their strikes -/

/-- The strike a leg of a bucket's fill belongs on. -/
def strikeFor (p : V32Params) (sd : ℤ) : Side → ℤ
  | .yes => sd
  | .no => sd + p.bucketWidth

/-- A leg is on the strike of its fill's bucket. -/
def OnFilledBucket (p : V32Params) (bucketOf : ℕ → Option ℤ) (st : V32State) (l : WingLeg) : Prop :=
  ∃ sd, bucketOf l.batch = some sd ∧
    classifyTicker l.ticker st.bucketMap st.strikeFloorMap = some (.strike (strikeFor p sd l.side))

instance (p : V32Params) (bucketOf : ℕ → Option ℤ) (st : V32State) (l : WingLeg) :
    Decidable (OnFilledBucket p bucketOf st l) :=
  decidable_of_iff ((bucketOf l.batch).any fun sd =>
    decide (classifyTicker l.ticker st.bucketMap st.strikeFloorMap =
      some (.strike (strikeFor p sd l.side))))
    (by simp [OnFilledBucket, Option.any_eq_true])

/-- The books and the spot name strikes by their own tickers, and every leg is on the strike of
its fill's bucket. -/
structure LegsPlaced (p : V32Params) (bucketOf : ℕ → Option ℤ) (st : V32State) : Prop where
  spotSu : ∀ sd, st.spotSd = some sd → st.spotSu = some (sd + p.bucketWidth)
  tickers : ∀ s ticker, st.strikeTickers.get? s = some ticker →
    classifyTicker ticker st.bucketMap st.strikeFloorMap = some (.strike s)
  tops : ∀ s, (st.strikeTops.get? s).isSome → (st.strikeTickers.get? s).isSome
  numbered : ∀ b ∈ st.wingBatches, b.index < st.nextBatchIndex
  legs : ∀ l ∈ st.wingLegs, l.batch < st.nextBatchIndex ∧ OnFilledBucket p bucketOf st l

/-- What a leg keeps while it is retried and filled. -/
def legPlace (l : WingLeg) : String × Side × ℕ := (l.ticker, l.side, l.batch)

/-- The side of the spot's strikes. -/
def spotStrike (st : V32State) : Side → Option ℤ
  | .yes => st.spotSd
  | .no => st.spotSu

/-- A leg is taken on the spot's strike for a batch that waits. -/
def TakenOnSpot (st : V32State) (l : WingLeg) : Prop :=
  (∃ b ∈ st.wingBatches, b.waiting = true ∧ b.index = l.batch) ∧
    l.ticker = strikeTicker st (spotStrike st l.side)

/-- A part of a decision on the wings: a leg is an old one or taken on the spot, and no batch is
added or waits again. -/
structure Serves (st : V32State) (r : Outcome) : Prop where
  wings : WingsOnly st r
  next : r.st.nextBatchIndex = st.nextBatchIndex
  batches : ∀ b ∈ r.st.wingBatches, ∃ b' ∈ st.wingBatches, b'.index = b.index ∧
    (b.waiting = true → b'.waiting = true)
  legs : ∀ l ∈ r.st.wingLegs, (∃ l' ∈ st.wingLegs, legPlace l' = legPlace l) ∨ TakenOnSpot st l

/-- Doing nothing serves the wings. -/
theorem Serves.quiet (st : V32State) : Serves st st.quiet :=
  ⟨WingsOnly.quiet st, rfl, fun b hb => ⟨b, hb, rfl, id⟩, fun l hl => Or.inl ⟨l, hl, rfl⟩⟩

/-- What the wings leave alone. -/
theorem WingsOnly.context (h : WingsOnly st r) :
    r.st.toWindow = st.toWindow ∧ r.st.toBooks = st.toBooks ∧ r.st.toQuote = st.toQuote := by
  obtain ⟨⟨w, n, -, hst⟩, -⟩ := h
  rw [hst]
  exact ⟨rfl, rfl, rfl⟩

/-- A leg taken on the spot after a service was taken on the spot before it. -/
theorem TakenOnSpot.of_wingsOnly {l : WingLeg} (hw : WingsOnly st r)
    (hb : ∀ b ∈ r.st.wingBatches, ∃ b' ∈ st.wingBatches, b'.index = b.index ∧
      (b.waiting = true → b'.waiting = true))
    (h : TakenOnSpot r.st l) : TakenOnSpot st l := by
  obtain ⟨⟨b, hbmem, hwait, hindex⟩, hticker⟩ := h
  obtain ⟨b', hb', hindex', hwait'⟩ := hb b hbmem
  refine ⟨⟨b', hb', hwait' hwait, hindex'.trans hindex⟩, ?_⟩
  obtain ⟨⟨w, n, -, hst⟩, -⟩ := hw
  rw [hticker, hst]
  cases l.side <;> rfl

/-- A service of the wings may be followed by another. -/
theorem Serves.andThen {next : V32State → Outcome} (h : Serves st r)
    (h' : ∀ st, Serves st (next st)) : Serves st (r.andThen next) := by
  have hn := h' r.st
  refine ⟨h.wings.andThen fun st => (h' st).wings, hn.next.trans h.next, fun b hb => ?_,
    fun l hl => ?_⟩
  · obtain ⟨b', hb', hindex, hwait⟩ := hn.batches b hb
    obtain ⟨b'', hb'', hindex', hwait'⟩ := h.batches b' hb'
    exact ⟨b'', hb'', hindex'.trans hindex, fun hw => hwait' (hwait hw)⟩
  · rcases hn.legs l hl with ⟨l', hl', hplace⟩ | htaken
    · rcases h.legs l' hl' with ⟨l'', hl'', hplace'⟩ | ⟨hbatch, hticker⟩
      · exact Or.inl ⟨l'', hl'', hplace'.trans hplace⟩
      · simp only [legPlace, Prod.mk.injEq] at hplace
        obtain ⟨ht, hs, hb⟩ := hplace
        rw [ht, hs] at hticker
        rw [hb] at hbatch
        exact Or.inr ⟨hbatch, hticker⟩
    · exact Or.inr (htaken.of_wingsOnly h.wings h.batches)

/-- Re-deriving the mirrors serves the wings. -/
theorem Serves.synced (h : Serves st r) : Serves st (r.mapSt syncWingMirrors) :=
  ⟨h.wings.synced, h.next, h.batches, h.legs⟩

/-- A loop of services serves the wings. -/
theorem Serves.forEach {α : Type} {body : α → V32State → Outcome}
    (hbody : ∀ x st, Serves st (body x st)) (xs : List α) (st : V32State) :
    Serves st (forEach xs body st) := by
  induction xs generalizing st with
  | nil => exact Serves.quiet st
  | cons x xs ih => exact (hbody x st).andThen ih

/-- Updating a batch keeps the indices, and the waiting batches if the update keeps those. -/
theorem replaceBatch_batches {batches : List WingBatch} {index : ℕ} {f : WingBatch → WingBatch}
    (hindex : ∀ b, (f b).index = b.index) (hwait : ∀ b, (f b).waiting = true → b.waiting = true) :
    ∀ b ∈ replaceBatch batches index f, ∃ b' ∈ batches, b'.index = b.index ∧
      (b.waiting = true → b'.waiting = true) := by
  intro b hb
  rcases mem_replaceFirst hb with hb | ⟨b', hb', -, rfl⟩
  · exact ⟨b, hb, rfl, id⟩
  · exact ⟨b', hb', (hindex b').symm, hwait b'⟩

/-- The take of a waiting batch puts both legs on the spot's strikes. -/
theorem takeBatch_serves (st : V32State) (b : WingBatch) (hb : b ∈ st.wingBatches)
    (hwait : b.waiting = true) (ya na : ℚ) : Serves st (takeBatch p st b ya na) := by
  refine ⟨takeBatch_wingsOnly st b ya na, rfl,
    replaceBatch_batches (fun _ => rfl) (fun b => by simp [WingBatch.waiting]), fun l hl => ?_⟩
  rcases List.mem_append.mp hl with hl | hl
  · exact Or.inl ⟨l, hl, rfl⟩
  · right
    rcases List.mem_cons.mp hl with rfl | hl
    · exact ⟨⟨b, hb, hwait, rfl⟩, rfl⟩
    · rw [List.mem_singleton] at hl
      subst hl
      exact ⟨⟨b, hb, hwait, rfl⟩, rfl⟩

/-- A retry leaves the legs on their strikes. -/
theorem retryLegs_places (index : ℕ) (ya na : ℚ) (legs : List WingLeg) (st : V32State) :
    (retryLegs p index ya na legs st).1.map legPlace = legs.map legPlace := by
  induction legs generalizing st with
  | nil => rfl
  | cons leg rest ih =>
    unfold retryLegs
    split <;> simp [ih, legPlace]

/-- A retry of legs only emits: the wings are written back by its caller. -/
theorem retryLegs_wings (index : ℕ) (ya na : ℚ) (legs : List WingLeg) (st : V32State) :
    (retryLegs p index ya na legs st).2.st.toWings = st.toWings := by
  induction legs generalizing st with
  | nil => rfl
  | cons leg rest ih =>
    unfold retryLegs
    split
    · exact (ih _).trans rfl
    · exact ih st

/-- A leg has a counterpart among legs at the same places. -/
theorem exists_legPlace {ls ls' : List WingLeg} (h : ls.map legPlace = ls'.map legPlace)
    {l : WingLeg} (hl : l ∈ ls) : ∃ l' ∈ ls', legPlace l' = legPlace l := by
  have hmem : legPlace l ∈ ls'.map legPlace := h ▸ List.mem_map_of_mem hl
  exact List.mem_map.mp hmem

/-- The retry of a batch serves the wings. -/
theorem retryBatch_serves (st : V32State) (b : WingBatch) (ya na : ℚ) :
    Serves st (retryBatch p st b ya na) := by
  have hwings := retryBatch_wingsOnly (p := p) st b ya na
  revert hwings
  unfold retryBatch
  split
  · exact fun _ => Serves.quiet st
  · intro hwings
    have hkept := retryLegs_wings (p := p) b.index ya na st.wingLegs st
    have hnext : (retryLegs p b.index ya na st.wingLegs st).2.st.nextBatchIndex =
        st.nextBatchIndex := congrArg Wings.nextBatchIndex hkept
    have hbatches : (retryLegs p b.index ya na st.wingLegs st).2.st.wingBatches =
        st.wingBatches := congrArg Wings.wingBatches hkept
    refine ⟨hwings, hnext, fun b' hb' => ⟨b', ?_, rfl, id⟩, fun l hl => ?_⟩
    · rw [← hbatches]
      exact hb'
    · exact Or.inl (exists_legPlace (retryLegs_places b.index ya na st.wingLegs st) hl)

/-- Serving a batch serves the wings. -/
theorem serveBatch_serves (ya na : ℚ) (index : ℕ) (st : V32State) :
    Serves st (serveBatch p ya na index st) := by
  unfold serveBatch
  split
  · exact Serves.quiet st
  · rename_i b hb
    by_cases hcompleted : b.completed = true
    · rw [if_pos hcompleted]
      exact Serves.quiet st
    · by_cases htaken : b.taken = true
      · rw [if_neg hcompleted, if_pos htaken]
        exact retryBatch_serves st b ya na
      · rw [if_neg hcompleted, if_neg htaken]
        exact takeBatch_serves st b (List.mem_of_find?_eq_some hb)
          (by simp [WingBatch.waiting, htaken, hcompleted]) ya na

/-- At the cutoff no leg is added. -/
theorem cutoffBatch_serves (b : WingBatch) (st : V32State) :
    Serves st (cutoffBatch b st) ∧ (cutoffBatch b st).st.wingLegs = st.wingLegs := by
  have hwings := cutoffBatch_wingsOnly b st
  revert hwings
  unfold cutoffBatch
  split_ifs
  · exact fun _ => ⟨Serves.quiet st, rfl⟩
  · refine fun hwings => ⟨⟨hwings, rfl, ?_, fun l hl => Or.inl ⟨l, hl, rfl⟩⟩, rfl⟩
    exact replaceBatch_batches (fun _ => rfl) (fun _ => id)

/-- The step of the wings serves them. -/
theorem wingStep_serves (st : V32State) (t : ℚ) : Serves st (wingStep p st t) := by
  unfold wingStep
  split_ifs
  · exact Serves.quiet st
  · exact (Serves.forEach (fun b st => (cutoffBatch_serves b st).1) _ st).synced
  · split
    · exact Serves.quiet st
    · exact (Serves.forEach (serveBatch_serves _ _) _ st).synced

/-- The cutoff changes no leg. -/
theorem forEach_cutoff_legs (bs : List WingBatch) (st : V32State) :
    (forEach bs cutoffBatch st).st.wingLegs = st.wingLegs := by
  induction bs generalizing st with
  | nil => rfl
  | cons b bs ih => exact (ih _).trans (cutoffBatch_serves b st).2

/-- Where the wings cannot be taken, no leg is added. -/
theorem wingStep_legs_of_not_takes (h : ¬Takes p st t) :
    (wingStep p st t).st.wingLegs = st.wingLegs := by
  unfold wingStep
  split_ifs with hempty hcutoff
  · rfl
  · exact forEach_cutoff_legs _ st
  · have hprices : wingPrices p st t = none := by
      by_contra hsome
      exact h ⟨not_lt.mp hcutoff, Option.isSome_iff_ne_none.mpr hsome⟩
    rw [hprices]
    rfl

/-- Counting a completed set serves the wings. -/
theorem maybeCloseSet_serves (st : V32State) (index : ℕ) :
    Serves st (maybeCloseSet st index).quiet := by
  have hwings := maybeCloseSet_wingsOnly st index
  revert hwings
  unfold maybeCloseSet
  split
  · exact fun hwings => ⟨hwings, rfl, fun b hb => ⟨b, hb, rfl, id⟩, fun l hl => Or.inl ⟨l, hl, rfl⟩⟩
  · split_ifs
    · exact fun hwings =>
        ⟨hwings, rfl, fun b hb => ⟨b, hb, rfl, id⟩, fun l hl => Or.inl ⟨l, hl, rfl⟩⟩
    · refine fun hwings => ⟨hwings, rfl, ?_, fun l hl => Or.inl ⟨l, hl, rfl⟩⟩
      exact replaceBatch_batches (fun _ => rfl) (fun b => by simp [WingBatch.waiting])

/-- Counting a completed set changes no leg. -/
theorem maybeCloseSet_wingLegs (st : V32State) (index : ℕ) :
    (maybeCloseSet st index).wingLegs = st.wingLegs := by
  unfold maybeCloseSet
  split
  · rfl
  · split_ifs <;> rfl

/-- A fill of a leg leaves every leg in its place. -/
theorem applyLegFill_places (st : V32State) (leg : WingLeg) (ev : Fill) :
    (applyLegFill st leg ev).wingLegs.map legPlace = st.wingLegs.map legPlace := by
  unfold applyLegFill
  rw [maybeCloseSet_wingLegs]
  refine map_replaceFirst_of_eq (fun l _ => ?_) _
  simp only [legPlace]
  split_ifs <;> rfl

/-- The fill of a leg serves the wings. -/
theorem applyLegFill_serves (st : V32State) (leg : WingLeg) (ev : Fill) :
    Serves st (applyLegFill st leg ev).quiet := by
  refine ⟨applyLegFill_wingsOnly st leg ev, ?_, ?_,
    fun l hl => Or.inl (exists_legPlace (applyLegFill_places st leg ev) hl)⟩
  · exact (maybeCloseSet_serves _ _).next
  · exact (maybeCloseSet_serves _ _).batches

/-! ### What keeps the legs placed -/

variable {B B' : ℕ → Option ℤ}

/-- Whether a leg is on its strike depends on its place alone. -/
theorem OnFilledBucket.of_place {l l' : WingLeg} (h : OnFilledBucket p B st l')
    (hplace : legPlace l' = legPlace l) : OnFilledBucket p B st l := by
  simp only [legPlace, Prod.mk.injEq] at hplace
  obtain ⟨hticker, hside, hbatch⟩ := hplace
  obtain ⟨sd, hsd, hstrike⟩ := h
  refine ⟨sd, hbatch ▸ hsd, ?_⟩
  rw [← hticker, ← hside]
  exact hstrike

/-- Other wings under the same books and spot: the legs stay placed if each of them is. -/
theorem LegsPlaced.rewing (h : LegsPlaced p B st) (hwindow : st'.toWindow = st.toWindow)
    (hbooks : st'.toBooks = st.toBooks) (hquote : st'.toQuote = st.toQuote)
    (hnumbered : ∀ b ∈ st'.wingBatches, b.index < st'.nextBatchIndex)
    (hlegs : ∀ l ∈ st'.wingLegs, l.batch < st'.nextBatchIndex ∧ OnFilledBucket p B' st l) :
    LegsPlaced p B' st' := by
  have hmap : st'.bucketMap = st.bucketMap := congrArg Window.bucketMap hwindow
  have hfloors : st'.strikeFloorMap = st.strikeFloorMap := congrArg Window.strikeFloorMap hwindow
  refine ⟨?_, ?_, ?_, hnumbered, ?_⟩
  · rw [congrArg Quote.spotSd hquote, congrArg Quote.spotSu hquote]
    exact h.spotSu
  · rw [congrArg Books.strikeTickers hbooks, hmap, hfloors]
    exact h.tickers
  · rw [congrArg Books.strikeTickers hbooks, congrArg Books.strikeTops hbooks]
    exact h.tops
  · unfold OnFilledBucket
    rw [hmap, hfloors]
    exact hlegs

/-- The legs stay placed while the books, the spot and the wings stay as they are. -/
theorem LegsPlaced.frame (h : LegsPlaced p B st) (hwindow : st'.toWindow = st.toWindow)
    (hbooks : st'.toBooks = st.toBooks) (hquote : st'.toQuote = st.toQuote)
    (hwings : st'.toWings = st.toWings) : LegsPlaced p B st' := by
  apply h.rewing hwindow hbooks hquote
  · rw [congrArg Wings.wingBatches hwings, congrArg Wings.nextBatchIndex hwings]
    exact h.numbered
  · rw [congrArg Wings.wingLegs hwings, congrArg Wings.nextBatchIndex hwings]
    exact h.legs

/-- A part on the wings keeps the legs placed if the legs it takes are. -/
theorem LegsPlaced.serves (h : LegsPlaced p B st) (hs : Serves st r)
    (hnew : ∀ l ∈ r.st.wingLegs, (∃ l' ∈ st.wingLegs, legPlace l' = legPlace l) ∨
      (TakenOnSpot st l ∧ OnFilledBucket p B st l)) : LegsPlaced p B r.st := by
  obtain ⟨hwindow, hbooks, hquote⟩ := hs.wings.context
  apply h.rewing hwindow hbooks hquote
  · intro b hb
    obtain ⟨b', hb', hindex, -⟩ := hs.batches b hb
    rw [hs.next, ← hindex]
    exact h.numbered b' hb'
  · intro l hl
    rw [hs.next]
    rcases hnew l hl with ⟨l', hl', hplace⟩ | ⟨⟨⟨b, hb, -, hindex⟩, -⟩, hon⟩
    · obtain ⟨hlt, hon⟩ := h.legs l' hl'
      have hbatch : l'.batch = l.batch := congrArg (fun k => k.2.2) hplace
      exact ⟨hbatch ▸ hlt, hon.of_place hplace⟩
    · exact ⟨hindex ▸ h.numbered b hb, hon⟩

/-- Prices for the wings mean that the spot and both its strikes are known. -/
theorem wingPrices_known (h : (wingPrices p st t).isSome) :
    ∃ sd su, st.spotSd = some sd ∧ st.spotSu = some su ∧ (st.strikeTops.get? sd).isSome ∧
      (st.strikeTops.get? su).isSome := by
  unfold wingPrices at h
  split at h
  · rename_i sd su hsd hsu
    obtain ⟨a, ha⟩ := Option.isSome_iff_exists.mp h
    have hasks := (Option.filter_eq_some_iff.mp ha).1
    unfold strikeAsks at hasks
    split at hasks
    · rename_i sdTop suTop hsdTop hsuTop
      exact ⟨sd, su, hsd, hsu, by rw [hsdTop]; rfl, by rw [hsuTop]; rfl⟩
    · simp at hasks
  · simp at h

/-- The ticker of a known strike is its own. -/
theorem LegsPlaced.strikeTicker (h : LegsPlaced p B st) {s : ℤ}
    (hs : (st.strikeTops.get? s).isSome) :
    classifyTicker (V32.strikeTicker st (some s)) st.bucketMap st.strikeFloorMap =
      some (.strike s) := by
  obtain ⟨ticker, hticker⟩ := Option.isSome_iff_exists.mp (h.tops s hs)
  have heq : V32.strikeTicker st (some s) = ticker := by
    simp [V32.strikeTicker, hticker]
  rw [heq]
  exact h.tickers s ticker hticker

/-- A leg taken on the spot is placed if the spot is its batch's bucket. -/
theorem LegsPlaced.takenOnSpot (h : LegsPlaced p B st) (htakes : Takes p st t) {l : WingLeg}
    (hl : TakenOnSpot st l) (hspot : B l.batch = st.spotSd) : OnFilledBucket p B st l := by
  obtain ⟨sd, su, hsd, hsu, hsdTop, hsuTop⟩ := wingPrices_known htakes.2
  have hsu' : some su = some (sd + p.bucketWidth) := hsu ▸ h.spotSu sd hsd
  rw [Option.some.injEq] at hsu'
  refine ⟨sd, hspot.trans hsd, ?_⟩
  rw [hl.2]
  cases l.side with
  | yes =>
    simp only [spotStrike, hsd, strikeFor]
    exact h.strikeTicker hsdTop
  | no =>
    simp only [spotStrike, hsu, strikeFor, ← hsu']
    exact h.strikeTicker hsuTop

/-- Stepping the wings keeps the legs placed if the spot is the bucket of every batch that waits
whenever they can be taken. -/
theorem LegsPlaced.wingStep (h : LegsPlaced p B st)
    (hspot : Takes p st t → ∀ b ∈ st.wingBatches, b.waiting = true → B b.index = st.spotSd) :
    LegsPlaced p B (wingStep p st t).st := by
  have hs := wingStep_serves (p := p) st t
  refine h.serves hs fun l hl => ?_
  by_cases htakes : Takes p st t
  · refine (hs.legs l hl).imp id fun htaken => ⟨htaken, h.takenOnSpot htakes htaken ?_⟩
    obtain ⟨b, hb, hwait, hindex⟩ := htaken.1
    rw [← hindex]
    exact hspot htakes b hb hwait
  · rw [wingStep_legs_of_not_takes htakes] at hl
    exact Or.inl ⟨l, hl, rfl⟩

/-- Whether the wings can be taken depends on the window, the books and the quote. -/
theorem takes_congr (hwindow : st'.toWindow = st.toWindow) (hbooks : st'.toBooks = st.toBooks)
    (hquote : st'.toQuote = st.toQuote) : Takes p st' t ↔ Takes p st t := by
  simp only [Takes, wingPrices, strikeAsks, congrArg Window.closeEpoch hwindow,
    congrArg Quote.spotSd hquote, congrArg Quote.spotSu hquote, congrArg Books.strikeTops hbooks,
    congrArg Books.strikeTs hbooks]

/-- A booking adds one batch that waits. -/
theorem settleRest_wings (st : V32State) (coid : String) (price delta t : ℚ) :
    let st' := settleRest p st coid price delta t
    (st'.toWindow = st.toWindow ∧ st'.toBooks = st.toBooks ∧ st'.toQuote = st.toQuote) ∧
      st'.wingLegs = st.wingLegs ∧ st'.nextBatchIndex = st.nextBatchIndex + 1 ∧
      st'.wingBatches = st.wingBatches ++
        [⟨st.nextBatchIndex, price, qCount delta, t, false, false, false⟩] := by
  simp only [settleRest]
  split
  · exact ⟨⟨rfl, rfl, rfl⟩, rfl, rfl, rfl⟩
  · exact ⟨⟨rfl, rfl, rfl⟩, rfl, rfl, rfl⟩

/-- Adding a batch of a fill and stepping the wings keeps the legs placed if the spot is the
bucket of the fill and of every batch that waits whenever the wings can be taken. -/
theorem LegsPlaced.book (h : LegsPlaced p B st) {b : WingBatch}
    (hwindow : st'.toWindow = st.toWindow) (hbooks : st'.toBooks = st.toBooks)
    (hquote : st'.toQuote = st.toQuote) (hlegs : st'.wingLegs = st.wingLegs)
    (hnext : st'.nextBatchIndex = st.nextBatchIndex + 1)
    (hbatches : st'.wingBatches = st.wingBatches ++ [b]) (hindex : b.index = st.nextBatchIndex)
    (hB : ∀ i, i < st.nextBatchIndex → B' i = B i)
    (hspot : Takes p st t → (∀ b ∈ st.wingBatches, b.waiting = true → B b.index = st.spotSd) ∧
      B' st.nextBatchIndex = st.spotSd) :
    LegsPlaced p B' ((V32.wingStep p st' t).mapSt syncWingMirrors).st := by
  have hbooked : LegsPlaced p B' st' := by
    apply h.rewing hwindow hbooks hquote
    · intro b' hb'
      rw [hbatches] at hb'
      rw [hnext]
      rcases List.mem_append.mp hb' with hb' | hb'
      · have hlt := h.numbered b' hb'
        omega
      · rw [List.mem_singleton.mp hb', hindex]
        omega
    · intro l hl
      rw [hlegs] at hl
      obtain ⟨hlt, sd, hsd, hstrike⟩ := h.legs l hl
      exact ⟨by rw [hnext]; omega, sd, (hB _ hlt).trans hsd, hstrike⟩
  have hstep : LegsPlaced p B' (V32.wingStep p st' t).st := by
    apply hbooked.wingStep
    intro htakes b' hb' hwait
    obtain ⟨hold, hnew⟩ := hspot ((takes_congr hwindow hbooks hquote).mp htakes)
    rw [congrArg Quote.spotSd hquote]
    rw [hbatches] at hb'
    rcases List.mem_append.mp hb' with hb' | hb'
    · rw [hB _ (h.numbered b' hb')]
      exact hold b' hb' hwait
    · rw [List.mem_singleton.mp hb', hindex]
      exact hnew
  exact hstep.rewing rfl rfl rfl hstep.numbered hstep.legs

/-- A booked fill of the rest keeps the legs on their fills' strikes. -/
theorem LegsPlaced.bookRestDelta (h : LegsPlaced p B st) (coid : String) (price delta : ℚ)
    (hB : ∀ i, i < st.nextBatchIndex → B' i = B i)
    (hspot : Takes p st t → (∀ b ∈ st.wingBatches, b.waiting = true → B b.index = st.spotSd) ∧
      B' st.nextBatchIndex = st.spotSd) :
    LegsPlaced p B' (bookRestDelta p st coid price delta t).st := by
  obtain ⟨⟨hwindow, hbooks, hquote⟩, hlegs, hnext, hbatches⟩ :=
    settleRest_wings (p := p) st coid price delta t
  exact h.book hwindow hbooks hquote hlegs hnext hbatches rfl hB hspot

/-! ### The gate leaves the wings alone -/

/-- Nothing but the slot, the pacing, the stand-down and the id counter changes. -/
structure RestOnly (st st' : V32State) : Prop where
  window : st'.toWindow = st.toWindow
  books : st'.toBooks = st.toBooks
  quote : st'.toQuote = st.toQuote
  wings : st'.toWings = st.toWings

/-- Nothing changes. -/
theorem RestOnly.refl (st : V32State) : RestOnly st st := ⟨rfl, rfl, rfl, rfl⟩

/-- Two steps that spare the wings spare them together. -/
theorem RestOnly.trans {st'' : V32State} (h : RestOnly st st') (h' : RestOnly st' st'') :
    RestOnly st st'' :=
  ⟨h'.window.trans h.window, h'.books.trans h.books, h'.quote.trans h.quote,
    h'.wings.trans h.wings⟩

/-- A step that spares the wings keeps the legs on their strikes. -/
theorem LegsPlaced.restOnly (h : LegsPlaced p B st) (h' : RestOnly st st') : LegsPlaced p B st' :=
  h.frame h'.window h'.books h'.quote h'.wings

/-- Standing down spares the wings. -/
theorem standdown_restOnly (st : V32State) (reason : V33.Reason) :
    RestOnly st (standdown st reason).st := by
  obtain ⟨sd, hst, -, -⟩ := standdown_eq st reason
  rw [hst]
  exact ⟨rfl, rfl, rfl, rfl⟩

/-- Cancelling the live order spares the wings. -/
theorem cancelLive_restOnly (st : V32State) : RestOnly st (cancelLive st).st := by
  unfold cancelLive
  split
  · split_ifs
    · exact RestOnly.refl st
    · unfold rememberCancelCtx
      split
      · exact ⟨rfl, rfl, rfl, rfl⟩
      · exact ⟨rfl, rfl, rfl, rfl⟩
  · exact RestOnly.refl st

/-- Cancelling the pending order spares the wings. -/
theorem cancelPending_restOnly (st : V32State) : RestOnly st (cancelPending st).st := by
  unfold cancelPending
  split
  · exact ⟨rfl, rfl, rfl, rfl⟩
  · exact RestOnly.refl st

/-- Clearing the slot spares the wings. -/
theorem cancelLiveIfAny_restOnly (st : V32State) : RestOnly st (cancelLiveIfAny st).st :=
  (cancelLive_restOnly st).trans (cancelPending_restOnly _)

/-- A change of bucket spares the wings. -/
theorem changeBucket_restOnly (st : V32State) : RestOnly st (changeBucket st).st := by
  obtain ⟨hwindow, hbooks, hquote, hwings⟩ := cancelLiveIfAny_restOnly st
  exact ⟨hwindow, hbooks, hquote, hwings⟩

/-- Replacing the order spares the wings. -/
theorem replaceRest_restOnly (st : V32State) (o : RestOrder) (n t : ℚ) :
    RestOnly st (replaceRest p st o n t).st := by
  unfold replaceRest
  dsimp only
  split
  · split
    · exact ⟨rfl, rfl, rfl, rfl⟩
    · exact ⟨rfl, rfl, rfl, rfl⟩
  · exact RestOnly.refl st

/-- Quoting spares the wings. -/
theorem quoteRest_restOnly (st : V32State) (n t : ℚ) : RestOnly st (quoteRest p st n t).st := by
  unfold quoteRest
  split
  · exact changeBucket_restOnly st
  split
  · exact RestOnly.refl st
  split
  · exact RestOnly.refl st
  split
  · exact ⟨rfl, rfl, rfl, rfl⟩
  · exact replaceRest_restOnly st _ n t

/-- Requoting spares the wings. -/
theorem requote_restOnly (st : V32State) (t : ℚ) : RestOnly st (requote p st t).st := by
  unfold requote
  dsimp only
  split
  · exact cancelLiveIfAny_restOnly st
  split
  · refine (cancelLiveIfAny_restOnly st).trans (RestOnly.trans ?_ (standdown_restOnly _ _))
    exact ⟨rfl, rfl, rfl, rfl⟩
  · split
    · exact (cancelLiveIfAny_restOnly st).trans (standdown_restOnly _ _)
    · exact RestOnly.refl st
    · refine RestOnly.trans ?_ (quoteRest_restOnly _ _ _)
      exact ⟨rfl, rfl, rfl, rfl⟩

/-! ### Every input keeps the legs placed -/

/-- A book update names a strike by its own ticker. -/
theorem LegsPlaced.foldBook (h : LegsPlaced p B st) (ev : BookUpdate) :
    LegsPlaced p B (foldBook st ev) := by
  unfold V32.foldBook
  dsimp only
  split
  · exact h
  · rename_i floor hclass
    refine ⟨h.spotSu, fun s ticker hticker => ?_, fun s hs => ?_, h.numbered, h.legs⟩
    · simp only [Dict.get?_set] at hticker
      split_ifs at hticker with heq
      · rw [← Option.some.inj hticker, heq]
        exact hclass
      · exact h.tickers s ticker hticker
    · simp only [Dict.get?_set] at hs ⊢
      split_ifs with heq
      · rfl
      · rw [if_neg heq] at hs
        exact h.tops s hs
  · exact ⟨h.spotSu, h.tickers, h.tops, h.numbered, h.legs⟩

/-- The context is derived from books that name their strikes rightly. -/
theorem LegsPlaced.recomputeContext (h : LegsPlaced p B st) (t : ℚ) :
    LegsPlaced p B (recomputeContext p st t) := by
  have hspotSu : ∀ sd, (V32.recomputeContext p st t).spotSd = some sd →
      (V32.recomputeContext p st t).spotSu = some (sd + p.bucketWidth) := by
    unfold V32.recomputeContext
    split
    · simp
    · dsimp only
      split_ifs
      · simp
      · simp
  obtain ⟨q, hq⟩ := recomputeContext_eq (p := p) st t
  rw [hq] at hspotSu ⊢
  exact ⟨hspotSu, h.tickers, h.tops, h.numbered, h.legs⟩

/-- A refresh whose spot is the waiting fills' bucket keeps the legs on their strikes. -/
theorem LegsPlaced.refresh (h : LegsPlaced p B st)
    (hspot : Takes p (V32.recomputeContext p st t) t → ∀ b ∈ st.wingBatches, b.waiting = true →
      B b.index = (V32.recomputeContext p st t).spotSd) :
    LegsPlaced p B (refresh p st t).st := by
  have hbatches : (V32.recomputeContext p st t).wingBatches = st.wingBatches := by
    obtain ⟨q, hq⟩ := recomputeContext_eq (p := p) st t
    rw [hq]
  have hstep : LegsPlaced p B (V32.wingStep p (V32.recomputeContext p st t) t).st := by
    apply (h.recomputeContext t).wingStep
    rw [hbatches]
    exact hspot
  exact hstep.restOnly (requote_restOnly _ t)

/-- Buckets noted for later batches move no leg. -/
theorem LegsPlaced.relabel (h : LegsPlaced p B st)
    (hB : ∀ i, i < st.nextBatchIndex → B' i = B i) : LegsPlaced p B' st := by
  apply h.rewing rfl rfl rfl h.numbered
  intro l hl
  obtain ⟨hlt, sd, hsd, hstrike⟩ := h.legs l hl
  exact ⟨hlt, sd, (hB _ hlt).trans hsd, hstrike⟩

/-- A booking takes the next batch index. -/
theorem bookRestDelta_next (st : V32State) (coid : String) (price delta t : ℚ) :
    (bookRestDelta p st coid price delta t).st.nextBatchIndex = st.nextBatchIndex + 1 := by
  obtain ⟨-, -, hnext, -⟩ := settleRest_wings (p := p) st coid price delta t
  exact (wingStep_serves _ t).next.trans hnext

/-- The spot is the bucket of every waiting batch, and of the fill that is booked, whenever the
wings can be taken. -/
def SpotOk (p : V32Params) (B B' : ℕ → Option ℤ) (st : V32State) (t : ℚ) (booked : Bool) : Prop :=
  Takes p st t → (∀ b ∈ st.wingBatches, b.waiting = true → B b.index = st.spotSd) ∧
    (booked = true → B' st.nextBatchIndex = st.spotSd)

/-- Booking lots after a change of the slot. -/
theorem LegsPlaced.bookAfter (h : LegsPlaced p B st) (hslot : RestOnly st st') (coid : String)
    (price delta : ℚ) (hB : ∀ i, i < st.nextBatchIndex → B' i = B i)
    (hspot : SpotOk p B B' st t true) :
    LegsPlaced p B' (V32.bookRestDelta p st' coid price delta t).st := by
  have hnext : st'.nextBatchIndex = st.nextBatchIndex := congrArg Wings.nextBatchIndex hslot.wings
  apply (h.restOnly hslot).bookRestDelta
  · rw [hnext]
    exact hB
  · intro htakes
    obtain ⟨hold, hnew⟩ :=
      hspot ((takes_congr hslot.window hslot.books hslot.quote).mp htakes)
    rw [congrArg Wings.wingBatches hslot.wings, congrArg Quote.spotSd hslot.quote, hnext]
    exact ⟨hold, hnew rfl⟩

/-- A skipped crossing spares the wings. -/
theorem skipAmendCross_restOnly (st : V32State) (oid : Option String) (delta : ℚ) :
    RestOnly st (skipAmendCross st oid delta).2 := by
  unfold skipAmendCross
  split
  · exact RestOnly.refl st
  · dsimp only
    split
    · exact ⟨rfl, rfl, rfl, rfl⟩
    · exact RestOnly.refl st

/-- A private fill books lots exactly when it has some. -/
theorem applyFill_placed (h : LegsPlaced p B st) (e : Fill)
    (hB : ∀ i, i < st.nextBatchIndex → B' i = B i) (hspot : SpotOk p B B' st t (fillBooks st e)) :
    LegsPlaced p B' (applyFill p st e t).st ∧ (fillBooks st e = true →
      (applyFill p st e t).st.nextBatchIndex = st.nextBatchIndex + 1) := by
  have hidle := h.relabel hB
  unfold applyFill
  split
  · rename_i leg hleg
    have hs := applyLegFill_serves st leg e
    refine ⟨hidle.serves hs fun l hl => Or.inl ?_, fun hbooks => ?_⟩
    · exact exists_legPlace (applyLegFill_places st leg e) hl
    · simp [fillBooks, hleg] at hbooks
  · rename_i hleg
    split
    · rename_i hmatch
      exact ⟨hidle, fun hbooks => by simp [fillBooks, hmatch] at hbooks⟩
    · rename_i o hmatch
      have hbooks : fillBooks st e = decide
          (0 < (skipAmendCross st (o.orderId.or e.orderId) (qCount e.count)).1) := by
        simp [fillBooks, hleg, hmatch]
      have hskip := skipAmendCross_restOnly st (o.orderId.or e.orderId) (qCount e.count)
      dsimp only
      split
      · rename_i hpos
        rw [hbooks, decide_eq_true hpos] at hspot
        refine ⟨h.bookAfter hskip _ _ _ hB hspot, fun _ => ?_⟩
        rw [bookRestDelta_next, congrArg Wings.nextBatchIndex hskip.wings]
      · rename_i hpos
        refine ⟨hidle.restOnly hskip, fun hbooked => ?_⟩
        exact absurd (of_decide_eq_true (hbooks ▸ hbooked)) hpos

/-- The state of a cancel confirm once its slot and its flags are cleared. -/
def clearedBy (st : V32State) (e : OrderCancelled) : V32State :=
  let st' := (matchCancelled st e.orderId).2
  if (matchCancelled st e.orderId).1.isSome ∨ st'.cancelInFlight ∨ st'.amendInFlight then
    { st' with cancelInFlight := false, amendInFlight := false }
  else st'

/-- A cleared cancel spares the wings and the booked lots. -/
theorem clearedBy_spec (st : V32State) (e : OrderCancelled) :
    RestOnly st (clearedBy st e) ∧ (clearedBy st e).cancelCtx = st.cancelCtx ∧
      (clearedBy st e).restBookedByCoid = st.restBookedByCoid := by
  unfold clearedBy matchCancelled
  dsimp only
  split
  · split
    · exact ⟨⟨rfl, rfl, rfl, rfl⟩, rfl, rfl⟩
    · exact ⟨⟨rfl, rfl, rfl, rfl⟩, rfl, rfl⟩
  · split
    · split
      · exact ⟨⟨rfl, rfl, rfl, rfl⟩, rfl, rfl⟩
      · exact ⟨⟨rfl, rfl, rfl, rfl⟩, rfl, rfl⟩
    · split
      · exact ⟨⟨rfl, rfl, rfl, rfl⟩, rfl, rfl⟩
      · exact ⟨RestOnly.refl st, rfl, rfl⟩

/-- A cancel confirm books its lots once its slot is cleared. -/
theorem applyCancelled_eq (st : V32State) (e : OrderCancelled) (t : ℚ) :
    applyCancelled p st e t =
      (if qCount e.filledCountBeforeCancel ≤ 0 then (clearedBy st e).quiet
      else
        match cancelAttribution (clearedBy st e) (matchCancelled st e.orderId).1 e.orderId with
        | some (coid, price) =>
          let delta := qCount (qCount e.filledCountBeforeCancel -
            qCount ((clearedBy st e).restBookedByCoid.getD coid 0))
          if 0 < delta then bookRestDelta p (clearedBy st e) coid price delta t
          else (clearedBy st e).quiet
        | none =>
          if (clearedBy st e).restFills.isEmpty then
            bookRestDelta p (clearedBy st e) ("__cxl__" ++ orderIdText e.orderId)
              ((clearedBy st e).desiredN.getD 0) (qCount e.filledCountBeforeCancel) t
          else (clearedBy st e).quiet) := rfl

/-- A cancel confirm books lots exactly when it has some. -/
theorem applyCancelled_placed (h : LegsPlaced p B st) (e : OrderCancelled)
    (hB : ∀ i, i < st.nextBatchIndex → B' i = B i) (hspot : SpotOk p B B' st t (cancelBooks st e)) :
    LegsPlaced p B' (applyCancelled p st e t).st ∧ (cancelBooks st e = true →
      (applyCancelled p st e t).st.nextBatchIndex = st.nextBatchIndex + 1) := by
  obtain ⟨hslot, hctx, hbooked⟩ := clearedBy_spec st e
  have hidle := (h.relabel hB).restOnly hslot
  have hfills : (clearedBy st e).restFills = st.restFills := congrArg Wings.restFills hslot.wings
  have hnext : (clearedBy st e).nextBatchIndex = st.nextBatchIndex :=
    congrArg Wings.nextBatchIndex hslot.wings
  have hattr : cancelAttribution (clearedBy st e) (matchCancelled st e.orderId).1 e.orderId =
      cancelAttribution st (matchCancelled st e.orderId).1 e.orderId := by
    simp only [cancelAttribution, hctx]
  rw [applyCancelled_eq, hattr, hbooked, hfills]
  have hbook (coid : String) (price delta : ℚ) (hbooks : cancelBooks st e = true) :
      LegsPlaced p B' (V32.bookRestDelta p (clearedBy st e) coid price delta t).st ∧
        (cancelBooks st e = true →
          (V32.bookRestDelta p (clearedBy st e) coid price delta t).st.nextBatchIndex =
            st.nextBatchIndex + 1) := by
    rw [hbooks] at hspot
    refine ⟨h.bookAfter hslot coid price delta hB hspot, fun _ => ?_⟩
    rw [bookRestDelta_next, hnext]
  split
  · rename_i hle
    exact ⟨hidle, fun hbooks => by simp [cancelBooks, not_lt.mpr hle] at hbooks⟩
  · rename_i hpos
    split
    · rename_i coid price hsome
      have hbooks : cancelBooks st e = decide (0 < qCount (qCount e.filledCountBeforeCancel -
          qCount (st.restBookedByCoid.getD coid 0))) := by
        simp [cancelBooks, not_le.mp hpos, hsome]
      dsimp only
      split
      · rename_i hdelta
        exact hbook coid price _ (hbooks.trans (decide_eq_true hdelta))
      · rename_i hdelta
        exact ⟨hidle, fun hb => absurd (of_decide_eq_true (hbooks ▸ hb)) hdelta⟩
    · rename_i hnone
      have hbooks : cancelBooks st e = st.restFills.isEmpty := by
        simp [cancelBooks, not_le.mp hpos, hnone]
      split
      · rename_i hempty
        exact hbook _ _ _ (hbooks.trans hempty)
      · rename_i hempty
        exact ⟨hidle, fun hb => absurd (hbooks ▸ hb) hempty⟩

/-- Remembering what an amend booked leaves the wings alone. -/
theorem guardAmend_restOnly (st : V32State) (oid : String) (delta : ℚ) :
    RestOnly st
      (if st.restLive.isSome then
        { st with
          amendCrossPending := st.amendCrossPending.set oid
            (qCount (st.amendCrossPending.getD oid 0 + delta)) }
      else st) := by
  split
  · exact ⟨rfl, rfl, rfl, rfl⟩
  · exact RestOnly.refl st

/-- An amend confirm books lots exactly when it has some. -/
theorem applyAmended_placed (h : LegsPlaced p B st) (e : OrderAmended)
    (hB : ∀ i, i < st.nextBatchIndex → B' i = B i) (hspot : SpotOk p B B' st t (amendBooks st e)) :
    LegsPlaced p B' (applyAmended p st e t).st ∧ (amendBooks st e = true →
      (applyAmended p st e t).st.nextBatchIndex = st.nextBatchIndex + 1) := by
  have hidle := h.relabel hB
  unfold applyAmended
  cases hlive : st.restLive.filter fun o =>
      o.orderId = some e.orderId ∨ o.clientOrderId = e.clientOrderId with
  | none =>
    refine ⟨hidle.restOnly ⟨rfl, rfl, rfl, rfl⟩, fun hbooks => ?_⟩
    cases hrest : st.restLive with
    | none => simp [amendBooks, hrest] at hbooks
    | some o =>
      rw [hrest, Option.filter_some] at hlive
      split at hlive
      · cases hlive
      · rename_i hnot
        simp only [amendBooks, hrest, Option.any_some, Bool.and_eq_true] at hbooks
        exact absurd hbooks.1 hnot
  | some o =>
    obtain ⟨hmem, hnames⟩ := Option.filter_eq_some_iff.mp hlive
    have hbooks : amendBooks st e = decide (0 < qCount e.fillCount) := by
      simp only [amendBooks, hmem, Option.any_some, hnames, Bool.true_and]
    dsimp only
    split
    · rename_i hpos
      rw [hbooks, decide_eq_true hpos] at hspot
      refine ⟨LegsPlaced.restOnly ?_ (guardAmend_restOnly _ e.orderId _), fun _ =>
        (congrArg Wings.nextBatchIndex (guardAmend_restOnly _ e.orderId _).wings).trans ?_⟩
      · refine h.bookAfter ?_ _ _ _ hB hspot
        exact ⟨rfl, rfl, rfl, rfl⟩
      · exact bookRestDelta_next _ _ _ _ _
    · rename_i hpos
      refine ⟨hidle.restOnly ⟨rfl, rfl, rfl, rfl⟩, fun hb => ?_⟩
      exact absurd (of_decide_eq_true (hbooks ▸ hb)) hpos

/-- A late fill is the first fill of the window. -/
theorem bookLateRestFill_placed (price count ts : ℚ) (sd : Option ℤ) (h : LegsPlaced p B st)
    (hB : ∀ i, i < st.nextBatchIndex → B' i = B i)
    (hspot : SpotOk p B B' (wingContext p st (.lateFill price count ts sd)) ts st.restFill.isNone) :
    LegsPlaced p B' (bookLateRestFill p st price count ts sd).st ∧ (st.restFill.isNone = true →
      (bookLateRestFill p st price count ts sd).st.nextBatchIndex = st.nextBatchIndex + 1) := by
  unfold bookLateRestFill
  split
  · rename_i hsome
    refine ⟨h.relabel hB, fun hnone => ?_⟩
    rw [Option.isNone_iff_eq_none] at hnone
    rw [hnone] at hsome
    exact absurd hsome (by simp)
  · rename_i hsome
    have hnone : st.restFill.isNone = true := by simpa using hsome
    rw [hnone] at hspot
    have hcontext : LegsPlaced p B (wingContext p st (.lateFill price count ts sd)) := by
      refine ⟨fun s hs => ?_, h.tickers, h.tops, h.numbered, h.legs⟩
      have hs' : sd.or st.spotSd = some s := hs
      simp only [wingContext, hs']
    refine ⟨?_, fun _ => (wingStep_serves _ ts).next⟩
    refine hcontext.book
      (b := ⟨st.nextBatchIndex, price, qCount count, ts, false, false, false⟩)
      rfl rfl rfl rfl rfl rfl rfl hB fun htakes => ?_
    exact ⟨(hspot htakes).1, (hspot htakes).2 rfl⟩

/-- An input keeps the legs placed if the spot is the bucket of what can be taken, and books a
batch whenever it has lots to book. -/
theorem core_placed (h : LegsPlaced p B st) (i : Input)
    (hB : ∀ k, k < st.nextBatchIndex → B' k = B k)
    (hspot : SpotOk p B B' (wingContext p st i) i.time (books st i)) :
    LegsPlaced p B' (core p st i).st ∧ (books st i = true →
      (core p st i).st.nextBatchIndex = st.nextBatchIndex + 1) := by
  cases i with
  | lateFill price count ts sd => exact bookLateRestFill_placed price count ts sd h hB hspot
  | event ev =>
    have hrefresh {st' : V32State} {t : ℚ} (hwings : st'.toWings = st.toWings)
        (h' : LegsPlaced p B st') (hok : SpotOk p B B' (recomputeContext p st' t) t false) :
        LegsPlaced p B' (refresh p st' t).st := by
      have hbatches : (recomputeContext p st' t).wingBatches = st'.wingBatches := by
        obtain ⟨q, hq⟩ := recomputeContext_eq (p := p) st' t
        rw [hq]
      have hB' : ∀ k, k < st'.nextBatchIndex → B' k = B k := by
        rw [congrArg Wings.nextBatchIndex hwings]
        exact hB
      apply (h'.relabel hB').refresh
      intro htakes b hb hwait
      rw [hB' _ (h'.numbered b hb)]
      exact (hok htakes).1 b (hbatches ▸ hb) hwait
    cases ev with
    | bookUpdate e =>
      have hfold : (foldBook st e).toWings = st.toWings := by
        obtain ⟨b, hb⟩ := foldBook_eq st e
        rw [hb]
      exact ⟨hrefresh hfold (h.foldBook e) hspot, fun hbooks => absurd hbooks (by simp [books])⟩
    | clockTick now => exact ⟨hrefresh rfl h hspot, fun hbooks => absurd hbooks (by simp [books])⟩
    | trade e => exact ⟨h.relabel hB, fun hbooks => absurd hbooks (by simp [books])⟩
    | orderAck e =>
      refine ⟨(h.relabel hB).restOnly ?_, fun hbooks => absurd hbooks (by simp [books])⟩
      show RestOnly st (applyAck st e)
      unfold applyAck
      split
      · exact RestOnly.refl st
      · split
        · exact RestOnly.refl st
        · exact ⟨rfl, rfl, rfl, rfl⟩
    | orderAmended e => exact applyAmended_placed h e hB hspot
    | orderCancelled e => exact applyCancelled_placed h e hB hspot
    | fill e => exact applyFill_placed h e hB hspot

/-! ### Runs -/

/-- The bucket recorded for a batch. -/
def Watched.bucketOf (w : Watched) (index : ℕ) : Option ℤ := w.buckets.get? index

/-- The record keeps the buckets of the batches made so far. -/
theorem watch_bucketOf_old (w : Watched) (i : Input) {k : ℕ} (hk : k < w.st.nextBatchIndex) :
    (watch p w i).bucketOf k = w.bucketOf k := by
  show (noteBucket p w i).get? k = w.buckets.get? k
  unfold noteBucket
  split
  · rfl
  · split
    · rfl
    · rw [Dict.get?_set, if_neg (by omega)]

/-- A booked batch is recorded under the bucket of its fill. -/
theorem watch_bucketOf_new (w : Watched) (i : Input) {sd : ℤ} (hsd : filledBucket w i = some sd)
    (hbooked : (core p w.st i).st.nextBatchIndex = w.st.nextBatchIndex + 1) :
    (watch p w i).bucketOf w.st.nextBatchIndex = some sd := by
  show (noteBucket p w i).get? w.st.nextBatchIndex = some sd
  unfold noteBucket
  rw [hsd]
  dsimp only
  rw [if_neg (by omega), Dict.get?_set_self]

/-- The context in which the wings are served has the same wings. -/
theorem wingContext_wings (st : V32State) (i : Input) :
    (wingContext p st i).toWings = st.toWings := by
  unfold wingContext
  split
  · rename_i e
    obtain ⟨b, hb⟩ := foldBook_eq st e
    obtain ⟨q, hq⟩ := recomputeContext_eq (p := p) (foldBook st e) e.serverTs
    rw [hq, hb]
  · rename_i now
    obtain ⟨q, hq⟩ := recomputeContext_eq (p := p) st now
    rw [hq]
  · rfl
  · rfl

/-- An input that meets the condition keeps the legs placed. -/
theorem LegsPlaced.watch {w : Watched} (h : LegsPlaced p w.bucketOf w.st) {i : Input}
    (hok : SpotOnFills p w i) : LegsPlaced p (watch p w i).bucketOf (watch p w i).st := by
  have hnext : (wingContext p w.st i).nextBatchIndex = w.st.nextBatchIndex :=
    congrArg Wings.nextBatchIndex (wingContext_wings w.st i)
  have hbatches : (wingContext p w.st i).wingBatches = w.st.wingBatches :=
    congrArg Wings.wingBatches (wingContext_wings w.st i)
  -- that a batch is booked does not depend on its label, so any label that fits will do
  have hbooked : books w.st i = true →
      (core p w.st i).st.nextBatchIndex = w.st.nextBatchIndex + 1 := by
    refine (@core_placed p w.st w.bucketOf (fun k =>
      if k < w.st.nextBatchIndex then w.bucketOf k else (wingContext p w.st i).spotSd) h i
      (fun k hk => if_pos hk) fun htakes => ⟨?_, fun _ => ?_⟩).2
    · rw [hbatches]
      exact (hok htakes).1
    · rw [hnext]
      exact if_neg (lt_irrefl _)
  refine (core_placed h i (fun k hk => watch_bucketOf_old w i hk) fun htakes => ⟨?_, ?_⟩).1
  · rw [hbatches]
    exact (hok htakes).1
  · intro hbooks
    obtain ⟨sd, su, hsd, -⟩ := wingPrices_known htakes.2
    have hfilled := ((hok htakes).2 hbooks).trans hsd
    rw [hnext, hsd]
    exact watch_bucketOf_new w i hfilled (hbooked hbooks)

/-- A new window has no leg. -/
theorem LegsPlaced.start {w : Watched} (h : IsNewWatch w) : LegsPlaced p w.bucketOf w.st := by
  obtain ⟨closeTime, closeEpoch, bucketMap, shakedown, strikeFloorMap, rfl⟩ := h
  constructor <;> simp [V32State.new]

/-- In every run that takes wings only while the spot is the bucket of every fill waiting for
them, each leg is on the strike of its fill's bucket: a YES on its floor, a NO on its top. -/
theorem wings_on_filled_bucket {is : List Input} {w : Watched}
    (h : Fills p (SpotOnFills p) is w) :
      ∀ l ∈ w.st.wingLegs, OnFilledBucket p w.bucketOf w.st l := by
  obtain ⟨start, hstart, hrun⟩ := h
  have hplaced : LegsPlaced p w.bucketOf w.st :=
    hrun.preserves (I := fun w => LegsPlaced p w.bucketOf w.st)
      (fun w i hw hok => hw.watch hok) (LegsPlaced.start hstart)
  exact fun l hl => (hplaced.legs l hl).2

/-- A watched core at the start of the sample window. -/
def sampleWatch : Watched := ⟨sampleStart.st, Dict.empty, Dict.empty, Dict.empty⟩

/-- A book frame of the sample window. -/
def centFrame (ticker : String) (yesBid yesAsk : ℕ) (ts : ℚ) : Input :=
  .event (.bookUpdate ⟨ticker, centTop yesBid yesAsk, ts, none⟩)

/-- An order rests on the first bucket, and both buckets' strikes are quoted. -/
def restingOnFirst : List Input :=
  [centFrame "B100" 40 42 1000, centFrame "S200" 50 52 1000, centFrame "S300" 20 22 1000,
    centFrame "S100" 68 70 1000, .event (.orderAck ⟨"v32--1", "v1", 1000⟩)]

/-- The order fills while its bucket is the spot. -/
def filledOnSpot : List Input :=
  restingOnFirst ++ [.event (.fill ⟨some "v1", "v32--1", 1, none, .no, 1000, none, none⟩)]

/-- The order fills, but its cancel confirm arrives after the spot moved to the other bucket. -/
def filledOffSpot : List Input :=
  restingOnFirst ++
    [centFrame "B200" 60 62 1000, .event (.orderCancelled ⟨some "v1", 1000, 1, none, none, none⟩)]

/-- Inputs that meet a condition all along make a run from the sample window. -/
theorem fills_sample {ok : Watched → Input → Prop} {is : List Input}
    (h : AllAlong (watch samplePolicy) ok sampleWatch is) :
    Fills samplePolicy ok is (is.foldl (watch samplePolicy) sampleWatch) :=
  ⟨sampleWatch, ⟨_, _, _, _, _, rfl⟩, fed_of_allAlong h⟩

/-- Both legs of a fill on the spot are on their strikes. -/
theorem wings_on_filled_bucket_sample :
    let w := filledOnSpot.foldl (watch samplePolicy) sampleWatch
    w.st.wingLegs.length = 2 ∧ ∀ l ∈ w.st.wingLegs, OnFilledBucket samplePolicy w.bucketOf w.st l :=
  ⟨by decide +kernel, wings_on_filled_bucket (fills_sample (by decide +kernel))⟩

/-- The legs of the late confirm are on the strikes of the bucket the spot has moved to. -/
theorem filledOffSpot_misplaced :
    ¬∀ p is w, Fills p (fun _ _ => True) is w →
      ∀ l ∈ w.st.wingLegs, OnFilledBucket p w.bucketOf w.st l := by
  intro h
  have hrun : Fills samplePolicy (fun _ _ => True) filledOffSpot
      (filledOffSpot.foldl (watch samplePolicy) sampleWatch) := fills_sample (by decide +kernel)
  have hlegs := h _ _ _ hrun
  revert hlegs
  decide +kernel

end Pilot.V32
