import Pilot.V33.ClientOrderIds
import Pilot.V32.Decide

/-!
# Steps of the rest

What one part of a decision can do to the order slot: the wings leave it alone, a booking
moves lots from the remainder to the order's account, and the requote gate opens, moves or
closes at most one order.
-/

namespace Pilot.V32

open V33 (ActionKind Event Fill OrderCancelled Reason natRepr_injective twinKind)

variable {p : V32Params} {t : ℚ} {st st' : V32State} {r : Outcome}

/-! ### The wings -/

/-- An action that concerns the rest. -/
def restKind (a : V32Action) : Bool :=
  a.kind = .placeRest ∨ a.kind = .cancelRest ∨ a.kind = .amendRest

/-- A part of a decision that touches only the wings and the id counter. -/
structure WingsOnly (st : V32State) (r : Outcome) : Prop where
  state : ∃ w n, st.coidSeq ≤ n ∧ r.st = { st with toWings := w, coidSeq := n }
  acts : ∀ a ∈ r.acts, restKind a = false

/-- Doing nothing touches only the wings. -/
theorem WingsOnly.quiet (st : V32State) : WingsOnly st st.quiet :=
  ⟨⟨st.toWings, st.coidSeq, le_rfl, rfl⟩, by simp [V32State.quiet]⟩

/-- A change of the wings alone. -/
theorem WingsOnly.ofWings (st : V32State) (w : Wings) :
    WingsOnly st { st with toWings := w }.quiet :=
  ⟨⟨w, st.coidSeq, le_rfl, rfl⟩, by simp [V32State.quiet]⟩

/-- Two parts that touch only the wings do so together. -/
theorem WingsOnly.trans {r' : Outcome} (h : WingsOnly st r) (h' : WingsOnly r.st r') :
    WingsOnly st ⟨r'.st, r.acts ++ r'.acts⟩ := by
  obtain ⟨⟨w, n, hn, hst⟩, hacts⟩ := h
  obtain ⟨⟨w', n', hn', hst'⟩, hacts'⟩ := h'
  rw [hst] at hn' hst'
  refine ⟨⟨w', n', hn.trans hn', hst'⟩, fun a ha => ?_⟩
  rcases List.mem_append.mp ha with ha | ha
  · exact hacts a ha
  · exact hacts' a ha

/-- A part that touches only the wings may be followed by another. -/
theorem WingsOnly.andThen {next : V32State → Outcome} (h : WingsOnly st r)
    (h' : ∀ st, WingsOnly st (next st)) : WingsOnly st (r.andThen next) :=
  h.trans (h' r.st)

/-- Re-deriving the mirrors of the wings touches nothing else. -/
theorem WingsOnly.synced (h : WingsOnly st r) : WingsOnly st (r.mapSt syncWingMirrors) := by
  obtain ⟨⟨w, n, hn, hst⟩, hacts⟩ := h
  refine ⟨⟨(syncWingMirrors r.st).toWings, n, hn, ?_⟩, hacts⟩
  simp only [Outcome.mapSt, syncWingMirrors, hst]

/-- A loop of parts that touch only the wings touches only the wings. -/
theorem WingsOnly.forEach {α : Type} {body : α → V32State → Outcome}
    (hbody : ∀ x st, WingsOnly st (body x st)) (xs : List α) (st : V32State) :
    WingsOnly st (forEach xs body st) := by
  induction xs generalizing st with
  | nil => exact WingsOnly.quiet st
  | cons x xs ih => exact (hbody x st).andThen ih

/-- A take of wings does not concern the rest, nor does its shadow. -/
theorem restKind_takeWings (sh : Bool) (a : V32Action) (h : a.kind = .takeWings) :
    restKind (mk sh a) = false := by
  cases sh <;> simp [restKind, mk, twinKind, h]

/-- A retry of a wing does not concern the rest, nor does its shadow. -/
theorem restKind_retryWing (sh : Bool) (a : V32Action) (h : a.kind = .retryWing) :
    restKind (mk sh a) = false := by
  cases sh <;> simp [restKind, mk, twinKind, h]

/-- A take touches only the wings. -/
theorem takeBatch_wingsOnly (st : V32State) (b : WingBatch) (ya na : ℚ) :
    WingsOnly st (takeBatch p st b ya na) := by
  refine ⟨⟨(takeBatch p st b ya na).st.toWings, st.coidSeq + 2, by omega, rfl⟩, fun a ha => ?_⟩
  simp only [takeBatch, List.mem_singleton] at ha
  rw [ha]
  exact restKind_takeWings _ _ rfl

/-- The retries of a list of legs touch only the wings. -/
theorem retryLegs_wingsOnly (index : ℕ) (ya na : ℚ) (legs : List WingLeg) (st : V32State) :
    WingsOnly st (retryLegs p index ya na legs st).2 := by
  induction legs generalizing st with
  | nil => exact WingsOnly.quiet st
  | cons leg rest ih =>
    unfold retryLegs
    split
    · obtain ⟨⟨w, n, hn, hst⟩, hacts⟩ := ih (mintCoid st).2
      refine ⟨⟨w, n, by simp only [mintCoid] at hn; omega, hst⟩, fun a ha => ?_⟩
      rcases List.mem_cons.mp ha with rfl | ha
      · exact restKind_retryWing _ _ rfl
      · exact hacts a ha
    · exact ih st

/-- The retry of a batch touches only the wings. -/
theorem retryBatch_wingsOnly (st : V32State) (b : WingBatch) (ya na : ℚ) :
    WingsOnly st (retryBatch p st b ya na) := by
  unfold retryBatch
  split
  · exact WingsOnly.quiet st
  · obtain ⟨⟨w, n, hn, hst⟩, hacts⟩ := retryLegs_wingsOnly (p := p) b.index ya na st.wingLegs st
    refine ⟨⟨{ w with wingLegs := (retryLegs p b.index ya na st.wingLegs st).1 }, n, hn, ?_⟩, hacts⟩
    simp only [hst]

/-- Serving a batch touches only the wings. -/
theorem serveBatch_wingsOnly (ya na : ℚ) (index : ℕ) (st : V32State) :
    WingsOnly st (serveBatch p ya na index st) := by
  unfold serveBatch
  split
  · exact WingsOnly.quiet st
  · split_ifs
    · exact WingsOnly.quiet st
    · exact retryBatch_wingsOnly st _ ya na
    · exact takeBatch_wingsOnly st _ ya na

/-- The cutoff of a batch touches only the wings. -/
theorem cutoffBatch_wingsOnly (b : WingBatch) (st : V32State) :
    WingsOnly st (cutoffBatch b st) := by
  unfold cutoffBatch
  split_ifs
  · exact WingsOnly.quiet st
  · exact WingsOnly.ofWings st _

/-- Stepping the wings leaves everything else alone. -/
theorem wingStep_wingsOnly (st : V32State) (t : ℚ) : WingsOnly st (wingStep p st t) := by
  unfold wingStep
  split_ifs
  · exact WingsOnly.quiet st
  · exact (WingsOnly.forEach cutoffBatch_wingsOnly _ st).synced
  · split
    · exact WingsOnly.quiet st
    · exact (WingsOnly.forEach (serveBatch_wingsOnly _ _) _ st).synced

/-- Counting a completed set touches only the wings. -/
theorem maybeCloseSet_wingsOnly (st : V32State) (index : ℕ) :
    WingsOnly st (maybeCloseSet st index).quiet := by
  unfold maybeCloseSet
  split
  · exact WingsOnly.ofWings st _
  · split_ifs
    · exact WingsOnly.ofWings st _
    · exact WingsOnly.ofWings st _

/-- The fill of a leg touches only the wings. -/
theorem applyLegFill_wingsOnly (st : V32State) (leg : WingLeg) (ev : Fill) :
    WingsOnly st (applyLegFill st leg ev).quiet := by
  have h := maybeCloseSet_wingsOnly
    { st with
      wingLegs := replaceFirst (fun l => l.clientOrderId == ev.clientOrderId)
        (fun l => if 0 < ev.count then
            { l with status := .filled, fillPrice := ev.price, fillFee := ev.price.map fee }
          else { l with status := .unfilled }) st.wingLegs } leg.batch
  obtain ⟨⟨w, n, hn, hst⟩, hacts⟩ := h
  exact ⟨⟨w, n, hn, hst⟩, hacts⟩

/-! ### The account of the orders -/

/-- The client order id of sequence number `k`. -/
def coidAt (closeTime : String) (k : ℕ) : String := "v32-" ++ closeTime ++ "-" ++ Nat.repr k

/-- Different numbers give different ids. -/
theorem coidAt_injective (closeTime : String) : Function.Injective (coidAt closeTime) := by
  intro m n h
  exact natRepr_injective ((String.append_right_inj _).mp h)

/-- The minted id is that of the next number. -/
theorem mintCoid_fst (st : V32State) : (mintCoid st).1 = coidAt st.closeTime (st.coidSeq + 1) := rfl

/-- The id was minted in this window. -/
def Minted (st : V32State) (coid : String) : Prop :=
  ∃ k ≤ st.coidSeq, coid = coidAt st.closeTime k

/-- The next id is new. -/
theorem Minted.ne_next {coid : String} (h : Minted st coid) :
    coid ≠ coidAt st.closeTime (st.coidSeq + 1) := by
  obtain ⟨k, hk, rfl⟩ := h
  intro heq
  have := coidAt_injective _ heq
  omega

/-- The lots booked of an order. -/
def bookedFor (st : V32State) (coid : String) : ℚ := st.restBookedByCoid.getD coid 0

/-- The lots of the allotment that are not wanted any more. -/
def spentLots (p : V32Params) (st : V32State) : ℚ := p.contracts - restSize p st

/-- The counts stay on their grid, and every id the slot knows was minted. -/
structure Ledgered (st : V32State) : Prop where
  remaining : ∀ r ∈ st.restRemaining, OnGrid 100 r ∧ 0 ≤ r
  booked : ∀ c, OnGrid 100 (bookedFor st c) ∧ 0 ≤ bookedFor st c
  fresh : ∀ k, st.coidSeq < k → bookedFor st (coidAt st.closeTime k) = 0
  live : ∀ o ∈ st.restLive, Minted st o.clientOrderId
  pending : ∀ o ∈ st.restPending, Minted st o.clientOrderId
  ctx : ∀ oid c, st.cancelCtx.get? oid = some c → Minted st c.1

/-- Before the remainder is known the whole allotment is wanted. -/
theorem Ledgered.restSize_eq (h : Ledgered st) :
    restSize p st = st.restRemaining.getD p.contracts := by
  unfold restSize
  cases hr : st.restRemaining with
  | none => exact qCount_natCast _
  | some r => exact qCount_of_onGrid (h.remaining r hr).1

/-- The wanted size is never negative. -/
theorem Ledgered.restSize_nonneg (h : Ledgered st) : 0 ≤ restSize p st := by
  rw [h.restSize_eq]
  cases hr : st.restRemaining with
  | none => exact Nat.cast_nonneg _
  | some r => exact (h.remaining r hr).2

/-- The wanted size has two decimals. -/
theorem onGrid_restSize : OnGrid 100 (restSize p st) := onGrid_qCount _

/-- What identifies an order: its two ids. -/
def orderKey (o : RestOrder) : String × Option String := (o.clientOrderId, o.orderId)

/-- A step that credits `lots` to the order `coid` and leaves the slot alone. -/
structure Credits (p : V32Params) (coid : String) (lots : ℚ) (st st' : V32State) : Prop where
  closeTime : st'.closeTime = st.closeTime
  seq : st.coidSeq ≤ st'.coidSeq
  live : st'.restLive.map orderKey = st.restLive.map orderKey
  pending : st'.restPending = st.restPending
  cancelInFlight : st'.cancelInFlight = st.cancelInFlight
  amendInFlight : st'.amendInFlight = st.amendInFlight
  ctx : st'.cancelCtx = st.cancelCtx
  done : st'.restAllotmentDone = st.restAllotmentDone
  stood : st'.stoodDown = st.stoodDown
  shakedown : st'.shakedown = st.shakedown
  spent : spentLots p st' = spentLots p st + lots
  booked : ∀ c, bookedFor st' c = bookedFor st c + if c = coid then lots else 0
  remaining : ∀ r ∈ st'.restRemaining, OnGrid 100 r ∧ 0 ≤ r

/-- A credit forgets no minted id. -/
theorem Credits.minted {coid c : String} {lots : ℚ} (h : Credits p coid lots st st')
    (hc : Minted st c) : Minted st' c := by
  obtain ⟨k, hk, rfl⟩ := hc
  exact ⟨k, hk.trans h.seq, by rw [h.closeTime]⟩

/-- Booking lots on the grid under a minted id keeps the account in order. -/
theorem Credits.ledgered {coid : String} {lots : ℚ} (h : Credits p coid lots st st')
    (hl : Ledgered st) (hcoid : lots ≠ 0 → Minted st coid) (hgrid : OnGrid 100 lots)
    (hlots : 0 ≤ lots) : Ledgered st' := by
  refine ⟨h.remaining, fun c => ?_, fun k hk => ?_, fun o ho => ?_, fun o ho => ?_,
    fun oid c hc => ?_⟩
  · rw [h.booked]
    obtain ⟨hg, hn⟩ := hl.booked c
    split_ifs
    · exact ⟨hg.add hgrid, add_nonneg hn hlots⟩
    · simpa using ⟨hg, hn⟩
  · rw [h.booked, h.closeTime, hl.fresh k (lt_of_le_of_lt h.seq hk), zero_add]
    split_ifs with hk'
    · by_contra hne
      obtain ⟨j, hj, hj'⟩ := hcoid hne
      have := coidAt_injective _ (hk'.trans hj')
      have := h.seq
      omega
    · rfl
  · have hkey : orderKey o ∈ st.restLive.map orderKey := by
      rw [← h.live]
      exact Option.mem_map_of_mem _ ho
    obtain ⟨o', ho', heq⟩ := Option.mem_map.mp hkey
    have : o.clientOrderId = o'.clientOrderId := (congrArg Prod.fst heq).symm
    rw [this]
    exact h.minted (hl.live o' ho')
  · exact h.minted (hl.pending o (h.pending ▸ ho))
  · exact h.minted (hl.ctx oid c (h.ctx ▸ hc))

/-- A step that leaves the slot and the account alone. -/
theorem Credits.nothing {coid : String} (hl : Ledgered st) (hslot : st'.toRestSlot = st.toRestSlot)
    (hclose : st'.closeTime = st.closeTime) (hseq : st.coidSeq ≤ st'.coidSeq)
    (hstood : st'.stoodDown = st.stoodDown) (hsh : st'.shakedown = st.shakedown) :
    Credits p coid 0 st st' where
  closeTime := hclose
  seq := hseq
  live := by rw [hslot]
  pending := by rw [hslot]
  cancelInFlight := by rw [hslot]
  amendInFlight := by rw [hslot]
  ctx := by rw [hslot]
  done := by rw [hslot]
  stood := hstood
  shakedown := hsh
  spent := by simp [spentLots, restSize, hslot]
  booked := fun c => by simp [bookedFor, hslot]
  remaining := by rw [hslot]; exact hl.remaining

/-- Serving the wings credits nothing. -/
theorem WingsOnly.credits (h : WingsOnly st r) (hl : Ledgered st) (coid : String) :
    Credits p coid 0 st r.st := by
  obtain ⟨⟨w, n, hn, hst⟩, -⟩ := h
  apply Credits.nothing hl <;> rw [hst]
  exact hn

/-- Two credits of an order add up. -/
theorem Credits.trans {coid : String} {lots lots' : ℚ} {st'' : V32State}
    (h : Credits p coid lots st st') (h' : Credits p coid lots' st' st'') :
    Credits p coid (lots + lots') st st'' where
  closeTime := h'.closeTime.trans h.closeTime
  seq := h.seq.trans h'.seq
  live := h'.live.trans h.live
  pending := h'.pending.trans h.pending
  cancelInFlight := h'.cancelInFlight.trans h.cancelInFlight
  amendInFlight := h'.amendInFlight.trans h.amendInFlight
  ctx := h'.ctx.trans h.ctx
  done := h'.done.trans h.done
  stood := h'.stood.trans h.stood
  shakedown := h'.shakedown.trans h.shakedown
  spent := by rw [h'.spent, h.spent, add_assoc]
  booked := fun c => by
    rw [h'.booked, h.booked]
    split_ifs <;> ring
  remaining := h'.remaining

/-! ### Booking -/

/-- The slot is closed for the hour: nothing is placed or amended any more. -/
def Latched (st : V32State) : Prop := st.restAllotmentDone = true ∨ st.stoodDown = true

/-- Booking lots of an order finishes the allotment, or moves them from the remainder to the
order's account. -/
theorem settleRest_cases (hl : Ledgered st) (coid : String) (price lots : ℚ) :
    (settleRest p st coid price lots t).restAllotmentDone = true ∨
      Credits p coid (qCount lots) st (settleRest p st coid price lots t) := by
  have hgrid : OnGrid 100 (restSize p st - qCount lots) :=
    onGrid_restSize.sub (onGrid_qCount _)
  unfold settleRest
  dsimp only
  rw [qCount_of_onGrid hgrid]
  rcases le_or_gt (restSize p st - qCount lots) 0 with hdone | hpos
  · left
    rw [max_eq_left hdone, if_pos le_rfl]
  · right
    rw [max_eq_right hpos.le, if_neg (not_le.mpr hpos)]
    refine ⟨rfl, le_rfl, ?_, rfl, rfl, rfl, rfl, rfl, rfl, rfl, ?_, fun c => ?_, ?_⟩
    · cases st.restLive with
      | none => rfl
      | some o =>
        simp only [Option.map_some, orderKey]
        split_ifs <;> rfl
    · simp only [spentLots, restSize, Option.getD_some]
      rw [qCount_of_onGrid (show OnGrid 100 (qCount _ - _) from hgrid)]
      ring
    · unfold bookedFor
      rw [Dict.getD_set]
      split_ifs with hc
      · rw [hc]
        exact qCount_of_onGrid ((hl.booked coid).1.add (onGrid_qCount _))
      · simp
    · intro r hr
      rw [Option.mem_def, Option.some.injEq] at hr
      exact hr ▸ ⟨hgrid, hpos.le⟩

/-- What a booking does to the slot. -/
structure Booked (p : V32Params) (coid : String) (lots : ℚ) (st : V32State) (r : Outcome) :
    Prop where
  slot : Latched r.st ∨ Credits p coid lots st r.st
  acts : ∀ a ∈ r.acts, restKind a = false

/-- Serving the wings books nothing. -/
theorem WingsOnly.booked {coid : String} (h : WingsOnly st r) (hl : Ledgered st) :
    Booked p coid 0 st r := ⟨Or.inr (h.credits hl coid), h.acts⟩

/-- Serving the wings keeps the latch. -/
theorem WingsOnly.latched (h : WingsOnly st r) (hst : Latched st) : Latched r.st := by
  obtain ⟨⟨w, n, hn, heq⟩, -⟩ := h
  rw [heq]
  exact hst

/-- A booking books its lots under the id of the order. -/
theorem bookRestDelta_booked (hl : Ledgered st) {coid : String} (hcoid : Minted st coid)
    (price : ℚ) {lots : ℚ} (hlots : 0 ≤ lots) :
    Booked p coid (qCount lots) st (bookRestDelta p st coid price lots t) := by
  have hwings := (wingStep_wingsOnly (p := p) (settleRest p st coid price lots t) t).synced
  refine ⟨?_, hwings.acts⟩
  rcases settleRest_cases (p := p) (t := t) hl coid price lots with hdone | hcredits
  · exact Or.inl (hwings.latched (Or.inl hdone))
  · have hl' := hcredits.ledgered hl (fun _ => hcoid) (onGrid_qCount _) (qCount_nonneg hlots)
    have h := hcredits.trans (hwings.credits hl' coid)
    rw [add_zero] at h
    exact Or.inr h

/-! ### Private fills -/

/-- The id is that of the order in the slot. -/
def SlotId (st : V32State) (coid : String) : Prop :=
  ∃ o, (o ∈ st.restLive ∨ o ∈ st.restPending) ∧ o.clientOrderId = coid

/-- The id of the order in the slot was minted. -/
theorem Ledgered.minted_of_slotId (hl : Ledgered st) {coid : String} (h : SlotId st coid) :
    Minted st coid := by
  obtain ⟨o, ho | ho, rfl⟩ := h
  · exact hl.live o ho
  · exact hl.pending o ho

/-- Using up the guard of an amend that crossed touches nothing else. -/
theorem skipAmendCross_credits (hl : Ledgered st) (coid : String) (oid : Option String)
    (delta : ℚ) : Credits p coid 0 st (skipAmendCross st oid delta).2 := by
  unfold skipAmendCross
  cases oid with
  | none => exact Credits.nothing hl rfl rfl le_rfl rfl rfl
  | some oid =>
    dsimp only
    split_ifs
    all_goals
      exact ⟨rfl, le_rfl, rfl, rfl, rfl, rfl, rfl, rfl, rfl, rfl, by simp [spentLots, restSize],
        fun c => by simp [bookedFor], hl.remaining⟩

/-- A fill is matched only with the order in the slot. -/
theorem matchFill_slotId {coid : String} {o : RestOrder} (h : matchFill st coid = some o) :
    SlotId st o.clientOrderId := by
  unfold matchFill at h
  rcases Option.or_eq_some_iff.mp h with hlive | ⟨-, hpending⟩
  · exact ⟨o, Or.inl (Option.filter_eq_some_iff.mp hlive).1, rfl⟩
  · exact ⟨o, Or.inr (Option.filter_eq_some_iff.mp hpending).1, rfl⟩

/-- A private fill books lots of the order in the slot, or nothing. -/
theorem applyFill_booked (hl : Ledgered st) (ev : Fill) :
    ∃ coid lots, 0 ≤ lots ∧ OnGrid 100 lots ∧ (lots ≠ 0 → SlotId st coid) ∧
      Booked p coid lots st (applyFill p st ev t) := by
  have hnothing : ∀ {r : Outcome}, WingsOnly st r →
      ∃ coid lots, 0 ≤ lots ∧ OnGrid 100 lots ∧ (lots ≠ 0 → SlotId st coid) ∧
        Booked p coid lots st r := fun h =>
    ⟨"", 0, le_rfl, onGrid_zero 100, fun hne => absurd rfl hne, h.booked hl⟩
  unfold applyFill
  split
  · exact hnothing (applyLegFill_wingsOnly st _ ev)
  · cases hm : matchFill st ev.clientOrderId with
    | none => exact hnothing (WingsOnly.quiet st)
    | some o =>
      dsimp only
      have hslot := matchFill_slotId hm
      have hskip := skipAmendCross_credits (p := p) hl o.clientOrderId (o.orderId.or ev.orderId)
        (qCount ev.count)
      have hl' := hskip.ledgered hl (fun h => absurd rfl h) (onGrid_zero 100) le_rfl
      have hminted := hskip.minted (hl.minted_of_slotId hslot)
      split_ifs with hpos
      · obtain ⟨hst, hacts⟩ := bookRestDelta_booked (p := p) (t := t) hl' hminted
          (ev.price.getD o.price) hpos.le
        refine ⟨o.clientOrderId, _, qCount_nonneg hpos.le, onGrid_qCount _, fun _ => hslot,
          ?_, hacts⟩
        rcases hst with hdone | hcredits
        · exact Or.inl hdone
        · have h := hskip.trans hcredits
          rw [zero_add] at h
          exact Or.inr h
      · exact ⟨o.clientOrderId, 0, le_rfl, onGrid_zero 100, fun hne => absurd rfl hne,
          Or.inr hskip, by simp [V32State.quiet]⟩

end Pilot.V32
