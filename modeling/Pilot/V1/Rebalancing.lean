import Pilot.Lib.Transitions
import Pilot.V1.Closing
import Pilot.V1.Reconciler
import Pilot.V1.WriteAhead

/-!
# The end of the imbalance protocol

The loop ends balanced, stopped or riding, and its orders stay within their bounds, in every
run in which no fraction of a lot is bought or sold, the replies can be read, and no reply
fills more than its order when many retries are allowed.
-/

namespace Pilot.V1

/-! ### The law -/

/-- The order is within its bounds: it has a lot, a purchase keeps the pairs below their ceiling
when it fills, a sale leaves the matched lots. -/
def SentOrder.Sound (o : SentOrder) : Prop :=
  1 ≤ o.order.count ∧
    (o.action = .buy → o.ledger.pairNetCashOut +
      o.order.count * (o.order.limitPrice + fee o.order.limitPrice) ≤
        o.ceilingPerPair * o.ledger.net o.order.which.other) ∧
    (o.action = .sell → o.ledger.matchedPairs ≤ o.ledger.net o.order.which - o.order.count)

/-- The loop ended balanced, riding or with the stop. -/
def Rebalance.Settled (w : Rebalance) : Prop := ∃ e, w.ended = some e ∧ e ≠ .raised

/-- The loop settled and sent no order out of bounds. -/
def EndsWell (w : Rebalance) : Prop := w.Settled ∧ ∀ o ∈ w.sent, o.Sound

/-- A ledger whose entry named the outcome held in each of two markets. -/
structure Entered (s : LedgerState) : Prop where
  distinct : s.highTicker ≠ s.lowTicker
  sides : ∀ which, (s.side which).isSome

/-! ### The condition -/

/-- What is left of a number of lots beyond the whole ones. -/
def fraction (x : ℚ) : ℚ := x - truncInt x

/-- The decision moves whole lots: a purchase is for at least one, at no negative cost, and a
sale is of a leg with no smaller fraction than the matched lots. -/
def MovesLots (s : LedgerState) : Proposal → Prop
  | .retryBuy order =>
    1 ≤ s.net order.which.other - s.net order.which ∧ 0 ≤ order.limitPrice + fee order.limitPrice
  | .sellDown order => fraction s.matchedPairs ≤ fraction (s.net order.which)
  | _ => True

/-- The reply to the order of a turn can be read and recorded. -/
def ReplyReadable : PostOutcome → Prop
  | .raised _ => True
  | .reply status body => Failed status ∨
      ∃ b, body = some b ∧ TimeReadable (singleSlot b) ∧ NameReadable (singleSlot b)

/-- The slot of a reply fills no more than the order it answers, and no other order. -/
def SlotFits (s : LedgerState) (cid : String) (order : RebalanceOrder) (slot : Json) : Prop :=
  (toDecimal (slot.field "fill_count")).getD 0 ≤ order.count ∧
    ∀ name, (slot.field "client_order_id").name? = some name →
      name = cid ∨ s.cidToLeg.get? name = none

/-- The reply of a turn fills no more than the order it answers. -/
def ReplyFits (s : LedgerState) (turn : Turn) (order : RebalanceOrder) : Prop :=
  match turn.outcome with
  | .reply _ (some body) => SlotFits s turn.clientOrderId order (singleSlot body)
  | _ => True

/-- The retries of a turn cannot outlast the loop. -/
def Patient (g : LoopSetting) (s : LedgerState) (turn : Turn) : Proposal → Prop
  | .retryBuy order | .sellDown order =>
    g.bounds.maxRetriesPerSide ≤ 4 ∨ g.bounds.maxRetriesPerSide ≤ 9 ∧ ReplyFits s turn order
  | _ => True

/-- A turn that moves whole lots, whose reply can be read, and that is patient. -/
def TurnOk (g : LoopSetting) (w : Rebalance) (turn : Turn) : Prop :=
  w.ended = none → MovesLots w.ledger (decision g w.ledger turn) ∧ ReplyReadable turn.outcome ∧
    Patient g w.ledger turn (decision g w.ledger turn)

/-! ### Decisions -/

section Decisions

variable {s : LedgerState} {imb : Imbalance} {bounds : ImbalanceBounds}
  {quotes : RebalanceQuotes} {ceiling : ℚ} {order : RebalanceOrder}

/-- A detected imbalance names the overfilled leg, the matched lots and the deficit. -/
theorem detectImbalance_spec (h : detectImbalance s = some imb) :
    imb.overfilled = imb.deficient.other ∧ imb.overNet = s.net imb.overfilled ∧
      imb.matched = s.net imb.deficient ∧ imb.matched = s.matchedPairs ∧
      imb.deficit = s.net imb.overfilled - s.net imb.deficient ∧
      s.net imb.deficient < s.net imb.overfilled := by
  unfold detectImbalance at h
  dsimp only at h
  split_ifs at h with heq hlt
  · cases h
    exact ⟨rfl, rfl, min_eq_left hlt.le, rfl, rfl, hlt⟩
  · cases h
    have hgt : s.net .low < s.net .high := lt_of_le_of_ne (not_lt.mp hlt) (Ne.symm heq)
    exact ⟨rfl, rfl, min_eq_right hgt.le, rfl, rfl, hgt⟩

/-- A retry is one of the retries left, for the truncated deficit, below the ceiling. -/
theorem retryBuyOf_spec (hdetect : detectImbalance s = some imb)
    (h : retryBuyOf s bounds quotes ceiling imb = some order) :
    order.which = imb.deficient ∧ order.ticker = s.ticker order.which ∧
      order.side = s.side order.which ∧
      order.count = truncInt (s.net order.which.other - s.net order.which) ∧
      retriesForSide s order.ticker .rebalanceBuy < bounds.maxRetriesPerSide ∧
      s.pairNetCashOut + (s.net order.which.other - s.net order.which) *
        (order.limitPrice + fee order.limitPrice) ≤ ceiling * s.net order.which.other := by
  obtain ⟨hover, hnet, -, -, hdeficit, -⟩ := detectImbalance_spec hdetect
  obtain ⟨price, -, hprice⟩ := Option.bind_eq_some_iff.mp h
  split_ifs at hprice with hcond
  cases hprice
  rw [hnet, hdeficit, hover] at hcond
  dsimp only
  rw [hdeficit, hover]
  exact ⟨rfl, rfl, rfl, rfl, hcond⟩

/-- A sale is one of the retries left, of a positive number of lots. -/
theorem sellDownOf_spec (hdetect : detectImbalance s = some imb)
    (h : sellDownOf s bounds quotes imb = some order) :
    order.which = imb.overfilled ∧ order.ticker = s.ticker order.which ∧
      order.side = s.side order.which ∧
      order.count = truncInt (s.net order.which) - truncInt s.matchedPairs ∧ 0 < order.count ∧
      retriesForSide s order.ticker .rebalanceSell < bounds.maxRetriesPerSide := by
  obtain ⟨-, hnet, -, hmatched, -, -⟩ := detectImbalance_spec hdetect
  obtain ⟨price, -, hprice⟩ := Option.bind_eq_some_iff.mp h
  dsimp only at hprice
  split_ifs at hprice with hcond
  cases hprice
  rw [hnet, hmatched] at hcond
  dsimp only
  rw [hnet, hmatched]
  exact ⟨rfl, rfl, rfl, rfl, hcond.2, hcond.1⟩

/-- What a decision says about the ledger. -/
theorem proposeRebalance_cases (s : LedgerState) (bounds : ImbalanceBounds) (tMinusS : ℚ)
    (quotes : RebalanceQuotes) (ceiling : ℚ) :
    proposeRebalance s bounds tMinusS quotes ceiling ∈
        [Proposal.balanced, .rideToSettlement, .giveUp] ∨
      ∃ imb order, detectImbalance s = some imb ∧
        (retryBuyOf s bounds quotes ceiling imb = some order ∧
            proposeRebalance s bounds tMinusS quotes ceiling = .retryBuy order ∨
          sellDownOf s bounds quotes imb = some order ∧
            proposeRebalance s bounds tMinusS quotes ceiling = .sellDown order) := by
  unfold proposeRebalance
  cases hdetect : detectImbalance s with
  | none => simp
  | some imb =>
    dsimp only
    by_cases hride : tMinusS < bounds.noOrdersAfterSToSettle
    · rw [if_pos hride]
      simp
    · rw [if_neg hride]
      cases hbuy : (if tMinusS < bounds.noRebalanceAfterSToSettle then none
          else retryBuyOf s bounds quotes ceiling imb) with
      | some order =>
        have hretry : retryBuyOf s bounds quotes ceiling imb = some order := by
          split_ifs at hbuy
          exact hbuy
        exact Or.inr ⟨imb, order, rfl, Or.inl ⟨hretry, rfl⟩⟩
      | none =>
        cases hsell : sellDownOf s bounds quotes imb with
        | some order => exact Or.inr ⟨imb, order, rfl, Or.inr ⟨hsell, rfl⟩⟩
        | none => simp

/-- What is at least one truncates to at least one. -/
theorem one_le_truncInt {x : ℚ} (h : 1 ≤ x) : 1 ≤ truncInt x := by
  unfold truncInt
  rw [if_pos (zero_le_one.trans h)]
  exact Int.le_floor.mpr (by exact_mod_cast h)

/-- A retry for whole lots is sound. -/
theorem sound_retryBuy (hdetect : detectImbalance s = some imb)
    (h : retryBuyOf s bounds quotes ceiling imb = some order)
    (hlots : MovesLots s (.retryBuy order)) :
    (SentOrder.mk s ceiling .buy order).Sound := by
  obtain ⟨-, -, -, hcount, -, hceiling⟩ := retryBuyOf_spec hdetect h
  obtain ⟨hone, hcost⟩ := hlots
  refine ⟨?_, fun _ => ?_, fun hsell => by cases hsell⟩
  · show 1 ≤ order.count
    rw [hcount]
    exact one_le_truncInt hone
  · refine le_trans ?_ hceiling
    have hle := truncInt_le (zero_le_one.trans hone)
    show s.pairNetCashOut + order.count * _ ≤ _
    rw [hcount]
    exact add_le_add_right (mul_le_mul_of_nonneg_right hle hcost) _

/-- A sale of a leg with no smaller fraction than the matched lots is sound. -/
theorem sound_sellDown (ceiling : ℚ) (hdetect : detectImbalance s = some imb)
    (h : sellDownOf s bounds quotes imb = some order)
    (hlots : MovesLots s (.sellDown order)) :
    (SentOrder.mk s ceiling .sell order).Sound := by
  obtain ⟨-, -, -, hcount, hpos, -⟩ := sellDownOf_spec hdetect h
  refine ⟨hpos, fun hbuy => absurd hbuy Action.noConfusion, fun _ => ?_⟩
  show s.matchedPairs ≤ s.net order.which - order.count
  have hfraction : fraction s.matchedPairs ≤ fraction (s.net order.which) := hlots
  unfold fraction at hfraction
  rw [hcount]
  push_cast
  linarith

end Decisions

/-! ### One order -/

section Sending

variable {g : LoopSetting} {w : Rebalance} {turn : Turn} {action : Action}
  {order : RebalanceOrder} {side : Side}

/-- The response is that of a reply to an order of a side. -/
def Replied (turn : Turn) (side : Side) (r : OrderResponse) : Prop :=
  ∃ status body, turn.outcome = .reply status (some body) ∧
    parseSingleResponse body side = some r

/-- An answer of no fill can be recorded. -/
theorem recordable_noFill (cid : String) (error : OrderError) :
    Recordable (noFillResponse (.text cid) error) = true := by
  simp [Recordable, noFillResponse, Json.hashable]

/-- No reply with an order in it came of a post. -/
def Unanswered : PostOutcome → Prop
  | .raised _ => True
  | .reply status _ => Failed status

/-- A post of one leg has one response: one without fill, or the one its slot reports. -/
theorem responsesOf_single {intent : Intent} {leg : IntentLeg} {outcome : PostOutcome}
    (hlegs : intent.legs = [leg]) (hread : ReplyReadable outcome) :
    ∃ r, responsesOf intent outcome = some [r] ∧
      ((Unanswered outcome ∧ ∃ error, r = noFillResponse (.text leg.clientOrderId) error) ∨
        ∃ status body q, outcome = .reply status (some body) ∧ ¬Failed status ∧
          NameReadable (singleSlot body) ∧ parseEntryResponse (singleSlot body) = some q ∧
          r = normalizeFillToSide q leg.side) := by
  have hnoFills (error : OrderError) : noFills intent error =
      [noFillResponse (.text leg.clientOrderId) error] := by
    unfold noFills
    rw [hlegs]
    rfl
  cases outcome with
  | raised name => exact ⟨_, congrArg some (hnoFills _), Or.inl ⟨trivial, _, rfl⟩⟩
  | reply status body =>
    by_cases hfailed : Failed status
    · obtain ⟨error, herror⟩ : ∃ error, readReply intent status body =
          some (noFills intent error) := by
        obtain ⟨code, rfl, hcode⟩ := hfailed
        unfold readReply
        dsimp only
        rcases hcode with hcode | hcode
        · rw [if_pos hcode]
          exact ⟨_, rfl⟩
        · rw [if_pos hcode]
          split_ifs
          · exact ⟨_, rfl⟩
          · exact ⟨_, rfl⟩
      exact ⟨_, herror.trans (congrArg some (hnoFills error)), Or.inl ⟨hfailed, _, rfl⟩⟩
    · obtain ⟨b, rfl, htime, hname⟩ := hread.resolve_left hfailed
      obtain ⟨q, hq⟩ := parseEntryResponse_isSome htime
      have hbody : readBody intent b = some [normalizeFillToSide q leg.side] := by
        unfold readBody parseSingleResponse
        rw [hlegs, hq]
        rfl
      refine ⟨_, ?_, Or.inr ⟨status, b, q, rfl, hfailed, hname, hq, rfl⟩⟩
      unfold responsesOf readReply
      cases status with
      | none => exact hbody
      | some code =>
        have hcode : ¬((code = 429 ∨ 500 ≤ code) ∨ code < 200 ∨ 300 ≤ code) :=
          fun h => hfailed ⟨code, rfl, h⟩
        rw [not_or] at hcode
        dsimp only
        rw [if_neg hcode.1, if_neg hcode.2]
        exact hbody

/-- Normalizing a price keeps the id. -/
theorem clientOrderId_normalizeFillToSide (q : OrderResponse) (side : Side) :
    (normalizeFillToSide q side).clientOrderId = q.clientOrderId := by
  unfold normalizeFillToSide
  split <;> rfl

/-- Normalizing a price keeps the count. -/
theorem fillCount_normalizeFillToSide (q : OrderResponse) (side : Side) :
    (normalizeFillToSide q side).fillCount = q.fillCount := by
  unfold normalizeFillToSide
  split <;> rfl

/-- The response to an order whose name can be a key can be recorded. -/
theorem recordable_reply {slot : Json} {q : OrderResponse} (side : Side)
    (hname : NameReadable slot) (hparse : parseEntryResponse slot = some q) :
    Recordable (normalizeFillToSide q side) = true := by
  unfold Recordable
  rw [clientOrderId_normalizeFillToSide, clientOrderId_of_parse hparse]
  rcases hname with hfalse | hkey
  · rw [hfalse]
    rfl
  · rw [hkey, Bool.or_true]

/-- An order of one leg gets one response: one without fill, or that of the reply. -/
theorem execute_single (x : Executor) (intent : Intent) (tMinusS : Option ℚ)
    (stopAuthorized : Bool) {leg : IntentLeg} (hlegs : intent.legs = [leg])
    (haction : leg.action ≠ .other)
    (hread : ReplyReadable turn.outcome) :
    ∃ result r, (execute x intent tMinusS stopAuthorized turn.outcome).2 = some result ∧
      result.responses = [r] ∧ Recordable r = true ∧
      (r.fillCount = 0 ∨ Replied turn leg.side r) := by
  unfold execute
  cases refusal x intent (tMinusS.or intent.tMinusS) stopAuthorized with
  | some reason =>
    refine ⟨_, noFillResponse (.text leg.clientOrderId) (.refused reason), rfl, ?_,
      recordable_noFill _ _, Or.inl rfl⟩
    unfold noFills
    rw [hlegs]
    rfl
  | none =>
    have hbuildable : Buildable intent := by
      intro leg' hleg'
      rw [hlegs, List.mem_singleton] at hleg'
      rw [hleg']
      exact haction
    obtain ⟨r, hresponses, hr⟩ := responsesOf_single hlegs hread
    refine ⟨⟨[r], none, turn.outcome.status⟩, r, ?_, rfl, ?_⟩
    · unfold commit dispatch
      rw [if_pos hbuildable, hresponses]
    · rcases hr with ⟨-, error, rfl⟩ | ⟨status, body, q, houtcome, -, hname, hq, rfl⟩
      · exact ⟨recordable_noFill _ _, Or.inl rfl⟩
      · refine ⟨recordable_reply _ hname hq, Or.inr ⟨status, body, houtcome, ?_⟩⟩
        unfold parseSingleResponse
        rw [hq]
        rfl

/-- An order of the loop is recorded, with one response, and the loop goes on. -/
theorem sendOrder_spec (g : LoopSetting) (w : Rebalance) (turn : Turn) (action : Action)
    (order : RebalanceOrder) (hside : order.side = some side) (haction : action ≠ .other)
    (hread : ReplyReadable turn.outcome) (hended : w.ended = none) :
    ∃ r, (sendOrder g w turn action order).ended = none ∧
      (sendOrder g w turn action order).ledger =
        recordResponse (recordIntent w.ledger
          (rebalanceIntent g w.ledger turn action order side)) r ∧
      (r.fillCount = 0 ∨ Replied turn side r) := by
  obtain ⟨result, r, hresult, hresponses, hrecordable, hfill⟩ :=
    execute_single w.executor (rebalanceIntent g w.ledger turn action order side)
      (some g.tMinusS) false rfl haction hread
  refine ⟨r, ?_, ?_, hfill⟩
  · unfold sendOrder
    rw [hside]
    dsimp only
    rw [hresult]
    dsimp only
    rw [hresponses]
    simp [hrecordable, hended]
  · unfold sendOrder
    rw [hside]
    dsimp only
    rw [hresult]
    dsimp only
    rw [hresponses]
    simp [hrecordable]

/-- An order that is sent is noted with the ledger it was decided on. -/
theorem sent_sendOrder (g : LoopSetting) (w : Rebalance) (turn : Turn) (action : Action)
    (order : RebalanceOrder) :
    (sendOrder g w turn action order).sent = w.sent ++
      [⟨w.ledger, ceilingPerPair g.bounds w.ledger.source turn.fairStrangleQ, action, order⟩] := by
  unfold sendOrder
  cases order.side with
  | none => rfl
  | some side =>
    dsimp only
    split
    · rfl
    · split_ifs <;> rfl

/-- A turn that sends an order: the order it sends and the response it records. -/
structure Ordered (g : LoopSetting) (w : Rebalance) (turn : Turn) (w' : Rebalance)
    (action : Action) (order : RebalanceOrder) (side : Side) (r : OrderResponse) : Prop where
  trades : action ≠ .other
  ended : w'.ended = none
  ledger : w'.ledger = recordResponse (recordIntent w.ledger
    (rebalanceIntent g w.ledger turn action order side)) r
  sent : w'.sent = w.sent ++
    [⟨w.ledger, ceilingPerPair g.bounds w.ledger.source turn.fairStrangleQ, action, order⟩]
  sound : (SentOrder.mk w.ledger
    (ceilingPerPair g.bounds w.ledger.source turn.fairStrangleQ) action order).Sound
  ticker : order.ticker = w.ledger.ticker order.which
  side_eq : w.ledger.side order.which = some side
  retries : retriesForSide w.ledger order.ticker (rebalancePurpose action) <
    g.bounds.maxRetriesPerSide
  filled : r.fillCount = 0 ∨ Replied turn side r
  patient : g.bounds.maxRetriesPerSide ≤ 4 ∨
    g.bounds.maxRetriesPerSide ≤ 9 ∧ ReplyFits w.ledger turn order
  short : action = .buy →
    order.count ≤ w.ledger.net order.which.other - w.ledger.net order.which
  long : action = .sell →
    order.count ≤ w.ledger.net order.which - w.ledger.net order.which.other

/-- The other of the other leg is the leg. -/
theorem other_other (which : Which) : which.other.other = which := by
  cases which <;> rfl

/-- A turn in bounds settles the loop, or sends a sound order. -/
theorem rebalanceTurn_cases (hended : w.ended = none) (hentered : Entered w.ledger)
    (hok : TurnOk g w turn) :
    ((rebalanceTurn g w turn).Settled ∧ (rebalanceTurn g w turn).sent = w.sent) ∨
      ∃ action order side r, Ordered g w turn (rebalanceTurn g w turn) action order side r := by
  obtain ⟨hlots, hread, hpatient⟩ := hok hended
  have hturn : rebalanceTurn g w turn = carryOut g w turn (decision g w.ledger turn) := by
    unfold rebalanceTurn
    rw [hended]
  rw [hturn]
  rcases proposeRebalance_cases w.ledger g.bounds g.tMinusS turn.quotes
    (ceilingPerPair g.bounds w.ledger.source turn.fairStrangleQ) with
    hend | ⟨imb, order, hdetect, ⟨hretry, hdecision⟩ | ⟨hsell, hdecision⟩⟩
  · left
    change decision g w.ledger turn ∈ _ at hend
    simp only [List.mem_cons, List.not_mem_nil, or_false] at hend
    rcases hend with hend | hend | hend
    all_goals
      rw [hend]
      exact ⟨⟨_, rfl, Ending.noConfusion⟩, rfl⟩
  · right
    change decision g w.ledger turn = _ at hdecision
    rw [hdecision] at hlots hpatient ⊢
    obtain ⟨-, hticker, hside, hcount, hleft, -⟩ := retryBuyOf_spec hdetect hretry
    obtain ⟨side, hsome⟩ := Option.isSome_iff_exists.mp (hentered.sides order.which)
    obtain ⟨r, hnone, hledger, hfill⟩ :=
      sendOrder_spec g w turn .buy order (hside.trans hsome) (by decide) hread hended
    have hone : 1 ≤ w.ledger.net order.which.other - w.ledger.net order.which := hlots.1
    exact ⟨.buy, order, side, r,
      { trades := by decide, ended := hnone, ledger := hledger, sent := sent_sendOrder g w turn _ _
        sound := sound_retryBuy hdetect hretry hlots
        ticker := hticker, side_eq := hsome, retries := hleft, filled := hfill, patient := hpatient
        short := fun _ => by
          rw [hcount]
          exact truncInt_le (zero_le_one.trans hone)
        long := fun h => absurd h (by decide) }⟩
  · right
    change decision g w.ledger turn = _ at hdecision
    rw [hdecision] at hlots hpatient ⊢
    obtain ⟨hwhich, hticker, hside, hcount, -, hleft⟩ := sellDownOf_spec hdetect hsell
    obtain ⟨side, hsome⟩ := Option.isSome_iff_exists.mp (hentered.sides order.which)
    obtain ⟨r, hnone, hledger, hfill⟩ :=
      sendOrder_spec g w turn .sell order (hside.trans hsome) (by decide) hread hended
    obtain ⟨hover, -, hdeficient, hmatched, -, -⟩ := detectImbalance_spec hdetect
    have hsound := sound_sellDown (ceilingPerPair g.bounds w.ledger.source turn.fairStrangleQ)
      hdetect hsell hlots
    exact ⟨.sell, order, side, r,
      { trades := by decide, ended := hnone, ledger := hledger, sent := sent_sendOrder g w turn _ _
        sound := hsound
        ticker := hticker, side_eq := hsome, retries := hleft, filled := hfill, patient := hpatient
        short := fun h => absurd h (by decide)
        long := fun _ => by
          have hmatched' := hsound.2.2 rfl
          have hother : order.which.other = imb.deficient := by
            rw [hwhich, hover, other_other]
          dsimp only at hmatched'
          rw [← hmatched, hdeficient] at hmatched'
          rw [hother]
          linarith }⟩

end Sending

/-! ### What an order changes -/

section Changes

variable {g : LoopSetting} {w w' : Rebalance} {turn : Turn} {action : Action}
  {order : RebalanceOrder} {side : Side} {r : OrderResponse}

/-- A response changes neither the legs nor the intents. -/
theorem recordResponse_frame (s : LedgerState) (r : OrderResponse) :
    (∀ which, (recordResponse s r).ticker which = s.ticker which) ∧
      (∀ which, (recordResponse s r).side which = s.side which) ∧
      (recordResponse s r).intents = s.intents := by
  unfold recordResponse
  dsimp only
  cases fillOf s r with
  | none => exact ⟨fun which => by cases which <;> rfl, fun which => by cases which <;> rfl, rfl⟩
  | some f => exact ⟨fun which => by cases which <;> rfl, fun which => by cases which <;> rfl, rfl⟩

/-- An intent that is no entry changes no leg. -/
theorem recordIntent_frame (s : LedgerState) (intent : Intent) (h : intent.purpose ≠ .entry) :
    (∀ which, (recordIntent s intent).ticker which = s.ticker which) ∧
      (∀ which, (recordIntent s intent).side which = s.side which) := by
  constructor
  · intro which
    cases which <;> rfl
  · intro which
    unfold recordIntent
    rw [if_neg h]
    cases which <;> rfl

/-- A rebalance is no entry. -/
theorem rebalancePurpose_ne_entry (action : Action) : rebalancePurpose action ≠ .entry := by
  cases action <;> decide

/-- An order changes neither the tickers nor the sides. -/
theorem Ordered.frame (h : Ordered g w turn w' action order side r) (which : Which) :
    w'.ledger.ticker which = w.ledger.ticker which ∧
      w'.ledger.side which = w.ledger.side which := by
  rw [h.ledger]
  obtain ⟨hticker, hside, -⟩ := recordResponse_frame (recordIntent w.ledger
    (rebalanceIntent g w.ledger turn action order side)) r
  obtain ⟨hticker', hside'⟩ := recordIntent_frame w.ledger
    (rebalanceIntent g w.ledger turn action order side) (rebalancePurpose_ne_entry action)
  rw [hticker, hside, hticker', hside']
  exact ⟨rfl, rfl⟩

/-- An entered ledger stays entered through an order. -/
theorem Ordered.entered (h : Ordered g w turn w' action order side r) (he : Entered w.ledger) :
    Entered w'.ledger where
  distinct := by
    have hhigh := (h.frame .high).1
    have hlow := (h.frame .low).1
    change w'.ledger.highTicker = w.ledger.highTicker at hhigh
    change w'.ledger.lowTicker = w.ledger.lowTicker at hlow
    rw [hhigh, hlow]
    exact he.distinct
  sides := fun which => by
    rw [(h.frame which).2]
    exact he.sides which

/-- An order uses up one retry of its market and purpose. -/
theorem Ordered.retriesForSide_eq (h : Ordered g w turn w' action order side r) (ticker : String)
    (purpose : Purpose) : retriesForSide w'.ledger ticker purpose =
      retriesForSide w.ledger ticker purpose +
        if rebalancePurpose action = purpose ∧ order.ticker = ticker then 1 else 0 := by
  rw [h.ledger]
  unfold retriesForSide
  rw [(recordResponse_frame _ _).2.2]
  show (w.ledger.intents ++ [rebalanceIntent g w.ledger turn action order side]).countP _ = _
  rw [List.countP_append, List.countP_singleton]
  congr 1
  simp [rebalanceIntent, rebalanceLeg]

/-- The net of a leg is that of its position. -/
theorem net_eq_positionAt {s : LedgerState} {which : Which} {key : String × Side}
    (hkey : s.legKey which = some key) : s.net which = (positionAt s key).net := by
  unfold LedgerState.net LedgerState.position positionAt Dict.getD
  rw [hkey, Option.bind_some]
  cases s.positions.get? key with
  | none => exact (sub_self (0 : ℚ)).symm
  | some pos => rfl

/-- An order changes no leg key. -/
theorem Ordered.legKey (h : Ordered g w turn w' action order side r) (which : Which) :
    w'.ledger.legKey which = w.ledger.legKey which := by
  unfold LedgerState.legKey
  rw [(h.frame which).1, (h.frame which).2]

/-- A fitting reply fills no more than was ordered, under the id of the order. -/
theorem fillCount_of_replied (h : Replied turn side r) (hfits : ReplyFits w.ledger turn order) :
    r.fillCount ≤ max (order.count : ℚ) 0 ∧ ∀ name, r.clientOrderId.name? = some name →
      name = turn.clientOrderId ∨ w.ledger.cidToLeg.get? name = none := by
  obtain ⟨status, body, houtcome, hparse⟩ := h
  unfold ReplyFits at hfits
  rw [houtcome] at hfits
  obtain ⟨q, hq, rfl⟩ := Option.map_eq_some_iff.mp hparse
  rw [clientOrderId_normalizeFillToSide, fillCount_normalizeFillToSide, clientOrderId_of_parse hq]
  refine ⟨?_, hfits.2⟩
  have hslot : q.fillCount ≤ 0 ∨
      q.fillCount = (toDecimal ((singleSlot body).field "fill_count")).getD 0 := by
    cases hbody : singleSlot body with
    | object fields =>
      rw [hbody] at hq
      obtain ⟨tsMs, -, rfl⟩ := Option.map_eq_some_iff.mp hq
      exact Or.inr rfl
    | _ =>
      rw [hbody] at hq
      cases hq
      exact Or.inl le_rfl
  rcases hslot with hnone | hslot
  · exact hnone.trans (le_max_right _ _)
  · rw [hslot]
    exact hfits.1.trans (le_max_left _ _)

/-- The lots of a fill of an order that fits: at most the order's, on its leg alone. -/
theorem Ordered.net (h : Ordered g w turn w' action order side r)
    (hentered : Entered w.ledger) (hfits : ReplyFits w.ledger turn order) :
    ∃ x : ℚ, 0 ≤ x ∧ x ≤ order.count ∧
      w'.ledger.net order.which = w.ledger.net order.which + (if action = .buy then x else -x) ∧
      w'.ledger.net order.which.other = w.ledger.net order.which.other := by
  have hpos : (0 : ℚ) ≤ order.count := by
    have hone : (1 : ℚ) ≤ order.count := by exact_mod_cast h.sound.1
    exact zero_le_one.trans hone
  have hkey : w.ledger.legKey order.which = some (order.ticker, side) := by
    unfold LedgerState.legKey
    rw [h.side_eq, h.ticker]
    rfl
  obtain ⟨side', hside'⟩ := Option.isSome_iff_exists.mp (hentered.sides order.which.other)
  have hkey' : w.ledger.legKey order.which.other =
      some (w.ledger.ticker order.which.other, side') := by
    unfold LedgerState.legKey
    rw [hside']
    rfl
  have hne : order.ticker ≠ w.ledger.ticker order.which.other := by
    rw [h.ticker]
    cases order.which with
    | high => exact hentered.distinct
    | low => exact hentered.distinct.symm
  rw [net_eq_positionAt (h.legKey _ |>.trans hkey), net_eq_positionAt (h.legKey _ |>.trans hkey'),
    net_eq_positionAt hkey, net_eq_positionAt hkey', h.ledger]
  generalize hs : recordIntent w.ledger (rebalanceIntent g w.ledger turn action order side) = s
  have hposition (key : String × Side) : positionAt s key = positionAt w.ledger key := by
    rw [← hs]
    rfl
  have hrecord (key : String × Side) : positionAt (recordResponse s r) key =
      ((fillOf s r).filter fun f => f.key = key).elim (positionAt s key) (positionAt s key).add :=
    positionAt_record s (.response r) key
  rw [hrecord, hrecord, hposition, hposition]
  cases hfill : fillOf s r with
  | none => exact ⟨0, le_rfl, hpos, by simp, rfl⟩
  | some f =>
    obtain ⟨leg, hleg, hcond⟩ := Option.bind_eq_some_iff.mp hfill
    split_ifs at hcond with hzero
    obtain ⟨price, -, rfl⟩ := Option.map_eq_some_iff.mp hcond
    rw [not_or, not_le] at hzero
    -- the fill is that of the reply, so it names this order
    have hreplied : Replied turn side r := h.filled.resolve_left hzero.1.ne'
    obtain ⟨hle, hname⟩ := fillCount_of_replied hreplied hfits
    rw [max_eq_left hpos] at hle
    have hthis : leg = rebalanceLeg g turn action order side := by
      obtain ⟨name, hcid, hget⟩ := Option.bind_eq_some_iff.mp hleg
      have hset : s.cidToLeg = w.ledger.cidToLeg.set turn.clientOrderId
          (rebalanceLeg g turn action order side) := by
        rw [← hs]
        rfl
      rw [hset, Dict.get?_set] at hget
      by_cases hown : name = turn.clientOrderId
      · rw [if_pos hown] at hget
        exact (Option.some.inj hget).symm
      · rw [if_neg hown, (hname name hcid).resolve_left hown] at hget
        cases hget
    subst hthis
    refine ⟨r.fillCount, hzero.1.le, hle, ?_, ?_⟩
    · simp only [Option.filter_some, Fill.key, rebalanceLeg, decide_true, if_true, Option.elim_some,
        LegPosition.net_add, Fill.lots]
      cases haction : action with
      | buy => rfl
      | sell => rfl
      | other => exact absurd haction h.trades
    · simp [Option.filter_some, Fill.key, rebalanceLeg, hne]

end Changes

/-! ### The end of the loop -/

section Ending

variable {g : LoopSetting} {w w' : Rebalance} {turn : Turn} {action : Action}
  {order : RebalanceOrder} {side : Side} {r : OrderResponse}

/-- The retries left for a leg. -/
def retriesLeft (g : LoopSetting) (s : LedgerState) (which : Which) (action : Action) : ℕ :=
  g.bounds.maxRetriesPerSide - retriesForSide s (s.ticker which) (rebalancePurpose action)

/-- An order takes one of the retries of its leg, and none is given back. -/
theorem Ordered.retriesLeft (h : Ordered g w turn w' action order side r) (which : Which)
    (action' : Action) :
    retriesLeft g w'.ledger which action' ≤ retriesLeft g w.ledger which action' ∧
      (which = order.which → action' = action →
        retriesLeft g w'.ledger which action' < retriesLeft g w.ledger which action') := by
  unfold V1.retriesLeft
  rw [(h.frame which).1, h.retriesForSide_eq]
  constructor
  · omega
  · rintro rfl rfl
    rw [h.ticker, if_pos ⟨rfl, rfl⟩]
    have hleft := h.retries
    rw [h.ticker] at hleft
    omega

/-- All the retries left. -/
def allRetries (g : LoopSetting) (w : Rebalance) : ℕ :=
  retriesLeft g w.ledger .high .buy + retriesLeft g w.ledger .high .sell +
    (retriesLeft g w.ledger .low .buy + retriesLeft g w.ledger .low .sell)

/-- An order uses up one retry. -/
theorem Ordered.allRetries (h : Ordered g w turn w' action order side r) :
    allRetries g w' < allRetries g w := by
  have hhb := h.retriesLeft .high .buy
  have hhs := h.retriesLeft .high .sell
  have hlb := h.retriesLeft .low .buy
  have hls := h.retriesLeft .low .sell
  have htrades := h.trades
  unfold V1.allRetries
  cases hwhich : order.which <;> cases haction : action <;>
    simp only [hwhich, haction, ne_eq, reduceCtorEq, not_true_eq_false, forall_const] at *
  all_goals omega

/-- The retries left to bring a deficient leg and its other leg together. -/
def retriesToward (g : LoopSetting) (d : Which) (w : Rebalance) : ℕ :=
  retriesLeft g w.ledger d .buy + retriesLeft g w.ledger d.other .sell

/-- The leg has no more lots than the other. -/
def Deficient (d : Which) (w : Rebalance) : Prop := w.ledger.net d ≤ w.ledger.net d.other

/-- An order that fits brings the legs together without turning them around. -/
theorem Ordered.toward {d : Which} (h : Ordered g w turn w' action order side r)
    (hentered : Entered w.ledger) (hfits : ReplyFits w.ledger turn order) (hd : Deficient d w) :
    Deficient d w' ∧ retriesToward g d w' < retriesToward g d w := by
  obtain ⟨x, hx, hcount, hnet, hother⟩ := h.net hentered hfits
  have hone : (1 : ℚ) ≤ order.count := by exact_mod_cast h.sound.1
  have hbuy := h.retriesLeft d .buy
  have hsell := h.retriesLeft d.other .sell
  have hopposite : order.which = d ∨ order.which = d.other := by
    cases order.which <;> cases d <;> simp [Which.other]
  unfold Deficient retriesToward at *
  cases haction : action with
  | other => exact absurd haction h.trades
  | buy =>
    have hshort := h.short haction
    rcases hopposite with hwhich | hwhich
    · rw [hwhich, if_pos haction] at hnet
      rw [hwhich] at hother hshort
      refine ⟨by rw [hnet, hother]; linarith, ?_⟩
      have hless := hbuy.2 hwhich.symm haction.symm
      omega
    · rw [hwhich, other_other] at hshort
      linarith
  | sell =>
    have hlong := h.long haction
    rcases hopposite with hwhich | hwhich
    · rw [hwhich] at hlong
      linarith
    · rw [hwhich, haction, if_neg (by decide)] at hnet
      rw [hwhich, other_other] at hother hlong
      refine ⟨by rw [hnet, hother]; linarith, ?_⟩
      have hless := hsell.2 hwhich.symm haction.symm
      omega

/-- A settled rebalance stays settled. -/
theorem settled_rebalanceTurn (h : w.Settled) (turn : Turn) : (rebalanceTurn g w turn).Settled := by
  obtain ⟨e, he, hraised⟩ := h
  unfold rebalanceTurn
  rw [he]
  exact ⟨e, he, hraised⟩

/-- What the loop keeps while it goes on. -/
def GoesOn (w : Rebalance) : Prop := w.ended = none ∧ Entered w.ledger

/-- Within the retries of all legs the loop settles. -/
theorem settles_of_allRetries {turns : List Turn} (hw : GoesOn w)
    (hless : allRetries g w < turns.length) (hok : AllAlong (rebalanceTurn g) (TurnOk g) w turns) :
    (turns.foldl (rebalanceTurn g) w).Settled := by
  refine foldl_ends (I := GoesOn) (fun w turn hw hok => ?_)
    (fun w turn hw => settled_rebalanceTurn hw turn) hw hless hok
  rcases rebalanceTurn_cases hw.1 hw.2 hok with ⟨hsettled, -⟩ | ⟨action, order, side, r, hordered⟩
  · exact Or.inl hsettled
  · exact Or.inr ⟨⟨hordered.ended, hordered.entered hw.2⟩, hordered.allRetries⟩

/-- With more retries than the loop has turns for, no order is sent. -/
theorem settles_of_no_order {turns : List Turn} (hw : GoesOn w)
    (hmany : 9 < g.bounds.maxRetriesPerSide) (hless : 0 < turns.length)
    (hok : AllAlong (rebalanceTurn g) (TurnOk g) w turns) :
    (turns.foldl (rebalanceTurn g) w).Settled := by
  refine foldl_ends (I := GoesOn) (m := fun _ => 0) (fun w turn hw hok => Or.inl ?_)
    (fun w turn hw => settled_rebalanceTurn hw turn) hw hless hok
  rcases rebalanceTurn_cases hw.1 hw.2 hok with ⟨hsettled, -⟩ | ⟨action, order, side, r, hordered⟩
  · exact hsettled
  · rcases hordered.patient with hfew | ⟨hfew, -⟩ <;> omega

/-- With replies that fit, the loop settles within the retries toward the deficient leg. -/
theorem settles_of_retriesToward {d : Which} {turns : List Turn} (hw : GoesOn w)
    (hd : Deficient d w) (hmany : 4 < g.bounds.maxRetriesPerSide)
    (hless : retriesToward g d w < turns.length)
    (hok : AllAlong (rebalanceTurn g) (TurnOk g) w turns) :
    (turns.foldl (rebalanceTurn g) w).Settled := by
  refine foldl_ends (I := fun w => GoesOn w ∧ Deficient d w) (fun w turn hw hok => ?_)
    (fun w turn hw => settled_rebalanceTurn hw turn) ⟨hw, hd⟩ hless hok
  obtain ⟨⟨hended, hentered⟩, hd⟩ := hw
  rcases rebalanceTurn_cases hended hentered hok with
    ⟨hsettled, -⟩ | ⟨action, order, side, r, hordered⟩
  · exact Or.inl hsettled
  · obtain ⟨-, hfits⟩ := hordered.patient.resolve_left (not_le.mpr hmany)
    obtain ⟨hd', hfewer⟩ := hordered.toward hentered hfits hd
    exact Or.inr ⟨⟨⟨hordered.ended, hordered.entered hentered⟩, hd'⟩, hfewer⟩

/-- Every order sent in turns that are in bounds is sound. -/
theorem sent_sound {turns : List Turn} (hw : Entered w.ledger) (hsound : ∀ o ∈ w.sent, o.Sound)
    (hok : AllAlong (rebalanceTurn g) (TurnOk g) w turns) :
    ∀ o ∈ (turns.foldl (rebalanceTurn g) w).sent, o.Sound := by
  induction turns generalizing w with
  | nil => exact hsound
  | cons turn turns ih =>
    rw [List.foldl_cons]
    cases hended : w.ended with
    | some e =>
      have hsame : rebalanceTurn g w turn = w := by
        unfold rebalanceTurn
        rw [hended]
      have hrest := hok.2
      rw [hsame] at hrest ⊢
      exact ih hw hsound hrest
    | none =>
      rcases rebalanceTurn_cases hended hw hok.1 with
        ⟨⟨e, he, -⟩, hsent⟩ | ⟨action, order, side, r, hordered⟩
      · -- an ended loop sends nothing more
        have hstays : ∀ (turns : List Turn) (w : Rebalance), w.ended = some e →
            (turns.foldl (rebalanceTurn g) w).sent = w.sent := by
          intro turns
          induction turns with
          | nil => exact fun w _ => rfl
          | cons turn turns ih =>
            intro w hw
            have hsame : rebalanceTurn g w turn = w := by
              unfold rebalanceTurn
              rw [hw]
            rw [List.foldl_cons, hsame]
            exact ih w hw
        rw [hstays turns _ he, hsent]
        exact hsound
      · apply ih (hordered.entered hw) _ hok.2
        intro o ho
        rw [hordered.sent] at ho
        rcases List.mem_append.mp ho with ho | ho
        · exact hsound o ho
        · rw [List.mem_singleton.mp ho]
          exact hordered.sound

end Ending

/-- In every run whose turns are in bounds the loop ends balanced, riding or with the stop, and
every order it sends is within its bounds. -/
theorem rebalance_ends_well (g : LoopSetting) (ledger : LedgerState) (executor : Executor)
    (turns : ℕ → Turn) (hentered : Entered ledger)
    (hok : AllAlong (rebalanceTurn g) (TurnOk g) ⟨ledger, executor, [], none⟩
      ((List.range maxRebalanceSteps).map turns)) :
    EndsWell (maybeRebalance g ledger executor turns) := by
  constructor
  · have hlength : ((List.range maxRebalanceSteps).map turns).length = 20 := by
      rw [List.length_map, List.length_range]
      rfl
    have hgoes : GoesOn ⟨ledger, executor, [], none⟩ := ⟨rfl, hentered⟩
    unfold maybeRebalance
    by_cases hfew : g.bounds.maxRetriesPerSide ≤ 4
    · apply settles_of_allRetries hgoes _ hok
      rw [hlength]
      unfold allRetries retriesLeft
      omega
    · have hmany := not_le.mp hfew
      by_cases hnine : g.bounds.maxRetriesPerSide ≤ 9
      · have hstart (d : Which) (hd : ledger.net d ≤ ledger.net d.other) :
            (((List.range maxRebalanceSteps).map turns).foldl (rebalanceTurn g)
              ⟨ledger, executor, [], none⟩).Settled := by
          apply settles_of_retriesToward (d := d) hgoes hd hmany _ hok
          rw [hlength]
          unfold retriesToward retriesLeft
          omega
        rcases le_total (ledger.net .high) (ledger.net .low) with hle | hle
        · exact hstart .high hle
        · exact hstart .low hle
      · exact settles_of_no_order hgoes (not_le.mp hnine) (by rw [hlength]; omega) hok
  · exact sent_sound hentered (by simp) hok

/-! ### Sample runs -/

/-- The bounds of the policy, with five minutes left. -/
def sampleSetting : LoopSetting where
  bounds := ⟨129 / 125, 5, 3, 1⟩
  tMinusS := 300
  exchangeIndex := fun _ => some 0

/-- A turn whose order is answered with a fill of some lots. -/
def sampleTurn (lots : ℚ) : Turn where
  quotes := ⟨none, some (3 / 5), some (1 / 5), none⟩
  fairStrangleQ := 0
  clientOrderId := "cid-retry"
  outcome := .reply (some 200) (some (.object [("client_order_id", .text "cid-retry"),
    ("fill_count", .number lots), ("average_fill_price", .number (1 / 5))]))

/-- The loop before its first turn, with some lots on each leg. -/
def sampleLoop (high low : ℚ) : Rebalance :=
  ⟨(sampleHistory .subDollarFlip high low).close, .new {} true, [], none⟩

/-- The ledger of the sample is entered. -/
theorem entered_sampleLoop (high low : ℚ) : Entered (sampleLoop high low).ledger where
  distinct := by
    have hhigh := (ticker_run (sampleHistory .subDollarFlip high low).start
      (sampleHistory .subDollarFlip high low).events .high).1
    have hlow := (ticker_run (sampleHistory .subDollarFlip high low).start
      (sampleHistory .subDollarFlip high low).events .low).1
    intro heq
    exact (sampleHistory .subDollarFlip high low).distinct (hhigh.symm.trans (heq.trans hlow))
  sides := by
    have hside (s : LedgerState) (es : List OrderResponse) (which : Which) :
        ((es.map LedgerEvent.response).foldl record s).side which = s.side which := by
      induction es generalizing s with
      | nil => rfl
      | cons r es ih =>
        rw [List.map_cons, List.foldl_cons, ih]
        exact (recordResponse_frame s r).2.1 which
    intro which
    have hentry := hside (recordIntent (sampleHistory .subDollarFlip high low).start
      (flipEntry .subDollarFlip)) [fillReply "cid-hi" high (2 / 5) (1 / 100),
        fillReply "cid-lo" low (2 / 5) (1 / 100)] which
    change ((sampleLoop high low).ledger).side which = _ at hentry
    rw [hentry]
    cases which <;> rfl

/-- After the end every turn is in order. -/
theorem turnOk_of_ended {g : LoopSetting} {w : Rebalance} {e : Ending} (he : w.ended = some e)
    (turns : List Turn) : AllAlong (rebalanceTurn g) (TurnOk g) w turns := by
  induction turns with
  | nil => trivial
  | cons turn turns ih =>
    have hsame : rebalanceTurn g w turn = w := by
      unfold rebalanceTurn
      rw [he]
    refine ⟨fun hnone => ?_, by rw [hsame]; exact ih⟩
    rw [he] at hnone
    cases hnone

/-- One lot against none: the retry fills it. -/
theorem rebalance_ends_well_sample :
    EndsWell (maybeRebalance sampleSetting (sampleLoop 1 0).ledger (.new {} true)
      fun _ => sampleTurn 1) := by
  apply rebalance_ends_well _ _ _ _ (entered_sampleLoop 1 0)
  have hfirst : decision sampleSetting (sampleLoop 1 0).ledger (sampleTurn 1) =
      .retryBuy ⟨.low, "KXBTC15M-LO", some .yes, 1, 1 / 5⟩ := by decide +kernel
  have hsecond : decision sampleSetting
      (rebalanceTurn sampleSetting (sampleLoop 1 0) (sampleTurn 1)).ledger (sampleTurn 1) =
        .balanced := by decide +kernel
  have hread : ReplyReadable (sampleTurn 1).outcome :=
    Or.inr ⟨_, rfl, by simp [TimeReadable, singleSlot, Json.field], Or.inr rfl⟩
  refine ⟨fun _ => ⟨?_, hread, ?_⟩, fun _ => ⟨?_, hread, ?_⟩, turnOk_of_ended (e := .balanced) ?_ _⟩
  · change MovesLots _ (decision _ (sampleLoop 1 0).ledger _)
    rw [hfirst]
    exact ⟨by decide +kernel, by decide +kernel⟩
  · change Patient _ _ _ (decision _ (sampleLoop 1 0).ledger _)
    rw [hfirst]
    refine Or.inr ⟨by decide, by decide +kernel, fun name hname => Or.inl ?_⟩
    have hsome : some "cid-retry" = some name := hname
    exact (Option.some.inj hsome).symm
  · change MovesLots _ (decision _ (rebalanceTurn _ (sampleLoop 1 0) _).ledger _)
    rw [hsecond]
    trivial
  · change Patient _ _ _ (decision _ (rebalanceTurn _ (sampleLoop 1 0) _).ledger _)
    rw [hsecond]
    trivial
  · decide +kernel

/-- Against 2 lots and 19/10 lots the loop sends orders without lots, and a sale below the matched
lots. -/
theorem fraction_sends_no_lots :
    ¬∀ g ledger executor turns, Entered ledger →
      EndsWell (maybeRebalance g ledger executor turns) := by
  intro h
  have hends := h sampleSetting (sampleLoop 2 (19 / 10)).ledger (.new {} true)
    (fun _ => sampleTurn 0) (entered_sampleLoop 2 (19 / 10))
  have hcounts : (maybeRebalance sampleSetting (sampleLoop 2 (19 / 10)).ledger (.new {} true)
      fun _ => sampleTurn 0).sent.map (fun o => o.order.count) =
        [0, 0, 0, 0, 0, 1, 1, 1, 1, 1] := by decide +kernel
  have hzero : (0 : ℤ) ∈ (maybeRebalance sampleSetting (sampleLoop 2 (19 / 10)).ledger
      (.new {} true) fun _ => sampleTurn 0).sent.map (fun o => o.order.count) := by
    rw [hcounts]
    simp
  obtain ⟨o, ho, hcount⟩ := List.mem_map.mp hzero
  have hone := (hends.2 o ho).1
  omega

end Pilot.V1
