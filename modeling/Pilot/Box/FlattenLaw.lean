import Pilot.Box.Flatten
import Pilot.V1.Rebalancing

/-!
# The law of the flatten

The flatten makes at most three attempts, each on a later frame than the one before and none inside
the cutoff, and the ledger counts what the venue sold. Every attempt is for the whole lots of the
entry: it is covered by what is still held as long as no attempt follows the sale of a part.
-/

namespace Pilot.Box

open V1 (Executor ExecResult Intent IntentLeg LedgerState OrderResponse PostOutcome Purpose Refusal
  Which Recordable newLedger recordIntent recordResponse Json Failed singleSlot fraction
  TimeReadable NameReadable Keyed positionAt)

/-! ### The law -/

instance (status : Option ℤ) : Decidable (Failed status) :=
  decidable_of_iff (∃ code ∈ status, (code = 429 ∨ 500 ≤ code) ∨ code < 200 ∨ 300 ≤ code) Iff.rfl

/-- The lots a slot reports filled. -/
def slotLots (slot : Json) : ℚ := (V1.toDecimal (slot.field "fill_count")).getD 0

/-- The lots a reply reports sold. -/
def lotsSold : PostOutcome → ℚ
  | .raised _ => 0
  | .reply status body =>
    if Failed status then 0 else (body.map fun b => slotLots (singleSlot b)).getD 0

/-- The lots an order sold: none when it was refused. -/
def FlattenOrder.sold (o : FlattenOrder) : ℚ := if o.refused.isSome then 0 else lotsSold o.outcome

/-- The lots sold of a leg. -/
def soldOf (sent : List FlattenOrder) (which : Which) : ℚ :=
  ((sent.filter fun o => o.which = which).map FlattenOrder.sold).sum

/-- The attempts are few, on later and later frames, outside the cutoff, and all they sold is off
the ledger of the entry. -/
structure FlattenBounds (g : BoxWindow) (entry : LedgerState) (w : BoxService) : Prop where
  bounded : w.sent.length ≤ 3
  later : w.sent.Pairwise fun a b => a.serverTs < b.serverTs
  beforeCutoff : ∀ o ∈ w.sent, (g.boxPolicy.noOrdersAfterSToSettle : ℚ) ≤ o.tMinusS
  conserved : ∃ s, w.ledger = some s ∧
    ∀ which, s.net which = entry.net which - soldOf w.sent which

/-- What is asked of a flatten after an entry: its bounds, and no order for more than is held. -/
structure FlattenLaw (g : BoxWindow) (entry : LedgerState) (w : BoxService) : Prop
    extends FlattenBounds g entry w where
  covered : ∀ o ∈ w.sent, (o.count : ℚ) ≤ o.ledger.net o.which

/-- The lots sold up to an order, that one included. -/
def soldAfter (sold : ℚ) (o : FlattenOrder) : ℚ := sold + o.sold

/-- No attempt follows the sale of a part: what is sold before an attempt is at most the fraction of
a lot that the entry held. -/
def NoneAfterPartial (entry : LedgerState) (sent : List FlattenOrder) : Prop :=
  AllAlong soldAfter (fun sold o => sold ≤ fraction (entry.net o.which)) 0 sent

/-- A slot reports no sale, or lots of one order sold at a price. -/
def SlotSells (clientOrderId : String) (slot : Json) : Prop :=
  TimeReadable slot ∧ NameReadable slot ∧
    (slotLots slot = 0 ∨ 0 < slotLots slot ∧
      (slot.field "client_order_id").name? = some clientOrderId ∧
      (V1.toDecimal (slot.field "average_fill_price")).isSome)

/-- What comes of the post of a sale: no sale, or lots sold. -/
def SaleReply (clientOrderId : String) : PostOutcome → Prop
  | .raised _ => True
  | .reply status body =>
    Failed status ∨ ∃ b, body = some b ∧ SlotSells clientOrderId (singleSlot b)

/-- The replies of a moment are those to a sale. -/
def BoxInput.Replied : BoxInput → Prop
  | .bookEvent _ _ m => SaleReply m.clientOrderId m.outcome
  | .disarm => True

/-- The service after an entry and what follows it. -/
def flattenRun (g : BoxWindow) (executor : Executor) (action : BoxAction) (e : EntryMoment)
    (m : Moment) (inputs : List BoxInput) : BoxService :=
  inputs.foldl (boxStep g) (onBoxAction g (.new true executor) action e m)

/-! ### The response to a sale -/

section Responses

variable {clientOrderId : String} {outcome : PostOutcome} {slot : Json} {q r : OrderResponse}
  {lots : ℚ}

/-- The response reports some lots of an order, with a price where there are any. -/
structure Reports (clientOrderId : String) (lots : ℚ) (r : OrderResponse) : Prop where
  fillCount : r.fillCount = lots
  nonneg : 0 ≤ lots
  name : 0 < lots → r.clientOrderId.name? = some clientOrderId
  price : 0 < lots → r.averageFillPrice.isSome

/-- A parsed slot has the lots of its text. -/
theorem fillCount_of_parse (h : V1.parseEntryResponse slot = some q) :
    q.fillCount = slotLots slot := by
  cases slot with
  | object fields =>
    obtain ⟨tsMs, -, rfl⟩ := Option.map_eq_some_iff.mp h
    rfl
  | _ =>
    cases h
    rfl

/-- A parsed slot has the average price of its text. -/
theorem averageFillPrice_of_parse (h : V1.parseEntryResponse slot = some q) :
    q.averageFillPrice = V1.toDecimal (slot.field "average_fill_price") := by
  cases slot with
  | object fields =>
    obtain ⟨tsMs, -, rfl⟩ := Option.map_eq_some_iff.mp h
    rfl
  | _ =>
    cases h
    rfl

/-- Normalizing keeps an average price that is there. -/
theorem averageFillPrice_normalize (side : Side) (h : q.averageFillPrice.isSome) :
    (V1.normalizeFillToSide q side).averageFillPrice.isSome := by
  obtain ⟨price, hprice⟩ := Option.isSome_iff_exists.mp h
  unfold V1.normalizeFillToSide
  rw [hprice]
  cases q.rawReportedPrice <;> rfl

/-- The reply to a sale can be read. -/
theorem SaleReply.readable (h : SaleReply clientOrderId outcome) : V1.ReplyReadable outcome := by
  cases outcome with
  | raised name => trivial
  | reply status body =>
    rcases h with hfailed | ⟨b, rfl, htime, hname, -⟩
    · exact Or.inl hfailed
    · exact Or.inr ⟨b, rfl, htime, hname⟩

/-- An unanswered sale has sold nothing. -/
theorem lotsSold_of_unanswered (h : V1.Unanswered outcome) : lotsSold outcome = 0 := by
  cases outcome with
  | raised name => rfl
  | reply status body => exact if_pos h

/-- An answer of no fill reports no lots. -/
theorem reports_noFill (clientOrderId : String) (error : V1.OrderError) :
    Reports clientOrderId 0 (V1.noFillResponse (.text clientOrderId) error) where
  fillCount := rfl
  nonneg := le_rfl
  name := fun h => absurd h (lt_irrefl 0)
  price := fun h => absurd h (lt_irrefl 0)

/-- The response that a slot of a sale makes. -/
theorem SlotSells.reports (h : SlotSells clientOrderId slot) (side : Side)
    (hparse : V1.parseEntryResponse slot = some q) :
    Reports clientOrderId (slotLots slot) (V1.normalizeFillToSide q side) where
  fillCount := by rw [V1.fillCount_normalizeFillToSide, fillCount_of_parse hparse]
  nonneg := by
    rcases h.2.2 with hzero | ⟨hpos, -⟩
    · exact hzero.ge
    · exact hpos.le
  name := by
    intro hpos
    rw [V1.clientOrderId_normalizeFillToSide, V1.clientOrderId_of_parse hparse]
    exact (h.2.2.resolve_left hpos.ne').2.1
  price := by
    intro hpos
    apply averageFillPrice_normalize
    rw [averageFillPrice_of_parse hparse]
    exact (h.2.2.resolve_left hpos.ne').2.2

/-- A sale sent gets one response, with the lots the venue sold of it. -/
theorem execute_sale (x : Executor) (intent : Intent) {leg : IntentLeg} (tMinusS : Option ℚ)
    (hlegs : intent.legs = [leg]) (haction : leg.action = .sell)
    (hreply : SaleReply leg.clientOrderId outcome) :
    ∃ result r, (V1.execute x intent tMinusS true outcome).2 = some result ∧
      result.responses = [r] ∧ Recordable r = true ∧
      Reports leg.clientOrderId (if result.refused.isSome then 0 else lotsSold outcome) r := by
  unfold V1.execute
  cases V1.refusal x intent (tMinusS.or intent.tMinusS) true with
  | some reason =>
    refine ⟨_, V1.noFillResponse (.text leg.clientOrderId) (.refused reason), rfl, ?_,
      V1.recordable_noFill _ _, reports_noFill _ _⟩
    unfold V1.noFills
    rw [hlegs]
    rfl
  | none =>
    have hbuildable : V1.Buildable intent := by
      intro leg' hleg'
      rw [hlegs, List.mem_singleton] at hleg'
      rw [hleg', haction]
      decide
    obtain ⟨r, hresponses, hr⟩ := V1.responsesOf_single hlegs hreply.readable
    refine ⟨⟨[r], none, outcome.status⟩, r, ?_, rfl, ?_⟩
    · unfold V1.commit V1.dispatch
      rw [if_pos hbuildable, hresponses]
    · rcases hr with ⟨hnone, error, rfl⟩ | ⟨status, body, q, rfl, hstatus, hname, hq, rfl⟩
      · refine ⟨V1.recordable_noFill _ _, ?_⟩
        show Reports _ (lotsSold outcome) _
        rw [lotsSold_of_unanswered hnone]
        exact reports_noFill _ _
      · refine ⟨V1.recordable_reply _ hname hq, ?_⟩
        obtain ⟨b, hb, hsells⟩ := hreply.resolve_left hstatus
        cases hb
        have hlots : lotsSold (.reply status (some body)) = slotLots (singleSlot body) :=
          if_neg hstatus
        have hreports := hsells.reports leg.side hq
        rw [← hlots] at hreports
        exact hreports

end Responses

/-! ### What a sale changes -/

section Recording

variable {s entry : LedgerState} {d : Which} {sent : List FlattenOrder}

/-- Exactly one leg is held. -/
structure Single (entry : LedgerState) (d : Which) : Prop where
  held : 0 < entry.net d
  other : entry.net d.other ≤ 0

/-- Two legs of which one is held are two positions. -/
theorem Single.legKey_ne (h : Single entry d) {key : String × Side}
    (hkey : entry.legKey d = some key) : entry.legKey d.other ≠ some key := by
  intro hother
  have hd := V1.net_eq_positionAt hkey
  have ho := V1.net_eq_positionAt hother
  have := h.held
  have := h.other
  linarith

/-- A ledger that follows an entry and the sales of one of its legs. -/
structure Follows (entry : LedgerState) (d : Which) (sold : ℚ) (s : LedgerState) : Prop where
  legKey : ∀ which, s.legKey which = entry.legKey which
  net : s.net d = entry.net d - sold
  other : s.net d.other = entry.net d.other

/-- A response changes no leg key. -/
theorem legKey_recordResponse (s : LedgerState) (r : OrderResponse) (which : Which) :
    (recordResponse s r).legKey which = s.legKey which := by
  obtain ⟨hticker, hside, -⟩ := V1.recordResponse_frame s r
  unfold LedgerState.legKey
  rw [hticker, hside]

/-- An intent that is no entry changes no leg key. -/
theorem legKey_recordIntent {intent : Intent} (s : LedgerState) (h : intent.purpose ≠ .entry)
    (which : Which) : (recordIntent s intent).legKey which = s.legKey which := by
  obtain ⟨hticker, hside⟩ := V1.recordIntent_frame s intent h
  unfold LedgerState.legKey
  rw [hticker, hside]

/-- The fill that the response to a sale records. -/
theorem fillOf_sale {intent : Intent} {leg : IntentLeg} {lots : ℚ} {r : OrderResponse}
    (s : LedgerState) (hlegs : intent.legs = [leg]) (haction : leg.action = .sell)
    (hr : Reports leg.clientOrderId lots r) :
    (lots = 0 ∧ V1.fillOf (recordIntent s intent) r = none) ∨
      ∃ f, V1.fillOf (recordIntent s intent) r = some f ∧ f.key = (leg.ticker, leg.side) ∧
        f.lots = -lots := by
  rcases hr.nonneg.eq_or_lt with hzero | hpos
  · left
    refine ⟨hzero.symm, ?_⟩
    unfold V1.fillOf
    cases V1.legOf (recordIntent s intent) r with
    | none => rfl
    | some leg' => exact if_pos (Or.inl (hr.fillCount.trans hzero.symm).le)
  · right
    obtain ⟨price, hprice⟩ := Option.isSome_iff_exists.mp (hr.price hpos)
    have hleg : V1.legOf (recordIntent s intent) r = some leg := by
      have hset : (recordIntent s intent).cidToLeg = s.cidToLeg.set leg.clientOrderId leg := by
        unfold recordIntent
        dsimp only
        rw [hlegs]
        rfl
      unfold V1.legOf
      rw [hr.name hpos, Option.bind_some, hset, Dict.get?_set, if_pos rfl]
    have hfilled : ¬(r.fillCount ≤ 0 ∨ leg.action = .other) := by
      rw [hr.fillCount, haction, not_or]
      exact ⟨not_le.mpr hpos, by decide⟩
    refine ⟨⟨leg.ticker, leg.side, leg.action, r.fillCount, price, V1.feeOf r⟩, ?_, rfl, ?_⟩
    · unfold V1.fillOf
      rw [hleg, Option.bind_some, if_neg hfilled, hprice]
      rfl
    · unfold V1.Fill.lots
      rw [haction, ← hr.fillCount]

/-- The response to a sale takes the lots sold off its leg alone. -/
theorem Follows.sale {intent : Intent} {leg : IntentLeg} {sold lots : ℚ} {r : OrderResponse}
    (h : Follows entry d sold s) (hsingle : Single entry d)
    (hkey : entry.legKey d = some (leg.ticker, leg.side)) (hpurpose : intent.purpose = .flatten)
    (hlegs : intent.legs = [leg]) (haction : leg.action = .sell)
    (hr : Reports leg.clientOrderId lots r) :
    Follows entry d (sold + lots) (recordResponse (recordIntent s intent) r) := by
  have hentry : intent.purpose ≠ .entry := by
    rw [hpurpose]
    decide
  have hlegKey (which : Which) :
      (recordResponse (recordIntent s intent) r).legKey which = entry.legKey which := by
    rw [legKey_recordResponse, legKey_recordIntent s hentry, h.legKey]
  have hposition (key : String × Side) :
      (positionAt (recordResponse (recordIntent s intent) r) key).net =
        (positionAt s key).net - if key = (leg.ticker, leg.side) then lots else 0 := by
    have hrecord := V1.positionAt_record (recordIntent s intent) (.response r) key
    change positionAt (recordResponse (recordIntent s intent) r) key = _ at hrecord
    have hfillAt : V1.fillAt (recordIntent s intent) (.response r) =
        V1.fillOf (recordIntent s intent) r := rfl
    rw [hrecord, V1.positionAt_recordIntent, hfillAt]
    rcases fillOf_sale s hlegs haction hr with ⟨rfl, hfill⟩ | ⟨f, hfill, hfkey, hlots⟩
    · rw [hfill]
      simp
    · rw [hfill, Option.filter_some, hfkey]
      by_cases heq : key = (leg.ticker, leg.side)
      · rw [if_pos heq, heq]
        simp [V1.LegPosition.net_add, hlots, sub_eq_add_neg]
      · rw [if_neg heq]
        simp [Ne.symm heq]
  refine ⟨hlegKey, ?_, ?_⟩
  · have hnow := V1.net_eq_positionAt ((hlegKey d).trans hkey)
    have hbefore := V1.net_eq_positionAt ((h.legKey d).trans hkey)
    rw [hnow, hposition, if_pos rfl, ← hbefore, h.net]
    ring
  · cases hother : entry.legKey d.other with
    | none =>
      have hnone (s : LedgerState) (hs : s.legKey d.other = none) : s.net d.other = 0 := by
        unfold LedgerState.net LedgerState.position
        rw [hs]
        rfl
      rw [hnone _ ((hlegKey _).trans hother), hnone entry hother]
    | some key =>
      have hne : key ≠ (leg.ticker, leg.side) := by
        rintro rfl
        exact hsingle.legKey_ne hkey hother
      have hnow := V1.net_eq_positionAt ((hlegKey d.other).trans hother)
      have hbefore := V1.net_eq_positionAt ((h.legKey d.other).trans hother)
      rw [hnow, hposition, if_neg hne, sub_zero, ← hbefore, h.other]

end Recording

/-! ### Attempts -/

section Attempts

variable {g : BoxWindow} {entry ledger : LedgerState} {d : Which} {w w' : BoxService}
  {pf : PendingFlatten} {m : Moment} {tMinusS serverTs : ℚ}

/-- An order for the whole lots of the entry, on a ledger without what was sold before it. -/
structure WholeEntry (entry : LedgerState) (d : Which) (sold : ℚ) (o : FlattenOrder) : Prop where
  which : o.which = d
  count : o.count = truncInt (entry.net d)
  held : o.ledger.net d = entry.net d - sold

/-- The record of a flatten that has sent some orders and has attempts left. -/
structure PendingOf (entry : LedgerState) (d : Which) (sent : List FlattenOrder)
    (pf : PendingFlatten) : Prop where
  single : Single entry d
  which : pf.which = d
  key : entry.legKey d = some (pf.ticker, pf.side)
  count : pf.count = truncInt (entry.net d)
  attempts : pf.attempts = sent.length
  left : sent.length < flattenMaxAttempts
  lastTs : ∀ o ∈ sent, ∃ ts, pf.lastTs = some ts ∧ o.serverTs ≤ ts

/-- A service that flattens a leg of an entry, or has nothing left to do. -/
structure Flattening (g : BoxWindow) (entry : LedgerState) (d : Which) (w : BoxService) :
    Prop where
  ledger : ∃ s, w.ledger = some s ∧ Follows entry d (w.sent.foldl soldAfter 0) s
  bounded : w.sent.length ≤ flattenMaxAttempts
  later : w.sent.Pairwise fun a b => a.serverTs < b.serverTs
  beforeCutoff : ∀ o ∈ w.sent, (g.boxPolicy.noOrdersAfterSToSettle : ℚ) ≤ o.tMinusS
  orders : AllAlong soldAfter (WholeEntry entry d) 0 w.sent
  pending : ∀ pf, w.pending = some pf → PendingOf entry d w.sent pf

/-- A service that sends nothing goes on as it was, or ends its flatten. -/
theorem Flattening.idle (h : Flattening g entry d w) (hledger : w'.ledger = w.ledger)
    (hsent : w'.sent = w.sent) (hpending : w'.pending = none ∨ w'.pending = w.pending) :
    Flattening g entry d w' where
  ledger := by
    rw [hledger, hsent]
    exact h.ledger
  bounded := by
    rw [hsent]
    exact h.bounded
  later := by
    rw [hsent]
    exact h.later
  beforeCutoff := by
    rw [hsent]
    exact h.beforeCutoff
  orders := by
    rw [hsent]
    exact h.orders
  pending := by
    intro pf hpf
    rw [hsent]
    rcases hpending with hnone | hsame
    · rw [hnone] at hpf
      cases hpf
    · exact h.pending pf (hsame ▸ hpf)

/-- After an attempt the flatten is over, or its record counts the attempt and its frame. -/
theorem afterAttempt_cases (w : BoxService) (ledger : LedgerState) (pf : PendingFlatten)
    (serverTs bid : ℚ) :
    (afterAttempt w ledger pf serverTs bid).ledger = w.ledger ∧
      (afterAttempt w ledger pf serverTs bid).sent = w.sent ∧
      ((afterAttempt w ledger pf serverTs bid).pending = none ∨
        pf.attempts + 1 < flattenMaxAttempts ∧
          (afterAttempt w ledger pf serverTs bid).pending =
            some { pf with attempts := pf.attempts + 1, lastTs := some serverTs }) := by
  unfold afterAttempt
  dsimp only
  split_ifs with hflat hmax
  · exact ⟨rfl, rfl, Or.inl rfl⟩
  · exact ⟨rfl, rfl, Or.inl rfl⟩
  · exact ⟨rfl, rfl, Or.inr ⟨not_le.mp hmax, rfl⟩⟩

/-- The order of an attempt. -/
def orderOf (ledger : LedgerState) (pf : PendingFlatten) (tMinusS serverTs bid : ℚ) (m : Moment)
    (refused : Option Refusal) : FlattenOrder :=
  ⟨ledger, pf.which, pf.count, bid, tMinusS, serverTs, refused, m.outcome⟩

/-- The intent of an attempt. -/
def intentOf (g : BoxWindow) (pf : PendingFlatten) (bid : ℚ) (m : Moment) : Intent :=
  buildFlattenIntent pf.ticker pf.side pf.count g.closeTime .wideBox bid m.clientOrderId
    (g.exchangeIndex pf.ticker)

/-- An attempt sends one order and records its response. -/
theorem sendFlatten_spec (g : BoxWindow) (w : BoxService) (ledger : LedgerState)
    (pf : PendingFlatten) (tMinusS serverTs bid : ℚ)
    (hreply : SaleReply m.clientOrderId m.outcome) :
    ∃ x refused r,
      Reports m.clientOrderId (orderOf ledger pf tMinusS serverTs bid m refused).sold r ∧
      sendFlatten g w ledger pf tMinusS serverTs bid m =
        afterAttempt
          { w with
            executor := x
            sent := w.sent ++ [orderOf ledger pf tMinusS serverTs bid m refused]
            ledger := some (recordResponse (recordIntent ledger (intentOf g pf bid m)) r) }
          (recordResponse (recordIntent ledger (intentOf g pf bid m)) r) pf serverTs bid := by
  obtain ⟨result, r, hresult, hresponses, hrecordable, hr⟩ :=
    execute_sale { w.executor with
      config := { w.executor.config with windowTokenBudget := flattenExemptBudget } }
      (intentOf g pf bid m) (some tMinusS) rfl rfl hreply
  obtain ⟨x, hdone⟩ : ∃ x, harnessExecute w.executor (intentOf g pf bid m) (some tMinusS) true
      m.outcome = (x, some result) := by
    unfold harnessExecute
    rw [if_pos ⟨rfl, rfl⟩]
    exact ⟨_, Prod.ext rfl hresult⟩
  refine ⟨x, result.refused, r, hr, ?_⟩
  unfold intentOf at hdone
  unfold sendFlatten
  dsimp only
  rw [hdone]
  dsimp only
  rw [hresponses]
  simp [hrecordable, orderOf, intentOf]

/-- An attempt on a later frame, outside the cutoff, goes on as the law asks. -/
theorem Flattening.send (h : Flattening g entry d w) (hledger : w.ledger = some ledger)
    (hpf : w.pending = some pf) (hcutoff : (g.boxPolicy.noOrdersAfterSToSettle : ℚ) ≤ tMinusS)
    (hlater : ∀ o ∈ w.sent, o.serverTs < serverTs) (bid : ℚ)
    (hreply : SaleReply m.clientOrderId m.outcome) :
    Flattening g entry d (sendFlatten g w ledger pf tMinusS serverTs bid m) := by
  obtain ⟨s, hs, hfollows⟩ := h.ledger
  cases hledger.symm.trans hs
  have hpending := h.pending pf hpf
  obtain ⟨x, refused, r, hr, hsent⟩ := sendFlatten_spec g w ledger pf tMinusS serverTs bid hreply
  rw [hsent]
  have hsale : Follows entry d _ (recordResponse (recordIntent ledger (intentOf g pf bid m)) r) :=
    hfollows.sale hpending.single hpending.key rfl rfl rfl hr
  generalize ho : orderOf ledger pf tMinusS serverTs bid m refused = o at hsale
  generalize recordResponse (recordIntent ledger (intentOf g pf bid m)) r = s' at hsale
  obtain ⟨hledger', hsent', hnext⟩ := afterAttempt_cases
    { w with executor := x, sent := w.sent ++ [o], ledger := some s' } s' pf serverTs bid
  have hwhole : WholeEntry entry d (w.sent.foldl soldAfter 0) o := by
    rw [← ho]
    exact ⟨hpending.which, hpending.count, hfollows.net⟩
  have hlength : (w.sent ++ [o]).length = w.sent.length + 1 := List.length_append
  have hleft := hpending.left
  constructor
  · rw [hledger', hsent']
    refine ⟨s', rfl, ?_⟩
    rw [List.foldl_append]
    exact hsale
  · rw [hsent', hlength]
    omega
  · rw [hsent']
    apply List.pairwise_append.mpr
    refine ⟨h.later, List.pairwise_singleton _ _, ?_⟩
    intro a ha b hb
    rw [List.mem_singleton.mp hb, ← ho]
    exact hlater a ha
  · rw [hsent']
    intro a ha
    rcases List.mem_append.mp ha with ha | ha
    · exact h.beforeCutoff a ha
    · rw [List.mem_singleton.mp ha, ← ho]
      exact hcutoff
  · rw [hsent']
    exact allAlong_append.mpr ⟨h.orders, hwhole, trivial⟩
  · intro pf' hpf'
    rcases hnext with hnone | ⟨hmore, hsome⟩
    · rw [hnone] at hpf'
      cases hpf'
    · rw [hsome] at hpf'
      cases hpf'
      rw [hsent']
      have hattempts := hpending.attempts
      refine ⟨hpending.single, hpending.which, hpending.key, hpending.count, ?_, ?_, ?_⟩
      · rw [hlength, ← hattempts]
      · rw [hlength, ← hattempts]
        exact hmore
      · intro a ha
        refine ⟨serverTs, rfl, ?_⟩
        rcases List.mem_append.mp ha with ha | ha
        · exact (hlater a ha).le
        · rw [List.mem_singleton.mp ha, ← ho]
          exact le_rfl

/-- What an attempt keeps. -/
theorem Flattening.attempt (h : Flattening g entry d w)
    (hlater : ∀ o ∈ w.sent, o.serverTs < serverTs) (hreply : SaleReply m.clientOrderId m.outcome) :
    Flattening g entry d (boxFlattenAttempt g w tMinusS serverTs m) := by
  obtain ⟨s, hs, -⟩ := h.ledger
  unfold boxFlattenAttempt
  cases hpf : w.pending with
  | none => exact h
  | some pf =>
    rw [hs]
    dsimp only
    split_ifs with hflat hcutoff
    · exact h.idle hs.symm rfl (Or.inl rfl)
    · exact h.idle hs.symm rfl (Or.inl rfl)
    · cases boxLegBid m.books pf.ticker pf.side with
      | none => exact h.idle hs.symm rfl (Or.inl rfl)
      | some bid => exact h.send hs hpf (not_lt.mp hcutoff) hlater bid hreply

/-- What an input keeps. -/
theorem Flattening.step (h : Flattening g entry d w) {input : BoxInput} (hreply : input.Replied) :
    Flattening g entry d (boxStep g w input) := by
  cases input with
  | disarm => exact h.idle rfl rfl (Or.inr rfl)
  | bookEvent market serverTs m =>
    unfold boxStep boxOnBookEvent
    dsimp only
    cases hpf : w.pending with
    | none => exact h
    | some pf =>
      dsimp only
      split_ifs with hstale hdue
      · exact h
      · apply h.attempt _ hreply
        intro o ho
        obtain ⟨ts, hts, hle⟩ := (h.pending pf hpf).lastTs o ho
        unfold staleFrame at hstale
        rw [hts, Option.any_some, decide_eq_true_iff, not_le] at hstale
        exact hle.trans_lt hstale
      · exact h

/-- What a run keeps. -/
theorem Flattening.run (h : Flattening g entry d w) {inputs : List BoxInput}
    (hreplies : ∀ input ∈ inputs, input.Replied) :
    Flattening g entry d (inputs.foldl (boxStep g) w) := by
  have hfed : Fed (boxStep g) (fun _ input => input.Replied) w inputs
      (inputs.foldl (boxStep g) w) :=
    fed_of_allAlong (allAlong_of_forall fun input hinput _ => hreplies input hinput)
  exact hfed.preserves (fun w input hw hinput => hw.step hinput) h

/-! ### The entry -/

/-- Responses leave the positions under their keys. -/
theorem keyed_responses (rs : List OrderResponse) (h : Keyed ledger) :
    Keyed (rs.foldl recordResponse ledger) := by
  induction rs generalizing ledger with
  | nil => exact h
  | cons r rs ih => exact ih (h.record (.response r))

/-- An entry leaves its ledger, each position under its own key, and begins no flatten. -/
theorem sendEntry_spec {action : BoxAction} {e : EntryMoment}
    (h : (sendEntry g w action e).2 = some entry) :
    Keyed entry ∧ (sendEntry g w action e).1.ledger = some entry ∧
      (sendEntry g w action e).1.sent = w.sent ∧
      (sendEntry g w action e).1.pending = w.pending := by
  unfold sendEntry at h ⊢
  cases htickers : boxTickers g action with
  | none =>
    rw [htickers] at h
    cases h
  | some tickers =>
    rw [htickers] at h
    dsimp only at h ⊢
    split at h
    · cases h
    · split_ifs at h with hrecordable
      cases h
      rw [if_pos hrecordable]
      refine ⟨keyed_responses _ ?_, rfl, rfl, rfl⟩
      intro key pos hpos
      cases hpos

/-- The position of a leg is stored under the key of the leg. -/
theorem key_of_position (hkeyed : Keyed entry) {pos : V1.LegPosition}
    (hpos : entry.position d = some pos) :
    entry.legKey d = some (pos.ticker, pos.side) ∧ entry.net d = pos.net := by
  constructor
  · obtain ⟨key, hkey, hget⟩ := Option.bind_eq_some_iff.mp hpos
    rw [hkeyed key pos hget]
    exact hkey
  · unfold LedgerState.net
    rw [hpos]
    rfl

/-- A service right after its entry, with no order of a flatten. -/
theorem flattening_of_entry (d : Which) (hledger : w.ledger = some entry) (hsent : w.sent = [])
    (hpending : ∀ pf, w.pending = some pf → PendingOf entry d [] pf) : Flattening g entry d w where
  ledger := by
    rw [hsent]
    exact ⟨entry, hledger, fun _ => rfl, (sub_zero _).symm, rfl⟩
  bounded := by
    rw [hsent]
    exact Nat.zero_le _
  later := by
    rw [hsent]
    exact List.Pairwise.nil
  beforeCutoff := by
    rw [hsent]
    simp
  orders := by
    rw [hsent]
    trivial
  pending := by
    rw [hsent]
    exact hpending

/-- What follows the entry. -/
theorem flattening_postEntry (hkeyed : Keyed entry) (hledger : w.ledger = some entry)
    (hsent : w.sent = []) (hpending : w.pending = none)
    (hreply : SaleReply m.clientOrderId m.outcome) :
    ∃ d, Flattening g entry d (boxPostEntry g w entry tMinusS m) := by
  have hidle (w' : BoxService) (hledger' : w'.ledger = w.ledger) (hsent' : w'.sent = w.sent)
      (hpending' : w'.pending = w.pending) (d : Which) : Flattening g entry d w' := by
    apply flattening_of_entry d (hledger'.trans hledger) (hsent'.trans hsent)
    intro pf hpf
    rw [hpending', hpending] at hpf
    cases hpf
  unfold boxPostEntry
  dsimp only
  split_ifs with hboth hone
  · refine ⟨.high, ?_⟩
    apply hidle <;> rfl
  · generalize hd : (if 0 < entry.net .high then Which.high else Which.low) = d
    have hsingle : Single entry d := by
      by_cases hhigh : 0 < entry.net .high
      · rw [if_pos hhigh] at hd
        rw [← hd]
        exact ⟨hhigh, not_lt.mp fun hlow => hboth ⟨hhigh, hlow⟩⟩
      · rw [if_neg hhigh] at hd
        rw [← hd]
        exact ⟨hone.resolve_left hhigh, not_lt.mp hhigh⟩
    refine ⟨d, ?_⟩
    unfold boxBeginFlatten
    dsimp only
    rw [hd]
    cases hpos : entry.position d with
    | none => apply hidle <;> rfl
    | some pos =>
      dsimp only
      split_ifs with hflat
      · apply hidle <;> rfl
      · obtain ⟨hkey, hnet⟩ := key_of_position hkeyed hpos
        apply Flattening.attempt
        · apply flattening_of_entry d
          · exact hledger
          · exact hsent
          · intro pf hpf
            cases hpf
            exact ⟨hsingle, rfl, hkey, by rw [hnet], rfl, by decide, by simp⟩
        · rw [hsent]
          simp
        · exact hreply
  · refine ⟨.high, ?_⟩
    apply hidle <;> rfl

/-! ### The end of a run -/

variable {sent : List FlattenOrder}

/-- Every order of a whole sale is of its leg. -/
theorem which_of_orders {sold : ℚ} (h : AllAlong soldAfter (WholeEntry entry d) sold sent) :
    ∀ o ∈ sent, o.which = d :=
  forall_of_allAlong (h.imp fun _ _ _ ho => ho.which)

/-- The lots sold are the sum over the orders. -/
theorem foldl_soldAfter (sent : List FlattenOrder) (sold : ℚ) :
    sent.foldl soldAfter sold = sold + (sent.map FlattenOrder.sold).sum := by
  induction sent generalizing sold with
  | nil => exact (add_zero sold).symm
  | cons o sent ih =>
    rw [List.foldl_cons, ih, List.map_cons, List.sum_cons]
    exact add_assoc sold o.sold _

/-- The sales of the leg flattened are all the sales. -/
theorem soldOf_orders (h : ∀ o ∈ sent, o.which = d) (which : Which) :
    soldOf sent which = if which = d then sent.foldl soldAfter 0 else 0 := by
  unfold soldOf
  split_ifs with heq
  · have hall : (sent.filter fun o => o.which = which) = sent := by
      apply List.filter_eq_self.mpr
      intro o ho
      rw [h o ho, heq]
      exact decide_eq_true rfl
    rw [hall, foldl_soldAfter, zero_add]
  · have hnone : (sent.filter fun o => o.which = which) = [] := by
      apply List.filter_eq_nil_iff.mpr
      intro o ho
      rw [h o ho, decide_eq_true_iff]
      exact Ne.symm heq
    rw [hnone]
    rfl

/-- What is held covers every order exactly when no order follows the sale of a part. -/
theorem covered_iff {sold : ℚ} (h : AllAlong soldAfter (WholeEntry entry d) sold sent) :
    (∀ o ∈ sent, (o.count : ℚ) ≤ o.ledger.net o.which) ↔
      AllAlong soldAfter (fun sold o => sold ≤ fraction (entry.net o.which)) sold sent := by
  induction sent generalizing sold with
  | nil => simp
  | cons o sent ih =>
    rw [List.forall_mem_cons, allAlong_cons, ih h.2]
    apply and_congr_left'
    obtain ⟨hwhich, hcount, hheld⟩ := h.1
    rw [hwhich, hcount, hheld]
    unfold fraction
    constructor
    · intro hle
      linarith
    · intro hle
      linarith

/-- The ledger of a flatten counts the lots sold. -/
theorem Flattening.conserved (h : Flattening g entry d w) : ∃ s, w.ledger = some s ∧
    ∀ which, s.net which = entry.net which - soldOf w.sent which := by
  obtain ⟨s, hs, hfollows⟩ := h.ledger
  refine ⟨s, hs, fun which => ?_⟩
  rw [soldOf_orders (which_of_orders h.orders)]
  by_cases heq : which = d
  · rw [if_pos heq, heq]
    exact hfollows.net
  · rw [if_neg heq, sub_zero]
    have hother : which = d.other := by
      revert heq
      cases which <;> cases d <;> decide
    rw [hother]
    exact hfollows.other

/-- A flatten after an entry keeps within its bounds, and covers every order exactly when no attempt
follows the sale of a part. -/
theorem flatten_law (g : BoxWindow) (executor : Executor) (action : BoxAction) (e : EntryMoment)
    (m : Moment) (inputs : List BoxInput) (hfire : action.kind = .fire)
    (hentry : (sendEntry g (.new true executor) action e).2 = some entry)
    (hfirst : SaleReply m.clientOrderId m.outcome) (hreplies : ∀ input ∈ inputs, input.Replied) :
    FlattenBounds g entry (flattenRun g executor action e m inputs) ∧
      (FlattenLaw g entry (flattenRun g executor action e m inputs) ↔
        NoneAfterPartial entry (flattenRun g executor action e m inputs).sent) := by
  obtain ⟨hkeyed, hledger, hsent, hpending⟩ := sendEntry_spec hentry
  obtain ⟨d, hstart⟩ : ∃ d, Flattening g entry d
      (onBoxAction g (.new true executor) action e m) := by
    have hact : onBoxAction g (.new true executor) action e m =
        boxPostEntry g (sendEntry g (.new true executor) action e).1 entry action.tMinusS m := by
      unfold onBoxAction
      rw [if_neg (by simp [hfire, BoxService.new])]
      generalize sendEntry g (.new true executor) action e = done at hentry
      obtain ⟨w, ledger⟩ := done
      cases hentry
      rfl
    rw [hact]
    exact flattening_postEntry hkeyed hledger hsent hpending hfirst
  have hend : Flattening g entry d (flattenRun g executor action e m inputs) := hstart.run hreplies
  generalize flattenRun g executor action e m inputs = w at hend
  have hbounds : FlattenBounds g entry w :=
    ⟨hend.bounded, hend.later, hend.beforeCutoff, hend.conserved⟩
  have hcovered := covered_iff hend.orders
  refine ⟨hbounds, ?_, ?_⟩
  · intro hlaw
    exact hcovered.mp hlaw.covered
  · intro hnone
    exact ⟨hbounds, hcovered.mpr hnone⟩

end Attempts

/-! ### Sample runs -/

/-- The window of the roster. -/
def sampleWindow : BoxWindow where
  closeTime := "2026-08-24T05:00:00Z"
  boxState := .new 1000 66000 "KXBTC15M-A" (.ofList [("KXBTCD-K", 65000)]) false
  boxPolicy := ⟨19 / 20, 9 / 10, 99 / 100, 17 / 20, 1 / 10, 3 / 100, 600, 60, 1, 1, 1, 4 / 5⟩
  exchangeIndex := fun _ => some 2

/-- The decision to fire for some lots on each leg. -/
def sampleFire (lots : ℕ) : BoxAction where
  kind := .fire
  legs := [⟨"KXBTCD-K", .yes, lots, 97 / 100⟩, ⟨"KXBTC15M-A", .no, lots, 89 / 100⟩]
  count := lots
  tMinusS := 300

/-- A slot that reports lots filled at a price. -/
def sampleSlot (cid : String) (lots price : ℚ) : Json :=
  .object [("client_order_id", .text cid), ("fill_count", .number lots),
    ("average_fill_price", .number price)]

/-- An entry whose hourly leg alone fills. -/
def sampleEntry (lots : ℕ) : EntryMoment where
  clientOrderId := fun i => if i = 0 then "cid-hourly" else "cid-m15"
  outcome := .reply (some 200) (some (.object [("orders", .array
    [sampleSlot "cid-hourly" lots (47 / 50), sampleSlot "cid-m15" 0 0])]))

/-- A moment with a bid for the hourly leg, and a reply that sells some lots. -/
def sampleMoment (cid : String) (lots : ℚ) : Moment where
  books := .ofList [("KXBTCD-K", ⟨some (93 / 100), some (95 / 100), none, none, false⟩)]
  clientOrderId := cid
  outcome := .reply (some 200) (some (sampleSlot cid lots (93 / 100)))

/-- A first attempt that sells some lots, and a later frame whose attempt sells others. -/
def sampleRun (lots : ℕ) (first second : ℚ) : BoxService :=
  flattenRun sampleWindow (.new {} true) (sampleFire lots) (sampleEntry lots)
    (sampleMoment "cid-first" first)
    [.bookEvent "KXBTCD-K" 701 (sampleMoment "cid-second" second)]

/-- The ledger of the sample entry. -/
def sampleLedger (lots : ℕ) : LedgerState :=
  (sendEntry sampleWindow (.new true (.new {} true)) (sampleFire lots) (sampleEntry lots)).2.getD
    (newLedger "" .wideBox "" "")

/-- The reply of the sample is one to a sale. -/
theorem saleReply_sampleMoment (cid : String) (hcid : cid ≠ "") {lots : ℚ} (hlots : 0 ≤ lots) :
    SaleReply (sampleMoment cid lots).clientOrderId (sampleMoment cid lots).outcome := by
  refine Or.inr ⟨_, rfl, by simp [TimeReadable, singleSlot, sampleSlot, Json.field], Or.inr rfl, ?_⟩
  rcases hlots.eq_or_lt with hzero | hpos
  · exact Or.inl hzero.symm
  · refine Or.inr ⟨hpos, ?_, rfl⟩
    exact if_pos (decide_eq_true hcid)

/-- Two lots, missed by the first attempt and sold by the second. -/
theorem flatten_law_sample : FlattenBounds sampleWindow (sampleLedger 2) (sampleRun 2 0 2) ∧
    (FlattenLaw sampleWindow (sampleLedger 2) (sampleRun 2 0 2) ↔
      NoneAfterPartial (sampleLedger 2) (sampleRun 2 0 2).sent) := by
  apply flatten_law
  · rfl
  · have hsome : (sendEntry sampleWindow (.new true (.new {} true)) (sampleFire 2)
        (sampleEntry 2)).2.isSome := by decide +kernel
    obtain ⟨entry, hentry⟩ := Option.isSome_iff_exists.mp hsome
    unfold sampleLedger
    rw [hentry]
    rfl
  · exact saleReply_sampleMoment _ (by decide) le_rfl
  · intro input hinput
    rw [List.mem_singleton.mp hinput]
    exact saleReply_sampleMoment _ (by decide) zero_le_two

/-- After half a lot is sold the next order is for the whole lot, and after one of two lots is sold
it is for both. -/
theorem flatten_oversells : ¬FlattenLaw sampleWindow (sampleLedger 1) (sampleRun 1 (1 / 2) 0) ∧
    ¬FlattenLaw sampleWindow (sampleLedger 2) (sampleRun 2 1 0) := by
  have hover {lots : ℕ} {first : ℚ} (orders : List (ℤ × ℚ))
      (hsent : (sampleRun lots first 0).sent.map
        (fun o => (o.count, o.ledger.net o.which)) = orders)
      (horder : ∃ o ∈ orders, o.2 < o.1) :
      ¬FlattenLaw sampleWindow (sampleLedger lots) (sampleRun lots first 0) := by
    intro hlaw
    obtain ⟨pair, hpair, hless⟩ := horder
    rw [← hsent] at hpair
    obtain ⟨o, ho, rfl⟩ := List.mem_map.mp hpair
    exact absurd (hlaw.covered o ho) (not_le.mpr hless)
  constructor
  · exact hover [(1, 1), (1, 1 / 2)] (by decide +kernel) ⟨(1, 1 / 2), by simp, by norm_num⟩
  · exact hover [(2, 2), (2, 1)] (by decide +kernel) ⟨(2, 1), by simp, by norm_num⟩

end Pilot.Box
