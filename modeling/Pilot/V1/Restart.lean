import Pilot.V1.DecimalText
import Pilot.V1.Executor

/-!
# Restarting from the journal

The executor journals every intent and every response, and after a crash the ledger is rebuilt
from those records. Prices of older records are still those of the venue, and are turned to the
side of their leg on the way. The rebuilt ledger holds the positions of the one that was lost.
-/

namespace Pilot.V1

/-! ### Reading records -/

/-- The object has the field, be it null. -/
def Json.hasField (v : Json) (key : String) : Bool :=
  match v with
  | .object fields => fields.any fun f => f.1 == key
  | _ => false

/-- A decimal of a record, if it is there; what is no decimal raises. -/
def decimalField (v : Json) : Option (Option ℚ) :=
  match v with
  | .null => some none
  | .text s => (decimalOfText s).map some
  | .number x => some (some x)
  | _ => none

/-- A truth value of a record, if it is there. -/
def boolField (v : Json) : Option Bool :=
  match v with
  | .bool b => some b
  | _ => none

/-- A number of a record, if it is there. -/
def numberField (v : Json) : Option ℚ :=
  match v with
  | .number x => some x
  | _ => none

/-- The word of a side. -/
def Side.ofWord (s : String) : Option Side :=
  if s = "yes" then some .yes else if s = "no" then some .no else none

/-- What a leg does, from its word. -/
def Action.ofWord (s : String) : Action :=
  if s = "buy" then .buy else if s = "sell" then .sell else .other

/-- Why an order is sent, from its word. -/
def Purpose.ofWord (s : String) : Option Purpose :=
  if s = "entry" then some .entry
  else if s = "rebalance-buy" then some .rebalanceBuy
  else if s = "rebalance-sell" then some .rebalanceSell
  else if s = "flatten" then some .flatten
  else none

/-- What fired an entry, from its word. -/
def Source.ofWord (s : String) : Option Source :=
  if s = "sub$1-flip" then some .subDollarFlip
  else if s = "Q1-strangle" then some .q1Strangle
  else if s = "wide-box" then some .wideBox
  else none

/-- The leg of a record. -/
def legFromRecord (d : Json) : Option IntentLeg := do
  let ticker ← (d.field "ticker").text?
  let side ← (d.field "side").text?.bind Side.ofWord
  let action ← (d.field "action").text?
  let count ← (toInt (d.field "count")).join
  let limitPrice ← (decimalField (d.field "limit_price")).join
  let clientOrderId ← (d.field "client_order_id").text?
  return { ticker, side, action := Action.ofWord action, count, limitPrice, clientOrderId,
           reduceOnly := boolField (d.field "reduce_only"),
           exchangeIndex := (toInt (d.field "exchange_index")).join }

/-- The order of a record. -/
def intentFromRecord (d : Json) : Option Intent := do
  let window ← (d.field "window").text?
  let source ← (d.field "source").text?.bind Source.ofWord
  let purpose ← (d.field "purpose").text?.bind Purpose.ofWord
  let legs ← match d.field "legs" with
    | .array items => items.mapM legFromRecord
    | _ => none
  return { window, source, purpose, legs, tMinusS := numberField (d.field "t_minus_s") }

/-- The response of a record. -/
def responseFromRecord (d : Json) : Option OrderResponse := do
  let fillCount ← decimalField (d.field "fill_count")
  let remainingCount ← decimalField (d.field "remaining_count")
  let averageFillPrice ← decimalField (d.field "average_fill_price")
  let averageFeePaid ← decimalField (d.field "average_fee_paid")
  let rawReportedPrice ← decimalField (d.field "raw_reported_price")
  let error := d.field "error"
  return { clientOrderId := d.field "client_order_id", orderId := d.field "order_id",
           fillCount := fillCount.getD 0, remainingCount := remainingCount.getD 0,
           averageFillPrice, averageFeePaid, tsMs := (toInt (d.field "ts_ms")).join,
           rawReportedPrice, error := if error.truthy then some (.reported error) else none,
           noFill := (d.field "no_fill").truthy }

/-! ### The rebuild -/

/-- A record of the journal. -/
structure JournalRecord where
  kind : String
  obj : Json

/-- A response whose record has no reported price carries the venue's price; it is turned to the
side of the leg it was sent for. -/
def migrate (s : LedgerState) (obj : Json) (resp : OrderResponse) : OrderResponse :=
  if obj.hasField "raw_reported_price" ∨ resp.averageFillPrice.isNone then resp
  else
    match legOf s resp with
    | some leg =>
      normalizeFillToSide { resp with rawReportedPrice := resp.averageFillPrice } leg.side
    | none => resp

/-- Replay one record. -/
def replayRecord (s : LedgerState) (rec : JournalRecord) : Option LedgerState :=
  if rec.kind = "order_intent" then (intentFromRecord rec.obj).map (recordIntent s)
  else if rec.kind = "order_response" then
    (responseFromRecord rec.obj).map fun resp => recordResponse s (migrate s rec.obj resp)
  else some s

/-- The ledger rebuilt from a journal. -/
def rebuildFromJournal (records : List JournalRecord) (window : String) (source : Source)
    (highTicker lowTicker : String) : Option LedgerState :=
  records.foldlM replayRecord (newLedger window source highTicker lowTicker)

/-! ### Writing records -/

/-- The text of a decimal, in whatever notation it has. -/
def Writes (v : Json) (x : ℚ) : Prop := ∃ d : Decimal, d.value = x ∧ v = .text d.str

/-- The text of a decimal that may be absent. -/
def WritesOption (v : Json) (x : Option ℚ) : Prop := x.elim (v = .null) (Writes v)

/-- The record of a leg. -/
structure LegRecord (leg : IntentLeg) (d : Json) : Prop where
  ticker : d.field "ticker" = .text leg.ticker
  side : ∃ w, d.field "side" = .text w ∧ Side.ofWord w = some leg.side
  action : ∃ w, d.field "action" = .text w ∧ Action.ofWord w = leg.action
  count : d.field "count" = .number leg.count
  limitPrice : Writes (d.field "limit_price") leg.limitPrice
  clientOrderId : d.field "client_order_id" = .text leg.clientOrderId
  reduceOnly : d.field "reduce_only" = leg.reduceOnly.elim .null .bool
  exchangeIndex : d.field "exchange_index" = leg.exchangeIndex.elim .null fun n => .number n

/-- The record of an order. -/
structure IntentRecord (intent : Intent) (d : Json) : Prop where
  window : d.field "window" = .text intent.window
  source : ∃ w, d.field "source" = .text w ∧ Source.ofWord w = some intent.source
  purpose : ∃ w, d.field "purpose" = .text w ∧ Purpose.ofWord w = some intent.purpose
  tMinusS : d.field "t_minus_s" = intent.tMinusS.elim .null .number
  legs : ∃ items, d.field "legs" = .array items ∧ List.Forall₂ LegRecord intent.legs items

/-- What every record of a response holds. -/
structure ResponseFields (resp : OrderResponse) (d : Json) : Prop where
  clientOrderId : d.field "client_order_id" = resp.clientOrderId
  orderId : d.field "order_id" = resp.orderId
  fillCount : Writes (d.field "fill_count") resp.fillCount
  remainingCount : Writes (d.field "remaining_count") resp.remainingCount
  averageFillPrice : WritesOption (d.field "average_fill_price") resp.averageFillPrice
  averageFeePaid : WritesOption (d.field "average_fee_paid") resp.averageFeePaid

/-- The record of a response with the price the venue reported beside that of the side. -/
structure ResponseRecord (resp : OrderResponse) (d : Json) : Prop
    extends ResponseFields resp d where
  rawReportedPrice : WritesOption (d.field "raw_reported_price") resp.rawReportedPrice
  raw : d.hasField "raw_reported_price" = true

/-- An older record of a response as it was parsed: its price is the one the venue reported. -/
structure LegacyRecord (resp : OrderResponse) (d : Json) : Prop
    extends ResponseFields resp d where
  parsed : resp.rawReportedPrice = none ∨ resp.rawReportedPrice = resp.averageFillPrice
  noRaw : d.hasField "raw_reported_price" = false

/-- What happens to a ledger: an order, a response in the prices of its leg, or a response in
those of the venue, as the older records keep it. -/
inductive HistoryEvent where
  | intent (intent : Intent)
  | response (resp : OrderResponse)
  | legacy (raw : OrderResponse)

/-- The record written for an event. -/
inductive RecordOf : HistoryEvent → JournalRecord → Prop
  | intent {intent obj} : IntentRecord intent obj → RecordOf (.intent intent) ⟨"order_intent", obj⟩
  | response {resp obj} :
    ResponseRecord resp obj → RecordOf (.response resp) ⟨"order_response", obj⟩
  | legacy {raw obj} : LegacyRecord raw obj → RecordOf (.legacy raw) ⟨"order_response", obj⟩

/-- The journal of a history: the records of its events in order, between others. -/
inductive JournalOf : List HistoryEvent → List JournalRecord → Prop
  | nil : JournalOf [] []
  | record {e rec es recs} : RecordOf e rec → JournalOf es recs → JournalOf (e :: es) (rec :: recs)
  | other {rec es recs} : rec.kind ≠ "order_intent" → rec.kind ≠ "order_response" →
      JournalOf es recs → JournalOf es (rec :: recs)

/-- The response in the prices of the leg it was sent for. -/
def toLegSide (s : LedgerState) (raw : OrderResponse) : OrderResponse :=
  match legOf s raw with
  | some leg => normalizeFillToSide raw leg.side
  | none => raw

/-- The live ledger after an event. -/
def liveStep (s : LedgerState) : HistoryEvent → LedgerState
  | .intent intent => recordIntent s intent
  | .response resp => recordResponse s resp
  | .legacy raw => recordResponse s (toLegSide s raw)

/-! ### Reading what was written -/

/-- A written number is read back. -/
theorem decimalField_of_writes {v : Json} {x : ℚ} (h : Writes v x) :
    decimalField v = some (some x) := by
  obtain ⟨d, rfl, rfl⟩ := h
  simp [decimalField, d.decimalOfText_str]

/-- A written number, or its absence, is read back. -/
theorem decimalField_of_writesOption {v : Json} {x : Option ℚ} (h : WritesOption v x) :
    decimalField v = some x := by
  cases x with
  | none =>
    obtain rfl : v = .null := h
    rfl
  | some x => exact decimalField_of_writes h

/-- The record of a leg is read as the leg. -/
theorem legFromRecord_of_record {leg : IntentLeg} {d : Json} (h : LegRecord leg d) :
    legFromRecord d = some leg := by
  obtain ⟨side, hside, hsideOf⟩ := h.side
  obtain ⟨action, haction, hactionOf⟩ := h.action
  have hreduce : boolField (leg.reduceOnly.elim .null .bool) = leg.reduceOnly := by
    cases leg.reduceOnly <;> rfl
  have hindex : (toInt (leg.exchangeIndex.elim .null fun n => .number n)).join =
      leg.exchangeIndex := by
    cases leg.exchangeIndex <;> simp [toInt]
  have hcount : (toInt (.number leg.count)).join = some leg.count := by simp [toInt]
  unfold legFromRecord
  rw [h.ticker, hside, haction, h.count, h.clientOrderId, h.reduceOnly, h.exchangeIndex, hreduce,
    hindex, hcount, decimalField_of_writes h.limitPrice]
  simp [Json.text?, hsideOf, hactionOf]

/-- Recorded legs are read back. -/
theorem legsFromRecord_of_record {legs : List IntentLeg} {items : List Json}
    (h : List.Forall₂ LegRecord legs items) : items.mapM legFromRecord = some legs := by
  induction h with
  | nil => rfl
  | cons hleg _ ih => simp [legFromRecord_of_record hleg, ih]

/-- The record of an order is read as the order. -/
theorem intentFromRecord_of_record {intent : Intent} {d : Json} (h : IntentRecord intent d) :
    intentFromRecord d = some intent := by
  obtain ⟨source, hsource, hsourceOf⟩ := h.source
  obtain ⟨purpose, hpurpose, hpurposeOf⟩ := h.purpose
  obtain ⟨items, hitems, hlegs⟩ := h.legs
  have htime : numberField (intent.tMinusS.elim .null .number) = intent.tMinusS := by
    cases intent.tMinusS <;> rfl
  unfold intentFromRecord
  rw [h.window, hsource, hpurpose, hitems, h.tMinusS, htime]
  simp [Json.text?, hsourceOf, hpurposeOf, legsFromRecord_of_record hlegs]

/-- Two responses fold alike: they name the same order, and their lots, price and fee agree. -/
structure FoldsAlike (resp resp' : OrderResponse) : Prop where
  clientOrderId : resp'.clientOrderId = resp.clientOrderId
  fillCount : resp'.fillCount = resp.fillCount
  averageFillPrice : resp'.averageFillPrice = resp.averageFillPrice
  averageFeePaid : resp'.averageFeePaid = resp.averageFeePaid

/-- A record is read as a response that folds like the one it was written for. -/
theorem responseFromRecord_of_fields {resp : OrderResponse} {d : Json}
    (h : ResponseFields resp d) {raw : Option ℚ}
    (hraw : decimalField (d.field "raw_reported_price") = some raw) :
    ∃ resp', responseFromRecord d = some resp' ∧ FoldsAlike resp resp' ∧
      resp'.rawReportedPrice = raw := by
  unfold responseFromRecord
  rw [h.clientOrderId, decimalField_of_writes h.fillCount, decimalField_of_writes h.remainingCount,
    decimalField_of_writesOption h.averageFillPrice, decimalField_of_writesOption h.averageFeePaid,
    hraw]
  exact ⟨_, rfl, ⟨rfl, rfl, rfl, rfl⟩, rfl⟩

/-- A field that is not there is read as null. -/
theorem field_of_not_hasField {d : Json} {key : String} (h : d.hasField key = false) :
    d.field key = .null := by
  cases d with
  | object fields =>
    have hnone : fields.find? (fun f => f.1 == key) = none := by
      rw [List.find?_eq_none]
      intro f hf hkey
      have := List.any_eq_false.mp h f hf
      exact this hkey
    simp [Json.field, hnone]
  | _ => rfl

/-- Responses that fold alike are of the same leg. -/
theorem FoldsAlike.legOf {resp resp' : OrderResponse} (h : FoldsAlike resp resp')
    (s : LedgerState) : legOf s resp' = legOf s resp := by
  unfold V1.legOf
  rw [h.clientOrderId]

/-- Responses that fold alike make the same fill. -/
theorem FoldsAlike.fillOf {resp resp' : OrderResponse} (h : FoldsAlike resp resp')
    (s : LedgerState) : fillOf s resp' = fillOf s resp := by
  unfold V1.fillOf feeOf
  rw [h.legOf s, h.fillCount, h.averageFillPrice, h.averageFeePaid]

/-! ### The same ledger -/

/-- Two ledgers that differ in the list of responses at most. -/
def SameBooks (s t : LedgerState) : Prop := ∃ responses, t = { s with responses := responses }

/-- An intent keeps the books the same. -/
theorem SameBooks.recordIntent {s t : LedgerState} (h : SameBooks s t) (intent : Intent) :
    SameBooks (recordIntent s intent) (recordIntent t intent) := by
  obtain ⟨responses, rfl⟩ := h
  exact ⟨responses, rfl⟩

/-- Responses with the same fill keep the books the same. -/
theorem SameBooks.recordResponse {s t : LedgerState} (h : SameBooks s t)
    {resp resp' : OrderResponse} (hfill : fillOf s resp = fillOf s resp') :
    SameBooks (recordResponse s resp) (recordResponse t resp') := by
  obtain ⟨responses, rfl⟩ := h
  have hfill' : fillOf { s with responses := responses } resp' = fillOf s resp := hfill.symm
  unfold V1.recordResponse
  rw [hfill']
  cases fillOf s resp with
  | none => exact ⟨responses ++ [resp'], rfl⟩
  | some f => exact ⟨responses ++ [resp'], rfl⟩

/-- Both ways turn the venue's price to the side of the leg. -/
theorem foldsAlike_migrate {s t : LedgerState} (h : SameBooks s t) {raw resp : OrderResponse}
    {obj : Json} (hrecord : LegacyRecord raw obj) (halike : FoldsAlike raw resp) :
    FoldsAlike (toLegSide s raw) (migrate t obj resp) := by
  have hleg : legOf t resp = legOf s raw := by
    obtain ⟨responses, rfl⟩ := h
    exact halike.legOf s
  unfold migrate toLegSide
  rw [hrecord.noRaw, hleg, halike.averageFillPrice]
  cases hprice : raw.averageFillPrice with
  | none =>
    have hraw : raw.rawReportedPrice.or raw.averageFillPrice = none := by
      rcases hrecord.parsed with hnone | hsame
      · rw [hnone, hprice]; rfl
      · rw [hsame, hprice]; rfl
    have hsame : ∀ side, normalizeFillToSide raw side = raw := by
      intro side
      unfold normalizeFillToSide
      rw [hraw]
    simp only [Option.isNone_none, or_true, if_true]
    cases legOf s raw with
    | none => exact halike
    | some leg =>
      dsimp only
      rw [hsame]
      exact halike
  | some price =>
    have hraw : raw.rawReportedPrice.or raw.averageFillPrice = some price := by
      rcases hrecord.parsed with hnone | hsame
      · rw [hnone, hprice]; rfl
      · rw [hsame, hprice]; rfl
    simp only [Option.isNone_some, Bool.false_eq_true, or_self, if_false]
    cases legOf s raw with
    | none => exact halike
    | some leg =>
      have hlive : (normalizeFillToSide raw leg.side).averageFillPrice =
          some (sidePrice leg.side price) := by
        unfold normalizeFillToSide
        rw [hraw]
      have hframe : (normalizeFillToSide raw leg.side).clientOrderId = raw.clientOrderId ∧
          (normalizeFillToSide raw leg.side).fillCount = raw.fillCount ∧
          (normalizeFillToSide raw leg.side).averageFeePaid = raw.averageFeePaid := by
        unfold normalizeFillToSide
        rw [hraw]
        exact ⟨rfl, rfl, rfl⟩
      refine ⟨?_, ?_, ?_, ?_⟩
      · rw [hframe.1]
        exact halike.clientOrderId
      · rw [hframe.2.1]
        exact halike.fillCount
      · rw [hlive]
        rfl
      · rw [hframe.2.2]
        exact halike.averageFeePaid

/-- Replaying the record of an event does to the ledger what the event did. -/
theorem replay_step {s t : LedgerState} (h : SameBooks s t) {e : HistoryEvent} {rec : JournalRecord}
    (hrecord : RecordOf e rec) :
    ∃ t', replayRecord t rec = some t' ∧ SameBooks (liveStep s e) t' := by
  cases hrecord with
  | @intent intent obj hrecord =>
    refine ⟨recordIntent t intent, ?_, h.recordIntent intent⟩
    simp [replayRecord, intentFromRecord_of_record hrecord]
  | @response resp obj hrecord =>
    obtain ⟨resp', hread, halike, -⟩ := responseFromRecord_of_fields hrecord.toResponseFields
      (decimalField_of_writesOption hrecord.rawReportedPrice)
    have hkept : migrate t obj resp' = resp' := by simp [migrate, hrecord.raw]
    refine ⟨recordResponse t resp', ?_, h.recordResponse (halike.fillOf s).symm⟩
    simp [replayRecord, hread, hkept]
  | @legacy raw obj hrecord =>
    have hnull : decimalField (obj.field "raw_reported_price") = some none := by
      rw [field_of_not_hasField hrecord.noRaw]
      rfl
    obtain ⟨resp', hread, halike, -⟩ := responseFromRecord_of_fields hrecord.toResponseFields hnull
    have hmigrated := foldsAlike_migrate h hrecord halike
    refine ⟨recordResponse t (migrate t obj resp'), ?_,
      h.recordResponse (hmigrated.fillOf s).symm⟩
    simp [replayRecord, hread]

/-- Replaying the journal of a history gives the ledger of the history. -/
theorem replay_run {es : List HistoryEvent} {recs : List JournalRecord}
    (hjournal : JournalOf es recs)
    {s t : LedgerState} (h : SameBooks s t) :
    ∃ t', recs.foldlM replayRecord t = some t' ∧ SameBooks (es.foldl liveStep s) t' := by
  induction hjournal generalizing s t with
  | nil => exact ⟨t, rfl, h⟩
  | record hrecord _ ih =>
    obtain ⟨t', hstep, hsame⟩ := replay_step h hrecord
    obtain ⟨u, hrun, hend⟩ := ih hsame
    refine ⟨u, ?_, hend⟩
    rw [List.foldlM_cons, hstep]
    exact hrun
  | @other rec es recs hintent hresponse _ ih =>
    obtain ⟨u, hrun, hend⟩ := ih h
    refine ⟨u, ?_, hend⟩
    rw [List.foldlM_cons, replayRecord, if_neg hintent, if_neg hresponse]
    exact hrun

/-- The ledger survives a restart. Whatever orders were sent and answered, of either generation
of records, the journal can be read, and the ledger rebuilt from it has the positions, with their
costs and fees, and the realized amounts of the ledger that was folded live. -/
theorem rebuild_eq_live {es : List HistoryEvent} {recs : List JournalRecord}
    (hjournal : JournalOf es recs) (window : String) (source : Source)
    (highTicker lowTicker : String) :
    ∃ rebuilt, rebuildFromJournal recs window source highTicker lowTicker = some rebuilt ∧
      rebuilt.positions =
        (es.foldl liveStep (newLedger window source highTicker lowTicker)).positions ∧
      rebuilt.pairNetCashOut =
        (es.foldl liveStep (newLedger window source highTicker lowTicker)).pairNetCashOut ∧
      rebuilt.realizedAtClose =
        (es.foldl liveStep (newLedger window source highTicker lowTicker)).realizedAtClose ∧
      rebuilt.unsettledLegs =
        (es.foldl liveStep (newLedger window source highTicker lowTicker)).unsettledLegs := by
  have hstart : SameBooks (newLedger window source highTicker lowTicker)
      (newLedger window source highTicker lowTicker) := ⟨[], rfl⟩
  obtain ⟨rebuilt, hrun, responses, rfl⟩ := replay_run hjournal hstart
  exact ⟨_, hrun, rfl, rfl, rfl, rfl⟩

/-! ### What the executor journals -/

/-- The event a deed records. -/
def Deed.event? : Deed → Option HistoryEvent
  | .intent order => some (.intent order)
  | .response resp => some (.response resp)
  | _ => none

/-- A response is read as a response of the history. -/
theorem event?_response : Deed.event? ∘ Deed.response = some ∘ HistoryEvent.response := rfl

/-- The journal of a call holds its order and then the responses the caller folds. -/
theorem events_execute (x : Executor) (intent : Intent) (tMinusS : Option ℚ)
    (stopAuthorized : Bool) (outcome : PostOutcome) :
    (execute x intent tMinusS stopAuthorized outcome).1.deeds.filterMap Deed.event? =
      x.deeds.filterMap Deed.event? ++ .intent intent ::
        (((execute x intent tMinusS stopAuthorized outcome).2.map ExecResult.responses).getD []).map
          .response := by
  unfold execute
  cases refusal x intent (tMinusS.or intent.tMinusS) stopAuthorized with
  | some reason =>
    have hdeeds : (refusalDeeds intent reason).filterMap Deed.event? =
        .intent intent :: (noFills intent (.refused reason)).map .response := by
      unfold refusalDeeds
      cases reason <;>
        simp [List.filterMap_cons, Deed.event?, event?_response, List.filterMap_eq_map]
    simp [refuse, hdeeds]
  | none =>
    unfold commit dispatch
    by_cases hbuild : Buildable intent
    · cases hread : responsesOf intent outcome with
      | none => simp [hbuild, Deed.event?]
      | some rs =>
        simp [List.filterMap_cons, hbuild, Deed.event?, event?_response, List.filterMap_eq_map]
    · simp [hbuild, Deed.event?]

/-! ### A restart across the repair -/

/-- A number with two decimals. -/
def hundredths (n : ℕ) : Decimal where
  negative := false
  digits := Nat.toDigits 10 n
  exponent := -2
  isDigit := fun _ hc => Nat.isDigit_of_mem_toDigits (by norm_num) (by norm_num) hc
  nonempty := Nat.toDigits_ne_nil

/-- A number of hundredths is written by its own text. -/
theorem writes_hundredths (n : ℕ) : Writes (.text (hundredths n).str) ((n : ℚ) / 100) := by
  refine ⟨hundredths n, ?_, rfl⟩
  have hcoefficient : coefficient (hundredths n).digits = n := Nat.ofDigitChars_ten_toDigits
  rw [Decimal.value, hcoefficient]
  simp [hundredths, signValue]
  ring

/-- One lot of NO is bought at 97 cents. -/
def noLeg : IntentLeg := ⟨"HI", .no, .buy, 1, 97 / 100, "buy-no", none, some 0⟩

/-- The entry of the leg. -/
def noEntry : Intent := ⟨"T", .subDollarFlip, .entry, [noLeg], none⟩

/-- The fill the venue reports of it, at the YES price of 3 cents. -/
def reportedNo : OrderResponse :=
  { clientOrderId := .text "buy-no", orderId := .text "o1", fillCount := 1,
    remainingCount := 0, averageFillPrice := some (3 / 100),
    averageFeePaid := some (1 / 100), tsMs := none }

/-- A decimal with two places as it is journaled. -/
def journaled (n : ℕ) : Json := .text (hundredths n).str

/-- The record of the entry. -/
def noEntryRecord : Json :=
  .object [("window", .text "T"), ("source", .text "sub$1-flip"), ("purpose", .text "entry"),
    ("t_minus_s", .null), ("legs", .array [.object [("ticker", .text "HI"), ("side", .text "no"),
      ("action", .text "buy"), ("count", .number 1), ("limit_price", journaled 97),
      ("client_order_id", .text "buy-no"), ("reduce_only", .null),
      ("exchange_index", .number 0)]])]

/-- The record of the fill, from before the reported price was kept. -/
def reportedNoRecord : Json :=
  .object [("client_order_id", .text "buy-no"), ("order_id", .text "o1"),
    ("fill_count", journaled 100), ("remaining_count", journaled 0),
    ("average_fill_price", journaled 3), ("average_fee_paid", journaled 1), ("ts_ms", .null),
    ("error", .null), ("no_fill", .bool false)]

/-- The journal of the sample. -/
theorem journalOf_sample :
    JournalOf [.intent noEntry, .legacy reportedNo]
      [⟨"order_intent", noEntryRecord⟩, ⟨"alarm", .null⟩,
        ⟨"order_response", reportedNoRecord⟩] := by
  have hlimit := writes_hundredths 97
  have hfill := writes_hundredths 100
  have hremaining := writes_hundredths 0
  have hprice := writes_hundredths 3
  have hfee := writes_hundredths 1
  refine .record (.intent ?_) (.other (by decide) (by decide) (.record (.legacy ?_) .nil))
  · refine ⟨rfl, ⟨_, rfl, rfl⟩, ⟨_, rfl, rfl⟩, rfl, _, rfl, .cons ?_ .nil⟩
    exact ⟨rfl, ⟨_, rfl, rfl⟩, ⟨_, rfl, rfl⟩, rfl, by exact_mod_cast hlimit, rfl, rfl, rfl⟩
  · refine ⟨⟨rfl, rfl, ?_, ?_, ?_, ?_⟩, Or.inl rfl, by decide⟩
    · norm_num at hfill
      exact hfill
    · norm_num at hremaining
      exact hremaining
    · exact_mod_cast hprice
    · exact_mod_cast hfee

/-- The rebuilt ledger holds the lot of NO at the 97 cents it was bought for. -/
theorem rebuild_eq_live_sample :
    ∃ rebuilt, rebuildFromJournal [⟨"order_intent", noEntryRecord⟩, ⟨"alarm", .null⟩,
        ⟨"order_response", reportedNoRecord⟩] "T" .subDollarFlip "HI" "LO" = some rebuilt ∧
      (rebuilt.positions.get? ("HI", .no)).map
        (fun pos => (pos.bought, pos.boughtNotional, pos.buyFees)) =
        some (1, 97 / 100, 1 / 100) := by
  obtain ⟨rebuilt, hrebuilt, hpositions, -⟩ :=
    rebuild_eq_live journalOf_sample "T" .subDollarFlip "HI" "LO"
  refine ⟨rebuilt, hrebuilt, ?_⟩
  rw [hpositions]
  decide +kernel

end Pilot.V1
