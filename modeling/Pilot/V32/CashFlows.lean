import Pilot.V32.Holdings
import Pilot.V33.Settlement

/-!
# The cash of a settled single-order window

The row of a window books its floor less its costs, and its backfill corrects the floor. The
costs are read from the fills the executor kept and the lots from the batches of the core, so
the two add up to the cash result where each view has every executed lot once.
-/

namespace Pilot.V32

open V33 (Event Fill HeldLeg feeTotal settlementPayoff settlementPayoff_append sweep_singleton)

/-! ### A window with its cash -/

/-- The core and the fills the executor kept, beside what the venue executed. -/
structure Trading where
  st : V32State
  capture : Capture
  /-- The lots executed. -/
  held : List HeldLeg
  /-- Everything paid for them. -/
  paid : ℚ

/-- Lots that were executed since their order was last reported. -/
structure FreshLots where
  lots : ℚ
  price : ℚ

/-- What the driver is told: an event, or lots of an order or of a wing. A poll and a cancel
confirm report the cumulative count of the order. -/
inductive Traffic where
  | event (ev : Event)
  | frame (rec : RestRecord) (fee : Option ℚ) (count : ℚ) (fresh : FreshLots) (ts : ℚ)
  | poll (rec : RestRecord) (filled : ℚ) (fresh : FreshLots) (ts : ℚ)
  | cancelled (rec : RestRecord) (filled : ℚ) (fresh : FreshLots) (ts : ℚ)
  | amended (rec : RestRecord) (crossed : ℚ) (average fee : Option ℚ) (ts : ℚ)
  | wing (clientOrderId : String) (lots : ℚ) (average fee : Option ℚ) (ts : ℚ)

/-- The wing of a client order id. -/
def wingOf (st : V32State) (coid : String) : Option WingLeg :=
  st.wingLegs.find? fun l => l.clientOrderId == coid

/-- The lots a poll feeds: those beyond the ones booked. -/
def pollDelta (st : V32State) (rec : RestRecord) (filled : ℚ) : Option ℚ :=
  let delta := qCount (filled - st.restBookedByCoid.getD rec.clientOrderId 0)
  if filled ≤ 0 ∨ delta ≤ 0 then none else some delta

/-- A private frame is decided as a fill, or booked late when the order is not tracked. -/
def frameInput (st : V32State) (rec : RestRecord) (count ts : ℚ) : Input :=
  if tracked st rec.clientOrderId then .event (restFillEvent rec rec.orderId count ts)
  else .lateFill rec.price count ts rec.bucketSd

/-- A poll is decided as a fill of the lots it feeds. -/
def pollInput (rec : RestRecord) (delta ts : ℚ) : Input :=
  .event (restFillEvent rec rec.orderId delta ts)

/-- The confirm of a cancel. -/
def cancelInput (rec : RestRecord) (filled ts : ℚ) : Input :=
  .event (.orderCancelled
    ⟨rec.orderId, ts, filled, some rec.clientOrderId, some rec.price, some rec.ticker⟩)

/-- The confirm of an amend; `rec` is the order as it is recorded from then on. -/
def amendInput (rec : RestRecord) (crossed : ℚ) (average : Option ℚ) (ts : ℚ) : Input :=
  .event (.orderAmended ⟨rec.orderId.getD "", rec.clientOrderId, some rec.price, ts, crossed,
    if 0 < crossed then average else none⟩)

/-- The answer of a taker leg. -/
def wingInput (leg : WingLeg) (coid : String) (lots : ℚ) (average : Option ℚ) (ts : ℚ) : Input :=
  .event (.fill ⟨none, coid, max 0 lots,
    some (if 0 < lots then average.getD leg.limit else leg.limit), leg.side, ts, none, none⟩)

/-- What the core is fed. -/
def Traffic.input (st : V32State) : Traffic → Option Input
  | .event ev => some (.event ev)
  | .frame rec _ count _ ts => some (frameInput st rec count ts)
  | .poll rec filled _ ts => (pollDelta st rec filled).map fun delta => pollInput rec delta ts
  | .cancelled rec filled _ ts => some (cancelInput rec filled ts)
  | .amended rec crossed average _ ts => some (amendInput rec crossed average ts)
  | .wing coid lots average _ ts =>
    (wingOf st coid).map fun leg => wingInput leg coid lots average ts

/-- What the executor keeps. -/
def Traffic.record (st : V32State) (k : Capture) : Traffic → Capture
  | .event _ => k
  | .frame rec fee count _ _ => recordFill k rec fee count
  | .poll rec filled _ _ =>
    match pollDelta st rec filled with
    | none => k
    | some delta => recordFill k rec none delta
  | .cancelled rec filled _ _ => recordCancelRace k rec filled
  | .amended rec crossed average fee _ => recordAmend k rec crossed average fee
  | .wing coid lots average fee _ =>
    match wingOf st coid with
    | none => k
    | some leg => recordWing k leg lots average fee

/-- What taking lots costs. -/
def takerCost (price lots : ℚ) : ℚ := price * lots + feeTotal price lots

/-- The lots the venue executed and what they cost; the lots of a resting order pay no fee. -/
def Traffic.executed (st : V32State) : Traffic → Option (HeldLeg × ℚ)
  | .event _ => none
  | .frame rec _ _ fresh _ => some (⟨rec.ticker, .no, fresh.lots⟩, fresh.price * fresh.lots)
  | .poll rec _ fresh _ => some (⟨rec.ticker, .no, fresh.lots⟩, fresh.price * fresh.lots)
  | .cancelled rec _ fresh _ => some (⟨rec.ticker, .no, fresh.lots⟩, fresh.price * fresh.lots)
  | .amended rec crossed average _ _ =>
    if 0 < crossed then
      some (⟨rec.ticker, .no, crossed⟩, takerCost (average.getD rec.price) crossed)
    else none
  | .wing coid lots average _ _ =>
    if 0 < lots then
      (wingOf st coid).map fun leg =>
        (⟨leg.ticker, leg.side, lots⟩, takerCost (average.getD leg.limit) lots)
    else none

/-- The window after a report. -/
def trade (p : V32Params) (W : Trading) (t : Traffic) : Trading where
  st :=
    match t.input W.st with
    | none => W.st
    | some i => (core p W.st i).st
  capture := t.record W.st W.capture
  held := W.held ++ ((t.executed W.st).map Prod.fst).toList
  paid := W.paid + ((t.executed W.st).map Prod.snd).getD 0

/-- A window at its start. -/
def IsNewTrading (W : Trading) : Prop :=
  ∃ closeTime closeEpoch bucketMap shakedown strikeFloorMap,
    W = ⟨V32State.new closeTime closeEpoch bucketMap shakedown strikeFloorMap, ⟨[], []⟩, [], 0⟩

/-- A run of a window from its start, of reports that meet a condition. -/
def Trades (p : V32Params) (ok : Trading → Traffic → Prop) (ts : List Traffic) (W : Trading) :
    Prop :=
  ∃ start, IsNewTrading start ∧ Fed (trade p) ok start ts W

/-! ### The cash result -/

/-- The cash result of a window: what its lots are paid at settlement, less everything paid. -/
def trueCash (W : Trading) (results : String → Side) : ℚ :=
  settlementPayoff W.held results - W.paid

/-- What the row of a window and its backfill book. -/
def bookedCash (p : V32Params) (closeTime : String) (W : Trading) (results : String → Side) : ℚ :=
  let row := buildV32LedgerRow closeTime (computeMoneyMath W.st W.capture.fills p.contracts)
  row.realizedDelta.getD 0 +
    ((v32SettlementBackfillSweep [row] fun t => some (results t)).map fun r =>
      r.realizedDelta.getD 0).sum

/-! ### The condition -/

/-- An input books nothing and names no wing. -/
def BooksNothing (st : V32State) (i : Input) : Prop := books st i = false ∧ namedWing st i = none

/-- The order was recorded before. -/
def Recorded (k : Capture) (oid : Option String) : Prop := ∃ o ∈ oid, o ∈ k.bookedRestOids

/-- The first report of an order, from which the core books exactly its lots, executed at the
price the order is recorded with. -/
def FirstReport (W : Trading) (rec : RestRecord) (fresh : FreshLots) (i : Input) : Prop :=
  (0 < fresh.lots ∧ OnGrid 100 fresh.lots ∧ fresh.price = rec.price) ∧ rec.ticker ≠ "" ∧
    ¬Recorded W.capture rec.orderId ∧ books W.st i = true ∧ lotsBooked W.st i = fresh.lots

/-- A reply names the fee the venue charged for one lot. -/
def FeeReported (price lots : ℚ) (fee : Option ℚ) : Prop :=
  if fee.getD 0 = 0 then feeTotal price lots = 0 else lots = 1 → fee.getD 0 = feeTotal price 1

/-- Every report of lots is either the first one of its order, whole, or one of lots the order
was recorded with and of which the core books nothing; a wing that is answered is open, and
fills whole if it fills. -/
def BookedWhole (W : Trading) : Traffic → Prop
  | .event ev => BooksNothing W.st (.event ev)
  | .frame rec fee count fresh ts =>
    if fresh.lots = 0 then
      Recorded W.capture rec.orderId ∧ BooksNothing W.st (frameInput W.st rec count ts)
    else
      FirstReport W rec fresh (frameInput W.st rec count ts) ∧ count = fresh.lots ∧
        fee.getD 0 = 0
  | .poll rec filled fresh ts =>
    match pollDelta W.st rec filled with
    | none => fresh.lots = 0
    | some delta =>
      if fresh.lots = 0 then
        Recorded W.capture rec.orderId ∧ BooksNothing W.st (pollInput rec delta ts)
      else FirstReport W rec fresh (pollInput rec delta ts) ∧ delta = fresh.lots
  | .cancelled rec filled fresh ts =>
    if fresh.lots = 0 then
      (filled ≤ 0 ∨ rec.orderId = none ∨ Recorded W.capture rec.orderId) ∧
        BooksNothing W.st (cancelInput rec filled ts)
    else
      FirstReport W rec fresh (cancelInput rec filled ts) ∧ filled = fresh.lots ∧
        rec.orderId.isSome
  | .amended rec crossed average fee ts =>
    if crossed ≤ 0 then BooksNothing W.st (amendInput rec crossed average ts)
    else
      FirstReport W rec ⟨crossed, rec.price⟩ (amendInput rec crossed average ts) ∧
        FeeReported (average.getD rec.price) crossed fee
  | .wing coid lots average fee _ =>
    ∀ leg ∈ wingOf W.st coid, leg.status ≠ .filled ∧ (0 < lots →
      (lots = leg.count ∧ OnGrid 100 lots) ∧ FeeReported (average.getD leg.limit) lots fee)

instance (st : V32State) (i : Input) : Decidable (BooksNothing st i) :=
  inferInstanceAs (Decidable (_ ∧ _))

instance (k : Capture) (oid : Option String) : Decidable (Recorded k oid) :=
  decidable_of_iff (oid.any fun o => decide (o ∈ k.bookedRestOids))
    (by simp [Recorded, Option.any_eq_true])

instance (W : Trading) (rec : RestRecord) (fresh : FreshLots) (i : Input) :
    Decidable (FirstReport W rec fresh i) :=
  inferInstanceAs (Decidable
    ((0 < fresh.lots ∧ OnGrid 100 fresh.lots ∧ fresh.price = rec.price) ∧ rec.ticker ≠ "" ∧
      ¬Recorded W.capture rec.orderId ∧ books W.st i = true ∧ lotsBooked W.st i = fresh.lots))

instance (price lots : ℚ) (fee : Option ℚ) : Decidable (FeeReported price lots fee) :=
  inferInstanceAs (Decidable
    (if fee.getD 0 = 0 then feeTotal price lots = 0 else lots = 1 → fee.getD 0 = feeTotal price 1))

instance BookedWhole.decidable (W : Trading) : ∀ t, Decidable (BookedWhole W t)
  | .event ev => inferInstanceAs (Decidable (BooksNothing W.st (.event ev)))
  | .frame rec fee count fresh ts =>
    inferInstanceAs (Decidable (if fresh.lots = 0 then
        Recorded W.capture rec.orderId ∧ BooksNothing W.st (frameInput W.st rec count ts)
      else
        FirstReport W rec fresh (frameInput W.st rec count ts) ∧ count = fresh.lots ∧
          fee.getD 0 = 0))
  | .poll rec filled fresh ts =>
    match h : pollDelta W.st rec filled with
    | none => decidable_of_iff (fresh.lots = 0) (by simp only [BookedWhole, h])
    | some delta =>
      decidable_of_iff (if fresh.lots = 0 then
          Recorded W.capture rec.orderId ∧ BooksNothing W.st (pollInput rec delta ts)
        else FirstReport W rec fresh (pollInput rec delta ts) ∧ delta = fresh.lots)
        (by simp only [BookedWhole, h])
  | .cancelled rec filled fresh ts =>
    inferInstanceAs (Decidable (if fresh.lots = 0 then
        (filled ≤ 0 ∨ rec.orderId = none ∨ Recorded W.capture rec.orderId) ∧
          BooksNothing W.st (cancelInput rec filled ts)
      else
        FirstReport W rec fresh (cancelInput rec filled ts) ∧ filled = fresh.lots ∧
          rec.orderId.isSome))
  | .amended rec crossed average fee ts =>
    inferInstanceAs (Decidable (if crossed ≤ 0 then
        BooksNothing W.st (amendInput rec crossed average ts)
      else
        FirstReport W rec ⟨crossed, rec.price⟩ (amendInput rec crossed average ts) ∧
          FeeReported (average.getD rec.price) crossed fee))
  | .wing coid lots average fee _ =>
    inferInstanceAs (Decidable (∀ leg ∈ wingOf W.st coid, leg.status ≠ .filled ∧ (0 < lots →
      (lots = leg.count ∧ OnGrid 100 lots) ∧ FeeReported (average.getD leg.limit) lots fee)))

/-! ### The two views of the lots -/

/-- The lots of a fill of the rest. -/
def restLeg (f : FillRecord) : HeldLeg := ⟨f.ticker, .no, f.count⟩

/-- The lots of a filled wing. -/
def wingHeld (w : String × Side × ℚ × ℕ) : HeldLeg := ⟨w.1, w.2.1, w.2.2.1⟩

/-- The filled wings of a window, as the ledger reads them. -/
def wingLots (st : V32State) : List (String × Side × ℚ × ℕ) :=
  (filledWings st.wingLegs).map wingLot

/-- The kept fills of the rest are the batches one by one, the lots executed are those fills and
the filled wings, and the kept fills cost what was paid. -/
structure Costed (W : Trading) : Prop where
  indices : (W.st.wingBatches.map batchLot).map Prod.fst = List.range W.st.nextBatchIndex
  mirror : W.st.restFill = W.st.restFills.getLast?
  started : W.st.wingBatches = [] ∨ W.st.restFills ≠ []
  unstarted : W.st.wingBatches = [] → W.capture.fills = []
  owned : Owned W.st
  records : (restRecords W.capture.fills).map FillRecord.count =
    (W.st.wingBatches.map batchLot).map Prod.snd
  lots : ∀ f ∈ restRecords W.capture.fills, 0 < f.count ∧ OnGrid 100 f.count ∧ f.ticker ≠ ""
  wings : ∀ w ∈ wingLots W.st, OnGrid 100 w.2.2.1
  held : ∀ results, settlementPayoff W.held results =
    settlementPayoff ((restRecords W.capture.fills).map restLeg) results +
      settlementPayoff ((wingLots W.st).map wingHeld) results
  costs : (W.capture.fills.map fillCost).sum = W.paid

section Steps

variable {p : V32Params} {W W' : Trading} {lots : ℚ}

/-- A holding pays for its first leg and for the others. -/
theorem settlementPayoff_cons (l : HeldLeg) (legs : List HeldLeg) (results : String → Side) :
    settlementPayoff (l :: legs) results =
      (if results l.ticker = l.side then l.count else 0) + settlementPayoff legs results := by
  simp [settlementPayoff]

/-- Batches that are read alike are empty together. -/
theorem batches_nil_iff {bs bs' : List WingBatch} (h : bs'.map batchLot = bs.map batchLot) :
    bs' = [] ↔ bs = [] := by
  rw [← List.map_eq_nil_iff (f := batchLot), h, List.map_eq_nil_iff]

/-- Nothing is executed and nothing changes hands. -/
theorem Costed.same (h : Costed W) (hst : SameHoldings W.st W'.st)
    (hcapture : W'.capture = W.capture)
    (hheld : ∀ results, settlementPayoff W'.held results = settlementPayoff W.held results)
    (hpaid : W'.paid = W.paid) : Costed W' := by
  have hwings : wingLots W'.st = wingLots W.st := hst.wings
  constructor
  · rw [hst.batches, hst.next]
    exact h.indices
  · exact hst.mirror h.mirror
  · rw [batches_nil_iff hst.batches, hst.fills]
    exact h.started
  · rw [batches_nil_iff hst.batches, hcapture]
    exact h.unstarted
  · exact hst.owned h.owned
  · rw [hcapture, hst.batches]
    exact h.records
  · rw [hcapture]
    exact h.lots
  · rw [hwings]
    exact h.wings
  · intro results
    rw [hheld, hcapture, hwings]
    exact h.held results
  · rw [hcapture, hpaid]
    exact h.costs

/-- Lots of the rest are booked and recorded. -/
theorem Costed.books (h : Costed W) (hst : AddsBatch lots W.st W'.st) {r : FillRecord}
    (hleg : r.leg = .rest) (hcount : r.count = lots) (hpos : 0 < lots) (hgrid : OnGrid 100 lots)
    (hticker : r.ticker ≠ "") (hfills : W'.capture.fills = W.capture.fills ++ [r])
    (hheld : W'.held = W.held ++ [⟨r.ticker, .no, lots⟩])
    (hpaid : W'.paid = W.paid + fillCost r) : Costed W' := by
  have hwings : wingLots W'.st = wingLots W.st := hst.wings
  have hrecords : restRecords W'.capture.fills = restRecords W.capture.fills ++ [r] := by
    rw [hfills, restRecords, restRecords, List.filter_append]
    simp [hleg]
  constructor
  · rw [hst.batches, hst.next, List.map_append, h.indices, List.range_succ]
    rfl
  · exact hst.mirror
  · exact Or.inr hst.filled
  · intro hnil
    have hbatches := hst.batches
    rw [hnil] at hbatches
    simp at hbatches
  · exact hst.owned h.owned
  · rw [hrecords, hst.batches, List.map_append, List.map_append, h.records]
    simp [hcount]
  · intro f hf
    rw [hrecords] at hf
    rcases List.mem_append.mp hf with hf | hf
    · exact h.lots f hf
    · rw [List.mem_singleton.mp hf, hcount]
      exact ⟨hpos, hgrid, hticker⟩
  · rw [hwings]
    exact h.wings
  · intro results
    rw [hheld, settlementPayoff_append, h.held, hrecords, hwings, List.map_append,
      settlementPayoff_append]
    have hone : restLeg r = ⟨r.ticker, .no, lots⟩ := by rw [restLeg, hcount]
    rw [List.map_singleton, hone]
    ring
  · rw [hfills, hpaid, List.map_append, List.sum_append, h.costs]
    simp

/-- An open wing fills and is recorded. -/
theorem Costed.fillsWing (h : Costed W) {leg : WingLeg} (hst : FillsWing leg W.st W'.st)
    (hbatches : W.st.wingBatches ≠ []) {r : FillRecord} (hleg : r.leg = .wing)
    (hgrid : OnGrid 100 leg.count) (hfills : W'.capture.fills = W.capture.fills ++ [r])
    (hheld : W'.held = W.held ++ [⟨leg.ticker, leg.side, leg.count⟩])
    (hpaid : W'.paid = W.paid + fillCost r) : Costed W' := by
  have hwings : (wingLots W'.st).Perm (wingLot leg :: wingLots W.st) := hst.wings
  have hrecords : restRecords W'.capture.fills = restRecords W.capture.fills := by
    rw [hfills, restRecords, restRecords, List.filter_append]
    simp [hleg]
  have hsome : W'.st.wingBatches ≠ [] := fun hnil =>
    hbatches ((batches_nil_iff hst.batches).mp hnil)
  constructor
  · rw [hst.batches, hst.next]
    exact h.indices
  · exact hst.mirror h.mirror
  · right
    rw [hst.fills]
    exact h.started.resolve_left hbatches
  · exact fun hnil => absurd hnil hsome
  · exact hst.owned h.owned
  · rw [hrecords, hst.batches]
    exact h.records
  · rw [hrecords]
    exact h.lots
  · intro w hw
    rcases List.mem_cons.mp (hwings.mem_iff.mp hw) with rfl | hw
    · exact hgrid
    · exact h.wings w hw
  · intro results
    have hpayoff : settlementPayoff ((wingLots W'.st).map wingHeld) results =
        settlementPayoff ((wingLot leg :: wingLots W.st).map wingHeld) results :=
      ((hwings.map wingHeld).map _).sum_eq
    rw [hheld, settlementPayoff_append, h.held, hrecords, hpayoff, List.map_cons]
    simp only [settlementPayoff, List.map_cons, List.sum_cons, List.map_nil, List.sum_nil, wingHeld,
      wingLot]
    ring
  · rw [hfills, hpaid, List.map_append, List.sum_append, h.costs]
    simp

/-! ### One report -/

/-- A repeated order is not recorded again. -/
theorem noteRest_of_recorded {k : Capture} {oid : Option String} (h : Recorded k oid)
    (r : FillRecord) : noteRest k oid r = k := by
  obtain ⟨o, ho, hmem⟩ := h
  rw [Option.mem_def] at ho
  subst ho
  exact if_pos hmem

/-- The first fill of an order is recorded. -/
theorem noteRest_of_first {k : Capture} {oid : Option String} (h : ¬Recorded k oid)
    (r : FillRecord) : (noteRest k oid r).fills = k.fills ++ [r] := by
  cases oid with
  | none => rfl
  | some o =>
    have hmem : o ∉ k.bookedRestOids := fun hmem => h ⟨o, rfl, hmem⟩
    simp only [noteRest, if_neg hmem]

/-- A taker fill whose fee is reported costs what it cost. -/
theorem fillCost_of_reported {leg : FillLeg} {side : Side} {ticker : String} {price lots : ℚ}
    {fee : Option ℚ} {sd : Option ℤ} (h : FeeReported price lots fee) :
    fillCost ⟨leg, side, ticker, price, fee, lots, sd⟩ = takerCost price lots := by
  have hfee : fillTotalFee ⟨leg, side, ticker, price, fee, lots, sd⟩ = feeTotal price lots := by
    unfold FeeReported at h
    unfold fillTotalFee
    dsimp only
    split_ifs at h ⊢ with hzero hone
    · exact h.symm
    · rw [h hone, hone]
    · rfl
  rw [fillCost, takerCost, hfee]

/-- A leg without lots pays nothing. -/
theorem payoff_noLots (held : List HeldLeg) (ticker : String) (side : Side)
    (results : String → Side) :
    settlementPayoff (held ++ [⟨ticker, side, 0⟩]) results = settlementPayoff held results := by
  rw [settlementPayoff_append]
  simp [settlementPayoff]

/-- An input that books nothing, of which nothing new is executed or recorded. -/
theorem Costed.idle (h : Costed W) {i : Input} (hi : BooksNothing W.st i)
    (hst : W'.st = (core p W.st i).st) (hcapture : W'.capture = W.capture)
    (hheld : ∀ results, settlementPayoff W'.held results = settlementPayoff W.held results)
    (hpaid : W'.paid = W.paid) : Costed W' := by
  refine h.same ?_ hcapture hheld hpaid
  rw [hst]
  exact (core_holds W.st i).2 hi.1 hi.2

/-- The first report of an order, recorded at what it cost. -/
theorem Costed.first (h : Costed W) {rec : RestRecord} {fresh : FreshLots} {i : Input}
    (hfirst : FirstReport W rec fresh i) (hst : W'.st = (core p W.st i).st) {r : FillRecord}
    (hleg : r.leg = .rest) (hcount : r.count = fresh.lots) (hticker : r.ticker = rec.ticker)
    (hcapture : W'.capture = noteRest W.capture rec.orderId r)
    (hheld : W'.held = W.held ++ [⟨rec.ticker, .no, fresh.lots⟩])
    (hpaid : W'.paid = W.paid + fillCost r) : Costed W' := by
  obtain ⟨⟨hpos, hgrid, -⟩, hne, hnew, hbooks, hlots⟩ := hfirst
  refine @Costed.books W W' fresh.lots h ?_ r hleg hcount hpos hgrid ?_ ?_ ?_ hpaid
  · rw [hst, ← hlots]
    exact (core_holds W.st i).1 hbooks
  · rw [hticker]
    exact hne
  · rw [hcapture, noteRest_of_first hnew]
  · rw [hheld, hticker]

/-- A maker fill costs its price. -/
theorem fillCost_maker {rec : RestRecord} {fee : Option ℚ} {count : ℚ} (hfee : fee.getD 0 = 0) :
    fillCost ⟨.rest, .no, rec.ticker, rec.price, fee, count, rec.bucketSd⟩ = rec.price * count := by
  simp [fillCost, fillTotalFee, hfee]

/-- Traffic adds what it executed to the held lots. -/
@[simp] theorem trade_held (t : Traffic) :
    (trade p W t).held = W.held ++ ((t.executed W.st).map Prod.fst).toList := rfl

/-- Traffic adds what it cost to what was paid. -/
@[simp] theorem trade_paid (t : Traffic) :
    (trade p W t).paid = W.paid + ((t.executed W.st).map Prod.snd).getD 0 := rfl

/-- Traffic is recorded as its record says. -/
@[simp] theorem trade_capture (t : Traffic) :
    (trade p W t).capture = t.record W.st W.capture := rfl

/-- Traffic with an input is a step of the core. -/
theorem trade_of_input {t : Traffic} {i : Input} (h : t.input W.st = some i) :
    (trade p W t).st = (core p W.st i).st := by
  simp only [trade, h]

/-- Traffic without an input leaves the core alone. -/
theorem trade_of_no_input {t : Traffic} (h : t.input W.st = none) : (trade p W t).st = W.st := by
  simp only [trade, h]

/-- A fill frame that is booked whole keeps the costs in step. -/
theorem Costed.frame (h : Costed W) {rec : RestRecord} {fee : Option ℚ} {count ts : ℚ}
    {fresh : FreshLots} (ht : BookedWhole W (.frame rec fee count fresh ts)) :
    Costed (trade p W (.frame rec fee count fresh ts)) := by
  simp only [BookedWhole] at ht
  by_cases hfresh : fresh.lots = 0
  · rw [if_pos hfresh] at ht
    obtain ⟨hrecorded, hidle⟩ := ht
    refine h.idle (p := p) hidle rfl (noteRest_of_recorded hrecorded _) (fun results => ?_) ?_
    · rw [← payoff_noLots W.held rec.ticker .no, ← hfresh]
      rfl
    · show W.paid + fresh.price * fresh.lots = W.paid
      rw [hfresh, mul_zero, add_zero]
  · rw [if_neg hfresh] at ht
    obtain ⟨hfirst, hcount, hfee⟩ := ht
    refine h.first (p := p) hfirst rfl rfl hcount rfl rfl rfl ?_
    rw [fillCost_maker hfee, hcount, ← hfirst.1.2.2]
    rfl

/-- A poll that is booked whole keeps the costs in step. -/
theorem Costed.poll (h : Costed W) {rec : RestRecord} {filled ts : ℚ} {fresh : FreshLots}
    (ht : BookedWhole W (.poll rec filled fresh ts)) :
    Costed (trade p W (.poll rec filled fresh ts)) := by
  cases hdelta : pollDelta W.st rec filled with
  | none =>
    have hfresh : fresh.lots = 0 := by simpa only [BookedWhole, hdelta] using ht
    refine @Costed.same W (V32.trade p W (.poll rec filled fresh ts)) h ?_ ?_
      (fun results => ?_) ?_
    · rw [trade_of_no_input (by simp only [Traffic.input, hdelta, Option.map_none])]
      exact SameHoldings.refl W.st
    · simp only [trade_capture, Traffic.record, hdelta]
    · rw [← payoff_noLots W.held rec.ticker .no, ← hfresh]
      rfl
    · show W.paid + fresh.price * fresh.lots = W.paid
      rw [hfresh, mul_zero, add_zero]
  | some delta =>
    simp only [BookedWhole, hdelta] at ht
    have hst : (V32.trade p W (.poll rec filled fresh ts)).st =
        (core p W.st (pollInput rec delta ts)).st := by
      apply trade_of_input
      simp only [Traffic.input, hdelta, Option.map_some]
    have hcapture : (V32.trade p W (.poll rec filled fresh ts)).capture =
        recordFill W.capture rec none delta := by
      simp only [trade_capture, Traffic.record, hdelta]
    by_cases hfresh : fresh.lots = 0
    · rw [if_pos hfresh] at ht
      obtain ⟨hrecorded, hidle⟩ := ht
      refine h.idle hidle hst (hcapture.trans (noteRest_of_recorded hrecorded _))
        (fun results => ?_) ?_
      · rw [← payoff_noLots W.held rec.ticker .no, ← hfresh]
        rfl
      · show W.paid + fresh.price * fresh.lots = W.paid
        rw [hfresh, mul_zero, add_zero]
    · rw [if_neg hfresh] at ht
      obtain ⟨hfirst, hcount⟩ := ht
      refine h.first hfirst hst rfl hcount rfl hcapture rfl ?_
      rw [fillCost_maker rfl, hcount, ← hfirst.1.2.2]
      rfl

/-- A cancel that is booked whole keeps the costs in step. -/
theorem Costed.cancelled (h : Costed W) {rec : RestRecord} {filled ts : ℚ} {fresh : FreshLots}
    (ht : BookedWhole W (.cancelled rec filled fresh ts)) :
    Costed (trade p W (.cancelled rec filled fresh ts)) := by
  simp only [BookedWhole] at ht
  by_cases hfresh : fresh.lots = 0
  · rw [if_pos hfresh] at ht
    obtain ⟨hkept, hidle⟩ := ht
    refine h.idle (p := p) hidle rfl ?_ (fun results => ?_) ?_
    · show recordCancelRace W.capture rec filled = W.capture
      unfold recordCancelRace
      split_ifs with hrace
      · rcases hkept with hle | hnone | hrecorded
        · exact absurd hrace.1 (not_lt.mpr hle)
        · rw [hnone] at hrace
          cases hrace.2
        · exact noteRest_of_recorded hrecorded _
      · rfl
    · rw [← payoff_noLots W.held rec.ticker .no, ← hfresh]
      rfl
    · show W.paid + fresh.price * fresh.lots = W.paid
      rw [hfresh, mul_zero, add_zero]
  · rw [if_neg hfresh] at ht
    obtain ⟨hfirst, hcount, hsome⟩ := ht
    refine h.first (p := p) (r := ⟨.rest, .no, rec.ticker, rec.price, some 0, filled,
      rec.bucketSd⟩) hfirst rfl rfl hcount rfl ?_ rfl ?_
    · show recordCancelRace W.capture rec filled = _
      rw [recordCancelRace, if_pos ⟨hcount ▸ hfirst.1.1, hsome⟩]
      rfl
    · rw [fillCost_maker rfl, hcount, ← hfirst.1.2.2]
      rfl

/-- An amend that is booked whole keeps the costs in step. -/
theorem Costed.amended (h : Costed W) {rec : RestRecord} {crossed ts : ℚ} {average fee : Option ℚ}
    (ht : BookedWhole W (.amended rec crossed average fee ts)) :
    Costed (trade p W (.amended rec crossed average fee ts)) := by
  simp only [BookedWhole] at ht
  by_cases hcrossed : crossed ≤ 0
  · rw [if_pos hcrossed] at ht
    refine h.idle (p := p) ht rfl ?_ (fun results => ?_) ?_
    · show recordAmend W.capture rec crossed average fee = W.capture
      rw [recordAmend, if_neg (not_lt.mpr hcrossed)]
    · simp [Traffic.executed, not_lt.mpr hcrossed]
    · simp [Traffic.executed, not_lt.mpr hcrossed]
  · rw [if_neg hcrossed] at ht
    have hpos := not_le.mp hcrossed
    obtain ⟨hfirst, hfee⟩ := ht
    refine h.first (p := p) (r := ⟨.rest, .no, rec.ticker, average.getD rec.price,
      some (fee.getD 0), crossed, rec.bucketSd⟩) hfirst rfl rfl rfl rfl ?_ ?_ ?_
    · show recordAmend W.capture rec crossed average fee = _
      rw [recordAmend, if_pos hpos]
    · simp [Traffic.executed, hpos]
    · have hreported : FeeReported (average.getD rec.price) crossed (some (fee.getD 0)) := by
        simpa only [FeeReported, Option.getD_some] using hfee
      rw [fillCost_of_reported hreported]
      simp [Traffic.executed, hpos]

/-- The answer of a wing that is booked whole keeps the costs in step. -/
theorem Costed.wing (h : Costed W) {coid : String} {lots ts : ℚ} {average fee : Option ℚ}
    (ht : BookedWhole W (.wing coid lots average fee ts)) :
    Costed (trade p W (.wing coid lots average fee ts)) := by
  have hwhole : ∀ leg ∈ wingOf W.st coid, leg.status ≠ .filled ∧ (0 < lots →
      (lots = leg.count ∧ OnGrid 100 lots) ∧ FeeReported (average.getD leg.limit) lots fee) := ht
  cases hleg : wingOf W.st coid with
  | none =>
    refine h.same ?_ ?_ (fun results => ?_) ?_
    · rw [trade_of_no_input (by simp only [Traffic.input, hleg, Option.map_none])]
      exact SameHoldings.refl W.st
    · simp only [trade_capture, Traffic.record, hleg]
    · simp [Traffic.executed, hleg]
    · simp [Traffic.executed, hleg]
  | some leg =>
    obtain ⟨hopen, hfill⟩ := hwhole leg hleg
    have hst : (V32.trade p W (.wing coid lots average fee ts)).st =
        (core p W.st (wingInput leg coid lots average ts)).st := by
      apply trade_of_input
      simp only [Traffic.input, hleg, Option.map_some]
    have hnamed : namedWing W.st (wingInput leg coid lots average ts) = some leg := hleg
    obtain ⟨hopened, hfilled⟩ := core_answer (p := p) hnamed hopen
    by_cases hpos : 0 < lots
    · obtain ⟨⟨hcount, hgrid⟩, hfee⟩ := hfill hpos
      have hbatches : W.st.wingBatches ≠ [] := by
        intro hnil
        have hmem := h.owned leg (List.mem_of_find?_eq_some hleg)
        rw [hnil] at hmem
        cases hmem
      rw [hcount] at hgrid
      refine @Costed.fillsWing W _ h leg ?_ hbatches ⟨.wing, leg.side, leg.ticker,
        average.getD leg.limit, fee, lots, none⟩ rfl hgrid ?_ ?_ ?_
      · rw [hst]
        exact hfilled (lt_max_of_lt_right hpos)
      · simp [Traffic.record, hleg, recordWing, hpos]
      · simp [Traffic.executed, hleg, hpos, ← hcount]
      · rw [fillCost_of_reported hfee]
        simp [Traffic.executed, hleg, hpos]
    · refine h.same ?_ ?_ (fun results => ?_) ?_
      · rw [hst]
        exact hopened (max_le le_rfl (not_lt.mp hpos))
      · simp [Traffic.record, hleg, recordWing, hpos]
      · simp [Traffic.executed, hpos]
      · simp [Traffic.executed, hpos]

/-- Every report that is booked whole keeps the two views together. -/
theorem Costed.trade (h : Costed W) {t : Traffic} (ht : BookedWhole W t) :
    Costed (trade p W t) := by
  cases t with
  | event ev =>
    refine h.idle (p := p) (i := .event ev) ht rfl rfl (fun results => ?_) (add_zero _)
    show settlementPayoff (W.held ++ []) results = _
    rw [List.append_nil]
  | frame rec fee count fresh ts => exact h.frame ht
  | poll rec filled fresh ts => exact h.poll ht
  | cancelled rec filled fresh ts => exact h.cancelled ht
  | amended rec crossed average fee ts => exact h.amended ht
  | wing coid lots average fee ts => exact h.wing ht

/-- A run of reports that are booked whole keeps the two views together. -/
theorem Costed.trades {ts : List Traffic} (hrun : Trades p BookedWhole ts W) : Costed W := by
  obtain ⟨start, ⟨closeTime, closeEpoch, bucketMap, shakedown, strikeFloorMap, rfl⟩, hfed⟩ := hrun
  refine hfed.preserves (I := Costed) (fun W t h ht => h.trade ht) ?_
  constructor
  · rfl
  · rfl
  · exact Or.inl rfl
  · exact fun _ => rfl
  · exact fun l hl => absurd hl List.not_mem_nil
  · rfl
  · exact fun f hf => absurd hf List.not_mem_nil
  · exact fun w hw => absurd hw List.not_mem_nil
  · intro results
    simp [settlementPayoff, restRecords, wingLots, filledWings, V32State.new]
  · rfl

end Steps

/-! ### The listed legs -/

section Listed

variable {st : V32State} {fallback : Option String}

/-- A record whose lots are used up is passed over. -/
theorem batchTickers_spent (b : WingBatch) (bs : List WingBatch) (f : FillRecord)
    (records : List FillRecord) :
    batchTickers st fallback (b :: bs) (f :: records) 0 =
      batchTickers st fallback (b :: bs) records (headLots records) := by
  simp [batchTickers, skipSpent]

/-- Where the records are the batches one by one, each batch is under the market of its record. -/
theorem batchTickers_of_records (records : List FillRecord) (batches : List WingBatch)
    (hlots : records.map FillRecord.count = batches.map WingBatch.fillCount)
    (hpos : ∀ f ∈ records, 0 < f.count) :
    batchTickers st fallback batches records (headLots records) =
      records.map fun f => (recordTicker st f).or fallback := by
  induction records generalizing batches with
  | nil =>
    have hnil : batches = [] := by simpa using hlots.symm
    rw [hnil]
    rfl
  | cons f records ih =>
    cases batches with
    | nil => simp at hlots
    | cons b batches =>
      simp only [List.map_cons, List.cons.injEq] at hlots
      obtain ⟨hcount, hrest⟩ := hlots
      have hkept : skipSpent (f :: records) (headLots (f :: records)) = (f :: records, f.count) :=
        if_neg (not_le.mpr (hpos f List.mem_cons_self))
      have htail : batchTickers st fallback batches (f :: records) (f.count - b.fillCount) =
          records.map fun f => (recordTicker st f).or fallback := by
        rw [← ih batches hrest fun g hg => hpos g (List.mem_cons_of_mem f hg), hcount, sub_self]
        cases batches with
        | nil => rfl
        | cons b' batches => exact batchTickers_spent b' batches f records
      rw [batchTickers, hkept]
      simp only [List.map_cons, htail]

/-- What a filled wing pays. -/
def wingPay (results : String → Side) (l : WingLeg) : ℚ :=
  if l.status = .filled ∧ results l.ticker = l.side then l.count else 0

/-- Listed wings pay what the filled ones pay. -/
theorem payoff_heldWings {legs : List WingLeg} {results : String → Side}
    (hgrid : ∀ l ∈ filledWings legs, OnGrid 100 l.count) :
    settlementPayoff (legs.filterMap heldWing) results = (legs.map (wingPay results)).sum := by
  induction legs with
  | nil => rfl
  | cons l legs ih =>
    have hrest := ih fun l' hl' => by
      refine hgrid l' ?_
      unfold filledWings at hl' ⊢
      rw [List.filter_cons]
      split_ifs
      · exact List.mem_cons_of_mem l hl'
      · exact hl'
    by_cases hfilled : l.status = .filled
    · have hcount : qCount l.count = l.count :=
        qCount_of_onGrid (hgrid l (by simp [filledWings, hfilled]))
      rw [List.filterMap_cons_some (b := ⟨l.ticker, l.side, qCount l.count⟩)
        (by simp [heldWing, hfilled]), List.map_cons, List.sum_cons, ← hrest, hcount]
      simp [settlementPayoff, wingPay, hfilled]
    · rw [List.filterMap_cons_none (by simp [heldWing, hfilled]), List.map_cons, List.sum_cons,
        hrest]
      simp [wingPay, hfilled]

/-- The filled wings pay what each pays. -/
theorem payoff_wingLots (legs : List WingLeg) (results : String → Side) :
    settlementPayoff (((filledWings legs).map wingLot).map wingHeld) results =
      (legs.map (wingPay results)).sum := by
  induction legs with
  | nil => rfl
  | cons l legs ih =>
    rw [List.map_cons, List.sum_cons, ← ih]
    by_cases hfilled : l.status = .filled
    · simp [filledWings, hfilled, settlementPayoff, wingPay, wingHeld, wingLot]
    · simp [filledWings, hfilled, wingPay]

/-- The batches under the markets of their records pay the lots of the records and the wings. -/
theorem payoff_listed (records : List FillRecord) (batches : List WingBatch)
    (hlots : records.map FillRecord.count = batches.map WingBatch.fillCount)
    (hrecords : ∀ f ∈ records, OnGrid 100 f.count ∧ f.ticker ≠ "") (results : String → Side) :
    settlementPayoff ((batches.zip (records.map fun f => (recordTicker st f).or fallback)).flatMap
        fun e => heldOfBatch st e.1 e.2) results =
      settlementPayoff (records.map restLeg) results +
        (batches.map fun b =>
          settlementPayoff ((batchLegs st b.index).filterMap heldWing) results).sum := by
  induction records generalizing batches with
  | nil =>
    have hnil : batches = [] := by simpa using hlots.symm
    rw [hnil]
    simp [settlementPayoff]
  | cons f records ih =>
    cases batches with
    | nil => simp at hlots
    | cons b batches =>
      simp only [List.map_cons, List.cons.injEq] at hlots
      obtain ⟨hcount, hrest⟩ := hlots
      obtain ⟨hgrid, hne⟩ := hrecords f List.mem_cons_self
      have hheld : heldOfBatch st b ((recordTicker st f).or fallback) =
          restLeg f :: (batchLegs st b.index).filterMap heldWing := by
        have hticker : truthy ((recordTicker st f).or fallback) = some f.ticker := by
          simp [recordTicker, truthy, hne]
        rw [heldOfBatch, hticker, ← hcount, qCount_of_onGrid hgrid]
        rfl
      have htail := ih batches hrest fun g hg => hrecords g (List.mem_cons_of_mem f hg)
      simp only [List.map_cons, List.zip_cons_cons, List.flatMap_cons, hheld, List.cons_append,
        List.sum_cons]
      rw [settlementPayoff_cons, settlementPayoff_append, htail, settlementPayoff_cons]
      ring

end Listed

/-! ### Conservation -/

section Conservation

variable {p : V32Params} {W : Trading}

/-- A window without a batch executed nothing. -/
theorem Costed.trueCash_of_nil (h : Costed W) (hnil : W.st.wingBatches = [])
    (results : String → Side) : trueCash W results = 0 := by
  have hfills := h.unstarted hnil
  have hlegs : W.st.wingLegs = [] := by
    refine List.eq_nil_iff_forall_not_mem.mpr fun l hl => ?_
    have hmem := h.owned l hl
    rw [hnil] at hmem
    cases hmem
  have hcosts := h.costs
  rw [hfills] at hcosts
  rw [trueCash, h.held, ← hcosts, hfills, wingLots, hlegs]
  simp [restRecords, filledWings, settlementPayoff]

/-- The listed legs pay what was executed. -/
theorem Costed.payoff_held (h : Costed W) (results : String → Side) :
    settlementPayoff ((batchesOnMarkets W.st W.capture.fills).flatMap
      fun e => heldOfBatch W.st e.1 e.2) results = settlementPayoff W.held results := by
  have hcounts : (restRecords W.capture.fills).map FillRecord.count =
      W.st.wingBatches.map WingBatch.fillCount := by
    rw [h.records, List.map_map]
    rfl
  have hgrid : ∀ legs ⊆ W.st.wingLegs, ∀ l ∈ filledWings legs, OnGrid 100 l.count := by
    intro legs hsub l hl
    obtain ⟨hmem, hfilled⟩ := List.mem_filter.mp hl
    exact h.wings (wingLot l) (List.mem_map_of_mem (List.mem_filter.mpr ⟨hsub hmem, hfilled⟩))
  have hindices : W.st.wingBatches.map WingBatch.index = List.range W.st.nextBatchIndex := by
    rw [← h.indices, List.map_map]
    rfl
  have hnodup : (W.st.wingBatches.map WingBatch.index).Nodup := by
    rw [hindices]
    exact List.nodup_range
  have hwings : (W.st.wingBatches.map fun b =>
      settlementPayoff ((batchLegs W.st b.index).filterMap heldWing) results).sum =
        (W.st.wingLegs.map (wingPay results)).sum := by
    rw [← Dict.sum_map_filter_key WingLeg.batch (wingPay results) hnodup h.owned, List.map_map]
    congr 1
    refine List.map_congr_left fun b _ => ?_
    exact payoff_heldWings (hgrid _ fun _ => List.mem_of_mem_filter)
  rw [batchesOnMarkets, batchTickers_of_records _ _ hcounts fun f hf => (h.lots f hf).1,
    payoff_listed _ _ hcounts (fun f hf => (h.lots f hf).2), hwings, h.held, wingLots,
    payoff_wingLots]

/-- A window whose two views agree books its cash result. -/
theorem Costed.conserved (h : Costed W) (closeTime : String) (results : String → Side) :
    bookedCash p closeTime W results = trueCash W results := by
  by_cases hnil : W.st.wingBatches = []
  · rw [h.trueCash_of_nil hnil]
    have hnone : computeMoneyMath W.st W.capture.fills p.contracts = none :=
      if_pos (Or.inl (by rw [h.unstarted hnil]; rfl))
    unfold bookedCash v32SettlementBackfillSweep
    dsimp only
    rw [sweep_singleton _ rfl, hnone]
    simp [buildV32LedgerRow]
  · have hfills : ¬W.capture.fills = [] := by
      intro hempty
      have hcounts := h.records
      rw [hempty] at hcounts
      exact hnil (by simpa [restRecords] using hcounts.symm)
    have hfill : W.st.restFill.isNone = false := by
      rw [h.mirror]
      cases hlast : W.st.restFills.getLast? with
      | none => exact absurd (List.getLast?_eq_none_iff.mp hlast) (h.started.resolve_left hnil)
      | some f => rfl
    have hsome : ¬(W.capture.fills.isEmpty = true ∨ W.st.restFill.isNone = true) := by
      simp [hfills, hfill]
    have hpayoff := h.payoff_held results
    unfold bookedCash v32SettlementBackfillSweep
    dsimp only
    rw [sweep_singleton _ rfl, computeMoneyMath, if_neg hsome, trueCash, ← hpayoff, ← h.costs]
    dsimp only
    by_cases hheld : ((batchesOnMarkets W.st W.capture.fills).flatMap
      fun e => heldOfBatch W.st e.1 e.2) = []
    · -- Nothing is listed: the floor is nothing and there is no backfill.
      have hfloor : ((batchesOnMarkets W.st W.capture.fills).map fun e =>
          v32SetFloorDollars (heldOfBatch W.st e.1 e.2).length e.1.fillCount).sum = 0 := by
        refine List.sum_eq_zero fun x hx => ?_
        obtain ⟨e, he, rfl⟩ := List.mem_map.mp hx
        have hnone : heldOfBatch W.st e.1 e.2 = [] := List.flatMap_eq_nil_iff.mp hheld e he
        rw [hnone]
        simp [v32SetFloorDollars, V33.v33SetFloorDollars]
      simp [buildV32LedgerRow, hheld, hfloor, settlementPayoff]
    · simp [buildV32LedgerRow, hheld, V33.buildV33BackfillRow, V33.LedgerRow.legs,
        V33.v33FloorBookedForEntry]

/-- In every run whose reports are booked whole, what a window books at close and at its
backfill is its cash result under every settlement result. -/
theorem window_cash_conserved {ts : List Traffic} (hrun : Trades p BookedWhole ts W)
    (closeTime : String) (results : String → Side) :
    bookedCash p closeTime W results = trueCash W results :=
  (Costed.trades hrun).conserved closeTime results

end Conservation

/-! ### The two lots of the sample window -/

/-- The sample window at its start. -/
def sampleTrading : Trading := ⟨sampleStart.st, ⟨[], []⟩, [], 0⟩

/-- The order of the sample window, as the executor records it. -/
def sampleRecord : RestRecord :=
  ⟨"v32--1", some "v1", 59 / 100, 2, "B100", some 100, 1000, .live, none⟩

/-- A book frame of the sample window. -/
def quotedAt (ticker : String) (yesBid yesAsk : ℕ) : Traffic :=
  .event (.bookUpdate ⟨ticker, centTop yesBid yesAsk, 1000, none⟩)

/-- The order rests for two lots. -/
def twoLotsResting : List Traffic :=
  [quotedAt "B100" 40 42, quotedAt "S200" 50 52, quotedAt "S100" 68 70,
    .event (.orderAck ⟨"v32--1", "v1", 1000⟩)]

/-- Both lots fill at once, and the wings fill whole. -/
def filledAtOnce : List Traffic :=
  twoLotsResting ++
    [.frame sampleRecord (some 0) 2 ⟨2, 59 / 100⟩ 1000,
      .wing "v32--2" 2 (some (70 / 100)) (some (147 / 10000)) 1000,
      .wing "v32--3" 2 (some (50 / 100)) (some (175 / 10000)) 1000]

/-- The lots fill one after the other. -/
def filledInParts : List Traffic :=
  twoLotsResting ++
    [.frame sampleRecord (some 0) 1 ⟨1, 59 / 100⟩ 1000,
      .frame sampleRecord (some 0) 1 ⟨1, 59 / 100⟩ 1000]

/-- Traffic that meets a condition all along makes a run from the sample window. -/
theorem trades_sample {ok : Trading → Traffic → Prop} {ts : List Traffic}
    (h : AllAlong (trade samplePolicy) ok sampleTrading ts) :
    Trades samplePolicy ok ts (ts.foldl (trade samplePolicy) sampleTrading) :=
  ⟨sampleTrading, ⟨_, _, _, _, _, rfl⟩, fed_of_allAlong h⟩

/-- The window whose order fills at once books its cash result. -/
theorem window_cash_conserved_sample :
    let W := filledAtOnce.foldl (trade samplePolicy) sampleTrading
    W.held.length = 3 ∧
      ∀ results, bookedCash samplePolicy "T" W results = trueCash W results :=
  ⟨by decide +kernel, window_cash_conserved (trades_sample (by decide +kernel)) "T"⟩

/-- The second lot of the order is held, but its cost is not booked. -/
theorem second_part_uncosted :
    ¬∀ (p : V32Params) (ts : List Traffic) (W : Trading) (closeTime : String)
      (results : String → Side), Trades p (fun _ _ => True) ts W →
        bookedCash p closeTime W results = trueCash W results := by
  intro h
  have hrun : Trades samplePolicy (fun _ _ => True) filledInParts
      (filledInParts.foldl (trade samplePolicy) sampleTrading) :=
    trades_sample (allAlong_of_forall fun _ _ _ => trivial)
  have hcash := h _ _ _ "T" (fun _ => .no) hrun
  revert hcash
  decide +kernel

end Pilot.V32
