import Pilot.V33.DueTriggers
import Pilot.V33.FreshPlacement

/-!
# The market of a print-through order

A resolved trigger sells its wings at the bids of the current spot's strikes, and buys its
shortfall at the NO ask of the bucket the ladder rests on. Its legs and its ticker are those
of the batch made at the trigger. Nothing looks at the time that is left.
-/

namespace Pilot.V33

/-- The bid of a book on a side. -/
def bidOn (side : Side) (top : TopOfBook) : Option ℚ :=
  match side with
  | .yes => top.yesBid
  | .no => top.noBid

/-- The current bid, on a side, of the market a ticker names. -/
def marketBid (st : V33State) (ticker : String) (side : Side) : Option ℚ :=
  match classifyTicker ticker st.bucketMap st.strikeFloorMap with
  | some (.strike floor) => (st.strikeTops.get? floor).bind (bidOn side)
  | some (.bucket floor) => (st.bucketTops.get? floor).bind (bidOn side)
  | none => none

/-- The current NO ask of a bucket. -/
def bucketNoAsk (st : V33State) (sd : ℤ) : Option ℚ := (st.bucketTops.get? sd).bind TopOfBook.noAsk

/-- The decision on an event emits `a` to complete the batch `b` of a trigger. -/
def Completes (p : V33Params) (st : V33State) (ev : Event) (a : V33Action) (b : WingBatch) :
    Prop := ∃ s shortfall, DueTrade.buy s b shortfall ∈ dues p st ev ∧ a = purchase s b shortfall

/-- A print-through order is on its own market and in time: a leg sold carries the bid of its
own ticker's book, a purchase carries the ask of the bucket it names, which is that of the batch
it completes, and neither comes inside the cutoff. -/
structure OnOwnMarket (p : V33Params) (st : V33State) (ev : Event) (a : V33Action) : Prop where
  sold : a.kind.isUnwind = true → ∀ l ∈ a.legs, l.limit.isSome ∧
    l.limit = marketBid (contextAt p st ev) l.ticker l.side
  bought : a.kind.isTakeNo = true → (∃ b, Completes p st ev a b) ∧ ∀ b, Completes p st ev a b →
    ∃ sd, b.bucketSd = some sd ∧ a.ticker.isSome ∧
      a.ticker = (contextAt p st ev).bucketTickers.get? sd ∧
      a.price.isSome ∧ a.price = bucketNoAsk (contextAt p st ev) sd
  inTime : a.kind.isUnwind = true ∨ a.kind.isTakeNo = true →
    (p.noOrdersAfterSToSettle : ℚ) ≤ st.closeEpoch - ev.serverTs

/-- A resolution that is due has something to trade: a leg with lots left and a bid for it,
or a shortfall. -/
def DueTrade.Trades : DueTrade → Prop
  | .sell st legs lots _ => ∃ l ∈ legs, 0 < lots l ∧ (bidOf (ptWingBids st) l.side).isSome
  | .buy _ _ _ => True

/-- Where a resolution that is due takes its quotes, its own markets show the same: the strike
of the spot and the strike of a leg one bid on the side of the leg, the ladder's bucket and the
bucket of the batch one NO ask. -/
def DueTrade.QuotesOwn (ctx : V33State) : DueTrade → Prop
  | .sell _ legs lots _ => ∀ l ∈ legs, 0 < lots l → (bidOf (ptWingBids ctx) l.side).isSome →
      marketBid ctx l.ticker l.side = bidOf (ptWingBids ctx) l.side
  | .buy _ b _ => ∀ sd ∈ b.bucketSd, bucketNoAsk ctx sd = ptBucketNoAsk ctx

instance (d : DueTrade) : Decidable d.Trades :=
  match d with
  | .sell st legs lots _ =>
    inferInstanceAs (Decidable (∃ l ∈ legs, 0 < lots l ∧ (bidOf (ptWingBids st) l.side).isSome))
  | .buy _ _ _ => inferInstanceAs (Decidable True)

instance (ctx : V33State) (d : DueTrade) : Decidable (d.QuotesOwn ctx) :=
  match d with
  | .sell _ legs lots _ =>
    inferInstanceAs (Decidable (∀ l ∈ legs, 0 < lots l → (bidOf (ptWingBids ctx) l.side).isSome →
      marketBid ctx l.ticker l.side = bidOf (ptWingBids ctx) l.side))
  | .buy _ b _ =>
    inferInstanceAs (Decidable (∀ sd ∈ b.bucketSd, bucketNoAsk ctx sd = ptBucketNoAsk ctx))

/-- Every trigger that an event ends is on quotes of its own markets, and none is ended by a
trade inside the cutoff. -/
structure OnOwnBucket (p : V33Params) (st : V33State) (ev : Event) : Prop where
  quotes : ∀ d ∈ dues p st ev, d.QuotesOwn (contextAt p st ev)
  inTime : ∀ d ∈ dues p st ev, d.Trades →
    (p.noOrdersAfterSToSettle : ℚ) ≤ st.closeEpoch - ev.serverTs

section Market

variable {p : V33Params} {now : ℚ} {s t st st' : V33State} {acts : List V33Action} {ev : Event}

/-! ### What a step sells and buys -/

/-- The bids of the wings are read from the context. -/
theorem ptWingBids_inContext (h : InContext s t) : ptWingBids t = ptWingBids s := by
  rw [ptWingBids, ptWingBids, congrArg Quote.spotSd h.quote, congrArg Quote.spotSu h.quote,
    congrArg Books.strikeTops h.books]

/-- The ask of the bucket is read from the context. -/
theorem ptBucketNoAsk_inContext (h : InContext s t) : ptBucketNoAsk t = ptBucketNoAsk s := by
  rw [ptBucketNoAsk, ptBucketNoAsk, ladderBucket, ladderBucket, h.rest,
    congrArg Quote.spotSd h.quote, congrArg Books.bucketTops h.books]

/-- A leg is sold if it has lots left and a bid, at that bid. -/
theorem mem_unwindSales {bids : Option ℚ × Option ℚ} {lots : WingLeg → ℚ} {legs : List WingLeg}
    {o : LegOrder} : o ∈ unwindSales bids lots legs ↔ ∃ l ∈ legs, 0 < lots l ∧ ∃ bid,
      bidOf bids l.side = some bid ∧ o = ⟨l.ticker, l.side, .sell, qCount (lots l), some bid⟩ := by
  refine List.mem_filterMap.trans (exists_congr fun l => and_congr_right fun _ => ?_)
  by_cases hlots : lots l ≤ 0
  · simp [hlots, not_lt.mpr hlots]
  · rw [if_neg hlots, Option.map_eq_some_iff]
    exact ⟨fun ⟨bid, hbid, ho⟩ => ⟨not_le.mp hlots, bid, hbid, ho.symm⟩,
      fun ⟨_, bid, hbid, ho⟩ => ⟨bid, hbid, ho.symm⟩⟩

/-- An unwind emits one action when it has something to sell. -/
theorem mem_unwindAction {sales : List LegOrder} {count : ℚ} {a : V33Action} :
    a ∈ unwindAction st sales count ↔ sales ≠ [] ∧
      a = mk st.shakedown { kind := .unwindWings, legs := sales, count := count } := by
  unfold unwindAction
  cases sales <;> simp

/-- A sale of wings is an unwind. -/
theorem isUnwind_sale (sh : Bool) (sales : List LegOrder) (count : ℚ) :
    (mk sh { kind := .unwindWings, legs := sales, count := count }).kind.isUnwind = true ∧
      (mk sh { kind := .unwindWings, legs := sales, count := count }).kind.isTakeNo = false := by
  cases sh <;> exact ⟨rfl, rfl⟩

/-- A purchase takes the bucket leg. -/
theorem isTakeNo_purchase (b : WingBatch) (shortfall : ℚ) :
    (purchase st b shortfall).kind.isTakeNo = true ∧
      (purchase st b shortfall).kind.isUnwind = false := by
  simp only [purchase, mk, twinKind]
  split <;> exact ⟨rfl, rfl⟩

/-- A resolution emits an order exactly if it has something to trade. -/
theorem DueTrade.trades_iff (d : DueTrade) : d.Trades ↔ ∃ a, a ∈ d.acts := by
  cases d with
  | buy st b shortfall => exact ⟨fun _ => ⟨_, List.mem_singleton_self _⟩, fun _ => trivial⟩
  | sell st legs lots count =>
    constructor
    · rintro ⟨l, hl, hlots, hbid⟩
      obtain ⟨bid, hbid⟩ := Option.isSome_iff_exists.mp hbid
      exact ⟨_, mem_unwindAction.mpr
        ⟨List.ne_nil_of_mem (mem_unwindSales.mpr ⟨l, hl, hlots, bid, hbid, rfl⟩), rfl⟩⟩
    · rintro ⟨a, ha⟩
      obtain ⟨o, ho⟩ := List.exists_mem_of_ne_nil _ (mem_unwindAction.mp ha).1
      obtain ⟨l, hl, hlots, bid, hbid, -⟩ := mem_unwindSales.mp ho
      exact ⟨l, hl, hlots, by rw [hbid]; rfl⟩

/-- An order of a decision that ends a trigger is one of a resolution that is due. -/
theorem CoidsOk.mem_dues (h : CoidsOk st) {a : V33Action} :
    (a ∈ (decideV33 p st ev).acts ∧ a.kind.isResolution = true) ↔
      ∃ d ∈ dues p st ev, a ∈ d.acts := by
  rw [← List.mem_flatMap, ← (h.ends ev).acts, resolutions, List.mem_filter]

/-- A resolution that is due has the quotes of the context of its event. -/
theorem CoidsOk.inContext (h : CoidsOk st) {d : DueTrade} (hd : d ∈ dues p st ev) :
    InContext (contextAt p st ev) d.state := by
  cases (h.ends ev).due d hd with
  | sell stepped => exact stepped.elim fun _ hrun => Run.inContext hrun
  | buy stepped => exact stepped.elim fun _ hrun => Run.inContext hrun

/-! ### The law -/

/-- A purchase names the bucket of its batch and carries the NO ask of the ladder's bucket. -/
theorem CoidsOk.purchased (h : CoidsOk st) (hwings : BatchesOk st ∧ TriggersOk st) {b : WingBatch}
    {shortfall : ℚ} (hd : DueTrade.buy s b shortfall ∈ dues p st ev) :
    (purchase s b shortfall).price.isSome ∧
      (purchase s b shortfall).price = ptBucketNoAsk (contextAt p st ev) ∧
      ∃ sd, b.bucketSd = some sd ∧ (purchase s b shortfall).ticker =
        some (((contextAt p st ev).bucketTickers.get? sd).getD "") := by
  obtain ⟨⟩ | ⟨⟨acts, hrun⟩, trigger, hmem, hbatch, hask⟩ := (h.ends ev).due _ hd
  have hinv := triggersOk_invariant p
  have hs : BatchesOk s ∧ TriggersOk s := Run.preserves (I := fun s => BatchesOk s ∧ TriggersOk s)
    (fun _ _ _ hstep hI => hinv.step hstep hI) hrun (hinv.context hwings ev)
  have hindex : b.index ∈ s.printThroughTriggers.map PrintThroughTrigger.batchIndex := by
    rw [batchOf_index hbatch]
    exact List.mem_map_of_mem hmem
  obtain ⟨-, hbucket⟩ := hs.2.early b (List.mem_of_find?_eq_some hbatch) hindex
  obtain ⟨sd, hsd⟩ := Option.isSome_iff_exists.mp hbucket
  refine ⟨hask, ptBucketNoAsk_inContext (Run.inContext hrun), sd, hsd, ?_⟩
  simp only [purchase, ptBatchBucket, hsd, congrArg Books.bucketTickers
    (Run.inContext hrun).books]
  rfl

/-- What is traded for triggers with quotes of their own markets is on its own market. -/
theorem OnOwnBucket.onOwnMarket (h : OnOwnBucket p st ev) (hcoids : CoidsOk st)
    (hknown : SpotKnown st) (hwings : BatchesOk st ∧ TriggersOk st) {a : V33Action}
    (ha : a ∈ (decideV33 p st ev).acts) : OnOwnMarket p st ev a where
  sold hkind o ho := by
    obtain ⟨d, hd, had⟩ := hcoids.mem_dues.mp ⟨ha, by simp [ActionKind.isResolution, hkind]⟩
    cases d with
    | buy s b shortfall =>
      rw [List.mem_singleton.mp had, (isTakeNo_purchase b shortfall).2] at hkind
      exact absurd hkind Bool.false_ne_true
    | sell s legs lots count =>
      obtain ⟨-, rfl⟩ := mem_unwindAction.mp had
      obtain ⟨l, hl, hlots, bid, hbid, rfl⟩ := mem_unwindSales.mp ho
      have hbids : ptWingBids s = _ := ptWingBids_inContext (hcoids.inContext hd)
      rw [hbids] at hbid
      have hown := h.quotes _ hd l hl hlots (by rw [hbid]; rfl)
      exact ⟨rfl, by rw [hown, hbid]⟩
  bought hkind := by
    obtain ⟨d, hd, had⟩ := hcoids.mem_dues.mp ⟨ha, by simp [ActionKind.isResolution, hkind]⟩
    refine ⟨?_, ?_⟩
    · cases d with
      | buy s b shortfall => exact ⟨b, s, shortfall, hd, List.mem_singleton.mp had⟩
      | sell s legs lots count =>
        obtain ⟨-, rfl⟩ := mem_unwindAction.mp had
        rw [(isUnwind_sale _ _ _).2] at hkind
        exact absurd hkind Bool.false_ne_true
    · rintro b ⟨s, shortfall, hd, rfl⟩
      obtain ⟨hsome, hprice, sd, hsd, hticker⟩ := hcoids.purchased hwings hd
      have hask := h.quotes _ hd sd hsd
      -- an ask of the bucket's book means that its ticker was seen
      have hseen : ((contextAt p st ev).bucketTickers.get? sd).isSome := by
        refine (hknown.contextAt (p := p) ev).topSeen sd ?_
        rw [hprice, ← hask, bucketNoAsk] at hsome
        cases htop : (contextAt p st ev).bucketTops.get? sd with
        | none => simp [htop] at hsome
        | some top => simp [Dict.contains, htop]
      obtain ⟨ticker, hget⟩ := Option.isSome_iff_exists.mp hseen
      rw [hget, Option.getD_some] at hticker
      exact ⟨sd, hsd, by rw [hticker]; rfl, by rw [hticker, hget], hsome, by rw [hprice, hask]⟩
  inTime hkind := by
    obtain ⟨d, hd, had⟩ := hcoids.mem_dues.mp ⟨ha, by simpa [ActionKind.isResolution] using hkind⟩
    exact h.inTime d hd (d.trades_iff.mpr ⟨a, had⟩)

/-- Orders on their own market are those of triggers with quotes of their own markets. -/
theorem CoidsOk.onOwnBucket (hcoids : CoidsOk st) (hwings : BatchesOk st ∧ TriggersOk st)
    (h : ∀ a ∈ (decideV33 p st ev).acts, OnOwnMarket p st ev a) : OnOwnBucket p st ev where
  quotes d hd := by
    cases d with
    | sell s legs lots count =>
      intro l hl hlots hbid
      obtain ⟨bid, hbid⟩ := Option.isSome_iff_exists.mp hbid
      have hbids : ptWingBids s = _ := ptWingBids_inContext (hcoids.inContext hd)
      have hsale := mem_unwindSales.mpr ⟨l, hl, hlots, bid, hbids ▸ hbid, rfl⟩
      obtain ⟨ha, -⟩ := hcoids.mem_dues.mpr
        ⟨_, hd, mem_unwindAction.mpr ⟨List.ne_nil_of_mem hsale, rfl⟩⟩
      rw [hbid]
      exact ((h _ ha).sold (isUnwind_sale _ _ _).1 _ hsale).2.symm
    | buy s b shortfall =>
      intro sd hsd
      obtain ⟨ha, -⟩ := hcoids.mem_dues.mpr ⟨_, hd, List.mem_singleton_self _⟩
      obtain ⟨sd', hsd', -, -, -, hprice⟩ := ((h _ ha).bought (isTakeNo_purchase b shortfall).1).2
        b ⟨s, shortfall, hd, rfl⟩
      obtain rfl := Option.some.inj (hsd.symm.trans hsd')
      rw [← hprice]
      exact (hcoids.purchased hwings hd).2.1
  inTime d hd htrades := by
    obtain ⟨a, had⟩ := d.trades_iff.mp htrades
    obtain ⟨ha, hres⟩ := hcoids.mem_dues.mpr ⟨d, hd, had⟩
    exact (h a ha).inTime (by simpa [ActionKind.isResolution] using hres)

end Market

/-! ### Runs -/

/-- At every point of a run the print-through orders of a decision are on their own market and in
time exactly if the triggers the event ends have quotes of their own markets and time left. -/
theorem own_market_iff (p : V33Params) (evs : List Event) (st : V33State)
    (h : Reached p (fun _ _ => True) evs st) (ev : Event) :
    (∀ a ∈ (decideV33 p st ev).acts, OnOwnMarket p st ev a) ↔ OnOwnBucket p st ev := by
  obtain ⟨hcoids, hknown⟩ : CoidsOk st ∧ SpotKnown st := h.preserves
    (I := fun st => CoidsOk st ∧ SpotKnown st)
    (fun st hst => ⟨CoidsOk.new hst, SpotKnown.new hst⟩)
    (fun st ev hst _ => ⟨hst.1.decide ev, hst.2.decide hst.1 ev⟩)
  have hwings := TriggersOk.reached h
  exact ⟨hcoids.onOwnBucket hwings, fun hbucket _ => hbucket.onOwnMarket hcoids hknown hwings⟩

/-- A trigger fired on the sample ladder and its YES wing filled. -/
def oneWingFilled : List Event :=
  sampleOpening ++ [.trade ⟨"B100", 40 / 100, .yes, 1, 1002⟩,
    .fill ⟨none, "c-3", 2, some (70 / 100), .yes, 1003, some "S100", none⟩]

/-- The NO wing is missed. -/
def otherWingMissed : Event := .fill ⟨none, "c-4", 0, none, .no, 1003, some "S200", none⟩

/-- The filled wing is sold back at its own bid while the spot is still on its bucket. -/
theorem own_market_sample :
    (∃ a ∈ (decideV33 samplePolicy (after samplePolicy (sampleWindow samplePolicy) oneWingFilled)
        otherWingMissed).acts, a.kind.isUnwind = true) ∧
      ∀ a ∈ (decideV33 samplePolicy (after samplePolicy (sampleWindow samplePolicy) oneWingFilled)
        otherWingMissed).acts, OnOwnMarket samplePolicy
          (after samplePolicy (sampleWindow samplePolicy) oneWingFilled) otherWingMissed a := by
  refine ⟨by decide +kernel, (own_market_iff samplePolicy oneWingFilled _
    (reached_sample (by decide +kernel)) otherWingMissed).mpr ⟨?_, ?_⟩⟩
  · decide +kernel
  · decide +kernel

/-- The spot switches before the wings are in: the filled wing is sold back at the bid of the
other bucket's strike. -/
theorem sold_on_other_strike :
    ¬∀ a ∈ (decideV33 samplePolicy (after samplePolicy (sampleWindow samplePolicy) oneWingFilled)
      (centBook "B200" 60 62 1004)).acts, OnOwnMarket samplePolicy
        (after samplePolicy (sampleWindow samplePolicy) oneWingFilled) (centBook "B200" 60 62 1004)
          a := by
  intro h
  have hsale : ∃ a ∈ (decideV33 samplePolicy (after samplePolicy (sampleWindow samplePolicy)
      oneWingFilled) (centBook "B200" 60 62 1004)).acts, a.kind.isUnwind = true ∧ ∃ l ∈ a.legs,
        l.limit ≠ marketBid (contextAt samplePolicy (after samplePolicy (sampleWindow samplePolicy)
          oneWingFilled) (centBook "B200" 60 62 1004)) l.ticker l.side := by decide +kernel
  obtain ⟨a, ha, hkind, l, hl, hne⟩ := hsale
  exact hne ((h a ha).sold hkind l hl).2

end Pilot.V33
