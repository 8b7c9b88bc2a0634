import Pilot.Corridor.WindowLaw

/-!
# One entry, on fresh books

Over a whole window the corridor posts at most one entry. Its legs are bought at the asks of the
latest books of their markets, neither of which is suspect or old, and the pair qualifies at these
asks.
-/

namespace Pilot.Corridor

open Box (EntryMoment LegOrder legCost)
open V1 (Deed Executor Intent IntentLeg Source)

/-! ### The law -/

/-- The book of a market a frame brings, with its time. -/
def WindowEvent.topOf (market : String) : WindowEvent → Option (TopOfBook × ℚ)
  | .frame m top now _ _ => if m = market then some (top, now) else none
  | _ => none

/-- The latest book of a market, with its time. -/
def latest (events : List WindowEvent) (market : String) : Option (TopOfBook × ℚ) :=
  events.reverse.findSome? (WindowEvent.topOf market)

/-- A book that is not suspect, and fresh. -/
structure Fresh (p : PolicyParams) (now : ℚ) (book : TopOfBook × ℚ) : Prop where
  sound : book.1.suspect = false
  past : book.2 ≤ now
  recent : now - book.2 ≤ p.freshnessMaxLegAgeS

/-- What a leg of an order buys. -/
def wanted (leg : IntentLeg) : String × Side × ℤ × ℚ :=
  (leg.ticker, leg.side, leg.count, leg.limitPrice)

/-- Lots of a side of each leg, at two prices. -/
def pairAt (st : WindowState) (highSide lowSide : Side) (lots : ℕ) (a b : ℚ) :
    List (String × Side × ℤ × ℚ) :=
  [(st.highTicker, highSide, lots, a), (st.lowTicker, lowSide, lots, b)]

/-- The order is a flip at the asks of two books, below its ceiling. -/
structure FlipAt (g : CorridorWindow) (st : WindowState) (high low : TopOfBook) (intent : Intent)
    (a b : ℚ) : Prop where
  source : intent.source = .subDollarFlip
  routed : .subDollarFlip ∈ g.policy.sourcesForQuintile st.quintile
  highAsk : high.noAsk = some a
  lowAsk : low.yesAsk = some b
  below : legCost a + legCost b < g.policy.subDollarCMax
  legs : intent.legs.map wanted = pairAt st .no .yes g.pairs a b

/-- The order is a strangle at the asks of two books, worth enough. -/
structure StrangleAt (g : CorridorWindow) (st : WindowState) (high low : TopOfBook)
    (intent : Intent) (a b : ℚ) : Prop where
  source : intent.source = .q1Strangle
  routed : .q1Strangle ∈ g.policy.sourcesForQuintile st.quintile
  first : st.quintile = 0
  enabled : st.strangleDisabled = false
  highAsk : high.yesAsk = some a
  lowAsk : low.noAsk = some b
  worth : g.policy.q1StrangleEvMin ≤ st.fairStrangleQ - (legCost a + legCost b)
  legs : intent.legs.map wanted = pairAt st .yes .no g.pairs a b

/-- An entry made inside the window on two books. -/
structure EntryAt (g : CorridorWindow) (st : WindowState) (high low : TopOfBook × ℚ) (now : ℚ)
    (intent : Intent) : Prop where
  notEarly : st.T - now ≤ windowS
  notLate : g.policy.imbalance.noOrdersAfterSToSettle ≤ st.T - now
  highFresh : Fresh g.policy now high
  lowFresh : Fresh g.policy now low
  buys : ∀ leg ∈ intent.legs, leg.action = .buy
  pair : ∃ a b, FlipAt g st high.1 low.1 intent a b ∨ StrangleAt g st high.1 low.1 intent a b

/-- The entries posted. -/
def entries (deeds : List Deed) : List Intent :=
  (posts deeds).filter fun intent => intent.purpose = .entry

/-- The entry follows a frame whose latest books carry it. -/
def Founded (g : CorridorWindow) (st : WindowState) (events : List WindowEvent) (intent : Intent) :
    Prop :=
  ∃ pre market top now e c post high low,
    events = pre ++ .frame market top now e c :: post ∧
      latest (pre ++ [.frame market top now e c]) st.highTicker = some high ∧
      latest (pre ++ [.frame market top now e c]) st.lowTicker = some low ∧
      EntryAt g st high low now intent

/-- A state before its first frame. -/
structure Unseen (st : WindowState) : Prop where
  highTop : st.highTop = none
  lowTop : st.lowTop = none
  highTs : st.highTs = none
  lowTs : st.lowTs = none
  entered : st.entered = false

/-! ### The decision -/

section Decision

variable {g : CorridorWindow} {p : PolicyParams} {st : WindowState} {now : ℚ}

/-- The latest frame of a market is the new one, if it is of that market. -/
theorem latest_append (events : List WindowEvent) (ev : WindowEvent) (market : String) :
    latest (events ++ [ev]) market = (ev.topOf market).or (latest events market) := by
  unfold latest
  rw [List.reverse_append, List.reverse_singleton, List.singleton_append, List.findSome?_cons]
  cases ev.topOf market <;> rfl

/-- A leg whose age is known was updated then. -/
theorem legAge_eq_some {lastTs : Option ℚ} {age : ℚ} (h : legAge now lastTs = some age) :
    ∃ ts, lastTs = some ts ∧ age = now - ts ∧ ts ≤ now := by
  unfold legAge at h
  obtain ⟨hmap, hage⟩ := Option.filter_eq_some_iff.mp h
  obtain ⟨ts, rfl, rfl⟩ := Option.map_eq_some_iff.mp hmap
  exact ⟨ts, rfl, rfl, sub_nonneg.mp (of_decide_eq_true hage)⟩

/-- The books of both legs are fresh. -/
theorem bothFresh_eq_some {ht lt : TopOfBook} (h : bothFresh st now p = some (ht, lt)) :
    ∃ hts lts, st.highTop = some ht ∧ st.highTs = some hts ∧ st.lowTop = some lt ∧
      st.lowTs = some lts ∧ Fresh p now (ht, hts) ∧ Fresh p now (lt, lts) := by
  unfold bothFresh at h
  split at h
  · rename_i ht' lt' ha la hhigh hlow hha hla
    split_ifs at h with hsuspect hage
    cases h
    obtain ⟨hts, hhts, rfl, hpast⟩ := legAge_eq_some hha
    obtain ⟨lts, hlts, rfl, hpast'⟩ := legAge_eq_some hla
    rw [not_or, Bool.not_eq_true, Bool.not_eq_true] at hsuspect
    exact ⟨hts, lts, hhigh, hhts, hlow, hlts, ⟨hsuspect.1, hpast, hage.1⟩,
      ⟨hsuspect.2, hpast', hage.2⟩⟩
  · cases h

/-- A pair has a cost when both legs have a price. -/
theorem pairCost_eq_some {x y : Option ℚ} {C : ℚ} (h : pairCost x y = some C) :
    ∃ a b, x = some a ∧ y = some b ∧ C = legCost a + legCost b := by
  obtain ⟨a, rfl, h⟩ := Option.bind_eq_some_iff.mp h
  obtain ⟨b, rfl, rfl⟩ := Option.map_eq_some_iff.mp h
  exact ⟨a, b, rfl, rfl, rfl⟩

/-- What an entry on two legs buys. -/
theorem wanted_entryIntent (source : Source) (st : WindowState) (highSide lowSide : Side)
    (a b : ℚ) (action : Action) (e : EntryMoment)
    (hlegs : action.legs = pairLegs st highSide lowSide (some a) (some b)) :
    (entryIntent g source action e).legs.map wanted =
      pairAt st highSide lowSide g.pairs a b := by
  unfold entryIntent
  rw [hlegs]
  simp [pairLegs, pairAt, wanted]

/-- A decision that fires was made on a pair that qualifies. -/
theorem decideFolded_fires {action : Action} (h : (decideFolded p st now).2 = [action])
    (hfire : action.kind = .fire) :
    ∃ q, qualifier p st now = some q ∧ action.source = some q.source ∧ action.legs = q.legs ∧
      st.T - now ≤ windowS ∧ p.imbalance.noOrdersAfterSToSettle ≤ st.T - now := by
  unfold decideFolded at h
  dsimp only at h
  split_ifs at h with hentered hcutoff hwarm
  · unfold standDown at h
    split_ifs at h
    cases h
    cases hfire
  · cases hq : qualifier p st now with
    | none =>
      rw [hq] at h
      cases h
    | some q =>
      rw [hq] at h
      cases h
      exact ⟨q, rfl, rfl, rfl, not_lt.mp hwarm, not_lt.mp hcutoff⟩

/-- An entry on a pair that qualifies. -/
theorem entryAt_of_qualifier {q : Qualifier} {action : Action} {e : EntryMoment} {source : Source}
    (hq : qualifier g.policy st now = some q) (hsource : some source = some q.source)
    (hlegs : action.legs = q.legs) (hearly : st.T - now ≤ windowS)
    (hlate : g.policy.imbalance.noOrdersAfterSToSettle ≤ st.T - now) :
    ∃ ht hts lt lts, st.highTop = some ht ∧ st.highTs = some hts ∧ st.lowTop = some lt ∧
      st.lowTs = some lts ∧
      EntryAt g st (ht, hts) (lt, lts) now (entryIntent g source action e) := by
  obtain ⟨⟨ht, lt⟩, htops, hpair⟩ := Option.bind_eq_some_iff.mp hq
  obtain ⟨hts, lts, hhigh, hhts, hlow, hlts, hfresh, hfresh'⟩ := bothFresh_eq_some htops
  refine ⟨ht, hts, lt, lts, hhigh, hhts, hlow, hlts, hearly, hlate, hfresh, hfresh',
    fun leg hleg => buy_of_mem_entryIntent hleg, ?_⟩
  dsimp only at hpair
  rcases Option.or_eq_some_iff.mp hpair with hflip | ⟨-, hstrangle⟩
  · unfold flipQualifier at hflip
    split_ifs at hflip with hrouted
    obtain ⟨C, hC, hflip⟩ := Option.bind_eq_some_iff.mp hflip
    split_ifs at hflip with hbelow
    cases hflip
    cases hsource
    obtain ⟨a, b, ha, hb, rfl⟩ := pairCost_eq_some hC
    rw [ha, hb] at hlegs
    exact ⟨a, b, Or.inl ⟨rfl, hrouted, ha, hb, hbelow,
      wanted_entryIntent _ st .no .yes a b action e hlegs⟩⟩
  · unfold strangleQualifier at hstrangle
    split_ifs at hstrangle with hrouted
    obtain ⟨C, hC, hstrangle⟩ := Option.bind_eq_some_iff.mp hstrangle
    split_ifs at hstrangle with hworth
    cases hstrangle
    cases hsource
    obtain ⟨a, b, ha, hb, rfl⟩ := pairCost_eq_some hC
    rw [ha, hb] at hlegs
    exact ⟨a, b, Or.inr ⟨rfl, hrouted.1, hrouted.2.1, by simpa using hrouted.2.2, ha, hb, hworth,
      wanted_entryIntent _ st .yes .no a b action e hlegs⟩⟩

end Decision

/-! ### The state of the signal -/

section Signal

variable {g : CorridorWindow} {w : WindowService}

/-- Sales leave the signal alone. -/
theorem signal_dispatchActions (g : CorridorWindow) (s : V1.LedgerState) (m : StopMoment)
    (w : WindowService) (acts : List PositionAction) :
    (dispatchActions g s m w acts).signal = w.signal := by
  have hone (w : WindowService) (act : PositionAction) :
      (dispatchAction g s m w act).1.signal = w.signal := by
    unfold dispatchAction
    cases act.kind with
    | hold => rfl
    | flatten =>
      dsimp only
      cases (bids s m).get? act.ticker with
      | none => rfl
      | some bid =>
        dsimp only
        split
        · rfl
        · unfold foldFlattenResponse
          split <;> rfl
  induction acts generalizing w with
  | nil => rfl
  | cons act acts ih =>
    unfold dispatchActions
    dsimp only
    split_ifs
    · exact (ih _).trans (hone w act)
    · exact hone w act

/-- A stop leaves the signal alone. -/
theorem signal_trip (g : CorridorWindow) (w : WindowService) (stop : StopKind)
    (reason : StopReason) (s : V1.LedgerState) (m : StopMoment) :
    (trip g w stop reason s m).signal = w.signal := by
  unfold trip
  rw [signal_dispatchActions]
  unfold freeze setArmed
  rw [if_neg (by simp)]

/-- The check of the positions leaves the signal alone. -/
theorem signal_reconcile (g : CorridorWindow) (w : WindowService) (s : V1.LedgerState)
    (body : V1.Json) (m : StopMoment) : (reconcile g w s body m).signal = w.signal := by
  unfold reconcile
  dsimp only
  split_ifs
  · rfl
  · exact signal_trip g w _ _ s m

/-- A poll of the positions leaves the signal alone. -/
theorem signal_s3PollOnce (g : CorridorWindow) (w : WindowService) (positions : Option V1.Json)
    (m : StopMoment) : (s3PollOnce g w positions m).signal = w.signal := by
  unfold s3PollOnce
  split
  · exact signal_reconcile g w _ _ m
  · rfl

/-- The checks after an entry leave the signal alone. -/
theorem signal_postEntryChecks (g : CorridorWindow) (w : WindowService) (s : V1.LedgerState)
    (intent : Intent) (responses : List V1.OrderResponse) (tMinusS : ℚ) (c : CheckMoment) :
    (postEntryChecks g w s intent responses tMinusS c).signal = w.signal := by
  unfold postEntryChecks
  dsimp only
  obtain ⟨stops, hfold, -⟩ :=
    foldl_raiseAlarm (checkSlippageAlarms intent responses g.stopConfig) w
  rw [hfold]
  cases checkS1 s with
  | some reason => exact signal_trip g _ _ _ s c.stop
  | none =>
    dsimp only
    unfold afterRebalance
    dsimp only
    split
    · rfl
    · exact signal_trip g _ _ _ _ c.stop
    · exact signal_s3PollOnce g _ c.positions c.stop

/-- Acting on a decision leaves the signal alone. -/
theorem signal_onSignalAction (g : CorridorWindow) (w : WindowService) (action : Action)
    (e : EntryMoment) (c : CheckMoment) : (onSignalAction g w action e c).signal = w.signal := by
  unfold onSignalAction
  split
  · unfold sendEntry
    dsimp only
    split
    · rfl
    · split_ifs
      · exact signal_postEntryChecks g _ _ _ _ _ c
      · rfl
  · rfl

/-- The signal moves with the frames alone. -/
theorem signal_windowStep (g : CorridorWindow) (w : WindowService) (ev : WindowEvent) :
    (windowStep g w ev).signal = w.signal ∧ (∀ market, ev.topOf market = none) ∨
      ∃ market top now e c, ev = .frame market top now e c ∧ (windowStep g w ev).signal =
        (decide g.policy w.signal (.bookUpdate market top now)).1 := by
  cases ev with
  | pollStart =>
    refine Or.inl ⟨?_, fun _ => rfl⟩
    unfold windowStep pollStart
    dsimp only
    split_ifs <;> rfl
  | pollEnd positions m =>
    refine Or.inl ⟨?_, fun _ => rfl⟩
    unfold windowStep pollEnd
    dsimp only
    split
    · split_ifs
      · exact signal_reconcile g { w with polling := none } _ _ m
      · rfl
    · rfl
  | setArmed value =>
    refine Or.inl ⟨?_, fun _ => rfl⟩
    unfold windowStep setArmed
    dsimp only
    split_ifs <;> rfl
  | frame market top now e c =>
    right
    refine ⟨market, top, now, e, c, rfl, ?_⟩
    unfold windowStep
    dsimp only
    rcases (decide_decides g.policy w.signal (.bookUpdate market top now)).fires with
      hnone | ⟨action, hone, -⟩
    · rw [hnone]
      rfl
    · rw [hone, List.foldl_cons, List.foldl_nil]
      exact signal_onSignalAction g _ action e c

end Signal

/-! ### Runs -/

section Runs

variable {g : CorridorWindow} {start st : WindowState} {events : List WindowEvent}
  {w : WindowService} {intent : Intent}

/-- The state is that of the start, with the latest books of its legs. -/
structure Tracks (start : WindowState) (events : List WindowEvent) (st : WindowState) : Prop where
  T : st.T = start.T
  highTicker : st.highTicker = start.highTicker
  lowTicker : st.lowTicker = start.lowTicker
  quintile : st.quintile = start.quintile
  fairStrangleQ : st.fairStrangleQ = start.fairStrangleQ
  strangleDisabled : st.strangleDisabled = start.strangleDisabled
  highTop : st.highTop = (latest events start.highTicker).map Prod.fst
  highTs : st.highTs = (latest events start.highTicker).map Prod.snd
  lowTop : st.lowTop = (latest events start.lowTicker).map Prod.fst
  lowTs : st.lowTs = (latest events start.lowTicker).map Prod.snd

/-- Tracking is a matter of the fields that frames write. -/
theorem Tracks.of_same {st' : WindowState} (h : Tracks start events st) (hT : st'.T = st.T)
    (hhigh : st'.highTicker = st.highTicker) (hlow : st'.lowTicker = st.lowTicker)
    (hquintile : st'.quintile = st.quintile) (hfair : st'.fairStrangleQ = st.fairStrangleQ)
    (hdisabled : st'.strangleDisabled = st.strangleDisabled) (hhighTop : st'.highTop = st.highTop)
    (hhighTs : st'.highTs = st.highTs) (hlowTop : st'.lowTop = st.lowTop)
    (hlowTs : st'.lowTs = st.lowTs) : Tracks start events st' :=
  ⟨hT.trans h.T, hhigh.trans h.highTicker, hlow.trans h.lowTicker, hquintile.trans h.quintile,
    hfair.trans h.fairStrangleQ, hdisabled.trans h.strangleDisabled, hhighTop.trans h.highTop,
    hhighTs.trans h.highTs, hlowTop.trans h.lowTop, hlowTs.trans h.lowTs⟩

/-- An event without a book of either leg is not tracked. -/
theorem Tracks.skip (h : Tracks start events st) {ev : WindowEvent}
    (hhigh : ev.topOf start.highTicker = none) (hlow : ev.topOf start.lowTicker = none) :
    Tracks start (events ++ [ev]) st := by
  refine ⟨h.T, h.highTicker, h.lowTicker, h.quintile, h.fairStrangleQ, h.strangleDisabled,
    ?_, ?_, ?_, ?_⟩
  · rw [latest_append, hhigh, Option.none_or]
    exact h.highTop
  · rw [latest_append, hhigh, Option.none_or]
    exact h.highTs
  · rw [latest_append, hlow, Option.none_or]
    exact h.lowTop
  · rw [latest_append, hlow, Option.none_or]
    exact h.lowTs

/-- A frame speaks of its own market. -/
theorem topOf_frame (market market' : String) (top : TopOfBook) (now : ℚ) (e : EntryMoment)
    (c : CheckMoment) : (WindowEvent.frame market top now e c).topOf market' =
      if market = market' then some (top, now) else none := rfl

/-- A frame brings the latest book of its market. -/
theorem Tracks.fold (h : Tracks start events st) (hne : start.highTicker ≠ start.lowTicker)
    (market : String) (top : TopOfBook) (now : ℚ) (e : EntryMoment) (c : CheckMoment) :
    Tracks start (events ++ [.frame market top now e c])
      ((foldEvent st (.bookUpdate market top now)).getD st) := by
  unfold foldEvent
  dsimp only
  rw [h.highTicker, h.lowTicker]
  by_cases hhigh : market = start.highTicker
  · have hlow : market ≠ start.lowTicker := hhigh ▸ hne
    rw [if_pos hhigh, Option.getD_some]
    refine ⟨h.T, rfl, rfl, h.quintile, h.fairStrangleQ, h.strangleDisabled, ?_, ?_, ?_, ?_⟩
    · rw [latest_append, topOf_frame, if_pos hhigh]
      rfl
    · rw [latest_append, topOf_frame, if_pos hhigh]
      rfl
    · rw [latest_append, topOf_frame, if_neg hlow]
      exact h.lowTop
    · rw [latest_append, topOf_frame, if_neg hlow]
      exact h.lowTs
  · rw [if_neg hhigh]
    by_cases hlow : market = start.lowTicker
    · rw [if_pos hlow, Option.getD_some]
      refine ⟨h.T, rfl, rfl, h.quintile, h.fairStrangleQ, h.strangleDisabled, ?_, ?_, ?_, ?_⟩
      · rw [latest_append, topOf_frame, if_neg hhigh]
        exact h.highTop
      · rw [latest_append, topOf_frame, if_neg hhigh]
        exact h.highTs
      · rw [latest_append, topOf_frame, if_pos hlow]
        rfl
      · rw [latest_append, topOf_frame, if_pos hlow]
        rfl
    · rw [if_neg hlow, Option.getD_none]
      exact h.skip (if_neg hhigh) (if_neg hlow)

/-- A decision leaves the books as they are. -/
theorem Tracks.decideFolded (h : Tracks start events st) (p : PolicyParams) (now : ℚ) :
    Tracks start events (decideFolded p st now).1 := by
  unfold Corridor.decideFolded
  dsimp only
  split_ifs
  · exact h
  · unfold standDown
    split_ifs
    · exact h
    · exact h.of_same rfl rfl rfl rfl rfl rfl rfl rfl rfl rfl
  · exact h
  · cases qualifier p st now with
    | none => exact h
    | some q => exact h.of_same rfl rfl rfl rfl rfl rfl rfl rfl rfl rfl

/-- A decision folds its event first, and is empty when the event is not for the window. -/
theorem decide_eq (p : PolicyParams) (st : WindowState) (ev : Event) :
    decide p st ev = ((foldEvent st ev).map fun st => Corridor.decideFolded p st ev.serverTs).getD
      (st, []) := by
  unfold decide
  cases foldEvent st ev <;> rfl

/-- What is tracked after an event. -/
theorem Tracks.step (h : Tracks start events w.signal) (hne : start.highTicker ≠ start.lowTicker)
    (ev : WindowEvent) : Tracks start (events ++ [ev]) (windowStep g w ev).signal := by
  rcases signal_windowStep g w ev with ⟨hsame, hnone⟩ | ⟨market, top, now, e, c, rfl, hframe⟩
  · rw [hsame]
    exact h.skip (hnone _) (hnone _)
  · rw [hframe, decide_eq]
    have hfold := h.fold hne market top now e c
    cases hevent : foldEvent w.signal (.bookUpdate market top now) with
    | none =>
      rw [hevent] at hfold
      exact hfold
    | some st =>
      rw [hevent] at hfold
      exact hfold.decideFolded g.policy now

/-- An entry decided in the tracked state is one on the frames so far. -/
theorem EntryAt.of_tracks {high low : TopOfBook × ℚ} {now : ℚ} (h : Tracks start events st)
    (hentry : EntryAt g st high low now intent) : EntryAt g start high low now intent := by
  obtain ⟨hearly, hlate, hhigh, hlow, hbuys, a, b, hpair⟩ := hentry
  rw [h.T] at hearly hlate
  refine ⟨hearly, hlate, hhigh, hlow, hbuys, a, b, ?_⟩
  rcases hpair with ⟨hsource, hrouted, ha, hb, hbelow, hlegs⟩ |
    ⟨hsource, hrouted, hfirst, henabled, ha, hb, hworth, hlegs⟩
  · left
    unfold pairAt at hlegs
    rw [h.quintile] at hrouted
    rw [h.highTicker, h.lowTicker] at hlegs
    exact ⟨hsource, hrouted, ha, hb, hbelow, hlegs⟩
  · right
    unfold pairAt at hlegs
    rw [h.quintile] at hrouted hfirst
    rw [h.strangleDisabled] at henabled
    rw [h.fairStrangleQ] at hworth
    rw [h.highTicker, h.lowTicker] at hlegs
    exact ⟨hsource, hrouted, hfirst, henabled, ha, hb, hworth, hlegs⟩

/-- A top and its stamp come from one frame. -/
theorem latest_of_tracks {market : String} {top : TopOfBook} {ts : ℚ}
    (htop : some top = (latest events market).map Prod.fst)
    (hts : some ts = (latest events market).map Prod.snd) :
    latest events market = some (top, ts) := by
  obtain ⟨⟨top', ts'⟩, hlatest, rfl⟩ := Option.map_eq_some_iff.mp htop.symm
  rw [hlatest] at hts ⊢
  cases hts
  rfl

/-- What every window keeps of its entries. -/
structure EntriesOk (g : CorridorWindow) (start : WindowState) (events : List WindowEvent)
    (w : WindowService) : Prop where
  tracks : Tracks start events w.signal
  unentered : w.signal.entered = false → entries w.executor.deeds = []
  once : (entries w.executor.deeds).length ≤ 1
  founded : ∀ intent ∈ entries w.executor.deeds, Founded g start events intent

/-- An entry stays founded as events follow. -/
theorem Founded.append (h : Founded g start events intent) (ev : WindowEvent) :
    Founded g start (events ++ [ev]) intent := by
  obtain ⟨pre, market, top, now, e, c, post, high, low, rfl, hrest⟩ := h
  exact ⟨pre, market, top, now, e, c, post ++ [ev], high, low, by simp, hrest⟩

/-- The entries of two logs are those of each. -/
theorem entries_append (deeds more : List Deed) :
    entries (deeds ++ more) = entries deeds ++ entries more := by
  unfold entries
  rw [posts_append, List.filter_append]

/-- Quiet deeds add no entry. -/
theorem entries_of_quiet {deeds deeds' : List Deed} (h : Quiet deeds deeds') :
    entries deeds' = entries deeds := by
  obtain ⟨more, rfl, hmore⟩ := h
  have hnone : entries more = [] := by
    unfold entries
    rw [List.filter_eq_nil_iff]
    intro intent hmem
    simpa using hmore intent hmem
  rw [entries_append, hnone, List.append_nil]

/-- An entered window stays entered. -/
theorem entered_windowStep (h : w.signal.entered = true) (ev : WindowEvent) :
    (windowStep g w ev).signal.entered = true := by
  rcases signal_windowStep g w ev with ⟨hsame, -⟩ | ⟨market, top, now, e, c, -, hframe⟩
  · rw [hsame]
    exact h
  · rw [hframe]
    exact ((decide_decides _ _ _).entered h).1

/-- What an event keeps. -/
theorem EntriesOk.step (h : EntriesOk g start events w) (hne : start.highTicker ≠ start.lowTicker)
    (ev : WindowEvent) : EntriesOk g start (events ++ [ev]) (windowStep g w ev) := by
  have htracks := h.tracks.step (g := g) hne ev
  rcases windowStep_cases g w ev with
    hquiet | ⟨market, top, now, e, c, action, source, more, rfl, hone, hkind, hsource, hposts,
      hquiet⟩
  · have hentries := entries_of_quiet hquiet
    refine ⟨htracks, fun hnot => ?_, ?_, ?_⟩
    · rw [hentries]
      apply h.unentered
      by_contra hentered
      rw [entered_windowStep (by simpa using hentered) ev] at hnot
      cases hnot
    · rw [hentries]
      exact h.once
    · rw [hentries]
      exact fun intent hmem => (h.founded intent hmem).append ev
  · have hdecides := decide_decides g.policy w.signal (.bookUpdate market top now)
    have hnot : w.signal.entered = false := by
      by_contra hentered
      have hempty := (hdecides.entered (by simpa using hentered)).2
      rw [hempty] at hone
      cases hone
    have hentered :
        (windowStep g w (.frame market top now e c)).signal.entered = true := by
      rcases signal_windowStep g w (.frame market top now e c) with
        ⟨-, hnone⟩ | ⟨market', top', now', e', c', heq, hframe⟩
      · have hsome := hnone market
        rw [topOf_frame, if_pos rfl] at hsome
        cases hsome
      · cases heq
        rw [hframe]
        rcases hdecides.fires with hnone | ⟨action', hone', hfires⟩
        · rw [hnone] at hone
          cases hone
        · rw [hone] at hone'
          cases hone'
          exact hfires hkind
    have hentries : entries (windowStep g w (.frame market top now e c)).executor.deeds =
        entries more := by
      rw [entries_of_quiet hquiet, entries_append, h.unentered hnot, List.nil_append]
    refine ⟨htracks, fun hnot => ?_, ?_, ?_⟩
    · rw [hentered] at hnot
      cases hnot
    · rw [hentries]
      unfold entries
      apply (List.length_filter_le _ _).trans
      rcases hposts with hnone | hposted
      · rw [hnone]
        exact Nat.zero_le _
      · rw [hposted]
        exact le_rfl
    · rw [hentries]
      intro intent hmem
      have hintent : intent = entryIntent g source action e := by
        have hposted := (List.mem_filter.mp hmem).1
        rcases hposts with hnone | hposted'
        · rw [hnone] at hposted
          cases hposted
        · rw [hposted', List.mem_singleton] at hposted
          exact hposted
      rw [hintent]
      have hfold := h.tracks.fold hne market top now e c
      rw [decide_eq] at hone
      cases hevent : foldEvent w.signal (.bookUpdate market top now) with
      | none =>
        rw [hevent] at hone
        cases hone
      | some st =>
        rw [hevent] at hone hfold
        rw [Option.getD_some] at hfold
        obtain ⟨q, hq, hsource', hlegs, hearly, hlate⟩ := decideFolded_fires hone hkind
        rw [hsource] at hsource'
        obtain ⟨ht, hts, lt, lts, hhigh, hhts, hlow, hlts, hentry⟩ :=
          entryAt_of_qualifier (e := e) hq hsource' hlegs hearly hlate
        refine ⟨events, market, top, now, e, c, [], (ht, hts), (lt, lts), rfl, ?_, ?_,
          hentry.of_tracks hfold⟩
        · exact latest_of_tracks (hhigh.symm.trans hfold.highTop) (hhts.symm.trans hfold.highTs)
        · exact latest_of_tracks (hlow.symm.trans hfold.lowTop) (hlts.symm.trans hfold.lowTs)

/-- What a run keeps. -/
theorem EntriesOk.run (h : EntriesOk g start events w) (hne : start.highTicker ≠ start.lowTicker)
    (more : List WindowEvent) :
    EntriesOk g start (events ++ more) (more.foldl (windowStep g) w) := by
  induction more generalizing events w with
  | nil => rw [List.append_nil]; exact h
  | cons ev more ih =>
    have hnext := ih (h.step hne ev)
    rw [List.append_assoc] at hnext
    exact hnext

/-- A window posts at most one entry: a pair that qualifies at the asks of the latest books of its
legs, both of which are fresh. -/
theorem one_entry_on_fresh_books (g : CorridorWindow) (start : WindowState) (executor : Executor)
    (events : List WindowEvent) (hunseen : Unseen start)
    (hne : start.highTicker ≠ start.lowTicker) (hposts : posts executor.deeds = []) :
    (entries (windowRun g start executor events).executor.deeds).length ≤ 1 ∧
      ∀ intent ∈ entries (windowRun g start executor events).executor.deeds,
        Founded g start events intent := by
  have hnone : entries executor.deeds = [] := by
    unfold entries
    rw [hposts]
    rfl
  have hbegin : EntriesOk g start [] (.new start executor) := by
    refine ⟨⟨rfl, rfl, rfl, rfl, rfl, rfl, hunseen.highTop, hunseen.highTs, hunseen.lowTop,
      hunseen.lowTs⟩, fun _ => hnone, ?_, fun intent hmem => ?_⟩
    · show (entries executor.deeds).length ≤ 1
      rw [hnone]
      exact Nat.zero_le _
    · have hmem' : intent ∈ entries executor.deeds := hmem
      rw [hnone] at hmem'
      cases hmem'
  have hend := hbegin.run hne events
  exact ⟨hend.once, hend.founded⟩

end Runs

/-- The sample window posts one entry. -/
theorem one_entry_on_fresh_books_sample :
    (entries sampleService.executor.deeds).length = 1 ∧
      ∃ intent ∈ entries sampleService.executor.deeds,
        Founded sampleWindow sampleSignal sampleEvents intent := by
  obtain ⟨-, hfounded⟩ := one_entry_on_fresh_books sampleWindow sampleSignal (.new {} true)
    sampleEvents ⟨rfl, rfl, rfl, rfl, rfl⟩ (by decide) rfl
  have hone : (entries sampleService.executor.deeds).length = 1 := by decide +kernel
  refine ⟨hone, ?_⟩
  obtain ⟨intent, hmem⟩ := List.exists_mem_of_length_pos (hone ▸ Nat.zero_lt_one)
  exact ⟨intent, hmem, hfounded intent hmem⟩

end Pilot.Corridor
