import Pilot.Box.Decide
import Pilot.Lib.Transitions

/-!
# The decision of a window

Over a whole window the box decides at most once and notes at most one rescan, after a skip. What
it decides on is the selection of the latest tops, both legs of which are fresh, and whatever the
settlement price is, one of the two legs pays.
-/

namespace Pilot.Box

variable {p : BoxParams} {st st' : BoxState} {now : ℚ}

/-! ### The latest tops -/

/-- The top of a market an event brings, with its time. -/
def BoxEvent.topOf (market : String) : BoxEvent → Option (TopOfBook × ℚ)
  | .bookUpdate m top ts => if m = market then some (top, ts) else none
  | .clockTick _ => none

/-- The latest top of a market, with its time. -/
def latest (evs : List BoxEvent) (market : String) : Option (TopOfBook × ℚ) :=
  evs.reverse.findSome? (BoxEvent.topOf market)

/-- The strikes of a window with their latest tops. -/
def latestLadder (strikes : Dict String ℚ) (evs : List BoxEvent) :
    List (String × ℚ × TopOfBook) :=
  strikes.entries.filterMap fun e => (latest evs e.1).map fun q => (e.1, e.2, q.1)

/-- The selection of the latest tops. -/
def latestView (p : BoxParams) (start : BoxState) (evs : List BoxEvent) :
    Option (Except NoBox BoxSelection) :=
  (latest evs start.m15Ticker).map fun q =>
    selectBox p start.anchorA start.m15Ticker q.1 (latestLadder start.strikes evs)

/-- The latest top of a market is the new one, if it is of that market. -/
theorem latest_append (evs : List BoxEvent) (ev : BoxEvent) (market : String) :
    latest (evs ++ [ev]) market = (ev.topOf market).or (latest evs market) := by
  unfold latest
  rw [List.reverse_append, List.reverse_singleton, List.singleton_append, List.findSome?_cons]
  cases ev.topOf market <;> rfl

/-! ### What one decision changes -/

/-- The window, the tops and the view stay as they are. -/
structure SameTops (st st' : BoxState) : Prop where
  T : st'.T = st.T
  anchorA : st'.anchorA = st.anchorA
  m15Ticker : st'.m15Ticker = st.m15Ticker
  strikes : st'.strikes = st.strikes
  tops : st'.tops = st.tops
  ts : st'.ts = st.ts
  view : st'.view = st.view

/-- A state has its own tops. -/
theorem SameTops.refl (st : BoxState) : SameTops st st := ⟨rfl, rfl, rfl, rfl, rfl, rfl, rfl⟩

/-- A box that may be decided on: viewed inside the entry window, with both legs fresh. -/
structure Qualifies (p : BoxParams) (st : BoxState) (now : ℚ) (sel : BoxSelection) : Prop where
  inWindow : inEntry p (st.T - now)
  viewed : viewed st = some sel
  fresh : legsFresh p st sel now = true

/-- The four things a decision does: it notes a rescan, decides on the entry, stands down or does
nothing. -/
inductive Decides (p : BoxParams) (st : BoxState) (now : ℚ) : Decided → Prop
  | rescan (sel : BoxSelection) (reason : BoxReason) : Qualifies p st now sel →
    st.skipped = true → st.rescanEmitted = false →
    Decides p st now ({ st with rescanEmitted := true, rescanSelection := some sel },
      [boxAction p .boxRescanWouldFire sel (st.T - now) (some reason)])
  | skip (sel : BoxSelection) (reason : BoxReason) : Qualifies p st now sel →
    st.entered = false →
    Decides p st now
      ({ st with entered := true, skipped := true, skippedSelection := some sel },
        [boxAction p .boxSkip sel (st.T - now) (some reason)])
  | fire (sel : BoxSelection) (kind : BoxKind) : Qualifies p st now sel → st.entered = false →
    kind = .fire ∨ kind = .wouldFire →
    Decides p st now ({ st with entered := true, firedSelection := some sel },
      [boxAction p kind sel (st.T - now) none])
  | standDown (a : BoxAction) : a.kind = .standDown →
    Decides p st now ({ st with standdownEmitted := true }, [a])
  | nothing : Decides p st now (st, [])

/-- A rescan decides once. -/
theorem rescan_decides (hskipped : st.skipped = true) (hnot : st.rescanEmitted = false) :
    Decides p st now (rescan p st now) := by
  unfold rescan
  dsimp only
  by_cases hwindow : inEntry p (st.T - now)
  · rw [if_neg (not_not.mpr hwindow)]
    cases hview : viewed st with
    | none => exact .nothing
    | some sel =>
      dsimp only
      split_ifs with hfloor hfresh
      · exact .nothing
      · exact .nothing
      · exact .rescan sel _ ⟨hwindow, hview, by simpa using hfresh⟩ hskipped hnot
  · rw [if_pos hwindow]
    exact .nothing

/-- An entry decides once. -/
theorem enter_decides (hentered : st.entered = false) : Decides p st now (enter p st now) := by
  unfold enter
  dsimp only
  by_cases hwindow : inEntry p (st.T - now)
  · rw [if_neg (not_not.mpr hwindow)]
    cases hview : viewed st with
    | none => exact .nothing
    | some sel =>
      dsimp only
      by_cases hfresh : legsFresh p st sel now = true
      · rw [if_neg (by simp [hfresh])]
        split_ifs
        · exact .skip sel _ ⟨hwindow, hview, hfresh⟩ hentered
        · exact .fire sel .wouldFire ⟨hwindow, hview, hfresh⟩ hentered (Or.inr rfl)
        · exact .fire sel .fire ⟨hwindow, hview, hfresh⟩ hentered (Or.inl rfl)
      · rw [if_pos (by simpa using hfresh)]
        exact .nothing
  · rw [if_pos hwindow]
    exact .nothing

/-- Every decision is one of the four. -/
theorem decideFolded_decides (p : BoxParams) (st : BoxState) (now : ℚ) :
    Decides p st now (decideFolded p st now) := by
  unfold decideFolded
  dsimp only
  split_ifs with hrescan hentered hcutoff hemitted
  · exact rescan_decides hrescan.1 (by simpa using hrescan.2)
  · exact .nothing
  · exact .nothing
  · exact .standDown _ rfl
  · exact enter_decides (by simpa using hentered)

/-- A decision changes no top. -/
theorem Decides.sameTops {r : Decided} (h : Decides p st now r) : SameTops st r.1 := by
  cases h <;> exact ⟨rfl, rfl, rfl, rfl, rfl, rfl, rfl⟩

/-- The state a decision is made on: the state with the top the event brings. -/
def folded (p : BoxParams) (st : BoxState) : BoxEvent → BoxState
  | .bookUpdate market top now =>
    if subscribed st market then foldTop p st market top now else st
  | .clockTick _ => st

/-- An event is decided on the state it is folded into, or decides nothing. -/
theorem decideBox_decides (p : BoxParams) (st : BoxState) (ev : BoxEvent) :
    Decides p (folded p st ev) ev.serverTs (decideBox p st ev) := by
  cases ev with
  | clockTick now => exact decideFolded_decides p st now
  | bookUpdate market top now =>
    unfold decideBox folded
    dsimp only
    split_ifs
    · exact decideFolded_decides p _ now
    · exact .nothing

/-! ### The view is the selection of the latest tops -/

/-- A state holds the latest tops of its markets and views their selection. -/
structure Tracks (p : BoxParams) (start : BoxState) (evs : List BoxEvent) (st : BoxState) :
    Prop where
  T : st.T = start.T
  anchorA : st.anchorA = start.anchorA
  m15Ticker : st.m15Ticker = start.m15Ticker
  strikes : st.strikes = start.strikes
  tops : ∀ market, subscribed start market = true →
    st.tops.get? market = (latest evs market).map Prod.fst
  ts : ∀ market, subscribed start market = true →
    st.ts.get? market = (latest evs market).map Prod.snd
  view : st.view = latestView p start evs

section Tracks

variable {start : BoxState} {evs : List BoxEvent}

/-- Tracking is a matter of the tops. -/
theorem Tracks.sameTops (h : Tracks p start evs st) (hsame : SameTops st st') :
    Tracks p start evs st' :=
  ⟨hsame.T.trans h.T, hsame.anchorA.trans h.anchorA, hsame.m15Ticker.trans h.m15Ticker,
    hsame.strikes.trans h.strikes, fun m hm => by rw [hsame.tops]; exact h.tops m hm,
    fun m hm => by rw [hsame.ts]; exact h.ts m hm, hsame.view.trans h.view⟩

/-- The market of the quarter hour is subscribed. -/
theorem subscribed_m15 (st : BoxState) : subscribed st st.m15Ticker = true := by
  simp [subscribed]

/-- Every strike is subscribed. -/
theorem subscribed_of_strike {e : String × ℚ} (he : e ∈ st.strikes.entries) :
    subscribed st e.1 = true := by
  have : st.strikes.contains e.1 = true :=
    Dict.contains_eq_true.mpr ⟨e.2, Dict.get?_eq_some.mpr he⟩
  simp [subscribed, this]

/-- The selection of the tops a state holds is that of the latest tops. -/
theorem viewOf_eq_latestView (hanchor : st.anchorA = start.anchorA)
    (hm15 : st.m15Ticker = start.m15Ticker) (hstrikes : st.strikes = start.strikes)
    (htops : ∀ market, subscribed start market = true →
      st.tops.get? market = (latest evs market).map Prod.fst) :
    viewOf p st = latestView p start evs := by
  have hladder : ladder st = latestLadder start.strikes evs := by
    unfold ladder latestLadder
    rw [hstrikes]
    apply List.filterMap_congr
    intro e he
    rw [htops e.1 (subscribed_of_strike he), Option.map_map]
    rfl
  unfold viewOf latestView
  rw [hanchor, hm15, hladder, htops _ (subscribed_m15 start), Option.map_map]
  rfl

/-- Folding an event keeps track of it. -/
theorem Tracks.folded (h : Tracks p start evs st) (ev : BoxEvent) :
    Tracks p start (evs ++ [ev]) (folded p st ev) := by
  have hsub : ∀ market, subscribed st market = subscribed start market := by
    intro market
    unfold subscribed
    rw [h.m15Ticker, h.strikes]
  -- an event that brings no top of the window leaves the latest tops of the window
  have hidle : (∀ market, subscribed start market = true → ev.topOf market = none) →
      Tracks p start (evs ++ [ev]) st := by
    intro hnone
    have hlatest : ∀ market, subscribed start market = true →
        latest (evs ++ [ev]) market = latest evs market := by
      intro market hmarket
      rw [latest_append, hnone market hmarket, Option.none_or]
    have htops : ∀ market, subscribed start market = true →
        st.tops.get? market = (latest (evs ++ [ev]) market).map Prod.fst := fun market hmarket => by
      rw [hlatest market hmarket]
      exact h.tops market hmarket
    refine ⟨h.T, h.anchorA, h.m15Ticker, h.strikes, htops, fun market hmarket => ?_, ?_⟩
    · rw [hlatest market hmarket]
      exact h.ts market hmarket
    · rw [h.view, ← viewOf_eq_latestView h.anchorA h.m15Ticker h.strikes h.tops,
        viewOf_eq_latestView h.anchorA h.m15Ticker h.strikes htops]
  cases ev with
  | clockTick now => exact hidle fun _ _ => rfl
  | bookUpdate market top now =>
    unfold Box.folded
    dsimp only
    split_ifs with hmarket
    · have hlatest (m : String) : latest (evs ++ [.bookUpdate market top now]) m =
          if m = market then some (top, now) else latest evs m := by
        rw [latest_append, BoxEvent.topOf]
        by_cases hm : m = market
        · rw [if_pos hm.symm, if_pos hm]
          rfl
        · rw [if_neg (Ne.symm hm), if_neg hm]
          rfl
      have htops : ∀ m, subscribed start m = true →
          (foldTop p st market top now).tops.get? m =
            (latest (evs ++ [.bookUpdate market top now]) m).map Prod.fst := by
        intro m hm
        show (st.tops.set market top).get? m = _
        rw [Dict.get?_set, hlatest]
        split_ifs
        · rfl
        · exact h.tops m hm
      refine ⟨h.T, h.anchorA, h.m15Ticker, h.strikes, htops, fun m hm => ?_, ?_⟩
      · show (st.ts.set market now).get? m = _
        rw [Dict.get?_set, hlatest]
        split_ifs
        · rfl
        · exact h.ts m hm
      · show viewOf p { st with tops := st.tops.set market top, ts := st.ts.set market now } = _
        exact viewOf_eq_latestView h.anchorA h.m15Ticker h.strikes htops
    · apply hidle
      intro m hm
      rw [BoxEvent.topOf, if_neg]
      rintro rfl
      rw [hsub] at hmarket
      exact hmarket hm

/-- A window tracks every event it is fed. -/
theorem tracks_afterEvents (p : BoxParams) (T : ℤ) (anchorA : ℚ) (m15Ticker : String)
    (strikes : Dict String ℚ) (shakedown : Bool) (evs : List BoxEvent) :
    Tracks p (.new T anchorA m15Ticker strikes shakedown) evs
      (afterEvents p (.new T anchorA m15Ticker strikes shakedown) evs) := by
  induction evs using List.reverseRecOn with
  | nil => exact ⟨rfl, rfl, rfl, rfl, fun _ _ => rfl, fun _ _ => rfl, rfl⟩
  | append_singleton evs ev ih =>
    unfold afterEvents
    rw [List.foldl_append]
    exact (ih.folded ev).sameTops (decideBox_decides p _ ev).sameTops

end Tracks

/-! ### The selected legs -/

/-- A candidate is a strike on the side of the anchor it is bought for. -/
theorem candidate_some {anchorA : ℚ} {below : Bool} {strike : String × ℚ × TopOfBook}
    {c : Candidate} (h : candidate p anchorA below strike = some c) :
    c.ticker = strike.1 ∧ c.strikeK = strike.2.1 ∧
      if below then c.strikeK < anchorA else anchorA < c.strikeK := by
  unfold candidate at h
  split at h
  · cases below with
    | true =>
      simp only [if_true] at h ⊢
      split_ifs at h with hwide hside
      cases h
      exact ⟨rfl, rfl, not_le.mp hside⟩
    | false =>
      simp only [Bool.false_eq_true, if_false] at h ⊢
      split_ifs at h with hwide hside
      cases h
      exact ⟨rfl, rfl, not_le.mp hside⟩
  · cases h

/-- A box is made of a strike of the ladder on the side of the anchor it needs. -/
theorem selectBox_ok {anchorA : ℚ} {m15Ticker : String} {m15Top : TopOfBook}
    {strikes : List (String × ℚ × TopOfBook)} {sel : BoxSelection}
    (h : selectBox p anchorA m15Ticker m15Top strikes = .ok sel) :
    sel.m15Ticker = m15Ticker ∧
      (∃ top, (sel.hourlyTicker, sel.strikeK, top) ∈ strikes) ∧
      (sel.hourlySide = .yes ∧ sel.m15Side = .no ∧ sel.strikeK < anchorA ∨
        sel.hourlySide = .no ∧ sel.m15Side = .yes ∧ anchorA < sel.strikeK) := by
  unfold selectBox at h
  split at h
  · next ya yb _ _ =>
    by_cases hspread : p.maxSpread < ya - yb
    · rw [if_pos hspread] at h
      cases h
    · rw [if_neg hspread] at h
      dsimp only at h
      generalize decide (mid ya yb < 1 / 2) = below at h
      generalize (if below = true then 1 - yb else ya) = m15Ask at h
      generalize (if below = true then 1 - ya else yb) = m15Bid at h
      by_cases hask : m15Ask < p.min15Ask
      · rw [if_pos hask] at h
        cases h
      · rw [if_neg hask] at h
        split at h
        · cases h
        · next c hc =>
          split_ifs at h
          cases h
          obtain ⟨strike, hstrike, hcand⟩ := List.mem_filterMap.mp (List.argmin_mem hc)
          obtain ⟨hticker, hK, hside⟩ := candidate_some hcand
          refine ⟨rfl, ⟨strike.2.2, ?_⟩, ?_⟩
          · show (c.ticker, c.strikeK, strike.2.2) ∈ strikes
            rw [hticker, hK]
            exact hstrike
          · cases below with
            | true => exact Or.inl ⟨rfl, rfl, hside⟩
            | false => exact Or.inr ⟨rfl, rfl, hside⟩
  · cases h

/-- What a leg pays: its market resolves yes when the settlement price is at its threshold or
above. -/
def legPays (side : Side) (threshold price : ℚ) : ℚ :=
  match side with
  | .yes => if threshold ≤ price then 1 else 0
  | .no => if threshold ≤ price then 0 else 1

/-- A YES leg under a NO leg covers every settlement price. -/
theorem legPays_cover {low high : ℚ} (h : low < high) (price : ℚ) :
    1 ≤ legPays .yes low price + legPays .no high price := by
  unfold legPays
  dsimp only
  by_cases hlow : low ≤ price
  · rw [if_pos hlow]
    split_ifs <;> norm_num
  · have : ¬high ≤ price := fun hhigh => hlow (h.le.trans hhigh)
    rw [if_neg hlow, if_neg this]
    norm_num

/-- A selection of latest tops is of a strike of the window, and its two legs pay together at
least one dollar at every settlement price. -/
theorem selection_covers {strikes : Dict String ℚ} {evs : List BoxEvent} {anchorA : ℚ}
    {m15Ticker : String} {m15Top : TopOfBook} {sel : BoxSelection}
    (h : selectBox p anchorA m15Ticker m15Top (latestLadder strikes evs) = .ok sel) :
    ∃ K, strikes.get? sel.hourlyTicker = some K ∧
      ∀ price, 1 ≤ legPays sel.hourlySide K price + legPays sel.m15Side anchorA price := by
  obtain ⟨-, ⟨top, hmem⟩, hsides⟩ := selectBox_ok h
  obtain ⟨e, he, htop⟩ := List.mem_filterMap.mp hmem
  obtain ⟨q, -, heq⟩ := Option.map_eq_some_iff.mp htop
  simp only [Prod.mk.injEq] at heq
  obtain ⟨hticker, hK, -⟩ := heq
  refine ⟨sel.strikeK, ?_, fun price => ?_⟩
  · rw [Dict.get?_eq_some, ← hticker, ← hK]
    exact he
  · rcases hsides with ⟨hhourly, hm15, hlt⟩ | ⟨hhourly, hm15, hlt⟩
    · rw [hhourly, hm15]
      exact legPays_cover hlt price
    · rw [hhourly, hm15, add_comm]
      exact legPays_cover hlt price

/-! ### Once in a window -/

/-- The action decides on the entry: it fires or skips. -/
def BoxAction.enters (a : BoxAction) : Bool :=
  a.kind = .fire ∨ a.kind = .wouldFire ∨ a.kind = .boxSkip

/-- The action notes a rescan. -/
def BoxAction.rescans (a : BoxAction) : Bool := a.kind = .boxRescanWouldFire

/-- What a decision adds to the counts is what its latches allow. -/
theorem Decides.counts {r : Decided} (h : Decides p st now r) :
    r.2.countP BoxAction.enters + (if r.1.entered then 0 else 1) ≤ (if st.entered then 0 else 1) ∧
    r.2.countP BoxAction.rescans + (if r.1.rescanEmitted then 0 else 1) ≤
      (if st.rescanEmitted then 0 else 1) := by
  cases h with
  | rescan sel reason _ _ hnot => simp [BoxAction.enters, BoxAction.rescans, boxAction, hnot]
  | skip sel reason _ hnot => simp [BoxAction.enters, BoxAction.rescans, boxAction, hnot]
  | fire sel kind _ hnot hkind =>
    rcases hkind with rfl | rfl <;> simp [BoxAction.enters, BoxAction.rescans, boxAction, hnot]
  | standDown a ha => simp [BoxAction.enters, BoxAction.rescans, ha]
  | nothing => simp

/-- Folding an event sets no flag. -/
theorem folded_flags (p : BoxParams) (st : BoxState) (ev : BoxEvent) :
    (folded p st ev).entered = st.entered ∧ (folded p st ev).skipped = st.skipped ∧
      (folded p st ev).rescanEmitted = st.rescanEmitted := by
  unfold folded
  cases ev with
  | clockTick now => exact ⟨rfl, rfl, rfl⟩
  | bookUpdate market top now =>
    dsimp only
    split_ifs <;> exact ⟨rfl, rfl, rfl⟩

/-- A window decides on the entry and notes a rescan as often as its latches allow. -/
theorem decisions_counts (p : BoxParams) (st : BoxState) (evs : List BoxEvent) :
    (decisions p st evs).countP BoxAction.enters ≤ (if st.entered then 0 else 1) ∧
    (decisions p st evs).countP BoxAction.rescans ≤ (if st.rescanEmitted then 0 else 1) := by
  induction evs generalizing st with
  | nil => simp [decisions]
  | cons ev evs ih =>
    obtain ⟨henter, hrescan⟩ := (decideBox_decides p st ev).counts
    obtain ⟨hentered, -, hrescanned⟩ := folded_flags p st ev
    rw [hentered] at henter
    rw [hrescanned] at hrescan
    obtain ⟨ihenter, ihrescan⟩ := ih (decideBox p st ev).1
    unfold decisions
    rw [List.countP_append, List.countP_append]
    omega

/-- Whether a skip was seen. -/
def seeSkip (seen : Bool) (a : BoxAction) : Bool := seen || a.kind = .boxSkip

/-- A rescan is noted after a skip. -/
theorem rescan_after_skip {seen : Bool} (h : st.skipped = true → seen = true)
    (evs : List BoxEvent) :
    AllAlong seeSkip (fun seen a => a.rescans = true → seen = true) seen (decisions p st evs) := by
  induction evs generalizing st seen with
  | nil => trivial
  | cons ev evs ih =>
    obtain ⟨-, hskipped, -⟩ := folded_flags p st ev
    rw [← hskipped] at h
    have hdecides := decideBox_decides p st ev
    unfold decisions
    rw [allAlong_append]
    generalize folded p st ev = st' at h hdecides
    generalize decideBox p st ev = r at hdecides
    cases hdecides with
    | rescan sel reason _ hskip _ =>
      exact ⟨⟨fun _ => h hskip, trivial⟩, ih fun hs => by simp [seeSkip, h hs]⟩
    | skip sel reason _ _ =>
      exact ⟨⟨fun hr => by simp [BoxAction.rescans, boxAction] at hr, trivial⟩,
        ih fun _ => by simp [seeSkip, boxAction]⟩
    | fire sel kind _ _ hkind =>
      refine ⟨⟨fun hr => ?_, trivial⟩, ih fun hs => by simp [seeSkip, h hs]⟩
      rcases hkind with rfl | rfl <;> simp [BoxAction.rescans, boxAction] at hr
    | standDown a ha =>
      exact ⟨⟨fun hr => by simp [BoxAction.rescans, ha] at hr, trivial⟩,
        ih fun hs => by simp [seeSkip, h hs]⟩
    | nothing => exact ⟨trivial, ih h⟩

/-- A skip that was seen is among the actions. -/
theorem exists_skip_of_seen {as : List BoxAction} (h : as.foldl seeSkip false = true) :
    ∃ b ∈ as, b.kind = .boxSkip := by
  induction as using List.reverseRecOn with
  | nil => cases h
  | append_singleton as a ih =>
    rw [List.foldl_append, List.foldl_cons, List.foldl_nil] at h
    rcases Bool.or_eq_true _ _ |>.mp h with hseen | hskip
    · obtain ⟨b, hb, hkind⟩ := ih hseen
      exact ⟨b, List.mem_append_left _ hb, hkind⟩
    · exact ⟨a, by simp, by simpa using hskip⟩

/-! ### The law -/

/-- A decision inside the entry window on the selection of the latest tops, both legs fresh, the
two legs covering every settlement price. -/
structure DecidedOn (p : BoxParams) (start : BoxState) (evs : List BoxEvent) (now : ℚ)
    (a : BoxAction) (sel : BoxSelection) : Prop where
  inWindow : inEntry p (start.T - now)
  selected : latestView p start evs = some (.ok sel)
  legs : a.legs = boxLegs p sel
  fresh : ∀ leg ∈ a.legs, ∃ top ts, latest evs leg.ticker = some (top, ts) ∧ top.suspect = false ∧
    0 ≤ now - ts ∧ now - ts ≤ p.freshnessMaxLegAgeS
  covers : ∃ K, start.strikes.get? sel.hourlyTicker = some K ∧
    ∀ price, 1 ≤ legPays sel.hourlySide K price + legPays sel.m15Side start.anchorA price

/-- A fresh leg of a subscribed market has a fresh latest top. -/
theorem latest_of_legFresh {start : BoxState} {evs : List BoxEvent} (h : Tracks p start evs st)
    {ticker : String} (hsub : subscribed start ticker = true)
    (hfresh : legFresh p st ticker now = true) :
    ∃ top ts, latest evs ticker = some (top, ts) ∧ top.suspect = false ∧ 0 ≤ now - ts ∧
      now - ts ≤ p.freshnessMaxLegAgeS := by
  unfold legFresh at hfresh
  rw [h.tops ticker hsub, h.ts ticker hsub] at hfresh
  cases hlatest : latest evs ticker with
  | none =>
    rw [hlatest] at hfresh
    cases hfresh
  | some q =>
    obtain ⟨top, ts⟩ := q
    rw [hlatest] at hfresh
    simp only [Option.map_some, Bool.and_eq_true, Bool.not_eq_true', decide_eq_true_eq] at hfresh
    exact ⟨top, ts, rfl, hfresh.1.1, hfresh.1.2, hfresh.2⟩

/-- A box that qualifies is decided on as the law says. -/
theorem Qualifies.decidedOn {start : BoxState} {evs : List BoxEvent} (h : Tracks p start evs st)
    {sel : BoxSelection} (hq : Qualifies p st now sel) {a : BoxAction}
    (ha : a.legs = boxLegs p sel) : DecidedOn p start evs now a sel := by
  have hview : latestView p start evs = some (.ok sel) := by
    have := hq.viewed
    unfold Box.viewed at this
    rw [h.view] at this
    split at this
    · next sel' hsel =>
      rw [hsel, Option.some.inj this]
    · cases this
  obtain ⟨q, hlatest, hselect⟩ := Option.map_eq_some_iff.mp hview
  obtain ⟨K, hK, hcovers⟩ := selection_covers hselect
  obtain ⟨hm15, -, -⟩ := selectBox_ok hselect
  obtain ⟨hfresh15, hfreshHourly⟩ := Bool.and_eq_true _ _ |>.mp hq.fresh
  refine ⟨?_, hview, ha, ?_, K, hK, hcovers⟩
  · rw [← h.T]
    exact hq.inWindow
  · intro leg hleg
    rw [ha] at hleg
    rcases List.mem_pair.mp hleg with rfl | rfl
    · refine latest_of_legFresh h ?_ hfreshHourly
      have : start.strikes.contains sel.hourlyTicker = true := Dict.contains_eq_true.mpr ⟨K, hK⟩
      simp [subscribed, this]
    · refine latest_of_legFresh h ?_ hfresh15
      rw [hm15]
      exact subscribed_m15 start

/-- Over a window the box fires or skips at most once and notes at most one rescan, after a skip.
Each of these is decided inside the entry window on the selection of the latest tops, with both
legs fresh, and the legs pay together at least a dollar whatever the settlement price is. -/
theorem decideBox_law (p : BoxParams) (T : ℤ) (anchorA : ℚ) (m15Ticker : String)
    (strikes : Dict String ℚ) (shakedown : Bool) (evs : List BoxEvent) :
    let start := BoxState.new T anchorA m15Ticker strikes shakedown
    (decisions p start evs).countP BoxAction.enters ≤ 1 ∧
    (decisions p start evs).countP BoxAction.rescans ≤ 1 ∧
    (∀ before a after, decisions p start evs = before ++ a :: after → a.rescans = true →
      ∃ b ∈ before, b.kind = .boxSkip) ∧
    ∀ before ev after, evs = before ++ ev :: after →
      (decideBox p (afterEvents p start before) ev).1.view =
        latestView p start (before ++ [ev]) ∧
      ∀ a ∈ (decideBox p (afterEvents p start before) ev).2, a.kind ≠ .standDown →
        ∃ sel, DecidedOn p start (before ++ [ev]) ev.serverTs a sel := by
  intro start
  obtain ⟨henters, hrescans⟩ := decisions_counts p start evs
  refine ⟨henters, hrescans, ?_, ?_⟩
  · intro before a after hsplit hrescan
    have hall : AllAlong seeSkip (fun seen a => a.rescans = true → seen = true) false
        (decisions p start evs) :=
      rescan_after_skip (fun hskipped : start.skipped = true => nomatch hskipped) evs
    rw [hsplit, allAlong_append] at hall
    exact exists_skip_of_seen (hall.2.1 hrescan)
  · intro before ev after _
    have htracks := (tracks_afterEvents p T anchorA m15Ticker strikes shakedown before).folded ev
    have hdecides := decideBox_decides p (afterEvents p start before) ev
    refine ⟨(htracks.sameTops hdecides.sameTops).view, ?_⟩
    intro a ha hkind
    generalize decideBox p (afterEvents p start before) ev = r at hdecides ha
    cases hdecides with
    | rescan sel reason hq _ _ =>
      rw [List.mem_singleton.mp ha]
      exact ⟨sel, hq.decidedOn htracks rfl⟩
    | skip sel reason hq _ =>
      rw [List.mem_singleton.mp ha]
      exact ⟨sel, hq.decidedOn htracks rfl⟩
    | fire sel kind hq _ _ =>
      rw [List.mem_singleton.mp ha]
      exact ⟨sel, hq.decidedOn htracks rfl⟩
    | standDown b hb =>
      rw [List.mem_singleton.mp ha] at hkind
      exact absurd hb hkind
    | nothing => cases ha

end Pilot.Box
