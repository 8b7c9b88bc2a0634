import Pilot.V32.Feed
import Pilot.V32.RightBucket

/-!
# Decisions on stale books

A gap or a new dial marks the mirrors of a connection, but not the tops the core has already
been given. No decision reads a stale book in a run where the core trusted none of them when
the connection was lost.
-/

namespace Pilot.V32

open V33 (BookUpdate Event Fill OrderAmended OrderCancelled classifyTicker validTwoSided fresh)

variable {p : V32Params} {t : ℚ} {st st' st'' : V32State}

/-! ### Only a book frame changes a top -/

/-- The window and the books stay as they are. -/
structure SameMarkets (st st' : V32State) : Prop where
  window : st'.toWindow = st.toWindow
  books : st'.toBooks = st.toBooks

/-- No change keeps the markets. -/
theorem SameMarkets.refl (st : V32State) : SameMarkets st st := ⟨rfl, rfl⟩

/-- Two changes that keep the markets keep them together. -/
theorem SameMarkets.trans (h : SameMarkets st st') (h' : SameMarkets st' st'') :
    SameMarkets st st'' :=
  ⟨h'.window.trans h.window, h'.books.trans h.books⟩

/-- The quote context stays as it is as well. -/
structure SameContext (st st' : V32State) : Prop extends SameMarkets st st' where
  quote : st'.toQuote = st.toQuote

/-- No change keeps the context. -/
theorem SameContext.refl (st : V32State) : SameContext st st := ⟨SameMarkets.refl st, rfl⟩

/-- Two changes that keep the context keep it together. -/
theorem SameContext.trans (h : SameContext st st') (h' : SameContext st' st'') :
    SameContext st st'' :=
  ⟨h.toSameMarkets.trans h'.toSameMarkets, h'.quote.trans h.quote⟩

/-- A change of the slot alone keeps the context. -/
theorem RestOnly.sameContext (h : RestOnly st st') : SameContext st st' :=
  ⟨⟨h.window, h.books⟩, h.quote⟩

/-- A change of the wings alone keeps the context. -/
theorem WingsOnly.sameContext {r : Outcome} (h : WingsOnly st r) : SameContext st r.st :=
  ⟨⟨h.context.1, h.context.2.1⟩, h.context.2.2⟩

/-- Booked lots keep the context. -/
theorem bookRestDelta_sameContext (st : V32State) (coid : String) (price delta t : ℚ) :
    SameContext st (bookRestDelta p st coid price delta t).st := by
  obtain ⟨⟨hwindow, hbooks, hquote⟩, -⟩ := settleRest_wings (p := p) st coid price delta t
  have hstep := (wingStep_wingsOnly (p := p) (settleRest p st coid price delta t) t).synced
  exact SameContext.trans ⟨⟨hwindow, hbooks⟩, hquote⟩ hstep.sameContext

/-- A late fill forces the spot for a moment, and keeps the markets. -/
theorem bookLateRestFill_sameMarkets (st : V32State) (price count ts : ℚ) (sd : Option ℤ) :
    SameMarkets st (bookLateRestFill p st price count ts sd).st := by
  unfold bookLateRestFill
  split
  · exact SameMarkets.refl st
  · have hstep := fun st => (wingStep_wingsOnly (p := p) st ts).synced.sameContext
    refine SameMarkets.trans ?_ (hstep _).toSameMarkets
    exact ⟨rfl, rfl⟩

/-- A refresh quotes the context it derives. -/
theorem refresh_sameContext (st : V32State) (t : ℚ) :
    SameContext (recomputeContext p st t) (refresh p st t).st :=
  (wingStep_wingsOnly _ t).sameContext.trans (requote_restOnly _ t).sameContext

/-- A recompute reads the markets and keeps them. -/
theorem recomputeContext_sameMarkets (st : V32State) (t : ℚ) :
    SameMarkets st (recomputeContext p st t) := by
  obtain ⟨q, hq⟩ := recomputeContext_eq (p := p) st t
  rw [hq]
  exact ⟨rfl, rfl⟩

/-- So does a refresh. -/
theorem refresh_sameMarkets (st : V32State) (t : ℚ) : SameMarkets st (refresh p st t).st :=
  (recomputeContext_sameMarkets st t).trans (refresh_sameContext st t).toSameMarkets

/-- An ack keeps the context. -/
theorem applyAck_sameContext (st : V32State) (e : V33.OrderAck) :
    SameContext st (applyAck st e) := by
  unfold applyAck
  split
  · exact SameContext.refl st
  · split
    · exact SameContext.refl st
    · exact ⟨⟨rfl, rfl⟩, rfl⟩

/-- A fill keeps the context. -/
theorem applyFill_sameContext (st : V32State) (e : Fill) :
    SameContext st (applyFill p st e t).st := by
  unfold applyFill
  split
  · exact (applyLegFill_wingsOnly st _ e).sameContext
  · split
    · exact SameContext.refl st
    · rename_i o _
      have hskip :=
        (skipAmendCross_restOnly st (o.orderId.or e.orderId) (qCount e.count)).sameContext
      dsimp only
      split
      · exact hskip.trans (bookRestDelta_sameContext _ _ _ _ _)
      · exact hskip

/-- A cancel confirm keeps the context. -/
theorem applyCancelled_sameContext (st : V32State) (e : OrderCancelled) :
    SameContext st (applyCancelled p st e t).st := by
  have hcleared := (clearedBy_spec st e).1.sameContext
  rw [applyCancelled_eq]
  split
  · exact hcleared
  · split
    · dsimp only
      split
      · exact hcleared.trans (bookRestDelta_sameContext _ _ _ _ _)
      · exact hcleared
    · split
      · exact hcleared.trans (bookRestDelta_sameContext _ _ _ _ _)
      · exact hcleared

/-- An amend confirm keeps the context. -/
theorem applyAmended_sameContext (st : V32State) (e : OrderAmended) :
    SameContext st (applyAmended p st e t).st := by
  unfold applyAmended
  split
  · exact ⟨⟨rfl, rfl⟩, rfl⟩
  · dsimp only
    split
    · refine SameContext.trans ?_ (guardAmend_restOnly _ e.orderId _).sameContext
      refine SameContext.trans ?_ (bookRestDelta_sameContext _ _ _ _ _)
      exact ⟨⟨rfl, rfl⟩, rfl⟩
    · exact ⟨⟨rfl, rfl⟩, rfl⟩

/-- The state whose books a decision keeps. -/
def folded (st : V32State) : Event → V32State
  | .bookUpdate e => foldBook st e
  | _ => st

/-- A decision keeps the books but for the frame it is fed. -/
theorem decideV32_sameMarkets (st : V32State) (ev : Event) :
    SameMarkets (folded st ev) (decideV32 p st ev).st := by
  cases ev with
  | bookUpdate e => exact refresh_sameMarkets _ _
  | clockTick now => exact refresh_sameMarkets _ _
  | trade e => exact SameMarkets.refl st
  | orderAck e => exact (applyAck_sameContext st e).toSameMarkets
  | orderAmended e => exact (applyAmended_sameContext st e).toSameMarkets
  | orderCancelled e => exact (applyCancelled_sameContext st e).toSameMarkets
  | fill e => exact (applyFill_sameContext st e).toSameMarkets

/-- A decision keeps the quote context but for a frame or a tick, which derive it anew. -/
theorem decideV32_quote (st : V32State) (ev : Event) :
    (decideV32 p st ev).st.toQuote = (wingContext p st (.event ev)).toQuote := by
  cases ev with
  | bookUpdate e => exact (refresh_sameContext _ _).quote
  | clockTick now => exact (refresh_sameContext _ _).quote
  | trade e => rfl
  | orderAck e => exact (applyAck_sameContext st e).quote
  | orderAmended e => exact (applyAmended_sameContext st e).quote
  | orderCancelled e => exact (applyCancelled_sameContext st e).quote
  | fill e => exact (applyFill_sameContext st e).quote

/-! ### The driver brings no book -/

/-- The event is a book frame. -/
def isBook : Event → Bool
  | .bookUpdate _ => true
  | _ => false

/-- Only a book is folded into the markets. -/
theorem folded_of_not_book {ev : Event} (h : isBook ev = false) (st : V32State) :
    folded st ev = st := by
  cases ev with
  | bookUpdate e => cases h
  | _ => rfl

/-- What comes of a cancel brings no book. -/
theorem pullOrder_no_book (x : Executor) (v : Venue) (w : Weather) (record : Option RestRecord)
    (oid : String) (coid : Option String) (now : ℚ) :
    ∀ ev ∈ (pullOrder x v w record oid coid now).events, isBook ev = false := by
  unfold pullOrder
  intro ev hev
  split at hev
  · rw [List.mem_singleton.mp hev]
    rfl
  · split_ifs at hev <;> (rw [List.mem_singleton.mp hev]; rfl)

/-- The executor reports no book. -/
theorem onAction_no_book (x : Executor) (v : Venue) (w : Weather) (st : V32State) (a : V32Action)
    (now : ℚ) : ∀ ev ∈ (onAction x v w st a now).events, isBook ev = false := by
  have hwings : ∀ ev ∈ (takeWings x v w st now).events, isBook ev = false := by
    intro ev hev
    obtain ⟨l, -, rfl⟩ := List.mem_map.mp hev
    rfl
  unfold onAction
  split
  · unfold placeRest
    dsimp only
    intro ev hev
    split at hev
    · rw [List.mem_singleton.mp hev]
      rfl
    · unfold prePlaceInvariant at hev
      dsimp only at hev
      split at hev
      · rename_i r hr
        split_ifs at hr
        cases hr
        rw [List.mem_singleton.mp hev]
        rfl
      · split at hev <;> (rw [List.mem_singleton.mp hev]; rfl)
  · unfold cancelRest
    dsimp only
    split
    · intro ev hev
      rw [List.mem_singleton.mp hev]
      rfl
    · exact pullOrder_no_book _ _ _ _ _ _ _
  · unfold amendRest
    dsimp only
    split
    · intro ev hev
      rw [List.mem_singleton.mp hev]
      rfl
    · split
      · exact pullOrder_no_book _ _ _ _ _ _ _
      · intro ev hev
        rw [List.mem_singleton.mp hev]
        rfl
  · exact hwings
  · exact hwings
  · exact fun ev hev => absurd hev List.not_mem_nil

/-- No book waits in the driver's queue. -/
def NoBookQueued (c : Config) : Prop := ∀ ev ∈ c.queue, isBook ev = false

/-- No move of the driver puts a book on the queue. -/
theorem next_noBookQueued {c : Config} (h : NoBookQueued c) (m : Move) :
    NoBookQueued (next p c m) := by
  cases m with
  | book market top ts => exact h
  | tick ts => exact h
  | frame f ts =>
    show NoBookQueued (onFill p c f ts)
    unfold onFill
    split
    · exact h
    · split
      · exact h
      · split
        · exact h
        · dsimp only
          split
          · exact h
          · exact h
  | poll ts =>
    show NoBookQueued (onPollFill p c ts)
    unfold onPollFill
    split
    · exact h
    · split
      · dsimp only
        split
        · exact h
        · exact h
      · exact h
  | perform w =>
    show NoBookQueued (perform c w)
    unfold perform
    split
    · exact h
    · intro ev hev
      rcases List.mem_append.mp hev with hev | hev
      · exact h ev hev
      · exact onAction_no_book _ _ _ _ _ _ ev hev
  | decide =>
    show NoBookQueued (decideNext p c)
    unfold decideNext
    split
    · exact h
    · rename_i ev rest hq
      exact fun e he => h e (by rw [hq]; exact List.mem_cons_of_mem ev he)
  | venueFill oid lots => exact h
  | venueLeave oid => exact h

/-- The driver's moves but a book frame keep the books. -/
theorem next_sameMarkets {c : Config} (h : NoBookQueued c) {m : Move}
    (hbook : ∀ market top ts, m ≠ .book market top ts) : SameMarkets c.st (next p c m).st := by
  cases m with
  | book market top ts => exact absurd rfl (hbook market top ts)
  | tick ts => exact decideV32_sameMarkets c.st (.clockTick ts)
  | frame f ts =>
    show SameMarkets c.st (onFill p c f ts).st
    unfold onFill
    split
    · exact SameMarkets.refl _
    · split
      · exact SameMarkets.refl _
      · split
        · exact SameMarkets.refl _
        · dsimp only
          split
          · exact decideV32_sameMarkets c.st (restFillEvent _ _ _ ts)
          · exact bookLateRestFill_sameMarkets c.st _ _ _ _
  | poll ts =>
    show SameMarkets c.st (onPollFill p c ts).st
    unfold onPollFill
    split
    · exact SameMarkets.refl _
    · split
      · dsimp only
        split
        · exact SameMarkets.refl _
        · exact decideV32_sameMarkets c.st (restFillEvent _ _ _ ts)
      · exact SameMarkets.refl _
  | perform w =>
    show SameMarkets c.st (perform c w).st
    unfold perform
    split
    · unfold applyExecutorStanddown
      dsimp only
      split
      · exact ⟨rfl, rfl⟩
      · exact SameMarkets.refl _
    · exact SameMarkets.refl _
  | decide =>
    show SameMarkets c.st (decideNext p c).st
    unfold decideNext
    split
    · exact SameMarkets.refl _
    · rename_i ev rest hq
      have hev : isBook ev = false := h ev (by rw [hq]; exact List.mem_cons_self)
      have hdecide := decideV32_sameMarkets (p := p) c.st ev
      rw [folded_of_not_book hev] at hdecide
      exact hdecide
  | venueFill oid lots => exact SameMarkets.refl _
  | venueLeave oid => exact SameMarkets.refl _

/-! ### Trusted tops -/

/-- The same markets are trusted alike. -/
theorem SameMarkets.trusts_eq (h : SameMarkets st st') (market : String) :
    trusts st' market = trusts st market := by
  simp only [trusts, congrArg Window.bucketMap h.window, congrArg Window.strikeFloorMap h.window,
    congrArg Books.strikeTickers h.books, congrArg Books.strikeTops h.books,
    congrArg Books.bucketTickers h.books, congrArg Books.bucketTops h.books]

/-- A fold gives no other market a trusted top. -/
theorem trusts_foldBook_ne {e : BookUpdate} {market : String} (hne : market ≠ e.marketTicker)
    (h : trusts (foldBook st e) market = true) : trusts st market = true := by
  revert h
  unfold foldBook
  dsimp only
  cases hclass : classifyTicker e.marketTicker st.bucketMap st.strikeFloorMap with
  | none => exact id
  | some c =>
    cases c with
    | strike floor =>
      intro h
      unfold trusts at h ⊢
      dsimp only at h ⊢
      split at h
      · cases h
      · rename_i floor' _
        by_cases hfloor : floor' = floor
        · subst hfloor
          simp only [Dict.get?_set_self, Option.some.injEq, Bool.and_eq_true,
            decide_eq_true_eq] at h
          exact absurd h.1.symm hne
        · simpa only [Dict.get?_set, if_neg hfloor] using h
      · exact h
    | bucket floor =>
      intro h
      unfold trusts at h ⊢
      dsimp only at h ⊢
      split at h
      · cases h
      · exact h
      · rename_i floor' _
        by_cases hfloor : floor' = floor
        · subst hfloor
          simp only [Dict.get?_set_self, Option.some.injEq, Bool.and_eq_true,
            decide_eq_true_eq] at h
          exact absurd h.1.symm hne
        · simpa only [Dict.get?_set, if_neg hfloor] using h

/-- A folded suspect top is not trusted. -/
theorem trusts_foldBook_self {e : BookUpdate} (h : trusts (foldBook st e) e.marketTicker = true) :
    e.top.suspect = false := by
  revert h
  unfold foldBook
  dsimp only
  cases hclass : classifyTicker e.marketTicker st.bucketMap st.strikeFloorMap with
  | none => simp [trusts, hclass]
  | some c => cases c <;> simp [trusts, hclass, trustedTop]

/-! ### The condition -/

/-- The core trusts no book of a connection, but perhaps the one of a market. -/
def TrustsOnly (F : Feed) (w : Wire) (market : Option String) : Prop :=
  ∀ m ∈ (F.wires w).tickers, some m ≠ market → trusts F.driver.st m = false

/-- A snapshot replaces its book. -/
def isSnapshot : FrameBody → Bool
  | .snapshot _ _ => true
  | _ => false

/-- When a gap is found or a connection is dialled again, the core trusts no book of that
connection but the one the frame drives it with, which is a snapshot or leaves a suspect mirror. -/
def NothingTrusted (F : Feed) : FeedMove → Prop
  | .message w f => hasGap (F.wires w) f = true →
    TrustsOnly F w (drivenMarket F (.message w f)) ∧
      ∀ market ∈ drivenMarket F (.message w f), isSnapshot f.body = false →
        (mirrorOf (foldFrame F market f.body) market).suspect = true
  | .redial w => TrustsOnly F w none
  | .driver _ => True

/-! ### What a run keeps -/

/-- A market whose connection lost a frame has no trusted top in the core, but perhaps one
market, and its mirror is suspect once the connection reads frames again. -/
structure GuardedBut (F : Feed) (market : Option String) : Prop where
  queue : NoBookQueued F.driver
  apart : ∀ m ∈ (F.wires .strike).tickers, m ∉ (F.wires .bucket).tickers
  marked : ∀ w, (F.wires w).reconnectRequested = false → ∀ m ∈ (F.wires w).tickers,
    m ∈ F.staleMirrors → (mirrorOf F m).suspect = true
  known : ∀ m ∈ F.staleMirrors, m ∈ F.staleTops
  untrusted : ∀ m ∈ F.staleTops, some m ≠ market → trusts F.driver.st m = false

/-- No market whose connection lost a frame has a trusted top in the core. -/
def Guarded (F : Feed) : Prop := GuardedBut F none

variable {F : Feed} {w : Wire} {f : WsFrame} {market : Option String}

/-- A new feed trusts no book. -/
theorem Guarded.start (h : IsNewFeed F) : Guarded F := by
  obtain ⟨⟨closeTime, closeEpoch, bucketMap, strikeFloorMap, exchByTicker, hdriver⟩, -, hmirrors,
    htops, -, hapart⟩ := h
  have hnone : ∀ m, m ∉ F.staleMirrors := by
    intro m hm
    rw [hmirrors] at hm
    cases hm
  constructor
  · rw [hdriver]
    exact fun ev hev => absurd hev List.not_mem_nil
  · exact hapart
  · exact fun w _ m _ hm => absurd hm (hnone m)
  · exact fun m hm => absurd hm (hnone m)
  · intro m hm
    rw [htops] at hm
    cases hm

/-- A guarded feed is guarded but for any market. -/
theorem Guarded.but (h : Guarded F) (market : Option String) : GuardedBut F market :=
  ⟨h.queue, h.apart, h.marked, h.known, fun m hm _ => h.untrusted m hm (Option.some_ne_none m)⟩

/-- No market is on both connections. -/
theorem GuardedBut.one_wire (h : GuardedBut F market) {m : String} {w w' : Wire}
    (hm : m ∈ (F.wires w).tickers) (hm' : m ∈ (F.wires w').tickers) : w = w' := by
  cases w <;> cases w'
  · rfl
  · exact absurd hm' (h.apart m hm)
  · exact absurd hm (h.apart m hm')
  · rfl

/-- Losing a connection while it reads no frame keeps the guard but for the market it may still
be trusted for. -/
theorem Guarded.loseTrack (h : Guarded F) {k : Connection}
    (hk : k.tickers = (F.wires w).tickers) (hreads : k.reconnectRequested = true)
    (honly : TrustsOnly F w market) : GuardedBut (loseTrack (setWire F w k) w) market := by
  have htickers : ∀ w', ((setWire F w k).wires w').tickers = (F.wires w').tickers := by
    intro w'
    by_cases hw : w' = w
    · subst hw
      simp [setWire, hk]
    · simp [setWire, hw]
  constructor
  · exact h.queue
  · intro m hm hm'
    exact h.apart m ((htickers .strike) ▸ hm) ((htickers .bucket) ▸ hm')
  · intro w' hw' m hm hstale
    have hne : w' ≠ w := by
      rintro rfl
      have hreading : k.reconnectRequested = false := by simpa [V32.loseTrack, setWire] using hw'
      rw [hreads] at hreading
      cases hreading
    have hm' : m ∈ (F.wires w').tickers := (htickers w') ▸ hm
    rcases List.mem_append.mp hstale with hold | hnew
    · refine h.marked w' ?_ m hm' hold
      simpa [V32.loseTrack, setWire, hne] using hw'
    · have hnew' : m ∈ (F.wires w).tickers := (htickers w) ▸ hnew
      exact absurd (h.one_wire hm' hnew') hne
  · intro m hm
    rcases List.mem_append.mp hm with hold | hnew
    · exact List.mem_append_left _ (h.known m hold)
    · exact List.mem_append_right _ hnew
  · intro m hm hne
    rcases List.mem_append.mp hm with hold | hnew
    · exact h.untrusted m hold (Option.some_ne_none m)
    · exact honly m ((htickers w) ▸ hnew) hne

/-- A frame in sequence keeps the guard. -/
theorem Guarded.inSequence (h : Guarded F) (hgap : hasGap (F.wires w) f = false) :
    Guarded (setWire F w (checkSeq (F.wires w) f)) := by
  have hwire : ∀ w', ((setWire F w (checkSeq (F.wires w) f)).wires w').tickers
        = (F.wires w').tickers ∧
      ((setWire F w (checkSeq (F.wires w) f)).wires w').reconnectRequested
        = (F.wires w').reconnectRequested := by
    intro w'
    by_cases hw : w' = w
    · subst hw
      unfold checkSeq setWire
      dsimp only
      rw [if_pos rfl]
      split
      · exact ⟨rfl, rfl⟩
      · exact ⟨rfl, by rw [hgap, Bool.or_false]⟩
    · simp [setWire, hw]
  constructor
  · exact h.queue
  · intro m hm hm'
    exact h.apart m ((hwire .strike).1 ▸ hm) ((hwire .bucket).1 ▸ hm')
  · intro w' hw' m hm hstale
    exact h.marked w' ((hwire w').2 ▸ hw') m ((hwire w').1 ▸ hm) hstale
  · exact h.known
  · exact h.untrusted

/-! ### Folding and driving -/

/-- A delta leaves a suspect mirror suspect. -/
theorem applyDelta_suspect {b : BookMirror} (h : b.suspect = true) (change : Option LevelDelta) :
    (applyDelta b change).suspect = true := by
  unfold applyDelta
  split
  · rfl
  · split
    · exact h
    · exact h

/-- The mirror of another market stays. -/
theorem mirrorOf_set_ne {m t : String} (hne : m ≠ t) (b : BookMirror) :
    mirrorOf { F with books := F.books.set t b } m = mirrorOf F m := by
  unfold mirrorOf
  rw [Dict.get?_set, if_neg hne]

/-- The mirror of a market after it is replaced. -/
theorem mirrorOf_set_self (t : String) (b : BookMirror) :
    mirrorOf { F with books := F.books.set t b } t = b := by
  unfold mirrorOf
  rw [Dict.get?_set_self]
  rfl

/-- A fold keeps the guard. -/
theorem GuardedBut.foldFrame (h : GuardedBut F market) (t : String) (body : FrameBody) :
    GuardedBut (foldFrame F t body) market := by
  cases body with
  | snapshot yes no =>
    constructor
    · exact h.queue
    · exact h.apart
    · intro w hw m hm hstale
      obtain ⟨hold, hne⟩ := List.mem_filter.mp hstale
      have hmirror : mirrorOf (V32.foldFrame F t (.snapshot yes no)) m = mirrorOf F m :=
        mirrorOf_set_ne (by simpa using hne) _
      rw [hmirror]
      exact h.marked w hw m hm hold
    · exact fun m hm => h.known m (List.mem_filter.mp hm).1
    · exact h.untrusted
  | delta change =>
    constructor
    · exact h.queue
    · exact h.apart
    · intro w hw m hm hstale
      have hsuspect := h.marked w hw m hm hstale
      by_cases hmt : m = t
      · subst hmt
        have hmirror : mirrorOf (V32.foldFrame F m (.delta change)) m
            = applyDelta (mirrorOf F m) change := mirrorOf_set_self m _
        rw [hmirror]
        exact applyDelta_suspect hsuspect change
      · have hmirror : mirrorOf (V32.foldFrame F t (.delta change)) m = mirrorOf F m :=
          mirrorOf_set_ne hmt _
        rw [hmirror]
        exact hsuspect
    · exact h.known
    · exact h.untrusted
  | other => exact h

/-- Driving the core with a market whose mirror is suspect if it lost a frame keeps the guard. -/
theorem GuardedBut.driveBook {t : String} (h : GuardedBut F (some t))
    (hmirror : t ∈ F.staleMirrors → (mirrorOf F t).suspect = true) (ts : ℚ) :
    Guarded (driveBook p F t ts) := by
  have hkept : ∀ m ∈ (V32.driveBook p F t ts).staleTops,
      m ∈ F.staleTops ∧ (m = t → t ∈ F.staleMirrors) := by
    intro m hm
    unfold V32.driveBook at hm
    dsimp only at hm
    split at hm
    · rename_i hstale
      exact ⟨hm, fun _ => hstale⟩
    · obtain ⟨hm', hne⟩ := List.mem_filter.mp hm
      exact ⟨hm', fun heq => absurd heq (by simpa using hne)⟩
  constructor
  · exact h.queue
  · exact h.apart
  · exact h.marked
  · intro m hm
    show m ∈ (V32.driveBook p F t ts).staleTops
    unfold V32.driveBook
    dsimp only
    split
    · exact h.known m hm
    · rename_i hstale
      refine List.mem_filter.mpr ⟨h.known m hm, ?_⟩
      have hne : m ≠ t := by
        rintro rfl
        exact hstale hm
      simpa using hne
  · intro m hm _
    obtain ⟨hm', hself⟩ := hkept m hm
    have hbooks := (decideV32_sameMarkets (p := p) F.driver.st (.bookUpdate ⟨t,
      topOfBook (mirrorOf F t), (stamp F.driver ts).lastServerTs.getD ts, some ts⟩)).trusts_eq m
    refine hbooks.trans (Bool.eq_false_iff.mpr fun htrusted => ?_)
    by_cases hmt : m = t
    · subst hmt
      have hclear : (topOfBook (mirrorOf F m)).suspect = false := trusts_foldBook_self htrusted
      have hsuspect := hmirror (hself rfl)
      rw [show (topOfBook (mirrorOf F m)).suspect = (mirrorOf F m).suspect from rfl,
        hsuspect] at hclear
      cases hclear
    · have hold := h.untrusted m hm' fun heq => hmt (Option.some.inj heq)
      have hbefore : trusts F.driver.st m = true := trusts_foldBook_ne hmt htrusted
      rw [hold] at hbefore
      cases hbefore

/-! ### The steps of the feed -/

/-- Marking one book suspect leaves the others. -/
theorem markOne_get? (books : Dict String BookMirror) (t m : String) :
    (markOne books t).get? m =
      (books.get? m).map fun b => if m = t then { b with suspect := true } else b := by
  unfold markOne
  split
  · rename_i ht
    by_cases hm : m = t
    · subst hm
      rw [ht]
      rfl
    · simp [hm]
  · rename_i b ht
    by_cases hm : m = t
    · subst hm
      rw [Dict.get?_set_self, ht]
      simp
    · rw [Dict.get?_set, if_neg hm]
      simp [hm]

/-- Marking leaves every mirror of the markets suspect and the others as they are. -/
theorem markSuspect_get? (books : Dict String BookMirror) (tickers : List String) (m : String) :
    (markSuspect books tickers).get? m =
      (books.get? m).map fun b => if m ∈ tickers then { b with suspect := true } else b := by
  induction tickers generalizing books with
  | nil => simp [markSuspect]
  | cons t tickers ih =>
    have hstep : markSuspect books (t :: tickers) = markSuspect (markOne books t) tickers := rfl
    rw [hstep, ih, markOne_get?, Option.map_map]
    congr 1
    funext b
    by_cases hm : m = t
    · simp [hm]
    · simp [hm]

/-- A new dial keeps the guard when the core trusts no book of the connection. -/
theorem Guarded.redial (h : Guarded F) (honly : TrustsOnly F w none) : Guarded (redial F w) := by
  have hwire : ∀ w', ((V32.redial F w).wires w').tickers = (F.wires w').tickers := by
    intro w'
    by_cases hw : w' = w
    · subst hw
      simp [V32.redial, setWire, V32.loseTrack]
    · simp [V32.redial, setWire, V32.loseTrack, hw]
  have hmirror : ∀ m, (mirrorOf (V32.redial F w) m).suspect = true ∨
      m ∉ (F.wires w).tickers ∧ mirrorOf (V32.redial F w) m = mirrorOf F m := by
    intro m
    have hget : (V32.redial F w).books.get? m = (F.books.get? m).map fun b =>
        if m ∈ (F.wires w).tickers then { b with suspect := true } else b :=
      markSuspect_get? _ _ _
    unfold mirrorOf
    rw [hget]
    cases F.books.get? m with
    | none => exact Or.inl rfl
    | some b =>
      by_cases hm : m ∈ (F.wires w).tickers
      · left
        simp [hm]
      · right
        simp [hm]
  constructor
  · exact h.queue
  · intro m hm hm'
    exact h.apart m ((hwire .strike) ▸ hm) ((hwire .bucket) ▸ hm')
  · intro w' hw' m hm hstale
    rcases hmirror m with hsuspect | ⟨hnot, hkeep⟩
    · exact hsuspect
    · have hm' : m ∈ (F.wires w').tickers := (hwire w') ▸ hm
      have hne : w' ≠ w := by
        rintro rfl
        exact hnot hm'
      rw [hkeep]
      refine h.marked w' ?_ m hm' ?_
      · simpa [V32.redial, setWire, V32.loseTrack, hne] using hw'
      · rcases List.mem_append.mp hstale with hold | hnew
        · exact hold
        · exact absurd hnew hnot
  · intro m hm
    rcases List.mem_append.mp hm with hold | hnew
    · exact List.mem_append_left _ (h.known m hold)
    · exact List.mem_append_right _ hnew
  · intro m hm _
    rcases List.mem_append.mp hm with hold | hnew
    · exact h.untrusted m hold (Option.some_ne_none m)
    · exact honly m hnew (Option.some_ne_none m)

/-- The check of a sequence number keeps the markets that drive the core. -/
@[simp] theorem afterCheck_m15Tickers (F : Feed) (w : Wire) (f : WsFrame) :
    (afterCheck F w f).m15Tickers = F.m15Tickers := by
  unfold afterCheck
  split <;> rfl

/-- It keeps the mirrors. -/
@[simp] theorem afterCheck_books (F : Feed) (w : Wire) (f : WsFrame) :
    (afterCheck F w f).books = F.books := by
  unfold afterCheck
  split <;> rfl

/-- A folded frame keeps the markets that drive the core. -/
@[simp] theorem foldFrame_m15Tickers (F : Feed) (t : String) (body : FrameBody) :
    (foldFrame F t body).m15Tickers = F.m15Tickers := by
  cases body <;> rfl

/-- The check of a sequence number does not drive the core. -/
theorem afterCheck_driver (F : Feed) (w : Wire) (f : WsFrame) :
    (afterCheck F w f).driver = F.driver := by
  unfold afterCheck
  split <;> rfl

/-- A folded frame does not drive the core. -/
theorem foldFrame_driver (F : Feed) (t : String) (body : FrameBody) :
    (foldFrame F t body).driver = F.driver := by
  cases body <;> rfl

/-- The market that drives the core is the frame's own. -/
theorem drivenBy_market {m15 : List String} {t : String} {ts : ℚ}
    (h : drivenBy m15 f = some (t, ts)) : truthy f.market = some t ∧ f.body ≠ .other := by
  have hbind : ((truthy f.market).filter (· ∉ m15)).bind
      (fun market => f.serverTs.map fun ts => (market, ts)) = some (t, ts) ∧ f.body ≠ .other := by
    revert h
    unfold drivenBy
    split
    · simp
    · rename_i hbody
      exact fun h => ⟨h, hbody⟩
  obtain ⟨⟨t', ht', hpair⟩, hbody⟩ :=
    And.imp_left Option.bind_eq_some_iff.mp hbind
  obtain ⟨ts', -, heq⟩ := Option.map_eq_some_iff.mp hpair
  cases heq
  exact ⟨(Option.filter_eq_some_iff.mp ht').1, hbody⟩

/-- A frame that drives no market leaves the feed as it is. -/
theorem driveFrame_none (h : drivenBy F.m15Tickers f = none) : driveFrame p F f = F := by
  unfold driveFrame
  rw [h]

/-- A frame that drives a market drives its book. -/
theorem driveFrame_some {t : String} {ts : ℚ} (h : drivenBy F.m15Tickers f = some (t, ts)) :
    driveFrame p F f = driveBook p F t ts := by
  unfold driveFrame
  rw [h]

/-- A frame that drives nothing is checked and, if it has a market, folded. -/
theorem onMessage_undriven (h : drivenBy F.m15Tickers f = none) :
    onMessage p F w f = afterCheck F w f ∨
      ∃ t, onMessage p F w f = foldFrame (afterCheck F w f) t f.body := by
  unfold onMessage
  split
  · exact Or.inl rfl
  · rename_i t _
    exact Or.inr ⟨t, driveFrame_none (by simpa using h)⟩

/-- A frame that drives the core is checked, folded and given to it. -/
theorem onMessage_driven {t : String} {ts : ℚ} (h : drivenBy F.m15Tickers f = some (t, ts)) :
    onMessage p F w f = driveBook p (foldFrame (afterCheck F w f) t f.body) t ts := by
  unfold onMessage
  rw [(drivenBy_market h).1]
  exact driveFrame_some (by simpa using h)

/-- The check of a frame keeps the guard but for a market the condition spares. -/
theorem Guarded.afterCheck (h : Guarded F)
    (hgap : hasGap (F.wires w) f = true → TrustsOnly F w market) :
    GuardedBut (afterCheck F w f) market := by
  unfold V32.afterCheck
  dsimp only
  split
  · rename_i hskip
    have hnumbered : ∃ n, f.numbered = some n := by
      cases hn : f.numbered with
      | none => simp [hasGap, hn] at hskip
      | some n => exact ⟨n, rfl⟩
    obtain ⟨n, hn⟩ := hnumbered
    refine h.loseTrack ?_ ?_ (hgap hskip)
    · simp [checkSeq, hn]
    · simp [checkSeq, hn, hskip]
  · rename_i hskip
    exact (h.inSequence (Bool.eq_false_iff.mpr hskip)).but market

/-- The market a frame drives the core with. -/
theorem drivenMarket_some {t : String} {ts : ℚ} (h : drivenBy F.m15Tickers f = some (t, ts)) :
    drivenMarket F (.message w f) = some t := by
  show (drivenBy F.m15Tickers f).map Prod.fst = some t
  rw [h]
  rfl

/-- A driven mirror is suspect if its market lost a frame. -/
theorem Guarded.drivenMirror (h : Guarded F) (hd : Delivered F (.message w f))
    (hok : NothingTrusted F (.message w f)) {t : String} {ts : ℚ}
    (hdriven : drivenBy F.m15Tickers f = some (t, ts))
    (hstale : t ∈ (V32.foldFrame (V32.afterCheck F w f) t f.body).staleMirrors) :
    (mirrorOf (V32.foldFrame (V32.afterCheck F w f) t f.body) t).suspect = true := by
  obtain ⟨hmarket, hbody⟩ := drivenBy_market hdriven
  cases hf : f.body with
  | other => exact absurd hf hbody
  | snapshot yes no =>
    rw [hf] at hstale
    exact absurd rfl (of_decide_eq_true (List.mem_filter.mp hstale).2)
  | delta change =>
    rw [hf] at hstale
    have hmirror : mirrorOf (V32.foldFrame (V32.afterCheck F w f) t (.delta change)) t
        = mirrorOf (V32.foldFrame F t (.delta change)) t := by
      refine (mirrorOf_set_self t _).trans (.trans ?_ (mirrorOf_set_self t _).symm)
      unfold mirrorOf
      rw [afterCheck_books]
    rw [hmirror]
    cases hgap : hasGap (F.wires w) f with
    | true =>
      have hsuspect := (hok hgap).2 t (drivenMarket_some hdriven) (by rw [hf]; rfl)
      rwa [hf] at hsuspect
    | false =>
      -- the connection reads frames, so a market that lost one has a marked mirror
      have hown : t ∈ (F.wires w).tickers := hd.2 t (Option.filter_eq_some_iff.mp hmarket).1
      have hkept : (V32.afterCheck F w f).staleMirrors = F.staleMirrors := by
        unfold V32.afterCheck
        rw [hgap]
        rfl
      have hstale' : t ∈ F.staleMirrors := hkept ▸ hstale
      rw [show mirrorOf (V32.foldFrame F t (.delta change)) t = applyDelta (mirrorOf F t) change
        from mirrorOf_set_self t _]
      exact applyDelta_suspect (h.marked w hd.1 t hown hstale') change

/-- A frame under which nothing stale is trusted keeps the feed guarded. -/
theorem Guarded.onMessage (h : Guarded F) (hd : Delivered F (.message w f))
    (hok : NothingTrusted F (.message w f)) : Guarded (onMessage p F w f) := by
  cases hdriven : drivenBy F.m15Tickers f with
  | none =>
    have hchecked : Guarded (V32.afterCheck F w f) := h.afterCheck fun hgap => by
      have honly := (hok hgap).1
      rwa [show drivenMarket F (.message w f) = none from congrArg (Option.map Prod.fst) hdriven]
        at honly
    rcases onMessage_undriven (p := p) (w := w) hdriven with heq | ⟨t, heq⟩
    · rw [heq]
      exact hchecked
    · rw [heq]
      exact hchecked.foldFrame t f.body
  | some e =>
    obtain ⟨t, ts⟩ := e
    have hchecked : GuardedBut (V32.afterCheck F w f) (some t) := h.afterCheck fun hgap =>
      drivenMarket_some (w := w) hdriven ▸ (hok hgap).1
    rw [onMessage_driven hdriven]
    exact (hchecked.foldFrame t f.body).driveBook (h.drivenMirror hd hok hdriven) ts

/-- A delivered move that meets the condition keeps the guard. -/
theorem Guarded.follow (h : Guarded F) {a : FeedMove} (hd : Delivered F a)
    (hok : NothingTrusted F a) : Guarded (follow p F a) := by
  cases a with
  | message w f => exact h.onMessage hd hok
  | redial w => exact h.redial hok
  | driver m =>
    have hbook : ∀ market top ts, m ≠ .book market top ts := by
      rintro market top ts rfl
      exact hd
    constructor
    · exact next_noBookQueued h.queue m
    · exact h.apart
    · exact h.marked
    · exact h.known
    · intro m' hm' hne
      exact ((next_sameMarkets h.queue hbook).trusts_eq m').trans (h.untrusted m' hm' hne)

/-! ### Untrusted tops price nothing -/

/-- The tops of two dictionaries are kept for the same floors and trusted alike. -/
structure TrustedAlike (tops tops' : Dict ℤ TopOfBook) : Prop where
  keys : tops'.keys = tops.keys
  trusted : ∀ floor, trustedTop (tops'.get? floor) = trustedTop (tops.get? floor)

/-- The state with other tops. -/
def withTops (st : V32State) (strikes buckets : Dict ℤ TopOfBook) : V32State :=
  { st with strikeTops := strikes, bucketTops := buckets }

/-- A valid book is a trusted one. -/
theorem bind_validTwoSided (top : Option TopOfBook) :
    top.bind validTwoSided = (trustedTop top).bind validTwoSided := by
  cases top with
  | none => rfl
  | some b =>
    cases hsuspect : b.suspect with
    | false => simp [trustedTop, Option.filter, hsuspect]
    | true =>
      have hinvalid : validTwoSided b = none := by
        unfold validTwoSided
        split
        · simp [hsuspect]
        · rfl
      simp [trustedTop, Option.filter, hsuspect, hinvalid]

variable {strikes buckets : Dict ℤ TopOfBook}

/-- Tops that are trusted alike are read alike. -/
theorem TrustedAlike.bind_validTwoSided {tops tops' : Dict ℤ TopOfBook}
    (h : TrustedAlike tops tops') (floor : ℤ) :
    (tops'.get? floor).bind validTwoSided = (tops.get? floor).bind validTwoSided := by
  rw [V32.bind_validTwoSided, h.trusted, ← V32.bind_validTwoSided]

/-- The asks of two strikes are read from trusted tops only. -/
theorem strikeAsks_eq (st : V32State) (sd su : ℤ) (t : ℚ) :
    strikeAsks p st sd su t =
      (trustedTop (st.strikeTops.get? sd)).bind fun sdTop =>
        (trustedTop (st.strikeTops.get? su)).bind fun suTop =>
          if fresh t (st.strikeTs.get? sd) p.freshnessMaxAgeS ∧
            fresh t (st.strikeTs.get? su) p.freshnessMaxAgeS then
            sdTop.yesAsk.bind fun ya => suTop.noAsk.map fun na => (ya, na)
          else none := by
  unfold strikeAsks
  cases hsd : st.strikeTops.get? sd with
  | none => simp [trustedTop]
  | some sdTop =>
    cases hsu : st.strikeTops.get? su with
    | none => simp [trustedTop]
    | some suTop =>
      cases hsdSuspect : sdTop.suspect with
      | true => simp [trustedTop, Option.filter, hsdSuspect]
      | false =>
        cases hsuSuspect : suTop.suspect with
        | true => simp [trustedTop, Option.filter, hsuSuspect]
        | false =>
          simp only [trustedTop, Option.filter, hsdSuspect, hsuSuspect]
          cases hya : sdTop.yesAsk <;> cases hna : suTop.noAsk <;> simp [hya, hna]
          grind

/-- The quote and the wing prices are read from trusted tops only. -/
theorem priced_from_trusted (hs : TrustedAlike st.strikeTops strikes)
    (hb : TrustedAlike st.bucketTops buckets) (t : ℚ) :
    (recomputeContext p (withTops st strikes buckets) t).toQuote =
        (recomputeContext p st t).toQuote ∧
      wingPrices p (withTops st strikes buckets) t = wingPrices p st t := by
  have hspot : selectSpot (withTops st strikes buckets) = selectSpot st := by
    unfold selectSpot withTops
    dsimp only
    rw [hb.keys]
    simp only [hb.bind_validTwoSided]
  have hasks : ∀ sd su, strikeAsks p (withTops st strikes buckets) sd su t =
      strikeAsks p st sd su t := by
    intro sd su
    rw [strikeAsks_eq, strikeAsks_eq]
    show (trustedTop (strikes.get? sd)).bind (fun sdTop =>
      (trustedTop (strikes.get? su)).bind _) = _
    rw [hs.trusted, hs.trusted]
    rfl
  have hcap : ∀ sd, bucketCap (withTops st strikes buckets) sd = bucketCap st sd := by
    intro sd
    unfold bucketCap
    exact congrArg (Option.map _) (hb.bind_validTwoSided sd)
  constructor
  · unfold recomputeContext computeW
    rw [hspot]
    split
    · rfl
    · dsimp only
      rw [hasks, hcap]
      have hts : (withTops st strikes buckets).bucketTs = st.bucketTs := rfl
      rw [hts]
      split_ifs
      · rfl
      · rfl
  · unfold wingPrices
    simp only [hasks]
    rfl

/-! ### Every decision -/

/-- A move decides on fresh books: the core trusts no top of a market that lost a frame and was
not given to it again, and the mirror it is driven with is suspect if its market lost one. -/
def DecidesFresh (p : V32Params) (F : Feed) (a : FeedMove) : Prop :=
  (∀ st ∈ decidedOn p F a, ∀ m ∈ (follow p F a).staleTops, trusts st m = false) ∧
    ∀ m ∈ drivenMarket F a, m ∈ (follow p F a).staleMirrors →
      (mirrorOf (follow p F a) m).suspect = true

/-- In every run where nothing of a connection is trusted when it loses a frame, every move
decides on fresh books. -/
theorem decides_fresh {as : List FeedMove} (hrun : Follows p NothingTrusted as F) {a : FeedMove}
    (hd : Delivered F a) (hok : NothingTrusted F a) : DecidesFresh p F a := by
  obtain ⟨start, hstart, hfed⟩ := hrun
  have hguard : Guarded F :=
    hfed.preserves (I := Guarded) (fun F a h hstep => h.follow hstep.1 hstep.2)
      (Guarded.start hstart)
  have hafter : Guarded (follow p F a) := hguard.follow hd hok
  constructor
  · intro st hst m hm
    have huntrusted := hafter.untrusted m hm (Option.some_ne_none m)
    cases a with
    | message w f =>
      obtain ⟨⟨t, ts⟩, hdriven, rfl⟩ := Option.map_eq_some_iff.mp hst
      have hmessage : follow p F (.message w f)
          = driveBook p (foldFrame (afterCheck F w f) t f.body) t ts := onMessage_driven hdriven
      have hafterFold : trusts (follow p F (.message w f)).driver.st m = trusts
          (foldBook F.driver.st
          ⟨t, topOfBook (mirrorOf (follow p F (.message w f)) t),
            (stamp F.driver ts).lastServerTs.getD ts, some ts⟩) m := by
        rw [hmessage, ← afterCheck_driver F w f, ← foldFrame_driver (afterCheck F w f) t f.body]
        exact (decideV32_sameMarkets _ (.bookUpdate _)).trusts_eq m
      exact hafterFold ▸ huntrusted
    | redial w => cases hst
    | driver m' =>
      cases hst
      exact hguard.untrusted m hm (Option.some_ne_none m)
  · intro m hm hstale
    cases a with
    | message w f =>
      obtain ⟨⟨t, ts⟩, hdriven, rfl⟩ := Option.map_eq_some_iff.mp hm
      have hmessage : follow p F (.message w f)
          = driveBook p (foldFrame (afterCheck F w f) t f.body) t ts := onMessage_driven hdriven
      rw [hmessage] at hstale ⊢
      exact hguard.drivenMirror hd hok hdriven hstale
    | redial w => cases hm
    | driver m' => cases hm

/-! ### A gap in the sample window -/

instance (F : Feed) (w : Wire) (market : Option String) : Decidable (TrustsOnly F w market) :=
  inferInstanceAs (Decidable (∀ m ∈ (F.wires w).tickers, _))

instance Delivered.decidable (F : Feed) : ∀ a, Decidable (Delivered F a)
  | .message w f => inferInstanceAs (Decidable ((F.wires w).reconnectRequested = false ∧
      ∀ market ∈ f.market, market ∈ (F.wires w).tickers))
  | .redial _ => .isTrue trivial
  | .driver (.book _ _ _) => .isFalse id
  | .driver (.tick _) => .isTrue trivial
  | .driver (.frame _ _) => .isTrue trivial
  | .driver (.poll _) => .isTrue trivial
  | .driver (.perform _) => .isTrue trivial
  | .driver .decide => .isTrue trivial
  | .driver (.venueFill _ _) => .isTrue trivial
  | .driver (.venueLeave _) => .isTrue trivial

instance NothingTrusted.decidable (F : Feed) : ∀ a, Decidable (NothingTrusted F a)
  | .message w f => inferInstanceAs (Decidable (hasGap (F.wires w) f = true →
      TrustsOnly F w (drivenMarket F (.message w f)) ∧
        ∀ market ∈ drivenMarket F (.message w f), isSnapshot f.body = false →
          (mirrorOf (foldFrame F market f.body) market).suspect = true))
  | .redial w => inferInstanceAs (Decidable (TrustsOnly F w none))
  | .driver _ => .isTrue trivial

/-- A frame arrives between two events of the driver, whose own moves are fair. -/
def Orderly (F : Feed) : FeedMove → Prop
  | .message _ _ => F.driver.Idle
  | .redial _ => True
  | .driver m => Fair F.driver m

instance Orderly.decidable (F : Feed) : ∀ a, Decidable (Orderly F a)
  | .message _ _ => inferInstanceAs (Decidable F.driver.Idle)
  | .redial _ => .isTrue trivial
  | .driver m => inferInstanceAs (Decidable (Fair F.driver m))

instance (p : V32Params) (F : Feed) (a : FeedMove) : Decidable (DecidesFresh p F a) :=
  inferInstanceAs (Decidable (_ ∧ _))

/-- The feed of the sample window: the strikes on one connection, the buckets on the other. -/
def sampleFeed : Feed where
  driver := sampleStart
  books := Dict.empty
  wires
    | .strike => ⟨["S100", "S200", "S300"], Dict.empty, false⟩
    | .bucket => ⟨["B100", "B200"], Dict.empty, false⟩
  m15Tickers := []
  staleMirrors := []
  staleTops := []

/-- A snapshot with one bid on each side, in cents. -/
def centSnapshot (market : String) (yes no : ℕ) (seq : ℤ) (ts : Option ℚ) : WsFrame :=
  ⟨.snapshot [(yes / 100, 10)] [(no / 100, 10)], some "1", some seq, some market, ts⟩

/-- One more lot at a YES bid, in cents. -/
def centDelta (market : String) (yes : ℕ) (seq : ℤ) (ts : Option ℚ) : WsFrame :=
  ⟨.delta (some ⟨.yes, yes / 100, 1⟩), some "1", some seq, some market, ts⟩

/-- The driver routes what an event left to do. -/
def settle : FeedMove := .driver (.perform (calm "v1"))

/-- The strike connection skips frames before the core knows any of its books. -/
def earlyGap : List FeedMove :=
  [.message .strike (centDelta "S200" 50 1 none),
    .message .strike (centSnapshot "S100" 68 30 5 (some 1000)), settle, settle]

/-- The strike connection skips frames once the core knows two of its books. -/
def lateGap : List FeedMove :=
  [.message .strike (centSnapshot "S200" 50 48 1 (some 1000)), settle, settle,
    .message .strike (centSnapshot "S100" 68 30 2 (some 1000)), settle,
    .message .strike (centDelta "S200" 50 5 (some 1000)), settle]

/-- The first bucket is quoted. -/
def bucketQuoted : FeedMove := .message .bucket (centSnapshot "B100" 40 58 1 (some 1000))

/-- A run of the sample feed is followed by the core. -/
theorem follows_sample {p : V32Params} {ok : Feed → FeedMove → Prop} {as : List FeedMove}
    (h : AllAlong (follow p) (fun F a => Delivered F a ∧ ok F a) sampleFeed as) :
    Follows p ok as (as.foldl (follow p) sampleFeed) := by
  refine ⟨sampleFeed, ⟨⟨_, _, _, _, _, rfl⟩, rfl, rfl, rfl, ?_, by decide⟩, fed_of_allAlong h⟩
  intro w
  cases w <;> exact ⟨rfl, rfl⟩

/-- After the early gap the first bucket's frame is decided on fresh books. -/
theorem decides_fresh_sample :
    let F := earlyGap.foldl (follow samplePolicy) sampleFeed
    F.staleTops ≠ [] ∧ DecidesFresh samplePolicy F bucketQuoted :=
  ⟨by decide +kernel,
    decides_fresh (follows_sample (by decide +kernel)) (by decide +kernel) (by decide +kernel)⟩

/-- After the late gap an order is placed on the first bucket, priced from stale strikes. -/
theorem lateGap_decides_stale :
    let F := lateGap.foldl (follow samplePolicy) sampleFeed
    (follow samplePolicy F bucketQuoted).driver.acts.map V32Action.kind = [.placeRest] ∧
      ¬∀ p as F a, Follows p Orderly as F → Delivered F a → Orderly F a → DecidesFresh p F a := by
  refine ⟨by decide +kernel, fun h => ?_⟩
  have hrun : Follows samplePolicy Orderly lateGap
      (lateGap.foldl (follow samplePolicy) sampleFeed) := follows_sample (by decide +kernel)
  have hfresh := h _ _ _ bucketQuoted hrun (by decide +kernel) (by decide +kernel)
  revert hfresh
  decide +kernel

end Pilot.V32
