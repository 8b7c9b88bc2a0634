import Pilot.V32.Driver

/-!
# The feed

Two connections carry the order books: each checks the sequence of its frames, folds them into
one mirror for each market and drives the core with the mirror's top. A gap or a lost socket
ends a connection, its mirrors are marked suspect, and the next dial brings fresh snapshots.
-/

namespace Pilot.V32

/-! ### The book mirror -/

/-- The bids of one market, price by price, and whether they can be trusted. -/
structure BookMirror where
  yesBids : Dict ℚ ℚ
  noBids : Dict ℚ ℚ
  suspect : Bool

/-- A mirror that has seen no snapshot. -/
def BookMirror.new : BookMirror := ⟨Dict.empty, Dict.empty, true⟩

/-- The change of one level. -/
structure LevelDelta where
  side : Side
  price : ℚ
  delta : ℚ

/-- The levels of a snapshot that hold lots. -/
def parseLevels (raw : List (ℚ × ℚ)) : Dict ℚ ℚ := Dict.ofList (raw.filter fun l => 0 < l.2)

/-- A snapshot replaces the book and clears the suspicion. -/
def applySnapshot (yes no : List (ℚ × ℚ)) : BookMirror := ⟨parseLevels yes, parseLevels no, false⟩

/-- The bids of a side after the change of one level. -/
def changeLevel (book : Dict ℚ ℚ) (price delta : ℚ) : Dict ℚ ℚ :=
  let size := book.getD price 0 + delta
  if size ≤ 0 then book.pop price else book.set price size

/-- A delta changes one level; one that cannot be read makes the book suspect. -/
def applyDelta (b : BookMirror) (change : Option LevelDelta) : BookMirror :=
  match change with
  | none => { b with suspect := true }
  | some d =>
    match d.side with
    | .yes => { b with yesBids := changeLevel b.yesBids d.price d.delta }
    | .no => { b with noBids := changeLevel b.noBids d.price d.delta }

/-- The highest bid of a side. -/
def bestBid (book : Dict ℚ ℚ) : Option ℚ :=
  ((book.entries.filter fun l => 0 < l.2).map Prod.fst).max?

/-- The four best quotes; an ask is one less the other side's best bid. -/
def topOfBook (b : BookMirror) : TopOfBook :=
  ⟨bestBid b.yesBids, (bestBid b.noBids).map fun n => 1 - n, bestBid b.noBids,
    (bestBid b.yesBids).map fun y => 1 - y, b.suspect⟩

/-! ### Connections -/

/-- The two connections. -/
inductive Wire where
  | strike
  | bucket
  deriving DecidableEq

/-- A connection, as it stands between two frames. -/
structure Connection where
  tickers : List String
  /-- The next sequence number of each subscription of this dial. -/
  expectedSeq : Dict String ℤ
  /-- A gap was found, and no frame is read until the next dial. -/
  reconnectRequested : Bool

/-- What a frame says of a book; the other frames carry none. -/
inductive FrameBody where
  | snapshot (yes no : List (ℚ × ℚ))
  | delta (change : Option LevelDelta)
  | other

/-- A frame of a connection. -/
structure WsFrame where
  body : FrameBody
  sid : Option String
  seq : Option ℤ
  market : Option String
  serverTs : Option ℚ

/-- The subscription and the sequence number of an order-book frame. -/
def WsFrame.numbered (f : WsFrame) : Option (String × ℤ) :=
  match f.body with
  | .other => none
  | _ => f.sid.bind fun sid => f.seq.map fun seq => (sid, seq)

/-- The frame skips forward. -/
def hasGap (k : Connection) (f : WsFrame) : Bool :=
  f.numbered.any fun n => (k.expectedSeq.get? n.1).any fun expected => expected < n.2

/-- Check the sequence of a frame: a forward skip asks for a reconnect, and the counter follows
the venue's in every case. -/
def checkSeq (k : Connection) (f : WsFrame) : Connection :=
  match f.numbered with
  | none => k
  | some n =>
    { k with
      expectedSeq := k.expectedSeq.set n.1 (n.2 + 1)
      reconnectRequested := k.reconnectRequested || hasGap k f }

/-! ### The feed and the driver -/

/-- The driver with its feed, beside a record of the books that lost a frame. -/
structure Feed where
  driver : Config
  books : Dict String BookMirror
  wires : Wire → Connection
  /-- The markets that are only recorded. -/
  m15Tickers : List String
  /-- The markets whose connection had a gap or was lost since their last snapshot. -/
  staleMirrors : List String
  /-- The markets the core has not been given a fresh snapshot of since. -/
  staleTops : List String

/-- Change the state of a connection. -/
def setWire (F : Feed) (w : Wire) (k : Connection) : Feed :=
  { F with wires := fun w' => if w' = w then k else F.wires w' }

/-- Every market of the connection lost a frame. -/
def loseTrack (F : Feed) (w : Wire) : Feed :=
  { F with
    staleMirrors := F.staleMirrors ++ (F.wires w).tickers
    staleTops := F.staleTops ++ (F.wires w).tickers }

/-- The mirror of a market. -/
def mirrorOf (F : Feed) (market : String) : BookMirror := (F.books.get? market).getD .new

/-- Fold a frame into the mirror of its market. -/
def foldFrame (F : Feed) (market : String) : FrameBody → Feed
  | .snapshot yes no =>
    { F with
      books := F.books.set market (applySnapshot yes no)
      staleMirrors := F.staleMirrors.filter (· ≠ market) }
  | .delta change =>
    { F with books := F.books.set market (applyDelta (mirrorOf F market) change) }
  | .other => F

/-- The market and the time of a frame that drives the core: an order-book frame with a time, of
a market that is not only recorded. -/
def drivenBy (m15 : List String) (f : WsFrame) : Option (String × ℚ) :=
  match f.body with
  | .other => none
  | _ => ((truthy f.market).filter (· ∉ m15)).bind fun market =>
    f.serverTs.map fun ts => (market, ts)

/-- Drive the core with the top of a market's mirror. -/
def driveBook (p : V32Params) (F : Feed) (market : String) (ts : ℚ) : Feed :=
  { F with
    driver := onBookUpdate p F.driver market (topOfBook (mirrorOf F market)) ts
    staleTops :=
      if market ∈ F.staleMirrors then F.staleTops else F.staleTops.filter (· ≠ market) }

/-- The feed once the sequence of a frame is checked: after a gap every market of the connection
lost a frame. -/
def afterCheck (F : Feed) (w : Wire) (f : WsFrame) : Feed :=
  let checked := setWire F w (checkSeq (F.wires w) f)
  if hasGap (F.wires w) f then loseTrack checked w else checked

/-- Drive the core with the market of a frame, if the frame drives it. -/
def driveFrame (p : V32Params) (F : Feed) (f : WsFrame) : Feed :=
  match drivenBy F.m15Tickers f with
  | none => F
  | some (market, ts) => driveBook p F market ts

/-- A frame arrives: its sequence is checked, and then it is dispatched to the mirror of its
market and to the core. -/
def onMessage (p : V32Params) (F : Feed) (w : Wire) (f : WsFrame) : Feed :=
  match truthy f.market with
  | none => afterCheck F w f
  | some market => driveFrame p (foldFrame (afterCheck F w f) market f.body) f

/-- Mark the mirror of a market, if there is one. -/
def markOne (books : Dict String BookMirror) (ticker : String) : Dict String BookMirror :=
  match books.get? ticker with
  | none => books
  | some b => books.set ticker { b with suspect := true }

/-- Mark the mirrors of some markets. -/
def markSuspect (books : Dict String BookMirror) (tickers : List String) : Dict String BookMirror :=
  tickers.foldl markOne books

/-- The connection has ended and is dialled again: its mirrors are suspect, its counters fresh. -/
def redial (F : Feed) (w : Wire) : Feed :=
  let F := loseTrack F w
  let F := { F with books := markSuspect F.books (F.wires w).tickers }
  setWire F w { F.wires w with expectedSeq := Dict.empty, reconnectRequested := false }

/-- What can happen to the feed; the driver's other moves bring it no book. -/
inductive FeedMove where
  | message (w : Wire) (f : WsFrame)
  | redial (w : Wire)
  | driver (m : Move)

/-- The feed after a move. -/
def follow (p : V32Params) (F : Feed) : FeedMove → Feed
  | .message w f => onMessage p F w f
  | .redial w => redial F w
  | .driver m => { F with driver := next p F.driver m }

/-- A connection reads no frame once a gap is found and is sent only its own markets; books come
from the feed. -/
def Delivered (F : Feed) : FeedMove → Prop
  | .message w f => (F.wires w).reconnectRequested = false ∧
      ∀ market ∈ f.market, market ∈ (F.wires w).tickers
  | .redial _ => True
  | .driver (.book _ _ _) => False
  | .driver _ => True

/-- The feed at the start of a window: nothing was read, and no market is on both wires. -/
def IsNewFeed (F : Feed) : Prop :=
  IsStart F.driver ∧ F.books = Dict.empty ∧ F.staleMirrors = [] ∧ F.staleTops = [] ∧
    (∀ w, (F.wires w).reconnectRequested = false ∧ (F.wires w).expectedSeq = Dict.empty) ∧
    ∀ m ∈ (F.wires .strike).tickers, m ∉ (F.wires .bucket).tickers

/-- A run of the feed from the start of a window, of moves that meet a condition. -/
def Follows (p : V32Params) (ok : Feed → FeedMove → Prop) (as : List FeedMove) (F : Feed) : Prop :=
  ∃ start, IsNewFeed start ∧ Fed (follow p) (fun F a => Delivered F a ∧ ok F a) start as F

/-! ### What a decision reads -/

/-- The state the core decides on in a move: a book frame is folded first. -/
def decidedOn (p : V32Params) (F : Feed) : FeedMove → Option V32State
  | .message w f =>
    let F' := onMessage p F w f
    (drivenBy F.m15Tickers f).map fun e =>
      foldBook F.driver.st ⟨e.1, topOfBook (mirrorOf F' e.1),
        (stamp F.driver e.2).lastServerTs.getD e.2, some e.2⟩
  | .redial _ => none
  | .driver _ => some F.driver.st

/-- The market whose mirror a move drives the core with. -/
def drivenMarket (F : Feed) : FeedMove → Option String
  | .message _ f => (drivenBy F.m15Tickers f).map Prod.fst
  | .redial _ => none
  | .driver _ => none

/-- A top that may be priced from. -/
def trustedTop (top : Option TopOfBook) : Option TopOfBook := top.filter fun t => !t.suspect

/-- The core keeps a top of the market and may price from it. -/
def trusts (st : V32State) (market : String) : Bool :=
  match V33.classifyTicker market st.bucketMap st.strikeFloorMap with
  | none => false
  | some (.strike floor) =>
    decide (st.strikeTickers.get? floor = some market) &&
      (trustedTop (st.strikeTops.get? floor)).isSome
  | some (.bucket floor) =>
    decide (st.bucketTickers.get? floor = some market) &&
      (trustedTop (st.bucketTops.get? floor)).isSome

end Pilot.V32
