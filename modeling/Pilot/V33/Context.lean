import Pilot.V33.State

/-!
# Books and the quote context

Folding a book into the state, selecting the spot bucket, pricing the wings and
re-deriving the quote context: the effective bucket with its debounce, `W`, the
cap, the ladder top and the labels of the resting rungs.
-/

namespace Pilot.V33

/-! ### Ticker classification -/

/-- What a ticker names, with its floor. -/
inductive TickerClass where
  | strike (floor : ℤ)
  | bucket (floor : ℤ)
  deriving DecidableEq

/-- The decimal digits at the front of `l`, as a number with their count, and the rest. -/
def takeDigits : List Char → ℕ → ℕ → ℕ × ℕ × List Char
  | c :: rest, acc, len =>
    if c.isDigit then takeDigits rest (10 * acc + (c.toNat - '0'.toNat)) (len + 1)
    else (acc, len, c :: rest)
  | [], acc, len => (acc, len, [])

/-- A sign at the front of `l`, `-1` or `1`, and the rest. -/
def takeSign : List Char → ℤ × List Char
  | '-' :: rest => (-1, rest)
  | '+' :: rest => (1, rest)
  | l => (1, l)

/-- The number a decimal literal denotes. A literal that is no finite number, or no number
at all, gives `none`, the result the caller maps every conversion error to. -/
def parseFloat (l : List Char) : Option ℚ :=
  let (sign, l) := takeSign l
  let (whole, wholeLen, l) := takeDigits l 0 0
  let (frac, fracLen, l) := match l with
    | '.' :: rest => takeDigits rest 0 0
    | l => (0, 0, l)
  if wholeLen + fracLen = 0 then none
  else
    let value : ℚ := sign * (whole + (frac : ℚ) / 10 ^ fracLen)
    match l with
    | [] => some value
    | e :: rest =>
      if e = 'e' ∨ e = 'E' then
        let (esign, rest) := takeSign rest
        match takeDigits rest 0 0 with
        | (_, 0, _) => none
        | (exponent, _, []) => some (value * (10 : ℚ) ^ (esign * exponent))
        | _ => none
      else none

/-- What follows the first `-T` of the text. -/
def afterTag : List Char → Option (List Char)
  | '-' :: 'T' :: rest => some rest
  | _ :: rest => afterTag rest
  | [] => none

/-- The text before the next `-T`. -/
def beforeTag : List Char → List Char
  | '-' :: 'T' :: _ => []
  | c :: rest => c :: beforeTag rest
  | [] => []

/-- The floor of a strike ticker `KXBTCD-…-T<strike>`. -/
def parseStrikeTicker (ticker : String) : Option ℤ :=
  if "KXBTCD-".toList.isPrefixOf ticker.toList then
    match afterTag ticker.toList with
    | none => none
    | some rest => (parseFloat (beforeTag rest)).map fun x => roundHalfEven (x + 1 / 100)
  else none

/-- What a market ticker names: a discovered bucket, a discovered strike, or a strike by its
name. -/
def classifyTicker (ticker : String) (bucketMap : Dict String (ℚ × ℚ))
    (strikeFloorMap : Dict String ℤ) : Option TickerClass :=
  match bucketMap.get? ticker with
  | some fc => some (.bucket (roundHalfEven fc.1))
  | none =>
    match strikeFloorMap.get? ticker with
    | some k => some (.strike k)
    | none => (parseStrikeTicker ticker).map .strike

/-! ### Books -/

/-- Record a book under its floor, with the frame's own time and its ticker. -/
def foldBook (st : V33State) (ev : BookUpdate) : V33State :=
  let bookTs := ev.bookTs.getD ev.serverTs
  match classifyTicker ev.marketTicker st.bucketMap st.strikeFloorMap with
  | none => st
  | some (.strike floor) =>
    { st with
      strikeTops := st.strikeTops.set floor ev.top
      strikeTs := st.strikeTs.set floor bookTs
      strikeTickers := st.strikeTickers.set floor ev.marketTicker }
  | some (.bucket floor) =>
    { st with
      bucketTops := st.bucketTops.set floor ev.top
      bucketTs := st.bucketTs.set floor bookTs
      bucketTickers := st.bucketTickers.set floor ev.marketTicker }

/-- Advance the time of the latest strike frame. -/
def stampStrikeFeed (st : V33State) (ev : BookUpdate) : V33State :=
  let bookTs := ev.bookTs.getD ev.serverTs
  match classifyTicker ev.marketTicker st.bucketMap st.strikeFloorMap with
  | some (.strike _) =>
    match st.strikeFeedTs with
    | some t => if bookTs ≤ t then st else { st with strikeFeedTs := some bookTs }
    | none => { st with strikeFeedTs := some bookTs }
  | _ => st

/-- A book usable for spot selection. -/
def validTwoSided (top : TopOfBook) : Option (ℚ × ℚ) :=
  match top.yesBid, top.yesAsk with
  | some bid, some ask =>
    if !top.suspect ∧ 0 < ask ∧ ask ≤ 1 ∧ 0 ≤ bid ∧ bid ≤ ask then some (bid, ask) else none
  | _, _ => none

/-- The age of a book lies within the bound, on either side of the clock. -/
def fresh (now : ℚ) (lastTs : Option ℚ) (bound : ℚ) : Bool :=
  match lastTs with
  | none => false
  | some t => decide (-bound ≤ now - t ∧ now - t ≤ bound)

/-- The bucket with the highest YES mid among the valid books; ties go to the lowest floor. -/
def selectSpot (st : V33State) : Option ℤ :=
  let best := (st.bucketTops.keys.insertionSort (· ≤ ·)).foldl
    (fun (best : Option (ℤ × ℚ)) floor =>
      match (st.bucketTops.get? floor).bind validTwoSided with
      | none => best
      | some (bid, ask) =>
        let mid := (bid + ask) / 2
        match best with
        | none => some (floor, mid)
        | some (f, m) => if m < mid then some (floor, mid) else some (f, m))
    none
  best.map Prod.fst

/-- The fee-inclusive cost of both wings per contract. -/
def wingCost (yesAsk noAsk : ℚ) : ℚ := yesAsk + fee yesAsk + noAsk + fee noAsk

/-- The lock of a rung at price `n` against the wing cost paid. -/
def lockValue (n wPaid : ℚ) : ℚ := 2 - (n + fee n) - wPaid

/-- `W` of the strikes `Sd` and `Su`, if both books are usable under the age bound. -/
def computeW (st : V33State) (sd su : ℤ) (now maxAge : ℚ) : Option ℚ :=
  match st.strikeTops.get? sd, st.strikeTops.get? su with
  | some sdTop, some suTop =>
    if sdTop.suspect ∨ suTop.suspect then none
    else if !fresh now (st.strikeTs.get? sd) maxAge then none
    else if !fresh now (st.strikeTs.get? su) maxAge then none
    else
      match sdTop.yesAsk, suTop.noAsk with
      | some ya, some na =>
        if (0 < ya ∧ ya < 1) ∧ (0 < na ∧ na < 1) then some (wingCost ya na) else none
      | _, _ => none
  | _, _ => none

/-- The highest post-only price on the bucket: one cent under its NO ask. -/
def bucketCap (st : V33State) (sd : ℤ) : Option ℚ :=
  ((st.bucketTops.get? sd).bind validTwoSided).map fun q => quantize 100 (1 - q.1 - cent)

/-- The largest whole-cent price of at most `k` cents within the budget, fee included. -/
def solveFrom (budget : ℚ) : ℕ → Option ℚ
  | 0 => none
  | k + 1 =>
    let n : ℚ := (k + 1 : ℕ) / 100
    if budget < n + fee n then solveFrom budget k else some n

/-- The largest whole-cent `n` with `n + fee n ≤ budget` and `n ≤ cap`: start at the smaller
of the two bounds rounded up to the cent and walk down. From `10 ^ 26` on, far above every budget
of a dollar less its wings, the source's `quantize` would raise instead of rounding. -/
def solveN (budget cap : Option ℚ) : Option ℚ :=
  match budget, cap with
  | some budget, some cap =>
    if budget < cent ∨ cap < cent then none
    else solveFrom budget (min ⌈budget * 100⌉ ⌈cap * 100⌉).toNat
  | _, _ => none

/-- Some strike frame is recent. -/
def strikeFeedAlive (p : V33Params) (st : V33State) (now : ℚ) : Bool :=
  fresh now st.strikeFeedTs p.strikeFeedDeadS

/-- `W` for the resting decision: the feed is alive and both wings price under the loose
age bound. -/
def v33ComputeW (p : V33Params) (st : V33State) (sd su : ℤ) (now : ℚ) : Option ℚ :=
  if strikeFeedAlive p st now then computeW st sd su now p.wingBookMaxAgeS else none

/-- Why the resting gate gave no `W`: the first failing check, in the gate's order. -/
def wingUnavailableCause (p : V33Params) (st : V33State) (now : ℚ) : WingCause :=
  match st.spotSd, st.spotSu with
  | some sd, some su =>
    if !strikeFeedAlive p st now then .feedDead
    else
      match st.strikeTops.get? sd, st.strikeTops.get? su with
      | none, _ => .wingMissingSd
      | _, none => .wingMissingSu
      | some sdTop, some suTop =>
        if sdTop.suspect then .wingSuspectSd
        else if suTop.suspect then .wingSuspectSu
        else if !fresh now (st.strikeTs.get? sd) p.wingBookMaxAgeS then .wingTooOldSd
        else if !fresh now (st.strikeTs.get? su) p.wingBookMaxAgeS then .wingTooOldSu
        else
          match sdTop.yesAsk, suTop.noAsk with
          | none, _ => .wingNoAskSd
          | _, none => .wingNoAskSu
          | some ya, some na =>
            if ¬(0 < ya ∧ ya < 1) then .wingPriceInvalidSd
            else if ¬(0 < na ∧ na < 1) then .wingPriceInvalidSu
            else .unknown
  | _, _ => .unknown

/-! ### The effective bucket -/

/-- The yes-mid-weighted centroid of the bucket centres. -/
def impliedSpot (p : V33Params) (st : V33State) : Option ℚ :=
  let sums := st.bucketTops.entries.foldl
    (fun (acc : ℚ × ℚ) e =>
      match validTwoSided e.2 with
      | none => acc
      | some (bid, ask) =>
        let mid := (bid + ask) / 2
        if mid ≤ 0 then acc
        else (acc.1 + mid * (e.1 + (p.bucketWidth : ℚ) / 2), acc.2 + mid))
    (0, 0)
  if 0 < sums.2 then some (sums.1 / sums.2) else none

/-- The implied spot sits far enough inside the candidate bucket, or cannot be measured. -/
def hysteresisOk (p : V33Params) (st : V33State) (candidateSd : ℤ) : Bool :=
  if p.bucketSwitchHysteresisUsd ≤ 0 then true
  else
    match impliedSpot p st with
    | none => true
    | some imp =>
      decide ((candidateSd : ℚ) + p.bucketSwitchHysteresisUsd ≤ imp ∧
        imp < (candidateSd : ℚ) + p.bucketWidth - p.bucketSwitchHysteresisUsd)

/-- The bucket the ladder uses, and the switch being timed. -/
structure EffectiveBucket where
  sd : Option ℤ
  pendingSd : Option ℤ
  pendingSince : Option ℚ
  pendingHyst : Bool
  deriving DecidableEq

/-- Map the resolved spot to the bucket the ladder uses. A switch away from the ladder's
bucket commits after the debounce and the hysteresis, or after the anti-strand cap. -/
def resolveEffectiveBucket (p : V33Params) (st : V33State) (rawSd : Option ℤ) (now : ℚ) :
    EffectiveBucket :=
  match rawSd, st.restBucketSd with
  | none, _ => ⟨none, none, none, false⟩
  | some raw, none => ⟨some raw, none, none, false⟩
  | some raw, some rest =>
    if raw = rest then ⟨some raw, none, none, false⟩
    else
      -- a new candidate restarts the timer and forgets the hysteresis
      let (since, hyst) :=
        match st.pendingSwitchSince with
        | some t => if st.pendingSwitchSd = some raw then (t, st.pendingSwitchHystMet)
          else (now, false)
        | none => (now, false)
      let hyst := hyst || hysteresisOk p st raw
      let elapsedMs := (now - since) * 1000
      if (p.bucketSwitchDebMs : ℚ) ≤ elapsedMs ∧
          (hyst ∨ (p.bucketSwitchMaxPendingMs : ℚ) ≤ elapsedMs) then
        ⟨some raw, none, none, false⟩
      else ⟨some rest, some raw, some since, hyst⟩

/-! ### The quote context -/

/-- The effective bucket at `now`. -/
def effectiveBucket (p : V33Params) (st : V33State) (now : ℚ) : EffectiveBucket :=
  resolveEffectiveBucket p st (selectSpot st) now

/-- The bucket on which the wing gate runs: the effective one, if its book is fresh. -/
def gatedBucket (p : V33Params) (st : V33State) (now : ℚ) : Option ℤ :=
  (effectiveBucket p st now).sd.filter fun sd =>
    fresh now (st.bucketTs.get? sd) p.bucketFreshnessMaxAgeS

/-- The labels of a resting rung under the current top. -/
def relabel (p : V33Params) (nTop : ℚ) (o : RestOrder) : RestOrder :=
  { o with rung := rungOf nTop o.price, eRung := eRungOf p nTop o.price }

/-- Re-derive the quote context and the shadows, and refresh the labels of the ladder. -/
def recomputeContext (p : V33Params) (st : V33State) (now : ℚ) : V33State :=
  let eff := effectiveBucket p st now
  let gated := gatedBucket p st now
  let W := gated.bind fun sd => v33ComputeW p st sd (sd + p.bucketWidth) now
  let cap := gated.bind fun sd => bucketCap st sd
  let nTop := solveN (W.map fun w => 2 - p.eMin - w) cap
  let shadows := st.shadows.map fun sub =>
    { sub with n := solveN (W.map fun w => 2 - sub.E - w) cap }
  let st :=
    { st with
      spotSd := eff.sd
      spotSu := eff.sd.map (· + p.bucketWidth)
      W := W
      cap := cap
      nTop := nTop
      spotBucketStale := eff.sd.isSome && gated.isNone
      shadows := shadows
      wingSubCause := none
      pendingSwitchSd := eff.pendingSd
      pendingSwitchSince := eff.pendingSince
      pendingSwitchHystMet := eff.pendingHyst }
  let st :=
    if gated.isSome ∧ st.W = none then
      { st with wingSubCause := some (wingUnavailableCause p st now) }
    else st
  match nTop with
  | some top => { st with ladder := st.ladder.map (relabel p top) }
  | none => st

/-! ### The shadow -/

/-- Both wing asks of a pair of strikes under the age bound. -/
def wingPrices (st : V33State) (sd su : ℤ) (now maxAge : ℚ) : Option (ℚ × ℚ) :=
  match st.strikeTops.get? sd, st.strikeTops.get? su with
  | some sdTop, some suTop =>
    if sdTop.suspect ∨ suTop.suspect then none
    else if !fresh now (st.strikeTs.get? sd) maxAge then none
    else if !fresh now (st.strikeTs.get? su) maxAge then none
    else
      match sdTop.yesAsk, suTop.noAsk with
      | some ya, some na =>
        if (0 < ya ∧ ya ≤ 1) ∧ (0 < na ∧ na ≤ 1) then some (ya, na) else none
      | _, _ => none
  | _, _ => none

/-- The time to the close at three decimals, as the shadow observations carry it. -/
def shadowTimeToClose (st : V33State) (now : ℚ) : ℚ := quantize 1000 (st.closeEpoch - now)

/-- What a qualifying print does to one shadow: observe it or fill it. -/
def shadowPrint (p : V33Params) (st : V33State) (ev : Trade) (sub : ShadowSub) :
    ShadowSub × List V33Action :=
  match sub.filled, sub.n with
  | false, some n =>
    let offer := 1 - n
    let observed (kind : ActionKind) : V33Action :=
      { kind := kind, shadowE := some sub.E, offer := some offer, printPrice := some ev.yesPrice,
        count := truncInt ev.count, tToClose := some (shadowTimeToClose st ev.serverTs) }
    let tToClose := (st.closeEpoch : ℚ) - ev.serverTs
    if ev.yesPrice ≤ offer then (sub, [])
    else if n < p.nMin then (sub, [observed .shadowFillBelowMin])
    else if ¬((p.quoteEndS : ℚ) ≤ tToClose ∧ tToClose ≤ p.quoteStartS) then
      (sub, [observed .shadowFillOutsideWindow])
    else
      ({ sub with
          filled := true
          awaitingCompletion := true
          fill := some ⟨sub.E, n, offer, ev.yesPrice, ev.count, ev.serverTs, none, none⟩ }, [])
  | _, _ => (sub, [])

/-- A spot-bucket YES print above a shadow's offer fills that shadow, once an hour. -/
def shadowOnTrade (p : V33Params) (st : V33State) (ev : Trade) : Outcome :=
  -- the reused V3.2 law classifies without the discovery map of strikes
  match classifyTicker ev.marketTicker st.bucketMap Dict.empty with
  | some (.bucket floor) =>
    if st.spotSd = some floor ∧ ev.takerSide = .yes ∧
        fresh ev.serverTs (st.bucketTs.get? floor) p.bucketFreshnessMaxAgeS then
      let prints := st.shadows.map (shadowPrint p st ev)
      ⟨{ st with shadows := prints.map Prod.fst }, prints.flatMap Prod.snd⟩
    else st.quiet
  | _ => st.quiet

/-- Complete the waiting shadow fills once both wings of the spot price. -/
def shadowComplete (p : V33Params) (st : V33State) (now : ℚ) : V33State :=
  match st.spotSd, st.spotSu with
  | some sd, some su =>
    match wingPrices st sd su now p.freshnessMaxAgeS with
    | none => st
    | some (ya, na) =>
      let w := wingCost ya na
      let complete (sub : ShadowSub) : ShadowSub :=
        match sub.awaitingCompletion, sub.fill with
        | true, some fl =>
          { sub with
            awaitingCompletion := false
            fill := some { fl with wAtCompletion := some w, lock := some (lockValue fl.n w) } }
        | _, _ => sub
      { st with shadows := st.shadows.map complete }
  | _, _ => st

end Pilot.V33
