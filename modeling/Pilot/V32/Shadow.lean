import Pilot.V32.FeedSafety

/-!
# The shadow of the ideal fill

A shadow takes a print of the spot bucket as a fill and is completed at the wing asks of the spot:
at once, or when a later frame, tick or print finds both of them quoted. Its price is that of the
bucket whose print filled it as long as that bucket is still the spot when it is completed.
-/

namespace Pilot.V32

open V33 (ActionKind Event ShadowFill ShadowSub Trade classifyTicker fresh lockValue
  solveN wingCost)

variable {p : V32Params} {t : ℚ} {st st' : V32State}

/-! ### Shadows -/

/-- What is noted of a print that a shadow does not take. -/
structure ShadowNote where
  kind : ActionKind
  shadowE : ℚ
  offer : ℚ
  printPrice : ℚ
  count : ℤ
  tToClose : ℚ

/-- The shadow of one margin. -/
structure Shadow extends ShadowSub where
  /-- Ghost: the bucket whose print filled it. The source keeps no such field and nothing reads it
  but the statements about completions. -/
  printedOn : Option ℤ

/-- Solve the price of a shadow in the quote context. -/
def solveShadow (st : V32State) (sub : Shadow) : Shadow :=
  { sub with n := solveN (st.W.map fun w => 2 - sub.E - w) st.cap }

/-- What a print of a bucket does to one shadow: note it or fill it. -/
def printShadow (p : V32Params) (st : V32State) (ev : Trade) (floor : ℤ) (sub : Shadow) :
    Shadow × List ShadowNote :=
  match sub.filled, sub.n with
  | false, some n =>
    let offer := 1 - n
    let tToClose := (st.closeEpoch : ℚ) - ev.serverTs
    let noted (kind : ActionKind) : ShadowNote :=
      ⟨kind, sub.E, offer, ev.yesPrice, truncInt ev.count, quantize 1000 tToClose⟩
    if ev.yesPrice ≤ offer then (sub, [])
    else if n < p.nMin then (sub, [noted .shadowFillBelowMin])
    else if ¬((p.quoteEndS : ℚ) ≤ tToClose ∧ tToClose ≤ p.quoteStartS) then
      (sub, [noted .shadowFillOutsideWindow])
    else
      ({ sub with
          filled := true
          awaitingCompletion := true
          fill := some ⟨sub.E, n, offer, ev.yesPrice, ev.count, ev.serverTs, none, none⟩
          printedOn := some floor }, [])
  | _, _ => (sub, [])

/-- A fresh YES print of the spot bucket is offered to every shadow. -/
def shadowOnTrade (p : V32Params) (st : V32State) (shadows : List Shadow) (ev : Trade) :
    List Shadow × List ShadowNote :=
  match classifyTicker ev.marketTicker st.bucketMap Dict.empty with
  | some (.bucket floor) =>
    if st.spotSd = some floor ∧ ev.takerSide = .yes ∧
        fresh ev.serverTs (st.bucketTs.get? floor) p.bucketFreshnessMaxAgeS then
      let prints := shadows.map (printShadow p st ev floor)
      (prints.map Prod.fst, prints.flatMap Prod.snd)
    else (shadows, [])
  | _ => (shadows, [])

/-- A fill completed at a wing cost. -/
def pricedFill (w : ℚ) (fl : ShadowFill) : ShadowFill :=
  { fl with wAtCompletion := some w, lock := some (lockValue fl.n w) }

/-- Complete a waiting shadow at a wing cost. -/
def completeShadow (w : ℚ) (sub : Shadow) : Shadow :=
  match sub.awaitingCompletion, sub.fill with
  | true, some fl => { sub with awaitingCompletion := false, fill := some (pricedFill w fl) }
  | _, _ => sub

/-- Complete the waiting shadows once both wings of the spot price. -/
def shadowComplete (p : V32Params) (st : V32State) (now : ℚ) (shadows : List Shadow) :
    List Shadow :=
  match wingPrices p st now with
  | none => shadows
  | some (ya, na) => shadows.map (completeShadow (wingCost ya na))

/-- A core and its shadows. -/
structure Shadowed where
  st : V32State
  shadows : List Shadow

/-- The shadows after an input, and what is noted. A frame and a tick solve them in the context
they derive. -/
def shadowsAfter (p : V32Params) (s : Shadowed) : Input → List Shadow × List ShadowNote
  | .event (.bookUpdate e) =>
    let st := recomputeContext p (foldBook s.st e) e.serverTs
    (shadowComplete p st e.serverTs (s.shadows.map (solveShadow st)), [])
  | .event (.clockTick now) =>
    let st := recomputeContext p s.st now
    (shadowComplete p st now (s.shadows.map (solveShadow st)), [])
  | .event (.trade e) =>
    let r := shadowOnTrade p s.st s.shadows e
    (shadowComplete p s.st e.serverTs r.1, r.2)
  | _ => (s.shadows, [])

/-- The core and its shadows after an input. -/
def shadowStep (p : V32Params) (s : Shadowed) (i : Input) : Shadowed where
  st := (core p s.st i).st
  shadows := (shadowsAfter p s i).1

/-- The shadows at the start of a window. -/
def newShadows (shadowEs : List ℚ) : List Shadow :=
  shadowEs.map fun E => ⟨⟨E, none, false, none, false⟩, none⟩

/-- A core and its shadows at the start of a window. -/
def IsNewShadowed (s : Shadowed) : Prop :=
  ∃ closeTime closeEpoch bucketMap shakedown strikeFloorMap shadowEs,
    s = ⟨V32State.new closeTime closeEpoch bucketMap shakedown strikeFloorMap,
      newShadows shadowEs⟩

/-! ### Priced on the print -/

/-- The shadow is completed. -/
def Shadow.completed (sub : Shadow) : Bool := sub.fill.any fun fl => fl.wAtCompletion.isSome

/-- The cost and the lock of a completed shadow are those of the wing asks of the two strikes of
the bucket whose print filled it. -/
def PricedOnPrint (p : V32Params) (st : V32State) (now : ℚ) (sub : Shadow) : Prop :=
  ∃ sd fl ya na, sub.printedOn = some sd ∧ sub.fill = some fl ∧
    strikeAsks p st sd (sd + p.bucketWidth) now = some (ya, na) ∧
    fl.wAtCompletion = some (wingCost ya na) ∧ fl.lock = some (lockValue fl.n (wingCost ya na))

/-- Every shadow an input completes is priced on its print. -/
def CompletesOnPrint (p : V32Params) (s : Shadowed) (i : Input) : Prop :=
  List.Forall₂
    (fun before after => before.completed = false → after.completed = true →
      PricedOnPrint p (wingContext p s.st i) i.time after)
    s.shadows (shadowStep p s i).shadows

/-- The input can complete shadows: it is a frame, a tick or a print. -/
def Input.completes : Input → Bool
  | .event (.bookUpdate _) | .event (.clockTick _) | .event (.trade _) => true
  | _ => false

/-- An input that completes shadows finds the spot on the bucket whose print filled each shadow
that waits. -/
def SpotOnPrints (p : V32Params) (s : Shadowed) (i : Input) : Prop :=
  i.completes = true → (wingPrices p (wingContext p s.st i) i.time).isSome →
    ∀ sub ∈ s.shadows, sub.awaitingCompletion = true →
      sub.printedOn = (wingContext p s.st i).spotSd

instance (p : V32Params) (s : Shadowed) (i : Input) : Decidable (SpotOnPrints p s i) :=
  inferInstanceAs (Decidable (_ → _ → _))

/-! ### The strikes of the spot -/

/-- The upper strike of the spot is one width above the lower one. -/
def PairedSpot (p : V32Params) (q : Quote) : Prop := q.spotSu = q.spotSd.map (· + p.bucketWidth)

theorem pairedSpot_recomputeContext (st : V32State) (t : ℚ) :
    PairedSpot p (recomputeContext p st t).toQuote := by
  unfold recomputeContext
  split
  · rfl
  · dsimp only
    split_ifs
    · rfl
    · rfl

/-- An input keeps the strikes of the spot paired. -/
theorem PairedSpot.core (h : PairedSpot p st.toQuote) (i : Input) :
    PairedSpot p (core p st i).st.toQuote := by
  cases i with
  | event ev =>
    show PairedSpot p (decideV32 p st ev).st.toQuote
    rw [decideV32_quote]
    cases ev with
    | bookUpdate e => exact pairedSpot_recomputeContext _ _
    | clockTick now => exact pairedSpot_recomputeContext _ _
    | _ => exact h
  | lateFill price count ts sd =>
    show PairedSpot p (bookLateRestFill p st price count ts sd).st.toQuote
    unfold bookLateRestFill
    split
    · exact h
    · dsimp only
      rw [(wingStep_wingsOnly (p := p) _ ts).synced.sameContext.quote]
      cases hsd : sd.or st.spotSd with
      | some sd => simp [PairedSpot]
      | none =>
        have hspot : st.spotSd = none := (Option.or_eq_none_iff.mp hsd).2
        have hsu : st.spotSu = none := by
          have := h
          unfold PairedSpot at this
          rw [this, hspot]
          rfl
        simp [PairedSpot, hsu]

/-- The wing prices are the asks of the strikes of the spot. -/
theorem strikeAsks_of_wingPrices (hpair : PairedSpot p st.toQuote) {ya na : ℚ}
    (h : wingPrices p st t = some (ya, na)) :
    ∃ sd, st.spotSd = some sd ∧ strikeAsks p st sd (sd + p.bucketWidth) t = some (ya, na) := by
  unfold wingPrices at h
  split at h
  · next sd su hsd hsu =>
    have heq : su = sd + p.bucketWidth := by
      unfold PairedSpot at hpair
      rw [hsd, hsu] at hpair
      exact Option.some.inj hpair
    subst heq
    exact ⟨sd, hsd, (Option.filter_eq_some_iff.mp h).1⟩
  · cases h

/-! ### One completion -/

/-- Completing a shadow writes the cost and the lock of its fill if it waits, and nothing else. -/
theorem completeShadow_cases (w : ℚ) (sub : Shadow) :
    (∃ fl, sub.awaitingCompletion = true ∧ completeShadow w sub =
      { sub with awaitingCompletion := false, fill := some (pricedFill w fl) }) ∨
      completeShadow w sub = sub := by
  unfold completeShadow
  split
  · next fl hwaits _ => exact Or.inl ⟨fl, hwaits, rfl⟩
  · exact Or.inr rfl

/-- A shadow about to be completed is complete only if it was before, and one that waits was
filled by a print of the spot. -/
structure Ready (p : V32Params) (st : V32State) (t : ℚ) (before mid : Shadow) : Prop where
  incomplete : before.completed = false → mid.completed = false
  onSpot : (wingPrices p st t).isSome → mid.awaitingCompletion = true → mid.printedOn = st.spotSd

/-- Completing shadows that are ready prices each of them on its print. -/
theorem shadowComplete_priced (hpair : PairedSpot p st.toQuote) {shadows mids : List Shadow}
    (h : List.Forall₂ (Ready p st t) shadows mids) :
    List.Forall₂
      (fun before after => before.completed = false → after.completed = true →
        PricedOnPrint p st t after)
      shadows (shadowComplete p st t mids) := by
  unfold shadowComplete
  cases hprices : wingPrices p st t with
  | none =>
    refine h.imp fun before mid hready hbefore hdone => ?_
    rw [hready.incomplete hbefore] at hdone
    cases hdone
  | some asks =>
    obtain ⟨ya, na⟩ := asks
    obtain ⟨sd, hsd, hasks⟩ := strikeAsks_of_wingPrices hpair hprices
    dsimp only
    rw [List.forall₂_map_right_iff]
    refine h.imp fun before mid hready hbefore hdone => ?_
    rcases completeShadow_cases (wingCost ya na) mid with ⟨fl, hwaits, heq⟩ | heq
    · have hprint := (hready.onSpot (by rw [hprices]; rfl) hwaits).trans hsd
      rw [heq]
      exact ⟨sd, _, ya, na, hprint, rfl, hasks, rfl, rfl⟩
    · rw [heq, hready.incomplete hbefore] at hdone
      cases hdone

/-- A print leaves a shadow as it is or fills it on its own bucket. -/
theorem printShadow_cases (p : V32Params) (st : V32State) (ev : Trade) (floor : ℤ) (sub : Shadow) :
    (printShadow p st ev floor sub).1 = sub ∨
      (printShadow p st ev floor sub).1.completed = false ∧
        (printShadow p st ev floor sub).1.printedOn = some floor := by
  unfold printShadow
  split
  · dsimp only
    split_ifs
    · exact Or.inl rfl
    · exact Or.inl rfl
    · exact Or.inr ⟨rfl, rfl⟩
    · exact Or.inl rfl
  · exact Or.inl rfl

/-- A print leaves the shadows ready if those that wait were filled by prints of the spot. -/
theorem shadowOnTrade_ready {shadows : List Shadow}
    (h : (wingPrices p st t).isSome → ∀ sub ∈ shadows, sub.awaitingCompletion = true →
      sub.printedOn = st.spotSd) (ev : Trade) :
    List.Forall₂ (Ready p st t) shadows (shadowOnTrade p st shadows ev).1 := by
  have hkept : List.Forall₂ (Ready p st t) shadows shadows :=
    List.forall₂_same.mpr fun sub hsub => ⟨id, fun hprices => h hprices sub hsub⟩
  unfold shadowOnTrade
  split
  · next floor _ =>
    split_ifs with hspot
    · dsimp only
      rw [List.map_map, List.forall₂_map_right_iff, List.forall₂_same]
      intro sub hsub
      show Ready p st t sub (printShadow p st ev floor sub).1
      rcases printShadow_cases p st ev floor sub with heq | ⟨hnot, hprint⟩
      · rw [heq]
        exact ⟨id, fun hprices => h hprices sub hsub⟩
      · exact ⟨fun _ => hnot, fun _ _ => hprint.trans hspot.1.symm⟩
    · exact hkept
  · exact hkept

/-- Solving the shadows leaves them ready. -/
theorem solveShadow_ready {shadows : List Shadow}
    (h : (wingPrices p st t).isSome → ∀ sub ∈ shadows, sub.awaitingCompletion = true →
      sub.printedOn = st.spotSd) :
    List.Forall₂ (Ready p st t) shadows (shadows.map (solveShadow st)) := by
  rw [List.forall₂_map_right_iff, List.forall₂_same]
  exact fun sub hsub => ⟨id, fun hprices => h hprices sub hsub⟩

/-! ### Runs -/

/-- An input that finds the spot on the prints that wait completes each shadow on its print. -/
theorem completesOnPrint_of_spot {s : Shadowed} (hpair : PairedSpot p s.st.toQuote) {i : Input}
    (hspot : SpotOnPrints p s i) : CompletesOnPrint p s i := by
  have hsame : List.Forall₂ (fun before after : Shadow => before.completed = false →
      after.completed = true → PricedOnPrint p (wingContext p s.st i) i.time after)
      s.shadows s.shadows := by
    refine List.forall₂_same.mpr fun sub _ hnot hdone => ?_
    rw [hnot] at hdone
    cases hdone
  cases i with
  | lateFill price count ts sd => exact hsame
  | event ev =>
    cases ev with
    | bookUpdate e =>
      exact shadowComplete_priced (pairedSpot_recomputeContext _ _)
        (solveShadow_ready (hspot rfl))
    | clockTick now =>
      exact shadowComplete_priced (pairedSpot_recomputeContext _ _)
        (solveShadow_ready (hspot rfl))
    | trade e => exact shadowComplete_priced hpair (shadowOnTrade_ready (hspot rfl) e)
    | _ => exact hsame

/-- In every run whose completing inputs find the spot on the bucket of each print that waits,
every shadow is completed at the wing asks of the bucket whose print filled it. -/
theorem shadows_priced_on_print {start : Shadowed} {is : List Input} (hstart : IsNewShadowed start)
    (h : AllAlong (shadowStep p) (SpotOnPrints p) start is) :
    AllAlong (shadowStep p) (CompletesOnPrint p) start is := by
  have hpair : PairedSpot p start.st.toQuote := by
    obtain ⟨closeTime, closeEpoch, bucketMap, shakedown, strikeFloorMap, shadowEs, rfl⟩ := hstart
    rfl
  clear hstart
  induction is generalizing start with
  | nil => trivial
  | cons i is ih =>
    exact ⟨completesOnPrint_of_spot hpair h.1, ih h.2 (hpair.core i)⟩

/-- A core at the start of the sample window, with the shadow of one margin. -/
def sampleShadowed : Shadowed := ⟨sampleStart.st, newShadows [1 / 10]⟩

theorem isNewShadowed_sample : IsNewShadowed sampleShadowed := ⟨_, _, _, _, _, [1 / 10], rfl⟩

/-- A YES print of the first bucket. -/
def printOnFirst (ts : ℚ) : Input := .event (.trade ⟨"B100", 60 / 100, .yes, 1, ts⟩)

/-- The first bucket is the spot and its strikes are quoted. -/
def quotedOnFirst : List Input :=
  [centFrame "B100" 40 42 1000, centFrame "S200" 50 52 1000, centFrame "S100" 68 70 1000]

/-- A print finds the strikes of its bucket stale, and they are quoted again. -/
def quotedAgain : List Input :=
  [printOnFirst 1005, centFrame "S200" 50 52 1006, centFrame "S100" 68 70 1006]

/-- The print waits until both strikes of its bucket are quoted again, and is completed on them. -/
theorem shadows_priced_on_print_sample :
    ((quotedOnFirst ++ quotedAgain.take 2).foldl (shadowStep samplePolicy)
        sampleShadowed).shadows.map Shadow.completed = [false] ∧
      ((quotedOnFirst ++ quotedAgain).foldl (shadowStep samplePolicy)
        sampleShadowed).shadows.map Shadow.completed = [true] ∧
      AllAlong (shadowStep samplePolicy) (CompletesOnPrint samplePolicy) sampleShadowed
        (quotedOnFirst ++ quotedAgain) :=
  ⟨by decide +kernel, by decide +kernel,
    shadows_priced_on_print isNewShadowed_sample (by decide +kernel)⟩

/-- The print finds the strikes stale, and the spot moves on before strikes are quoted again. -/
def movedOn : List Input :=
  quotedOnFirst ++ [printOnFirst 1005, centFrame "B200" 60 62 1006, centFrame "S200" 50 52 1007]

/-- The frame that quotes both strikes of the bucket the spot has moved to. -/
def laterFrame : Input := centFrame "S300" 20 22 1007

/-- The shadow of the print is completed on the strikes of the bucket the spot has moved to. -/
theorem movedOn_mispriced :
    ¬∀ p start is, IsNewShadowed start →
      AllAlong (shadowStep p) (CompletesOnPrint p) start is := by
  intro h
  have hrun := h samplePolicy sampleShadowed (movedOn ++ [laterFrame]) isNewShadowed_sample
  rw [allAlong_append] at hrun
  have hlast := hrun.2.1
  obtain ⟨sd, fl, ya, na, hprint, -, hasks, -⟩ :=
    hlast.get (i := 0) (by decide +kernel) (by decide +kernel) (by decide +kernel)
      (by decide +kernel)
  have hfirst : ((shadowStep samplePolicy (movedOn.foldl (shadowStep samplePolicy) sampleShadowed)
      laterFrame).shadows.get ⟨0, by decide +kernel⟩).printedOn = some 100 := by decide +kernel
  obtain rfl : sd = 100 := Option.some.inj (hprint.symm.trans hfirst)
  have hstale : strikeAsks samplePolicy (wingContext samplePolicy
      (movedOn.foldl (shadowStep samplePolicy) sampleShadowed).st laterFrame) 100
      (100 + samplePolicy.bucketWidth) laterFrame.time = none := by decide +kernel
  rw [hstale] at hasks
  cases hasks

end Pilot.V32
