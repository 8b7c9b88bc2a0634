import Pilot.V33.Triggers
import Pilot.V33.WingPhase

/-!
# The triggers an event ends

An event ends a trigger by a missed wing, by a stall, by the last confirm of its cancels, or
by the short response of its completion. What is then due to be traded is read off the batch:
the filled legs it has too many of, or the lots its rungs are short of. The wing orders that end
triggers are those of the resolutions that are due, one after the other.
-/

namespace Pilot.V33

/-- The kinds that sell pre-taken wings back. -/
def ActionKind.isUnwind : ActionKind → Bool
  | .unwindWings => true
  | .wouldUnwindWings => true
  | _ => false

/-- The kinds that buy the shortfall of a trigger. -/
def ActionKind.isTakeNo : ActionKind → Bool
  | .takeBucketNo => true
  | .wouldTakeBucketNo => true
  | _ => false

/-- The kinds that end a trigger by a trade. -/
def ActionKind.isResolution (k : ActionKind) : Bool := k.isUnwind || k.isTakeNo

/-- The sales and the purchases that end triggers. -/
def resolutions (acts : List V33Action) : List V33Action :=
  acts.filter fun a => a.kind.isResolution

/-- What is due to be traded to end a trigger, in the state that ends it: the legs of its batch
to be sold, with the lots of each and the size of the order, or a shortfall of its batch. -/
inductive DueTrade
  | sell (st : V33State) (legs : List WingLeg) (lots : WingLeg → ℚ) (count : ℚ)
  | buy (st : V33State) (b : WingBatch) (shortfall : ℚ)

/-- The state that ends the trigger. -/
def DueTrade.state : DueTrade → V33State
  | .sell st _ _ _ => st
  | .buy st _ _ => st

/-- The purchase of a shortfall. -/
def purchase (st : V33State) (b : WingBatch) (shortfall : ℚ) : V33Action :=
  let ticker := ((ptBatchBucket st b).bind st.bucketTickers.get?).getD ""
  mk st.shakedown
    { kind := .takeBucketNo, ticker := some ticker, side := some .no, count := shortfall,
      price := ptBucketNoAsk st,
      clientOrderId := if st.shakedown then none else some (mintCoid st).1,
      legs := [⟨ticker, .no, .buy, shortfall, ptBucketNoAsk st⟩] }

/-- The orders of a resolution that is due. -/
def DueTrade.acts : DueTrade → List V33Action
  | .sell st legs lots count => unwindAction st (unwindSales (ptWingBids st) lots legs) count
  | .buy st b shortfall => [purchase st b shortfall]

/-- The filled legs of a batch. -/
def filledLegs (st : V33State) (index : ℕ) : List WingLeg :=
  (batchLegs st index).filter fun l => l.status = .filled

/-- The wings of a batch are due: what both have in excess of its rungs, or the one that
filled. -/
def unwindDue (st : V33State) (b : WingBatch) : DueTrade :=
  let lots (l : WingLeg) : ℚ := (excessEach (filledLegs st b.index) b.totalCount).getD l.count
  .sell st (filledLegs st b.index) lots
    (((unwindSales (ptWingBids st) lots (filledLegs st b.index)).map LegOrder.count).foldr max 0)

/-- What is due once the rests of a stalled trigger are off the book. -/
def finalizeDue (p : V33Params) (idx : ℕ) (st : V33State) : List DueTrade :=
  match st.printThroughTriggers[idx]? with
  | none => []
  | some t =>
    if t.resolved then []
    else
      let st := replacePt st idx endStall
      match batchOf st t.batchIndex with
      | none => []
      | some b =>
        if t.count - b.totalCount ≤ 0 then []
        else
          match ptCompletion p st b with
          | some _ => [.buy st b (qCount (t.count - b.totalCount))]
          | none => [unwindDue st b]

/-- What is due when the wings of a batch did not both fill. -/
def failDue (p : V33Params) (batchIndex : ℕ) (st : V33State) : List DueTrade :=
  match st.printThroughTriggers.findIdx? fun t => t.batchIndex == batchIndex && !t.resolved with
  | none => []
  | some idx =>
    match st.printThroughTriggers[idx]?, batchOf st batchIndex with
    | some t, some b => [unwindDue (ptCancelUnfilledRungs p st t).st b]
    | _, _ => []

/-- What is due when a trigger stalls: nothing while its rests are being cancelled. -/
def beginDue (p : V33Params) (idx : ℕ) (st : V33State) : List DueTrade :=
  match st.printThroughTriggers[idx]? with
  | none => []
  | some t =>
    if (ptRestingIds st t).isEmpty then
      finalizeDue p idx
        (replacePt (ptCancelUnfilledRungs p st t).st idx (stallTrigger (ptRestingIds st t)))
    else []

/-- What the confirm of a cancel makes due for the trigger at a position. -/
def confirmDue (p : V33Params) (orderId : String) (idx : ℕ) (st : V33State) : List DueTrade :=
  match st.printThroughTriggers[idx]? with
  | none => []
  | some t =>
    let remaining := t.pendingCancels.filter (· ≠ orderId)
    if (t.stallPending ∧ !t.resolved ∧ orderId ∈ t.pendingCancels) ∧ remaining.isEmpty then
      finalizeDue p idx (replacePt st idx (awaitCancels remaining))
    else []

/-- What the stall policy makes due for the trigger at a position. -/
def stallDue (p : V33Params) (now : ℚ) (idx : ℕ) (st : V33State) : List DueTrade :=
  match st.printThroughTriggers[idx]? with
  | none => []
  | some t =>
    if t.resolved ∨ t.stallPending then []
    else
      match batchOf st t.batchIndex with
      | none => []
      | some b =>
        if b.completed ∨ t.count ≤ b.totalCount ∨
            now - t.triggerTs < (p.printThroughStallMs : ℚ) / 1000 then []
        else if !wingsFilled st b.index then failDue p b.index st
        else beginDue p idx st

/-- What the rounds of a loop make due, each in the state it finds. -/
def dueEach {α : Type} (due : α → V33State → List DueTrade) (body : α → V33State → Outcome) :
    List α → V33State → List DueTrade
  | [], _ => []
  | x :: xs, st => due x st ++ dueEach due body xs (body x st).st

/-- What the stall policy makes due. -/
def stallsDue (p : V33Params) (now : ℚ) (st : V33State) : List DueTrade :=
  if p.printThrough then
    dueEach (stallDue p now) (ptStallOne p now) (List.range st.printThroughTriggers.length) st
  else []

/-- What the response of a completion makes due: the wings of the lots it missed. -/
def shortDue (p : V33Params) (st : V33State) (ev : Fill) (now : ℚ) : List DueTrade :=
  match st.printThroughTriggers.findIdx? fun t => t.completeCoid == some ev.clientOrderId with
  | none => []
  | some idx =>
    match st.printThroughTriggers[idx]? with
    | none => []
    | some t =>
      let st := replacePt (ptBookTakerComplete p st t ((ev.price.or t.completePrice).getD 0)
        (qCount ev.count) now) idx endCompletion
      let short := qCount t.shortfall - qCount ev.count
      match batchOf st t.batchIndex with
      | none => []
      | some b =>
        if 0 < short then [.sell st (filledLegs st b.index) (fun _ => short) (truncInt short)]
        else []

/-- What the response of a wing leg makes due: a miss fails the batch of a trigger. -/
def missDue (p : V33Params) (st : V33State) (leg : WingLeg) (ev : Fill) : List DueTrade :=
  if 0 < ev.count then []
  else
    let st := { st with
      wingLegs := replaceFirst (fun l => l.clientOrderId == ev.clientOrderId)
        (fun l => { l with status := .unfilled }) st.wingLegs }
    match batchOf st leg.batch with
    | none => []
    | some b => if b.printThrough ∧ !b.resolved then failDue p b.index st else []

/-- What a private fill makes due. -/
def fillDue (p : V33Params) (st : V33State) (ev : Fill) (now : ℚ) : List DueTrade :=
  let st := clearCancelPending st ev.orderId
  match ptApplyCompleteFill p st ev now with
  | some _ => shortDue p st ev now
  | none =>
    match legOf st ev.clientOrderId with
    | some leg => missDue p st leg ev
    | none => []

/-- What a cancel confirm makes due. -/
def cancelDue (p : V33Params) (st : V33State) (ev : OrderCancelled) (now : ℚ) : List DueTrade :=
  let live := cancelledOrder (clearCancelPending st ev.orderId) ev
  let st := (reportCancel p st ev now).st
  match rollOfCancel st ev, ev.orderId with
  | none, some oid =>
    let st := dropCancelled st ev live
    dueEach (confirmDue p oid) (ptConfirmOne p oid now)
      (List.range st.printThroughTriggers.length) st
  | _, _ => []

/-- What a book or a tick makes due. -/
def serveDue (p : V33Params) (st : V33State) (now : ℚ) : List DueTrade :=
  stallsDue p now (wingStep p (shadowComplete p (recomputeContext p st now) now) now).st

/-- What a print makes due. -/
def tradeDue (p : V33Params) (st : V33State) (ev : Trade) (now : ℚ) : List DueTrade :=
  let st := shadowComplete p (shadowOnTrade p st ev).st now
  stallsDue p now (printThroughStep p (wingStep p st now).st ev now).st

/-- The resolutions an event makes due. -/
def dues (p : V33Params) (st : V33State) (ev : Event) : List DueTrade :=
  match ev with
  | .bookUpdate e => serveDue p (stampStrikeFeed (foldBook st e) e) e.serverTs
  | .trade e => tradeDue p st e e.serverTs
  | .orderCancelled e => cancelDue p st e e.serverTs
  | .fill e => fillDue p st e e.serverTs
  | .clockTick now => serveDue p st now
  | .orderAck _ => []
  | .orderAmended _ => []

/-- A state reached by small steps. -/
def Stepped (p : V33Params) (s t : V33State) : Prop := ∃ acts, Run (Step p) s acts t

/-- A resolution that is due in a state reached from `s`. A purchase is for the batch of a
trigger and has an ask. -/
inductive DueTrade.From (p : V33Params) (s : V33State) : DueTrade → Prop
  | sell {t : V33State} {legs : List WingLeg} {lots : WingLeg → ℚ} {count : ℚ}
      (stepped : Stepped p s t) : DueTrade.From p s (.sell t legs lots count)
  | buy {t : V33State} {b : WingBatch} {shortfall : ℚ} (stepped : Stepped p s t)
      (trigger : PrintThroughTrigger) (mem : trigger ∈ t.printThroughTriggers)
      (batch : batchOf t trigger.batchIndex = some b) (ask : (ptBucketNoAsk t).isSome) :
      DueTrade.From p s (.buy t b shortfall)

/-- The orders of an outcome that end triggers are those of the resolutions that are due. -/
structure Outcome.Ends (p : V33Params) (s : V33State) (r : Outcome) (ds : List DueTrade) :
    Prop where
  acts : resolutions r.acts = ds.flatMap DueTrade.acts
  due : ∀ d ∈ ds, d.From p s

section Ends

variable {p : V33Params} {now : ℚ} {P : Permit} {s st t : V33State} {acts : List V33Action}
  {r : Outcome} {ds es : List DueTrade}

/-- A state is stepped from itself. -/
theorem Stepped.refl (s : V33State) : Stepped p s s := ⟨[], Run.refl s⟩

/-- One step more, of the ladder, the wings or the books. -/
theorem Stepped.step (h : Stepped p s st) (hstep : Step p st acts t) : Stepped p s t := by
  obtain ⟨acts', hrun⟩ := h
  exact ⟨acts' ++ acts, Run.trans hrun (Run.single hstep)⟩

/-- One operation more. -/
theorem Stepped.op (h : Stepped p s st) (hop : Op p now st acts t) : Stepped p s t := by
  cases hop with
  | ladder hop => exact h.step (Step.ladder hop)
  | wing hop => exact h.step (Step.wing hop)

/-- One operation of the wings more. -/
theorem Stepped.wing (h : Stepped p s st) (hop : WingOp p now st acts t) : Stepped p s t :=
  h.step (Step.wing hop)

/-- A trigger is updated. -/
theorem Stepped.settle (h : Stepped p s st) (idx : ℕ)
    (f : PrintThroughTrigger → PrintThroughTrigger) (hf : ∀ x, TriggerStep x (f x)) :
    Stepped p s (replacePt st idx f) :=
  h.wing (@settle_replacePt p 0 st idx f fun x _ => hf x)

/-- A part of an event more. -/
theorem Stepped.via (h : Stepped p s st) (k : r.Via (Op p now) st) : Stepped p s r.st :=
  Run.preserves (I := Stepped p s) (fun _ _ _ hop hs => hs.op hop) k h

/-- A tidy change of the state more. -/
theorem Stepped.tidy (h : Stepped p s st) (hframe : TidyFrame st t) : Stepped p s t := by
  have hstep : Step p st [] t := Step.tidy hframe rfl
  exact h.step hstep

/-! ### The parts of an outcome -/

/-- The resolutions of two parts of a decision. -/
theorem resolutions_append (a b : List V33Action) :
    resolutions (a ++ b) = resolutions a ++ resolutions b := List.filter_append ..

/-- A resolution is a wing action. -/
theorem isWing_of_isResolution {k : ActionKind} (h : k.isResolution = true) : k.isWing = true := by
  cases k <;> simp_all [ActionKind.isResolution, ActionKind.isUnwind, ActionKind.isTakeNo,
    ActionKind.isWing]

/-- Without wing actions nothing is resolved. -/
theorem resolutions_of_wingActs (h : wingActs acts = []) : resolutions acts = [] := by
  refine List.filter_eq_nil_iff.mpr fun a ha hres => ?_
  exact List.filter_eq_nil_iff.mp h a ha (isWing_of_isResolution hres)

/-- Nothing is due where no trigger ends. -/
theorem Outcome.Ends.nothing (h : resolutions r.acts = []) : r.Ends p s [] := ⟨h, by simp⟩

/-- Nothing done resolves nothing. -/
theorem ends_quiet (st : V33State) : st.quiet.Ends p s [] := Outcome.Ends.nothing rfl

/-- A change of the state alone resolves nothing. -/
theorem Outcome.Ends.mapSt (h : r.Ends p s ds) (f : V33State → V33State) :
    (r.mapSt f).Ends p s ds := ⟨h.acts, h.due⟩

/-- The trades of two parts, one after the other. -/
theorem Outcome.Ends.andThen {next : V33State → Outcome} (h : r.Ends p s ds)
    (k : (next r.st).Ends p s es) : (r.andThen next).Ends p s (ds ++ es) := by
  refine ⟨?_, List.forall_mem_append.mpr ⟨h.due, k.due⟩⟩
  rw [andThen_acts, resolutions_append, h.acts, k.acts, List.flatMap_append]

/-- A part that ends no trigger in front of one that may. -/
theorem Outcome.Ends.after {next : V33State → Outcome} (h : (next r.st).Ends p s ds)
    (hr : resolutions r.acts = []) : (r.andThen next).Ends p s ds :=
  (Outcome.Ends.nothing hr).andThen h

/-- A part that ends no trigger behind one that may. -/
theorem Outcome.Ends.before {next : V33State → Outcome} (h : r.Ends p s ds)
    (hnext : resolutions (next r.st).acts = []) : (r.andThen next).Ends p s ds := by
  have := h.andThen (Outcome.Ends.nothing (p := p) (s := s) hnext)
  rwa [List.append_nil] at this

/-- The ladder resolves nothing. -/
theorem resolutions_ladder (h : Run (LadderOp p now P) st acts t) : resolutions acts = [] := by
  refine resolutions_of_wingActs (List.filter_eq_nil_iff.mpr fun a ha => ?_)
  obtain ⟨_, _, b, _, _, _, hop, _, hab, -⟩ := h.exists_step ha
  exact List.filter_eq_nil_iff.mp hop.wingActs a hab

/-- The rounds of a loop one after the other. -/
theorem ends_forEach {α : Type} {due : α → V33State → List DueTrade} {body : α → V33State → Outcome}
    (hvia : ∀ x st, (body x st).Via (Op p now) st)
    (h : ∀ x st, Stepped p s st → (body x st).Ends p s (due x st)) (xs : List α)
    (hst : Stepped p s st) : (forEach xs body st).Ends p s (dueEach due body xs st) := by
  induction xs generalizing st with
  | nil => exact ends_quiet st
  | cons x xs ih => exact (h x st hst).andThen (ih (hst.via (hvia x st)))

/-- A stand-down resolves nothing. -/
theorem resolutions_standdown (st : V33State) (reason : Reason) :
    resolutions (standdown st reason).acts = [] := by
  unfold standdown
  split <;> rfl

/-! ### The resolutions -/

/-- A sale and a purchase are resolutions, live or not. -/
theorem isResolution_mk {k : ActionKind} {sh : Bool} (h : k = .unwindWings ∨ k = .takeBucketNo) :
    (twinKind k sh).isResolution = true := by
  rcases h with rfl | rfl <;> cases sh <;> rfl

/-- The orders of a resolution end its trigger. -/
theorem DueTrade.resolutions_acts (d : DueTrade) : resolutions d.acts = d.acts := by
  refine List.filter_eq_self.mpr fun a ha => ?_
  cases d with
  | sell st legs lots count =>
    rw [DueTrade.acts, unwindAction] at ha
    split_ifs at ha
    · simp at ha
    · rw [List.mem_singleton.mp ha]
      exact isResolution_mk (Or.inl rfl)
  | buy st b shortfall =>
    rw [List.mem_singleton.mp ha]
    exact isResolution_mk (Or.inr rfl)

/-- A part that emits one trade. -/
theorem Outcome.Ends.single {d : DueTrade} (hacts : r.acts = d.acts) (hd : d.From p s) :
    r.Ends p s [d] := by
  refine ⟨?_, fun x hx => List.mem_singleton.mp hx ▸ hd⟩
  rw [hacts, DueTrade.resolutions_acts, List.flatMap_singleton]

/-- An unwind sells the legs of its batch. -/
theorem ends_ptUnwind (hst : Stepped p s st) (idx : ℕ) (tr : PrintThroughTrigger)
    (b : WingBatch) (resolution : Resolution) :
    (ptUnwind st idx tr b now resolution).Ends p s [unwindDue st b] := by
  refine Outcome.Ends.single ?_ (DueTrade.From.sell hst)
  unfold ptUnwind
  dsimp only
  split_ifs <;> rfl

/-- A completion buys the bucket NO it lacks. -/
theorem ends_ptComplete (hst : Stepped p s st) (idx : ℕ) (tr : PrintThroughTrigger) {b : WingBatch}
    (shortfall lockPer : ℚ) {noAsk : ℚ} (hask : ptBucketNoAsk st = some noAsk)
    {tr' : PrintThroughTrigger} (hmem : tr' ∈ st.printThroughTriggers)
    (hb : batchOf st tr'.batchIndex = some b) :
    (ptComplete p st idx tr b shortfall noAsk lockPer now).Ends p s [.buy st b shortfall] := by
  refine Outcome.Ends.single ?_ (DueTrade.From.buy hst tr' hmem hb (by rw [hask]; rfl))
  unfold ptComplete DueTrade.acts purchase
  dsimp only
  rw [hask]
  cases hs : st.shakedown with
  | true => rfl
  | false => rfl

/-- The last confirm completes the batch or unwinds it. -/
theorem ends_ptFinalizeStall (hst : Stepped p s st) (idx : ℕ) :
    (ptFinalizeStall p st idx now).Ends p s (finalizeDue p idx st) := by
  unfold ptFinalizeStall finalizeDue
  cases htr : st.printThroughTriggers[idx]? with
  | none => exact ends_quiet st
  | some tr =>
    have hst' : Stepped p s (replacePt st idx endStall) := hst.settle idx endStall fun _ =>
      ⟨rfl, rfl, rfl, rfl, fun _ hc => hc, fun h => ⟨h, rfl⟩⟩
    dsimp only
    split_ifs with hres
    · exact ends_quiet st
    · cases hb : batchOf (replacePt st idx endStall) tr.batchIndex with
      | none => exact ends_quiet _
      | some b =>
        dsimp only
        split_ifs
        · exact ends_quiet _
        · cases hask : ptCompletion p (replacePt st idx endStall) b with
          | none => exact (ends_ptUnwind hst' idx tr b .unwind).mapSt _
          | some asks =>
            obtain ⟨noAsk, lockPer⟩ := asks
            exact (ends_ptComplete hst' idx tr _ lockPer (ask_of_ptCompletion hask)
              (List.mem_of_getElem? (getElem?_replacePt htr)) hb).mapSt _

/-- Wings that did not both fill are sold back. -/
theorem ends_ptFailClosed (hst : Stepped p s st) (index : ℕ) :
    (ptFailClosed p st index now).Ends p s (failDue p index st) := by
  unfold ptFailClosed failDue
  cases st.printThroughTriggers.findIdx? fun t => t.batchIndex == index && !t.resolved with
  | none => exact ends_quiet st
  | some idx =>
    dsimp only
    cases htr : st.printThroughTriggers[idx]? with
    | none => exact ends_quiet st
    | some tr =>
      cases hb : batchOf st index with
      | none => exact ends_quiet st
      | some b =>
        have hcancel : (ptCancelUnfilledRungs p st tr).Via (LadderOp p now Permit.leave) st :=
          via_ptCancelUnfilledRungs trivial (List.mem_of_getElem? htr)
        have hunwind := @ends_ptUnwind p now s _ (hst.via (run_ladder hcancel)) idx tr b
          .partialFill
        exact ((hunwind.after (resolutions_ladder hcancel)).mapSt _).before
          (resolutions_standdown _ .printThroughPartial)

/-- A stall that begins emits the trades of its trigger. -/
theorem ends_ptBeginStall (hst : Stepped p s st) (idx : ℕ) :
    (ptBeginStall p st idx now).Ends p s (beginDue p idx st) := by
  unfold ptBeginStall beginDue
  cases htr : st.printThroughTriggers[idx]? with
  | none => exact ends_quiet st
  | some tr =>
    have hcancel : (ptCancelUnfilledRungs p st tr).Via (LadderOp p now Permit.leave) st :=
      via_ptCancelUnfilledRungs trivial (List.mem_of_getElem? htr)
    have hstall : Stepped p s
        (replacePt (ptCancelUnfilledRungs p st tr).st idx (stallTrigger (ptRestingIds st tr))) :=
      (hst.via (run_ladder hcancel)).settle idx _ fun _ =>
        ⟨rfl, rfl, rfl, rfl, fun _ hc => hc, fun h => ⟨h, rfl⟩⟩
    have hsilent := resolutions_ladder hcancel
    refine Outcome.Ends.after ?_ hsilent
    dsimp only [mapSt_st]
    split_ifs
    · exact ends_ptFinalizeStall hstall idx
    · exact ends_quiet _

/-- A confirm of the last cancel ends the trigger that waited for it. -/
theorem ends_ptConfirmOne (hst : Stepped p s st) (oid : String) (idx : ℕ) :
    (ptConfirmOne p oid now idx st).Ends p s (confirmDue p oid idx st) := by
  unfold ptConfirmOne confirmDue
  cases htr : st.printThroughTriggers[idx]? with
  | none => exact ends_quiet st
  | some tr =>
    have hwait : Stepped p s
        (replacePt st idx (awaitCancels (tr.pendingCancels.filter (· ≠ oid)))) :=
      hst.settle idx _ fun _ => ⟨rfl, rfl, rfl, rfl, fun _ hc => hc, fun h => ⟨h, rfl⟩⟩
    dsimp only
    by_cases hwaits : tr.stallPending ∧ !tr.resolved ∧ oid ∈ tr.pendingCancels
    · rw [if_pos hwaits]
      by_cases hlast : (tr.pendingCancels.filter (· ≠ oid)).isEmpty
      · rw [if_pos hlast, if_pos ⟨hwaits, hlast⟩]
        exact ends_ptFinalizeStall hwait idx
      · rw [if_neg hlast, if_neg fun h => hlast h.2]
        exact ends_quiet _
    · rw [if_neg hwaits, if_neg fun h => hwaits h.1]
      exact ends_quiet _

/-- A stalled trigger fails or begins to be cancelled. -/
theorem ends_ptStallOne (hst : Stepped p s st) (idx : ℕ) :
    (ptStallOne p now idx st).Ends p s (stallDue p now idx st) := by
  unfold ptStallOne stallDue
  cases htr : st.printThroughTriggers[idx]? with
  | none => exact ends_quiet st
  | some tr =>
    dsimp only
    split_ifs
    · exact ends_quiet st
    · cases hb : batchOf st tr.batchIndex with
      | none => exact ends_quiet st
      | some b =>
        dsimp only
        split_ifs
        · exact ends_quiet st
        · exact ends_ptFailClosed hst b.index
        · exact ends_ptBeginStall hst idx

/-- The stalls that are due emit their trades one after the other. -/
theorem ends_ptStallStep (hst : Stepped p s st) :
    (ptStallStep p st now).Ends p s (stallsDue p now st) := by
  unfold ptStallStep stallsDue
  split_ifs
  · exact ends_forEach via_ptStallOne (fun idx _ hs => ends_ptStallOne hs idx) _ hst
  · exact ends_quiet st

/-- A short completion sells the lots that cannot be completed. -/
theorem ends_ptCompleteShort (hst : Stepped p s st) (idx : ℕ) (tr : PrintThroughTrigger)
    (b : WingBatch) (short : ℚ) : (ptCompleteShort st idx tr b short).Ends p s
      [.sell st (filledLegs st b.index) (fun _ => short) (truncInt short)] := by
  unfold ptCompleteShort
  exact Outcome.Ends.before (Outcome.Ends.single rfl (DueTrade.From.sell hst))
    (resolutions_standdown _ .printThroughCompleteShort)

/-- A completion that fell short ends with a sale of what it missed. -/
theorem ends_ptApplyCompleteFill (hst : Stepped p s st) (ev : Fill)
    (h : ptApplyCompleteFill p st ev now = some r) : r.Ends p s (shortDue p st ev now) := by
  unfold ptApplyCompleteFill at h
  unfold shortDue
  cases hidx : st.printThroughTriggers.findIdx? fun t =>
    t.completeCoid == some ev.clientOrderId with
  | none => simp [hidx] at h
  | some idx =>
    rw [hidx] at h
    obtain ⟨tr, htr, rfl⟩ := Option.map_eq_some_iff.mp h
    dsimp only
    rw [htr]
    have hended : Stepped p s (replacePt (ptBookTakerComplete p st tr
        ((ev.price.or tr.completePrice).getD 0) (qCount ev.count) now) idx endCompletion) := by
      have hbooked : WingOp p now st [] (ptBookTakerComplete p st tr
          ((ev.price.or tr.completePrice).getD 0) (qCount ev.count) now) :=
        WingOp.takerFill st tr _ _ (List.mem_map_of_mem (List.mem_of_getElem? htr))
      exact (hst.wing hbooked).settle idx endCompletion fun _ =>
        ⟨rfl, rfl, rfl, rfl, fun _ hc => absurd hc (Option.some_ne_none _).symm, fun h => ⟨h, rfl⟩⟩
    dsimp only
    revert hended
    generalize replacePt _ idx endCompletion = u
    intro hended
    refine Outcome.Ends.mapSt ?_ _
    cases hb : batchOf u tr.batchIndex with
    | none => exact ends_quiet u
    | some b =>
      dsimp only
      split_ifs
      · exact ends_ptCompleteShort hended idx tr b _
      · exact ends_quiet u

/-! ### What ends no trigger -/

/-- Reports, takes, retries and nettings are no resolutions. -/
theorem isResolution_eq_false {k : ActionKind}
    (h : k.isReport = true ∨ k = .takeWings ∨ k = .wouldTakeWings ∨ k = .retryWing ∨
      k = .wingNetted) : k.isResolution = false := by
  cases k <;> simp_all [ActionKind.isReport, ActionKind.isResolution, ActionKind.isUnwind,
    ActionKind.isTakeNo]

/-- A part without a resolution. -/
theorem resolutions_eq_nil (h : ∀ a ∈ acts, a.kind.isResolution = false) :
    resolutions acts = [] :=
  List.filter_eq_nil_iff.mpr fun a ha => by simp [h a ha]

/-- The wing step takes and retries. -/
theorem resolutions_wingStep (st : V33State) : resolutions (wingStep p st now).acts = [] := by
  refine resolutions_eq_nil fun a ha => isResolution_eq_false (Or.inr ?_)
  rw [← serviceActs_wingStep] at ha
  have hserved := (List.mem_filter.mp ha).2
  simp only [V33Action.takes, V33Action.retries, Bool.or_eq_true, Bool.and_eq_true,
    decide_eq_true_eq] at hserved
  rcases hserved with (h | ⟨h, -⟩) | h | ⟨h, -⟩
  · exact Or.inl h
  · exact Or.inr (Or.inl h)
  · exact Or.inr (Or.inr (Or.inl h))
  · exact Or.inr (Or.inl h)

/-- A netting resolves nothing. -/
theorem resolutions_netWings (coid : String) : resolutions (netWings st coid now).acts = [] := by
  unfold netWings
  generalize 64 = fuel
  induction fuel generalizing st with
  | zero => rfl
  | succ fuel ih =>
    unfold netLoop
    split
    · rfl
    · split_ifs
      · split
        · dsimp only
          split
          · rfl
          · split_ifs
            · rfl
            · rw [andThen_acts, resolutions_append, ih, List.append_nil]
              refine resolutions_eq_nil fun a ha => ?_
              unfold netPair at ha
              rw [List.mem_singleton.mp ha]
              cases hs : st.shakedown <;> rfl
        · rfl
      · rfl

/-- An early take resolves nothing. -/
theorem resolutions_printThroughStep (ev : Trade) :
    resolutions (printThroughStep p st ev now).acts = [] := by
  unfold printThroughStep
  split
  · rfl
  · split_ifs
    · split
      · rfl
      · dsimp only
        split_ifs
        · rfl
        · refine resolutions_eq_nil fun a ha => ?_
          unfold ptFire at ha
          rw [List.mem_singleton.mp ha]
          refine isResolution_eq_false (Or.inr ?_)
          simp only [mk, twinKind]
          split
          · exact Or.inr (Or.inl rfl)
          · exact Or.inl rfl
    · rfl

/-- A fill of an unknown bucket resolves nothing. -/
theorem resolutions_failBucketUnknown (st : V33State) :
    resolutions (failBucketUnknown st).acts = [] := by
  unfold failBucketUnknown
  dsimp only
  rw [mapSt_acts, andThen_acts, resolutions_append, resolutions_standdown, List.append_nil]
  split_ifs
  · rfl
  · refine resolutions_of_wingActs (List.filter_eq_nil_iff.mpr fun a ha => ?_)
    rw [cancelAll_acts] at ha
    obtain ⟨o, -, rfl⟩ := List.mem_map.mp ha
    rw [isWing_eq_false (Or.inr (Or.inl (isCancel_cancelAction _ o)))]
    exact Bool.false_ne_true

/-- A booking ends no trigger. -/
theorem resolutions_bookRungFill (st : V33State) (r : FillReport) :
    resolutions (bookRungFill p st r now).acts = [] := by
  unfold bookRungFill
  dsimp only
  split
  · exact resolutions_failBucketUnknown _
  · exact resolutions_wingStep _

/-- The bookings of an event end no trigger and go on from a state that was reached. -/
theorem calmLaw (p : V33Params) (s : V33State) :
    BookLaw p (fun _ => True) (fun (_ : Unit) _ => ()) (fun _ a => a.kind.isResolution = false)
      (fun t _ => Stepped p s t) where
  report _ a ha := ⟨isResolution_eq_false (Or.inl ha), rfl⟩
  seen _ _ h := h.tidy ⟨⟨rfl, rfl, rfl, rfl⟩, rfl, rfl⟩
  fill r _ hd h := by
    refine ⟨allAlong_of_forall fun a ha _ => ?_,
      (h.step (Step.book _ r hd)).via (via_bookRungFill r)⟩
    have hcalm := List.filter_eq_nil_iff.mp (resolutions_bookRungFill _ r) a ha
    simpa using hcalm

/-- What a calm outcome leaves: no trigger ended, and a state that was reached. -/
theorem Outcome.Keeps.calm
    (h : r.Keeps (fun (_ : Unit) _ => ()) (fun _ a => a.kind.isResolution = false)
      (fun t _ => Stepped p s t) ()) : resolutions r.acts = [] ∧ Stepped p s r.st :=
  ⟨resolutions_eq_nil (forall_of_allAlong h.1), h.2⟩

/-! ### The resolutions of a decision -/

/-- A missed leg fails the batch of its trigger. A response that raises ends nothing. -/
theorem ends_applyWingFill (hst : Stepped p s st) (leg : WingLeg) (ev : Fill) (back : V33State) :
    ((applyWingFill p st leg ev now).getD back.quiet).Ends p s (missDue p st leg ev) := by
  have hmissed : AnswersLeg fun l => { l with status := .unfilled } :=
    ⟨fun _ => rfl, fun _ => rfl, fun _ => rfl, fun _ => rfl, fun _ => rfl, fun _ => rfl,
      fun _ h => by cases h⟩
  have hanswered := hst.step (Step.answer st ev.clientOrderId _ hmissed)
  unfold applyWingFill missDue
  dsimp only
  split_ifs
  · cases ev.price with
    | none => exact ends_quiet back
    | some price => exact Outcome.Ends.nothing (resolutions_netWings _)
  · revert hanswered
    generalize ({ st with wingLegs := _ } : V33State) = u
    intro hanswered
    rw [Option.getD_some]
    cases batchOf u leg.batch with
    | none => exact ends_quiet _
    | some b =>
      dsimp only
      split_ifs
      · exact ends_ptFailClosed hanswered _
      · exact ends_quiet _

/-- A fill ends a trigger by a miss or by a completion that fell short. -/
theorem ends_applyFill (st : V33State) (ev : Fill) :
    (applyFill p st ev now).Ends p st (fillDue p st ev now) := by
  have hst : Stepped p st (clearCancelPending st ev.orderId) :=
    (Stepped.refl st).tidy (clearCancelPending_tidy st _)
  unfold applyFill fillDue
  dsimp only
  cases hshort : ptApplyCompleteFill p (clearCancelPending st ev.orderId) ev now with
  | some r => exact ends_ptApplyCompleteFill hst ev hshort
  | none =>
    dsimp only
    cases hleg : legOf (clearCancelPending st ev.orderId) ev.clientOrderId with
    | some leg => exact ends_applyWingFill hst leg ev st
    | none =>
      dsimp only
      split
      · exact Outcome.Ends.nothing
          ((calmLaw p st).applyRungFill _ ev (fun _ _ => trivial) hst).calm.1
      · exact Outcome.Ends.nothing
          ((calmLaw p st).applyOrphanFill ev (fun _ _ => trivial) hst).calm.1

/-- A confirmed amend ends no trigger. -/
theorem resolutions_confirmAmend (st : V33State) (rp : RollPending) (ev : OrderAmended) :
    resolutions (confirmAmend p st rp ev now).acts = [] := by
  unfold confirmAmend bookAmendCross
  dsimp only
  split
  · rfl
  · split_ifs
    · split
      · rfl
      · exact resolutions_bookRungFill _ _
    · rfl

/-- A confirm ends the triggers that waited for it, unless it finishes a failed amend. -/
theorem ends_cancelPart (st : V33State) (ev : OrderCancelled) :
    ((reportCancel p st ev now).andThen
      (finishCancel p (cancelledOrder (clearCancelPending st ev.orderId) ev) ev now)).Ends p st
        (cancelDue p st ev now) := by
  have hst : Stepped p st (clearCancelPending st ev.orderId) :=
    (Stepped.refl st).tidy (clearCancelPending_tidy st _)
  obtain ⟨hcalm, hreported⟩ :=
    ((calmLaw p st).reportCancel ev (fun _ _ => trivial) hst).calm
  refine Outcome.Ends.after ?_ hcalm
  unfold finishCancel cancelDue
  dsimp only
  cases rollOfCancel (reportCancel p st ev now).st ev with
  | some rp => exact Outcome.Ends.nothing (resolutions_of_wingActs (rollFallback_tidy _ rp).2)
  | none =>
    cases ev.orderId with
    | none => exact ends_quiet _
    | some oid =>
      obtain ⟨l, n, heq, -⟩ := dropCancelled_eq (reportCancel p st ev now).st ev
        (cancelledOrder (clearCancelPending st (some oid)) ev)
      refine ends_forEach (via_ptConfirmOne oid) (fun idx _ hs => ends_ptConfirmOne hs oid idx) _
        (hreported.tidy ?_)
      rw [heq]
      exact ⟨⟨rfl, rfl, rfl, rfl⟩, rfl, rfl⟩

/-- A tick ends triggers by their stalls. -/
theorem ends_serveWings (hst : Stepped p s (recomputeContext p st now)) :
    (serveWings p st now).Ends p s (serveDue p st now) := by
  have hshadow : Stepped p s (shadowComplete p (recomputeContext p st now) now) := by
    obtain ⟨x, hx⟩ := shadowComplete_eq p (recomputeContext p st now) now
    rw [hx]
    exact hst.tidy ⟨⟨rfl, rfl, rfl, rfl⟩, rfl, rfl⟩
  unfold serveWings serveDue
  exact Outcome.Ends.after (ends_ptStallStep (hshadow.via (via_wingStep _).wing))
    (resolutions_wingStep _)

/-- A print ends triggers by their stalls. -/
theorem ends_applyTrade (st : V33State) (ev : Trade) :
    (applyTrade p st ev now).Ends p st (tradeDue p st ev now) := by
  have hshadow : Stepped p st (shadowComplete p (shadowOnTrade p st ev).st now) := by
    obtain ⟨x, hx⟩ := shadowOnTrade_eq p st ev
    obtain ⟨y, hy⟩ := shadowComplete_eq p (shadowOnTrade p st ev).st now
    rw [hy, hx]
    exact (Stepped.refl st).tidy ⟨⟨rfl, rfl, rfl, rfl⟩, rfl, rfl⟩
  have hwings := hshadow.via (@via_wingStep p now _).wing
  have hfired := hwings.via (@via_printThroughStep p now _ ev).wing
  unfold applyTrade tradeDue
  refine Outcome.Ends.after (ends_ptStallStep hfired) ?_
  rw [andThen_acts, andThen_acts, resolutions_append, resolutions_append, mapSt_acts,
    resolutions_printThroughStep, resolutions_wingStep,
    resolutions_eq_nil fun a ha => isResolution_eq_false (Or.inl (isReport_shadowOnTrade ev a ha))]
  rfl

/-- The wing orders of a decision that end triggers are those of the resolutions that its event
makes due, each in a state that small steps reach from the context of the event. -/
theorem CoidsOk.ends (h : CoidsOk st) (ev : Event) :
    (decideV33 p st ev).Ends p (contextAt p st ev) (dues p st ev) := by
  have hconverge : ∀ {r : Outcome}, V33.beforeConverge p st ev = some r →
      r.Ends p (contextAt p st ev) (dues p st ev) →
        (decideV33 p st ev).Ends p (contextAt p st ev) (dues p st ev) := by
    intro r hr hends
    rw [decideV33_of_beforeConverge hr]
    exact hends.before (resolutions_ladder (h.via_converge hr))
  cases ev with
  | bookUpdate e => exact hconverge rfl (ends_serveWings (Stepped.refl _))
  | clockTick now => exact hconverge rfl (ends_serveWings (Stepped.refl _))
  | orderCancelled e => exact hconverge rfl (ends_cancelPart st e)
  | trade e => exact ends_applyTrade st e
  | fill e => exact ends_applyFill st e
  | orderAck e => exact ends_quiet _
  | orderAmended e =>
    cases hroll : rollOfAmend st e with
    | none =>
      refine Outcome.Ends.nothing ?_
      show resolutions (applyAmended p st e e.serverTs).acts = []
      rw [applyAmended, hroll]
      rfl
    | some rp =>
      refine hconverge (r := confirmAmend p st rp e e.serverTs) ?_
        (Outcome.Ends.nothing (resolutions_confirmAmend st rp e))
      rw [V33.beforeConverge, hroll]
      rfl

end Ends

end Pilot.V33
