import Pilot.V33.DecisionRuns
import Pilot.V33.NettingRuns
import Pilot.V33.WingService

/-!
# The wings in a decision without early takes

Without triggers a decision leaves the legs alone, answers one of them, or runs the wing step
once, on the legs it found, at its own time and on its own books.
-/

namespace Pilot.V33

/-- An action that takes the wings of a batch. In shakedown it has the kind of a retry and
differs from it by its two legs. -/
def V33Action.takes (a : V33Action) : Bool :=
  a.kind = .takeWings || (a.kind = .wouldTakeWings && a.legs.length != 1)

/-- An action that sends a leg again. -/
def V33Action.retries (a : V33Action) : Bool :=
  a.kind = .retryWing || (a.kind = .wouldTakeWings && a.legs.length == 1)

/-- The takes and the retries among the actions. -/
def serviceActs (acts : List V33Action) : List V33Action :=
  acts.filter fun a => a.takes || a.retries

/-- The legs, the batches and the triggers are the same. -/
structure SameWings (s t : V33State) : Prop where
  legs : t.wingLegs = s.wingLegs
  batches : t.wingBatches = s.wingBatches
  triggers : t.printThroughTriggers = s.printThroughTriggers

/-- An outcome that leaves the legs alone and sends no wing order. -/
structure Silent (st : V33State) (r : Outcome) : Prop where
  same : SameWings st r.st
  acts : serviceActs r.acts = []

/-- The same legs, books and window, and no batch but those that are not taken yet on top. -/
structure Grown (st s : V33State) : Prop where
  window : s.toWindow = st.toWindow
  books : s.toBooks = st.toBooks
  legs : s.wingLegs = st.wingLegs
  triggers : s.printThroughTriggers = st.printThroughTriggers
  batches : ∃ more, s.wingBatches = st.wingBatches ++ more ∧ ∀ b ∈ more, b.taken = false

/-- A state in which the wing step runs for `st`. -/
structure Handed (st s : V33State) : Prop extends Grown st s where
  inOrder : BatchesOk st ∧ PairsOk st → BatchesOk s ∧ PairsOk s

/-- What an outcome does to the wings: nothing, or one wing step. -/
inductive WingPhase (p : V33Params) (now : ℚ) (st : V33State) (r : Outcome) : Prop
  | still (silent : Silent st r)
  | served (s : V33State) (handed : Handed st s) (same : SameWings (wingStep p s now).st r.st)
      (acts : serviceActs r.acts = (wingStep p s now).acts)

section Phase

variable {p : V33Params} {now : ℚ} {st s t u : V33State} {r : Outcome} {acts : List V33Action}

/-- No change keeps the wings. -/
theorem SameWings.refl (s : V33State) : SameWings s s := ⟨rfl, rfl, rfl⟩

/-- Two changes that keep the wings keep them together. -/
theorem SameWings.trans (h : SameWings s t) (k : SameWings t u) : SameWings s u :=
  ⟨k.legs.trans h.legs, k.batches.trans h.batches, k.triggers.trans h.triggers⟩

/-- What leaves the state of the wings keeps the wings. -/
theorem SameWings.ofWings (h : t.toWings = s.toWings) : SameWings s t :=
  ⟨congrArg Wings.wingLegs h, congrArg Wings.wingBatches h,
    congrArg Wings.printThroughTriggers h⟩

/-- The takes and retries of two parts of a decision. -/
theorem serviceActs_append (a b : List V33Action) :
    serviceActs (a ++ b) = serviceActs a ++ serviceActs b := List.filter_append ..

/-- Nothing done is silent. -/
theorem Silent.quiet (st : V33State) : Silent st st.quiet := ⟨SameWings.refl st, rfl⟩

/-- A phase, and then a part that is silent. -/
theorem WingPhase.andThen (h : WingPhase p now st r) (next : V33State → Outcome)
    (k : Silent r.st (next r.st)) : WingPhase p now st (r.andThen next) := by
  have hacts : serviceActs (r.andThen next).acts = serviceActs r.acts := by
    rw [andThen_acts, serviceActs_append, k.acts, List.append_nil]
  cases h with
  | still silent => exact .still ⟨silent.same.trans k.same, hacts.trans silent.acts⟩
  | served s handed same acts => exact .served s handed (same.trans k.same) (hacts.trans acts)

/-- A phase, and then an update that leaves the wings alone. -/
theorem WingPhase.mapSt (h : WingPhase p now st r) {f : V33State → V33State}
    (k : SameWings r.st (f r.st)) : WingPhase p now st (r.mapSt f) := by
  cases h with
  | still silent => exact .still ⟨silent.same.trans k, silent.acts⟩
  | served s handed same acts => exact .served s handed (same.trans k) acts

/-- A phase behind actions that send no wing order. -/
theorem WingPhase.behind (h : WingPhase p now st r) (hacts : serviceActs acts = []) :
    WingPhase p now st ⟨r.st, acts ++ r.acts⟩ := by
  have heq : serviceActs (acts ++ r.acts) = serviceActs r.acts := by
    rw [serviceActs_append, hacts, List.nil_append]
  cases h with
  | still silent => exact .still ⟨silent.same, heq.trans silent.acts⟩
  | served s handed same acts => exact .served s handed same (heq.trans acts)

/-- What leaves the wings, the books and the window alone hands on the phases that follow. -/
structure HandsOn (st t : V33State) : Prop where
  window : t.toWindow = st.toWindow
  books : t.toBooks = st.toBooks
  wings : t.toWings = st.toWings
  fills : t.restFills = st.restFills

/-- A state hands itself on. -/
theorem HandsOn.refl (st : V33State) : HandsOn st st := ⟨rfl, rfl, rfl, rfl⟩

/-- A state has grown by nothing. -/
theorem Grown.refl (s : V33State) : Grown s s := ⟨rfl, rfl, rfl, rfl, [], by simp, by simp⟩

/-- Two growths are one. -/
theorem Grown.trans (h : Grown s t) (k : Grown t u) : Grown s u := by
  obtain ⟨more, hmore, huntaken⟩ := h.batches
  obtain ⟨more', hmore', huntaken'⟩ := k.batches
  refine ⟨k.window.trans h.window, k.books.trans h.books, k.legs.trans h.legs,
    k.triggers.trans h.triggers, more ++ more', ?_, ?_⟩
  · rw [hmore', hmore, List.append_assoc]
  · exact List.forall_mem_append.mpr ⟨huntaken, huntaken'⟩

/-- What is handed on has grown by nothing. -/
theorem HandsOn.grown (h : HandsOn s t) : Grown s t := by
  refine ⟨h.window, h.books, congrArg Wings.wingLegs h.wings,
    congrArg Wings.printThroughTriggers h.wings, [], ?_, by simp⟩
  rw [List.append_nil]
  exact congrArg Wings.wingBatches h.wings

/-- What is handed on is handed to the service. -/
theorem HandsOn.handed (h : HandsOn st t) (k : Handed t s) : Handed st s where
  toGrown := h.grown.trans k.toGrown
  inOrder hst := k.inOrder ⟨hst.1.frame h.wings (h.fills ▸ hst.1.fills), hst.2.frame h.wings⟩

/-- A group that closes adds a batch that is not taken yet. -/
theorem grown_flush (s : V33State) : Grown s (coalesceFlush p s now) := by
  unfold coalesceFlush
  split
  · exact Grown.refl s
  · split_ifs
    · exact ⟨rfl, rfl, rfl, rfl, _, rfl, by simp [batchOfGroup]⟩
    · exact Grown.refl s

/-- A coalesced fill lets the groups and batches grow. -/
theorem grown_coalesceAdd (s : V33State) (rf : RungFill) : Grown s (coalesceAdd p s rf now) := by
  unfold coalesceAdd
  dsimp only
  refine Grown.trans (@grown_flush p now s) ?_
  split <;> exact ⟨rfl, rfl, rfl, rfl, [], (List.append_nil _).symm, by simp⟩

/-- A state is handed to its own service. -/
theorem Handed.refl (s : V33State) : Handed s s := ⟨Grown.refl s, id⟩

/-- Without triggers a recorded fill joins the open group. -/
theorem handed_booked (htriggers : st.printThroughTriggers = []) (r : FillReport) {sd : ℤ}
    (hsd : (rungFillOf p st r now).bucketSd = some sd) :
    Handed st (latchIfDone p
      (hedgeFill p (recordFill p st r now) r.coid (rungFillOf p st r now) now)) := by
  have hnone : ptTriggerForCoid (recordFill p st r now) r.coid = none := by
    unfold ptTriggerForCoid
    rw [show (recordFill p st r now).printThroughTriggers = [] from htriggers]
    rfl
  have hbooked : bookedState p st r now =
      hedgeFill p (recordFill p st r now) r.coid (rungFillOf p st r now) now := by
    unfold bookedState
    rw [hsd]
  obtain ⟨x, hx, -⟩ := latchIfDone_eq p
    (hedgeFill p (recordFill p st r now) r.coid (rungFillOf p st r now) now)
  rw [hx]
  have hgrown : Grown st (recordFill p st r now) :=
    ⟨rfl, rfl, rfl, rfl, [], (List.append_nil _).symm, by simp⟩
  have hadded : Grown st (hedgeFill p (recordFill p st r now) r.coid (rungFillOf p st r now)
      now) := by
    unfold hedgeFill
    rw [hnone]
    exact hgrown.trans (grown_coalesceAdd _ _)
  refine ⟨⟨hadded.window, hadded.books, hadded.legs, hadded.triggers, hadded.batches⟩, ?_⟩
  rintro ⟨hbatches, hpairs⟩
  have horder : BatchesOk (bookedState p st r now) ∧ PairsOk (bookedState p st r now) :=
    ⟨hbatches.book r, hpairs.book hbatches r⟩
  rw [hbooked] at horder
  exact ⟨horder.1.frame rfl horder.1.fills, horder.2.frame rfl⟩

/-- A service of what is handed on is a service of the state. -/
theorem HandsOn.phase (h : HandsOn st t) (k : WingPhase p now t r) : WingPhase p now st r := by
  cases k with
  | still silent => exact .still ⟨(SameWings.ofWings h.wings).trans silent.same, silent.acts⟩
  | served s handed same acts => exact .served s (h.handed handed) same acts

/-- What is handed on twice is handed on. -/
theorem HandsOn.trans (h : HandsOn s t) (k : HandsOn t u) : HandsOn s u :=
  ⟨k.window.trans h.window, k.books.trans h.books, k.wings.trans h.wings, k.fills.trans h.fills⟩

/-- A tidy change hands the state on. -/
theorem TidyFrame.handsOn (h : TidyFrame s t) : HandsOn s t :=
  ⟨h.context.window, h.context.books, h.wings, h.fills⟩

/-! ### The orders of the wing step -/

/-- Takes and retries are wing actions. -/
theorem isWing_of_serviceActs {a : V33Action} (h : a.takes || a.retries) :
    a.kind.isWing = true := by
  cases hkind : a.kind <;>
    simp_all [V33Action.takes, V33Action.retries, ActionKind.isWing]

/-- Without wing actions no wing order is sent. -/
theorem serviceActs_of_wingActs (h : wingActs acts = []) : serviceActs acts = [] := by
  refine List.filter_eq_nil_iff.mpr fun a ha hservice => ?_
  exact List.filter_eq_nil_iff.mp h a ha (isWing_of_serviceActs hservice)

/-- Reports take and retry nothing. -/
theorem serviceActs_reports (h : ∀ a ∈ acts, a.kind.isReport = true) : serviceActs acts = [] := by
  refine serviceActs_of_wingActs (List.filter_eq_nil_iff.mpr fun a ha => ?_)
  rw [isWing_eq_false (Or.inl (h a ha))]
  exact Bool.false_ne_true

/-- A take of two legs is a take, live or not. -/
theorem takes_mk {shakedown : Bool} {a : V33Action} (hkind : a.kind = .takeWings)
    (hlegs : a.legs.length = 2) : (mk shakedown a).takes = true := by
  cases shakedown <;> simp [V33Action.takes, mk, twinKind, hkind, hlegs]

/-- It is no retry. -/
theorem retries_mk {shakedown : Bool} {a : V33Action} (hkind : a.kind = .takeWings)
    (hlegs : a.legs.length = 2) : (mk shakedown a).retries = false := by
  cases shakedown <;> simp [V33Action.retries, mk, twinKind, hkind, hlegs]

/-- A leg sent again is no take. -/
theorem takes_resendOrder (shakedown : Bool) (l : WingLeg) (limit : ℚ) :
    (resendOrder shakedown l limit).takes = false := by
  cases shakedown <;> simp [V33Action.takes, resendOrder, mk, twinKind]

/-- It is a retry. -/
theorem retries_resendOrder (shakedown : Bool) (l : WingLeg) (limit : ℚ) :
    (resendOrder shakedown l limit).retries = true := by
  cases shakedown <;> simp [V33Action.retries, resendOrder, mk, twinKind]

/-- A take emits takes alone. -/
theorem takes_takeBatch (b : WingBatch) (sd su : ℤ) (ya na : ℚ) :
    ∀ a ∈ (takeBatch p st b sd su ya na).acts, a.takes = true := by
  intro a ha
  rw [List.mem_singleton.mp ha]
  exact takes_mk rfl rfl

/-- So does a partial take. -/
theorem takes_takeBatchPartial (b : WingBatch) (sd su : ℤ) :
    ∀ a ∈ (takeBatchPartial p st b sd su now).acts, a.takes = true := by
  intro a ha
  unfold takeBatchPartial at ha
  dsimp only at ha
  split_ifs at ha
  · split at ha
    · rw [List.mem_singleton.mp ha]
      exact takes_mk rfl rfl
    · rw [List.mem_singleton.mp ha]
      exact takes_mk rfl rfl
    · simp at ha
  · simp at ha

/-- A retry emits retries alone. -/
theorem retries_retryBatch (b : WingBatch) (asks : ℚ × ℚ) :
    ∀ a ∈ (retryBatch p st b asks.1 asks.2 now).acts, a.retries = true ∧ a.takes = false := by
  intro a ha
  rw [retryBatch_acts] at ha
  split_ifs at ha
  · simp at ha
  · obtain ⟨l, -, rfl⟩ := List.mem_map.mp ha
    exact ⟨retries_resendOrder _ _ _, takes_resendOrder _ _ _⟩

/-- Serving a batch sends takes and retries. -/
theorem serviceActs_serveBatch (index : ℕ) (s : V33State) :
    serviceActs (serveBatch p now index s).acts = (serveBatch p now index s).acts := by
  refine List.filter_eq_self.mpr fun a ha => ?_
  have hserved := @servedBatch_serveBatch p now index s
  revert hserved ha
  generalize serveBatch p now index s = r
  intro ha hserved
  cases hserved with
  | quiet => simp at ha
  | take b sd ya na => simp [takes_takeBatch b sd _ ya na a ha]
  | takePartial b sd => simp [takes_takeBatchPartial b sd _ a ha]
  | retry b asks => simp [(retries_retryBatch b asks a ha).1]

/-- A batch given up at the cutoff emits nothing. -/
theorem quiet_cutoffBatch (b : WingBatch) (s : V33State) : (cutoffBatch now b s).acts = [] := by
  unfold cutoffBatch
  split_ifs <;> rfl

/-- A fact about the actions of every round holds of those of the loop. -/
theorem forEach_acts {α : Type} {body : α → V33State → Outcome} {Q : List V33Action → Prop}
    (hnil : Q []) (happend : ∀ a b, Q a → Q b → Q (a ++ b)) (hbody : ∀ x s, Q (body x s).acts)
    (xs : List α) (s : V33State) : Q (forEach xs body s).acts := by
  induction xs generalizing s with
  | nil => exact hnil
  | cons x xs ih => exact happend _ _ (hbody x s) (ih _)

/-- The wing step sends takes and retries. -/
theorem serviceActs_wingStep (s : V33State) :
    serviceActs (wingStep p s now).acts = (wingStep p s now).acts := by
  have happend (a b : List V33Action) (ha : serviceActs a = a) (hb : serviceActs b = b) :
      serviceActs (a ++ b) = a ++ b := by rw [serviceActs_append, ha, hb]
  unfold wingStep
  dsimp only
  split_ifs
  · rfl
  · exact forEach_acts (Q := fun acts => serviceActs acts = acts) rfl happend
      (fun b s => by rw [quiet_cutoffBatch]; rfl) _ _
  · exact forEach_acts (Q := fun acts => serviceActs acts = acts) rfl happend
      (fun k s => serviceActs_serveBatch k s) _ _

/-- A fact every round keeps holds after the loop. -/
theorem forEach_keeps {α : Type} {body : α → V33State → Outcome} {I : V33State → Prop}
    (hbody : ∀ x s, I s → I (body x s).st) (xs : List α) (h : I s) : I (forEach xs body s).st := by
  induction xs generalizing s with
  | nil => exact h
  | cons x xs ih => exact ih (hbody x s h)

/-! ### Bookings -/

/-- A fill on no known bucket leaves the wings alone. -/
theorem silent_failBucketUnknown (s : V33State) : Silent s (failBucketUnknown s) := by
  have hdrop (t : V33State) : wingActs (cancelAll t false).acts = [] := by
    refine List.filter_eq_nil_iff.mpr fun a ha => ?_
    rw [cancelAll_acts] at ha
    obtain ⟨o, -, rfl⟩ := List.mem_map.mp ha
    rw [isWing_eq_false (Or.inr (Or.inl (isCancel_cancelAction t o)))]
    exact Bool.false_ne_true
  have hstand (t : V33State) : Silent t (standdown t .fillBucketUnknown) := by
    unfold standdown
    split
    · exact ⟨⟨rfl, rfl, rfl⟩, rfl⟩
    · exact ⟨⟨rfl, rfl, rfl⟩, rfl⟩
  have hlatched : SameWings s
      { s with bucketUnknown := true, stoodDown := true, restAllotmentDone := true } :=
    ⟨rfl, rfl, rfl⟩
  have hsync (t : V33State) : SameWings t (syncWingMirrors t) := ⟨rfl, rfl, rfl⟩
  unfold failBucketUnknown
  dsimp only
  split_ifs
  · obtain ⟨hsame, hacts⟩ := hstand
      { s with bucketUnknown := true, stoodDown := true, restAllotmentDone := true }
    refine ⟨(hlatched.trans hsame).trans (hsync _), ?_⟩
    rw [mapSt_acts, andThen_acts, serviceActs_append]
    exact hacts
  · obtain ⟨hsame, hacts⟩ := hstand (cancelAll
      { s with bucketUnknown := true, stoodDown := true, restAllotmentDone := true } false).st
    refine ⟨(hlatched.trans (SameWings.trans ?_ hsame)).trans (hsync _), ?_⟩
    · rw [cancelAll_st]
      exact ⟨rfl, rfl, rfl⟩
    · rw [mapSt_acts, andThen_acts, serviceActs_append, serviceActs_of_wingActs (hdrop _)]
      exact hacts

/-- Without triggers a booked fill joins the open group, and the wing step runs. -/
theorem WingPhase.bookRungFill (htriggers : st.printThroughTriggers = []) (r : FillReport) :
    WingPhase p now st (bookRungFill p st r now) := by
  unfold V33.bookRungFill
  dsimp only
  cases hsd : (rungFillOf p st r now).bucketSd with
  | none =>
    obtain ⟨hsame, hacts⟩ := silent_failBucketUnknown (recordFill p st r now)
    exact .still ⟨⟨hsame.legs, hsame.batches, hsame.triggers⟩, hacts⟩
  | some sd =>
    refine .served _ (handed_booked htriggers r hsd) ⟨rfl, rfl, rfl⟩ ?_
    rw [mapSt_acts, serviceActs_wingStep]

/-- The wing step leaves the triggers alone when there are none. -/
theorem wingStep_triggers (h : s.printThroughTriggers = []) :
    (wingStep p s now).st.printThroughTriggers = [] := by
  have hserve (k : ℕ) (t : V33State) (ht : t.printThroughTriggers = []) :
      (serveBatch p now k t).st.printThroughTriggers = [] := by
    have hserved := @servedBatch_serveBatch p now k t
    revert hserved
    generalize serveBatch p now k t = r
    intro hserved
    cases hserved with
    | quiet => exact ht
    | take => exact ht
    | takePartial b sd =>
      unfold takeBatchPartial
      dsimp only
      split_ifs
      · split <;> exact ht
      · exact ht
    | retry b asks =>
      obtain ⟨n, hn, -⟩ := @retryLegs_st p now b.index asks.1 asks.2 t.wingLegs t
      unfold retryBatch
      dsimp only
      split_ifs
      · exact ht
      · exact ht
      · rw [hn]
        exact ht
  have hcutoff (b : WingBatch) (t : V33State) (ht : t.printThroughTriggers = []) :
      (cutoffBatch now b t).st.printThroughTriggers = [] := by
    unfold cutoffBatch
    split_ifs
    · exact ht
    · show replaceFirst _ _ t.printThroughTriggers = []
      rw [ht]
      rfl
    · exact ht
    · exact ht
  have hflush : (coalesceFlush p s now).printThroughTriggers = [] :=
    (grown_flush s).triggers.trans h
  unfold wingStep
  dsimp only
  split_ifs
  · exact hflush
  · exact forEach_keeps (I := fun t => t.printThroughTriggers = []) hcutoff _ hflush
  · exact forEach_keeps (I := fun t => t.printThroughTriggers = []) hserve _ hflush

/-- A phase from a state without triggers ends in one. -/
theorem WingPhase.triggers (h : WingPhase p now st r) (htriggers : st.printThroughTriggers = []) :
    r.st.printThroughTriggers = [] := by
  cases h with
  | still silent => exact silent.same.triggers.trans htriggers
  | served s handed same _ =>
    exact same.triggers.trans (wingStep_triggers (handed.triggers.trans htriggers))

/-! ### Events -/

/-- A change of the pacing hands the state on. -/
theorem HandsOn.pacing (st : V33State) (x : Pacing) : HandsOn st { st with toPacing := x } :=
  ⟨rfl, rfl, rfl, rfl⟩

/-- So does a recompute. -/
theorem handsOn_recompute (st : V33State) : HandsOn st (recomputeContext p st now) := by
  obtain ⟨q, x, heq, -⟩ := recomputeContext_eq p st now
  rw [heq]
  exact ⟨rfl, rfl, rfl, rfl⟩

/-- So does the completion of the shadows. -/
theorem handsOn_shadowComplete (st : V33State) : HandsOn st (shadowComplete p st now) := by
  obtain ⟨x, hx⟩ := shadowComplete_eq p st now
  rw [hx]
  exact HandsOn.pacing st x

/-- The wing step is the service of its state. -/
theorem WingPhase.wingStep (st : V33State) : WingPhase p now st (wingStep p st now) :=
  .served st (Handed.refl st) (SameWings.refl _) (serviceActs_wingStep st)

/-- Without triggers nothing stalls. -/
theorem silent_ptStallStep (htriggers : st.printThroughTriggers = []) :
    Silent st (ptStallStep p st now) := by
  rw [ptStallStep_of_no_triggers htriggers]
  exact Silent.quiet st

/-- Without early takes the service is the wing step alone. -/
theorem WingPhase.serveWings (htriggers : st.printThroughTriggers = []) :
    WingPhase p now st (serveWings p st now) := by
  have hcontext : HandsOn st (shadowComplete p (recomputeContext p st now) now) :=
    (handsOn_recompute st).trans (handsOn_shadowComplete _)
  have hserved : WingPhase p now st
      (V33.wingStep p (shadowComplete p (recomputeContext p st now) now) now) :=
    hcontext.phase (WingPhase.wingStep _)
  exact hserved.andThen _ (silent_ptStallStep (hserved.triggers htriggers))

/-- A print without the print-through serves the wings once. -/
theorem WingPhase.applyTrade (htriggers : st.printThroughTriggers = [])
    (hpt : p.printThrough = false) (ev : Trade) : WingPhase p now st (applyTrade p st ev now) := by
  have hreports : serviceActs (shadowOnTrade p st ev).acts = [] :=
    serviceActs_reports (isReport_shadowOnTrade ev)
  obtain ⟨x, hx⟩ := shadowOnTrade_eq p st ev
  have hstart : HandsOn st (shadowComplete p (shadowOnTrade p st ev).st now) := by
    rw [hx]
    exact (HandsOn.pacing st x).trans (handsOn_shadowComplete _)
  have hserved : WingPhase p now st
      (V33.wingStep p (shadowComplete p (shadowOnTrade p st ev).st now) now) :=
    hstart.phase (WingPhase.wingStep _)
  have hquiet (s : V33State) : printThroughStep p s ev now = s.quiet := by
    unfold printThroughStep
    split
    · rfl
    · rw [if_neg (by simp [hpt])]
  have hprint (s : V33State) : Silent s (printThroughStep p s ev now) := by
    rw [hquiet]
    exact Silent.quiet s
  have htaken := (hserved.behind hreports).andThen (fun s => printThroughStep p s ev now) (hprint _)
  exact htaken.andThen _ (silent_ptStallStep (htaken.triggers htriggers))

/-- The crossing lots of an amend are booked before the wings are served. -/
theorem WingPhase.bookAmendCross (htriggers : st.printThroughTriggers = []) (rp : RollPending)
    (newPrice : ℚ) (ev : OrderAmended) :
    WingPhase p now st (bookAmendCross p st rp newPrice ev now) := by
  unfold V33.bookAmendCross
  dsimp only
  split_ifs
  · split
    · exact .still (Silent.quiet st)
    · refine (WingPhase.bookRungFill htriggers _).mapSt ?_
      split_ifs
      · exact ⟨rfl, rfl, rfl⟩
      · exact SameWings.refl _
  · exact .still (Silent.quiet st)

/-- So are those of a confirmed amend. -/
theorem WingPhase.confirmAmend (htriggers : st.printThroughTriggers = []) (rp : RollPending)
    (ev : OrderAmended) : WingPhase p now st (confirmAmend p st rp ev now) := by
  unfold V33.confirmAmend
  dsimp only
  split
  · exact .still ⟨⟨rfl, rfl, rfl⟩, rfl⟩
  · have hmoved : HandsOn st (confirmRoll p (dropRoll st rp.oldCoid) rp
        (ev.price.getD rp.targetPrice) now) := ⟨rfl, rfl, rfl, rfl⟩
    exact hmoved.phase (@WingPhase.bookAmendCross p now (confirmRoll p (dropRoll st rp.oldCoid) rp
      (ev.price.getD rp.targetPrice) now) htriggers rp _ ev)

/-- The end of a cancel takes and retries nothing. -/
theorem silent_finishCancel (htriggers : st.printThroughTriggers = [])
    (live : Option RestOrder) (ev : OrderCancelled) :
      Silent st (finishCancel p live ev now st) := by
  unfold V33.finishCancel
  split
  · next rp _ =>
    obtain ⟨hframe, hacts⟩ := @rollFallback_tidy p now st rp
    exact ⟨SameWings.ofWings hframe.wings, serviceActs_of_wingActs hacts⟩
  · obtain ⟨l, n, heq, -⟩ := dropCancelled_eq st ev live
    have hdropped : SameWings st (dropCancelled st ev live) := by
      rw [heq]
      exact ⟨rfl, rfl, rfl⟩
    unfold ptOnCancelConfirmed
    split
    · exact ⟨hdropped, rfl⟩
    · rw [hdropped.triggers, htriggers]
      exact ⟨hdropped, rfl⟩

/-- The lots a cancel confirm reports are booked before the wings are served. -/
theorem WingPhase.reportCancel (htriggers : st.printThroughTriggers = []) (ev : OrderCancelled) :
    WingPhase p now st (reportCancel p st ev now) := by
  have hclear : HandsOn st (clearCancelPending st ev.orderId) :=
    (clearCancelPending_tidy st ev.orderId).handsOn
  obtain ⟨pre, hpre, h | ⟨r, h⟩⟩ := @reportCancel_cases p now st ev
  · rw [h]
    exact .still ⟨SameWings.ofWings hclear.wings, serviceActs_reports hpre⟩
  · rw [h]
    have hbooked := @WingPhase.bookRungFill p now (clearCancelPending st ev.orderId)
      (hclear.grown.triggers.trans htriggers) r
    exact hclear.phase (hbooked.behind (serviceActs_reports hpre))

/-- A fill noted as seen hands the state on. -/
theorem handsOn_noteSeen (st : V33State) (coid : String) (count : ℚ) :
    HandsOn st (noteSeen st coid count) := ⟨rfl, rfl, rfl, rfl⟩

/-- So do lots that were booked from an amend. -/
theorem handsOn_skipCrossed (st : V33State) (oid : Option String) (delta : ℚ) :
    HandsOn st (skipCrossed st oid delta).2 := by
  unfold skipCrossed
  split
  · exact HandsOn.refl st
  · split_ifs
    · exact ⟨rfl, rfl, rfl, rfl⟩
    · exact HandsOn.refl st

/-- A fill of a rung is booked before the wings are served. -/
theorem WingPhase.applyRungFill (htriggers : st.printThroughTriggers = []) (order : RestOrder)
    (ev : Fill) : WingPhase p now st (applyRungFill p st order ev now) := by
  have hskipped (s : V33State) (h : HandsOn st s) (r : FillReport) :
      WingPhase p now st (V33.bookRungFill p
        (skipCrossed s (order.orderId.or ev.orderId) (qCount ev.count)).2 r now) := by
    have hon := h.trans (handsOn_skipCrossed s (order.orderId.or ev.orderId) (qCount ev.count))
    exact hon.phase (WingPhase.bookRungFill (hon.grown.triggers.trans htriggers) r)
  have hquiet (s : V33State) (h : HandsOn st s) : WingPhase p now st
      (skipCrossed s (order.orderId.or ev.orderId) (qCount ev.count)).2.quiet :=
    .still ⟨SameWings.ofWings (h.trans (handsOn_skipCrossed _ _ _)).wings, rfl⟩
  unfold V33.applyRungFill
  dsimp only
  split_ifs
  · exact hskipped _ (handsOn_noteSeen st _ _) _
  · exact hquiet _ (handsOn_noteSeen st _ _)
  · exact hskipped _ (HandsOn.refl st) _
  · exact hquiet _ (HandsOn.refl st)

/-- So is a fill of an order that has left. -/
theorem WingPhase.applyOrphanFill (htriggers : st.printThroughTriggers = []) (ev : Fill) :
    WingPhase p now st (applyOrphanFill p st ev now) := by
  have hbooked (s : V33State) (h : HandsOn st s) (coid : String) (oid : Option String)
      (price delta : ℚ) (ticker : Option String) (sd : Option ℤ) :
      WingPhase p now st (bookOrphanFill p s coid oid price delta ticker now sd) :=
    have halarm : serviceActs
        [alarmAction .orphanRungFillHedged (some coid) oid ticker delta (some price)] = [] :=
      serviceActs_reports (by simp [alarmAction, ActionKind.isReport])
    h.phase ((WingPhase.bookRungFill (h.grown.triggers.trans htriggers) _).behind halarm)
  have halarm (a : V33Action) (ha : a.kind.isReport = true) : WingPhase p now st ⟨st, [a]⟩ :=
    .still ⟨SameWings.refl st, serviceActs_reports (by simp [ha])⟩
  unfold V33.applyOrphanFill
  cases ev.price with
  | none =>
    dsimp only
    split_ifs
    · exact .still (Silent.quiet st)
    · exact halarm _ rfl
  | some price =>
    dsimp only
    split_ifs
    · exact .still (Silent.quiet st)
    · exact halarm _ rfl
    · exact hbooked _ (HandsOn.refl st) _ _ _ _ _ _
    · exact .still ⟨⟨rfl, rfl, rfl⟩, rfl⟩
    · exact hbooked _ (handsOn_noteSeen st _ _) _ _ _ _ _ _

/-- The leg a fill event answers. -/
def answeredBy (st : V33State) (ev : Event) : Option WingLeg :=
  match ev with
  | .fill e => legOf (clearCancelPending st e.orderId) e.clientOrderId
  | _ => none

/-- A fill that is of no wing leg is booked before the wings are served. -/
theorem WingPhase.applyFill (htriggers : st.printThroughTriggers = []) {ev : Fill}
    (hleg : legOf (clearCancelPending st ev.orderId) ev.clientOrderId = none) :
    WingPhase p now st (applyFill p st ev now) := by
  have hclear : HandsOn st (clearCancelPending st ev.orderId) :=
    (clearCancelPending_tidy st ev.orderId).handsOn
  have hnone : (clearCancelPending st ev.orderId).printThroughTriggers = [] :=
    hclear.grown.triggers.trans htriggers
  have hcompletes : ptApplyCompleteFill p (clearCancelPending st ev.orderId) ev now = none := by
    unfold ptApplyCompleteFill
    rw [hnone]
    rfl
  unfold V33.applyFill
  simp only [hcompletes, hleg]
  split
  · exact hclear.phase (WingPhase.applyRungFill hnone _ ev)
  · exact hclear.phase (WingPhase.applyOrphanFill hnone ev)

/-- Up to its convergence an event is a phase from the state with its book. -/
theorem WingPhase.beforeConverge (htriggers : st.printThroughTriggers = []) {ev : Event}
    (hr : beforeConverge p st ev = some r) : WingPhase p ev.serverTs (withBook st ev) r := by
  cases ev with
  | bookUpdate e =>
    obtain rfl := Option.some.inj hr
    obtain ⟨b, hb⟩ := foldBook_eq st e
    refine @WingPhase.serveWings p e.serverTs (stampStrikeFeed (foldBook st e) e) ?_
    rw [hb]
    exact htriggers
  | clockTick now =>
    obtain rfl := Option.some.inj hr
    exact WingPhase.serveWings htriggers
  | orderAmended e =>
    simp only [V33.beforeConverge, Option.map_eq_some_iff] at hr
    obtain ⟨rp, -, rfl⟩ := hr
    exact WingPhase.confirmAmend htriggers rp e
  | orderCancelled e =>
    obtain rfl := Option.some.inj hr
    have hreport := @WingPhase.reportCancel p e.serverTs st htriggers e
    exact hreport.andThen _ (silent_finishCancel (hreport.triggers htriggers) _ e)
  | _ => simp [V33.beforeConverge] at hr

/-- The convergence leaves the wings alone. -/
theorem silent_converge (hcoids : CoidsOk st) {ev : Event}
    (hr : V33.beforeConverge p st ev = some r) : Silent r.st (converge p r.st ev.serverTs) := by
  have hvia := hcoids.via_converge hr
  refine ⟨SameWings.ofWings ?_, serviceActs_of_wingActs ?_⟩
  · exact Run.preserves (I := fun s => s.toWings = r.st.toWings)
      (fun _ _ _ hop hs => hop.frame.wings.trans hs) hvia rfl
  · refine List.filter_eq_nil_iff.mpr fun a ha => ?_
    obtain ⟨_, _, b, _, _, _, hop, _, hab, -⟩ := hvia.exists_step ha
    exact List.filter_eq_nil_iff.mp hop.wingActs a hab

/-- Without early takes an event that answers no leg does nothing to the wings, or runs one wing
step at its time and on its books. -/
theorem wingPhase_decide (hcoids : CoidsOk st) (htriggers : st.printThroughTriggers = [])
    (hpt : p.printThrough = false) {ev : Event} (hleg : answeredBy st ev = none) :
    WingPhase p ev.serverTs (withBook st ev) (decideV33 p st ev) := by
  cases hr : V33.beforeConverge p st ev with
  | some r =>
    rw [decideV33_of_beforeConverge hr]
    exact (WingPhase.beforeConverge htriggers hr).andThen _ (silent_converge hcoids hr)
  | none =>
    rw [decideV33_of_not_beforeConverge hr]
    cases ev with
    | trade e => exact WingPhase.applyTrade htriggers hpt e
    | orderAck e =>
      refine .still ⟨?_, rfl⟩
      show SameWings st (applyAck st e)
      unfold applyAck
      split_ifs
      · exact ⟨rfl, rfl, rfl⟩
      · exact SameWings.refl st
    | fill e => exact WingPhase.applyFill htriggers hleg
    | orderAmended => exact .still (Silent.quiet _)
    | bookUpdate | orderCancelled | clockTick => simp [V33.beforeConverge] at hr

end Phase

end Pilot.V33
