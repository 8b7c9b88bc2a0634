import Pilot.V33.Batches
import Pilot.V33.DecisionContext

/-!
# Decisions in small steps

Up to its convergence a decision is a run of small steps from its context: ladder operations
that place nothing, wing operations, bookings and answered legs. The convergence leaves the
wings alone, so the wing actions of a decision are those of its run.
-/

namespace Pilot.V33

/-- The wing actions of a list. -/
def wingActs (acts : List V33Action) : List V33Action := acts.filter fun a => a.kind.isWing

/-- What every step leaves alone: the window, the books, the quote and the ladder's bucket. -/
structure InContext (st st' : V33State) : Prop where
  window : st'.toWindow = st.toWindow
  books : st'.toBooks = st.toBooks
  quote : st'.toQuote = st.toQuote
  rest : st'.restBucketSd = st.restBucketSd

/-- What the inputs of an event and the fallback of a failed amend leave alone. -/
structure TidyFrame (st st' : V33State) : Prop where
  context : InContext st st'
  wings : st'.toWings = st.toWings
  fills : st'.restFills = st.restFills

/-- The small steps of a decision up to its convergence. -/
inductive Step (p : V33Params) : V33State → List V33Action → V33State → Prop
  | ladder {now : ℚ} {st st' : V33State} {acts : List V33Action}
      (h : LadderOp p now Permit.leave st acts st') : Step p st acts st'
  | wing {now : ℚ} {st st' : V33State} {acts : List V33Action} (h : WingOp p now st acts st') :
      Step p st acts st'
  | book {now : ℚ} (st : V33State) (r : FillReport) (pos : 0 < r.delta) :
      Step p st [] (bookedState p st r now)
  | answer (st : V33State) (coid : String) (f : WingLeg → WingLeg) (answers : AnswersLeg f) :
      Step p st []
        { st with wingLegs := replaceFirst (fun l => l.clientOrderId == coid) f st.wingLegs }
  | tidy {st st' : V33State} {acts : List V33Action} (frame : TidyFrame st st')
      (still : wingActs acts = []) : Step p st acts st'

/-- The wing actions seen so far are those of a run of small steps from `s`. -/
def SteppedTo (p : V33Params) (s t : V33State) (seen : List V33Action) : Prop :=
  ∃ acts, Run (Step p) s acts t ∧ seen = wingActs acts

/-- An observer that notes the wing actions. -/
def noteWing (seen : List V33Action) (a : V33Action) : List V33Action :=
  if a.kind.isWing then seen ++ [a] else seen

section Runs

variable {p : V33Params} {now : ℚ} {P : Permit} {s t u st st' : V33State}
  {acts seen : List V33Action} {ev : Event} {r : Outcome}

/-- Noting actions one by one appends those on the wings. -/
theorem foldl_noteWing (seen acts : List V33Action) :
    acts.foldl noteWing seen = seen ++ wingActs acts := by
  induction acts generalizing seen with
  | nil => simp [wingActs]
  | cons a acts ih =>
    rw [List.foldl_cons, ih]
    unfold noteWing wingActs
    by_cases h : a.kind.isWing <;> simp [h]

/-- The actions on the wings of two parts are those of each. -/
theorem wingActs_append (a b : List V33Action) : wingActs (a ++ b) = wingActs a ++ wingActs b :=
  List.filter_append ..

/-- Reports, cancels, places and amends are not actions on the wings. -/
theorem isWing_eq_false {k : ActionKind}
    (h : k.isReport = true ∨ k.isCancel = true ∨ k.isPlace = true ∨ k.isAmend = true) :
    k.isWing = false := by
  cases k <;> simp_all [ActionKind.isReport, ActionKind.isWing, ActionKind.isCancel,
    ActionKind.isPlace, ActionKind.isAmend]

/-- The ladder operations emit no wing action. -/
theorem LadderOp.wingActs (h : LadderOp p now P st acts st') : wingActs acts = [] := by
  refine List.filter_eq_nil_iff.mpr fun a ha => ?_
  rw [Bool.not_eq_true]
  apply isWing_eq_false
  cases h.emits a ha with
  | report hkind => exact Or.inl hkind
  | cancel o _ heq =>
    rw [heq]
    exact Or.inr (Or.inl (isCancel_cancelAction st o))
  | create nTop m price guard hmem =>
    rw [List.mem_singleton.mp hmem]
    refine Or.inr (Or.inr (Or.inl ?_))
    simp only [placeAction, mk, twinKind]
    split <;> rfl
  | amend o nTop m price guard movable hmem =>
    rw [List.mem_singleton.mp hmem]
    refine Or.inr (Or.inr (Or.inr ?_))
    simp only [mk, twinKind]
    split <;> rfl

/-- No step leaves the state and has seen nothing. -/
theorem SteppedTo.refl (s : V33State) : SteppedTo p s s [] := ⟨[], Run.refl _, rfl⟩

/-- One more step. -/
theorem SteppedTo.step (h : SteppedTo p s t seen) (hstep : Step p t acts u) :
    SteppedTo p s u (acts.foldl noteWing seen) := by
  obtain ⟨acts', hrun, rfl⟩ := h
  refine ⟨acts' ++ acts, Run.trans hrun (Run.single hstep), ?_⟩
  rw [foldl_noteWing, wingActs_append]

/-- A tidying step may follow. -/
theorem SteppedTo.tidy (h : SteppedTo p s t seen) (hframe : TidyFrame t u) :
    SteppedTo p s u seen := by
  have hstep : Step p t [] u := Step.tidy hframe rfl
  exact h.step hstep

/-- A state is in its own context. -/
theorem InContext.refl (s : V33State) : InContext s s := ⟨rfl, rfl, rfl, rfl⟩

/-- Being in a context is transitive. -/
theorem InContext.trans (h : InContext s t) (k : InContext t u) : InContext s u :=
  ⟨k.window.trans h.window, k.books.trans h.books, k.quote.trans h.quote, k.rest.trans h.rest⟩

/-- A step stays in its context. -/
theorem Step.inContext (h : Step p s acts t) : InContext s t := by
  cases h with
  | ladder hop =>
    refine ⟨hop.frame.window, hop.frame.books, hop.frame.quote, ?_⟩
    cases hop with
    | drop => rw [cancelAll_st]
    | stallCancel coid =>
      unfold ptCancelRung
      split
      · rfl
      · dsimp only
        rw [retainCancelled_eq]
    | clear permitted => exact absurd permitted id
    | leaveBucket empty still permitted => exact absurd permitted id
    | enterBucket empty still settled spot permitted => exact absurd permitted id
    | shrink o movable permitted => exact absurd permitted id
    | create | roll | resume | report | latch => rfl
  | wing hop =>
    exact ⟨hop.frame.window, hop.frame.books, hop.frame.quote,
      congrArg Ladder.restBucketSd hop.frame.ladder⟩
  | @book now st r pos =>
    have hframe := @bookedState_frame p now s r
    have hrest : (bookedState p s r now).restBucketSd = (recordFill p s r now).restBucketSd :=
      congrArg Ladder.restBucketSd hframe.ladder
    exact ⟨hframe.window, hframe.books, hframe.quote, hrest⟩
  | answer => exact ⟨rfl, rfl, rfl, rfl⟩
  | tidy frame _ => exact frame.context

/-- A run of steps stays in its context. -/
theorem Run.inContext (h : Run (Step p) s acts t) : InContext s t :=
  Run.preserves (I := InContext s) (fun _ _ _ hstep hs => hs.trans hstep.inContext) h
    (InContext.refl s)

/-- Every step keeps an invariant of the wings. -/
theorem WingInvariant.step {I : V33State → Prop} (h : WingInvariant p I) (hstep : Step p s acts t)
    (hI : I s) : I t := by
  cases hstep with
  | ladder hop => exact h.ladder hop hI
  | wing hop => exact h.wing hop hI
  | book st r pos => exact h.book r pos hI
  | answer st coid f answers => exact h.legs coid f answers hI
  | tidy frame _ => exact h.frame hI frame.wings frame.fills

/-- The context of an event has the wings of its state. -/
theorem WingInvariant.context {I : V33State → Prop} (h : WingInvariant p I) (hI : I st)
    (ev : Event) : I (contextAt p st ev) := by
  cases ev with
  | bookUpdate e =>
    obtain ⟨b, hb⟩ := foldBook_eq st e
    obtain ⟨q, x, heq, -⟩ := recomputeContext_eq p (withBook st (.bookUpdate e)) e.serverTs
    rw [contextAt, heq]
    refine h.frame hI ?_ ?_
    · show (stampStrikeFeed (foldBook st e) e).toWings = st.toWings
      rw [hb]
    · show (stampStrikeFeed (foldBook st e) e).restFills = st.restFills
      rw [hb]
  | clockTick now =>
    obtain ⟨q, x, heq, -⟩ := recomputeContext_eq p st now
    rw [contextAt, heq]
    exact h.frame hI rfl rfl
  | _ => exact hI

/-- Every law of runs holds of the steps. -/
theorem steppedLaw (p : V33Params) (s : V33State) :
    Law p (fun _ => True) noteWing (fun _ _ => True) (SteppedTo p s) where
  report g a ha := ⟨trivial, by rw [noteWing, isWing_eq_false (Or.inl ha)]; rfl⟩
  op hop h := ⟨allAlong_of_forall fun _ _ _ => trivial, h.step (Step.ladder hop)⟩
  wing hop h := ⟨allAlong_of_forall fun _ _ _ => trivial, h.step (Step.wing hop)⟩
  book r _ hd h := h.step (Step.book _ r hd)
  seen _ _ h := h.tidy ⟨⟨rfl, rfl, rfl, rfl⟩, rfl, rfl⟩
  legs coid f hf h := h.step (Step.answer _ coid f hf)

/-- The fallback of a roll only tidies, with no action on the wings. -/
theorem rollFallback_tidy (st : V33State) (rp : RollPending) :
    TidyFrame st (rollFallback p st rp now).st ∧ wingActs (rollFallback p st rp now).acts = [] := by
  have hplace : ∀ (s : V33State) coid n count,
      (placeAction p s coid n count).kind.isWing = false := by
    intro s coid n count
    simp only [placeAction, mk, twinKind]
    split <;> rfl
  unfold rollFallback
  dsimp only
  split
  · exact ⟨⟨⟨rfl, rfl, rfl, rfl⟩, rfl, rfl⟩, rfl⟩
  · split_ifs
    · refine ⟨⟨⟨rfl, rfl, rfl, rfl⟩, rfl, rfl⟩, ?_⟩
      simp only [placeOne, wingActs, List.filter_cons, hplace]
      rfl
    · exact ⟨⟨⟨rfl, rfl, rfl, rfl⟩, rfl, rfl⟩, rfl⟩

/-- A cleared cancel only tidies. -/
theorem clearCancelPending_tidy (st : V33State) (oid : Option String) :
    TidyFrame st (clearCancelPending st oid) := by
  obtain ⟨d, hd⟩ := clearCancelPending_eq st oid
  rw [hd]
  exact ⟨⟨rfl, rfl, rfl, rfl⟩, rfl, rfl⟩

/-- The inputs of an event are a step from its context. -/
theorem stepped_event (p : V33Params) (st : V33State) (ev : Event) :
    EventLaw p (fun _ => True) noteWing (fun _ _ => True) (SteppedTo p (contextAt p st ev)) st ev
      [] where
  booked _ _ := trivial
  stay hnone := by
    cases ev with
    | bookUpdate => simp [beforeConverge] at hnone
    | clockTick => simp [beforeConverge] at hnone
    | _ => exact SteppedTo.refl st
  book e he := by
    subst he
    exact SteppedTo.refl _
  tick now he := by
    subst he
    exact SteppedTo.refl _
  ack e he := by
    subst he
    refine (SteppedTo.refl st).tidy ?_
    unfold applyAck
    split_ifs
    · exact ⟨⟨rfl, rfl, rfl, rfl⟩, rfl, rfl⟩
    · exact ⟨⟨rfl, rfl, rfl, rfl⟩, rfl, rfl⟩
  filled e he := by
    subst he
    exact (SteppedTo.refl st).tidy (clearCancelPending_tidy st _)
  amended e rp he _ := by
    subst he
    exact ⟨(SteppedTo.refl st).tidy ⟨⟨rfl, rfl, rfl, rfl⟩, rfl, rfl⟩,
      fun _ _ => (SteppedTo.refl st).tidy ⟨⟨rfl, rfl, rfl, rfl⟩, rfl, rfl⟩⟩
  cancelled e he := by
    subst he
    refine (steppedLaw p _).cancelPart e (fun _ _ => trivial)
      ((SteppedTo.refl st).tidy (clearCancelPending_tidy st _)) fun _ hs => ?_
    unfold finishCancel
    split
    · next rp _ =>
      obtain ⟨hframe, hacts⟩ := @rollFallback_tidy p e.serverTs
          (reportCancel p st e e.serverTs).st rp
      exact ⟨allAlong_of_forall fun _ _ _ => trivial, hs.step (Step.tidy hframe hacts)⟩
    · obtain ⟨l, n, heq, -⟩ := dropCancelled_eq (reportCancel p st e e.serverTs).st e
        (cancelledOrder (clearCancelPending st e.orderId) e)
      refine (steppedLaw p _).keeps_op (via_ptOnCancelConfirmed _) (hs.tidy ?_)
      rw [heq]
      exact ⟨⟨rfl, rfl, rfl, rfl⟩, rfl, rfl⟩

/-- Up to its convergence a decision is a run of small steps from its context that ends with
the wings and has emitted the wing actions of the decision. -/
theorem CoidsOk.steps (h : CoidsOk st) (ev : Event) :
    ∃ acts t, Run (Step p) (contextAt p st ev) acts t ∧
      (decideV33 p st ev).st.toWings = t.toWings ∧
        wingActs (decideV33 p st ev).acts = wingActs acts := by
  obtain ⟨-, t, hwings, acts, hrun, hacts⟩ := (steppedLaw p (contextAt p st ev)).decide (g := [])
    (J := fun s seen => ∃ t, s.toWings = t.toWings ∧ SteppedTo p (contextAt p st ev) t seen)
    (stepped_event p st ev) (fun s _ hs => ⟨s, rfl, hs⟩) fun r hr seen hs => by
      refine ⟨allAlong_of_forall fun _ _ _ => trivial, r.st, ?_, ?_⟩
      · exact Run.preserves (I := fun s => s.toWings = r.st.toWings)
          (fun _ _ _ hop hs => hop.frame.wings.trans hs) (h.via_converge hr) rfl
      · have hstill : wingActs (converge p r.st ev.serverTs).acts = [] := by
          refine List.filter_eq_nil_iff.mpr fun a ha => ?_
          obtain ⟨_, _, b, _, _, _, hop, _, hab, -⟩ := (h.via_converge hr).exists_step ha
          exact List.filter_eq_nil_iff.mp hop.wingActs a hab
        rw [foldl_noteWing, hstill, List.append_nil]
        exact hs
  refine ⟨acts, t, hrun, hwings, ?_⟩
  rw [← hacts, foldl_noteWing, List.nil_append]

end Runs

end Pilot.V33
