import Pilot.V33.BucketLaw

/-!
# The context of a decision

A decision re-derives its quote from the books before its first action, or keeps the last
one, and nothing after that changes the books or the quote. Every create of its convergence
names the spot bucket of that context.
-/

namespace Pilot.V33

/-- The slots that are filled stay filled. -/
def KeepsFilled (slots slots' : List MarginSlot) : Prop :=
  ∀ m : ℕ, slots[m]? = some .filled → slots'[m]? = some .filled

/-- The window, the books and the quote of `s`; the ladder stays on its bucket, leaves it or
goes to the spot, and no filled slot opens again. -/
structure SameContext (s t : V33State) : Prop where
  window : t.toWindow = s.toWindow
  books : t.toBooks = s.toBooks
  quote : t.toQuote = s.toQuote
  rest : t.restBucketSd = s.restBucketSd ∨ t.restBucketSd = none ∨ t.restBucketSd = s.spotSd
  slots : KeepsFilled s.marginState t.marginState

/-- The context an event is decided in: books and ticks re-derive it. -/
def contextAt (p : V33Params) (st : V33State) (ev : Event) : V33State :=
  match ev with
  | .bookUpdate e => recomputeContext p (withBook st ev) e.serverTs
  | .clockTick now => recomputeContext p st now
  | _ => st

section Context

variable {p : V33Params} {now : ℚ} {P : Permit} {s t u st st' : V33State} {acts : List V33Action}
  {ev : Event} {r : Outcome}

theorem SameContext.refl (s : V33State) : SameContext s s :=
    ⟨rfl, rfl, rfl, Or.inl rfl, fun _ h => h⟩

theorem SameContext.trans (h : SameContext s t) (k : SameContext t u) : SameContext s u := by
  refine ⟨k.window.trans h.window, k.books.trans h.books, k.quote.trans h.quote, ?_,
    fun m hm => k.slots m (h.slots m hm)⟩
  have hspot : t.spotSd = s.spotSd := congrArg Quote.spotSd h.quote
  rcases k.rest with hk | hk | hk
  · rw [hk]
    exact h.rest
  · exact Or.inr (Or.inl hk)
  · exact Or.inr (Or.inr (hk.trans hspot))

/-- Consuming a slot keeps the filled slots. -/
theorem keepsFilled_consumeSlot (slots : List MarginSlot) (m : ℤ) :
    KeepsFilled slots (consumeSlot slots m) := by
  intro k hk
  unfold consumeSlot
  split_ifs
  · rw [List.getElem?_set]
    split_ifs with heq hlt
    · rfl
    · rw [heq, List.getElem?_eq_none (not_lt.mp hlt)] at *
      simp at hk
    · exact hk
  · exact hk

/-- A small operation on the ladder keeps the context. -/
theorem LadderOp.sameContext (h : LadderOp p now P st acts st') : SameContext st st' := by
  refine ⟨h.frame.window, h.frame.books, h.frame.quote, ?_, ?_⟩
  · cases h with
    | drop =>
      rw [cancelAll_st]
      exact Or.inl rfl
    | clear =>
      rw [cancelAllThenReplace_st, cancelAll_st]
      exact Or.inl rfl
    | leaveBucket => exact Or.inr (Or.inl rfl)
    | enterBucket => exact Or.inr (Or.inr rfl)
    | shrink o =>
      unfold shrinkOne
      dsimp only
      rw [retainCancelled_eq]
      exact Or.inl rfl
    | stallCancel coid =>
      unfold ptCancelRung
      split
      · exact Or.inl rfl
      · dsimp only
        rw [retainCancelled_eq]
        exact Or.inl rfl
    | _ => exact Or.inl rfl
  · cases h with
    | drop =>
      rw [cancelAll_st]
      exact fun _ hm => hm
    | clear =>
      rw [cancelAllThenReplace_st, cancelAll_st]
      exact fun _ hm => hm
    | shrink o =>
      unfold shrinkOne
      dsimp only
      rw [retainCancelled_eq]
      exact fun _ hm => hm
    | stallCancel coid =>
      unfold ptCancelRung
      split
      · exact fun _ hm => hm
      · dsimp only
        rw [retainCancelled_eq]
        split
        · exact keepsFilled_consumeSlot _ _
        · exact fun _ hm => hm
    | _ => exact fun _ hm => hm

theorem WingFrame.sameContext (h : WingFrame st st') : SameContext st st' :=
  ⟨h.window, h.books, h.quote, Or.inl (congrArg Ladder.restBucketSd h.ladder), by
    rw [congrArg Ladder.marginState h.ladder]
    exact fun _ hm => hm⟩

/-- A recorded fill consumes at most its slot. -/
theorem recordFill_sameContext (st : V33State) (r : FillReport) :
    SameContext st (recordFill p st r now) := by
  refine ⟨rfl, rfl, rfl, Or.inl rfl, ?_⟩
  unfold recordFill
  dsimp only
  split
  · exact keepsFilled_consumeSlot _ _
  · exact fun _ hm => hm

/-- No small operation, no booking and no answered leg changes the context. -/
theorem contextLaw (p : V33Params) (s : V33State) :
    LadderLaw p (fun (_ : Unit) _ => ()) (fun _ _ => True) (fun t _ => SameContext s t) :=
  LadderLaw.ofState
    (fun hframe h => h.trans hframe.sameContext)
    (fun hop h => h.trans hop.sameContext)
    (fun r _ h => h.trans (recordFill_sameContext _ r))
    (fun _ _ h => h.trans ⟨rfl, rfl, rfl, Or.inl rfl, fun _ h => h⟩)

theorem clearCancelPending_sameContext (st : V33State) (oid : Option String) :
    SameContext st (clearCancelPending st oid) := by
  obtain ⟨d, hd⟩ := clearCancelPending_eq st oid
  rw [hd]
  exact ⟨rfl, rfl, rfl, Or.inl rfl, fun _ h => h⟩

theorem rollFallback_sameContext (st : V33State) (rp : RollPending) :
    SameContext st (rollFallback p st rp now).st := by
  unfold rollFallback
  dsimp only
  split
  · exact ⟨rfl, rfl, rfl, Or.inl rfl, fun _ h => h⟩
  · split_ifs <;> exact ⟨rfl, rfl, rfl, Or.inl rfl, fun _ h => h⟩

/-- The inputs of an event are in its context. -/
theorem context_event (p : V33Params) (st : V33State) (ev : Event) :
    EventLaw p (fun _ => True) (fun (_ : Unit) _ => ()) (fun _ _ => True)
      (fun t _ => SameContext (contextAt p st ev) t) st ev () where
  booked _ _ := trivial
  stay hnone := by
    cases ev with
    | bookUpdate => simp [beforeConverge] at hnone
    | clockTick => simp [beforeConverge] at hnone
    | _ => exact SameContext.refl st
  book e he := by
    subst he
    exact SameContext.refl _
  tick now he := by
    subst he
    exact SameContext.refl _
  ack e he := by
    subst he
    show SameContext st (applyAck st e)
    unfold applyAck
    split_ifs
    · exact ⟨rfl, rfl, rfl, Or.inl rfl, fun _ h => h⟩
    · exact SameContext.refl st
  filled e he := by
    subst he
    exact clearCancelPending_sameContext st _
  amended e rp he _ := by
    subst he
    exact ⟨⟨rfl, rfl, rfl, Or.inl rfl, fun _ h => h⟩, fun _ _ =>
      ⟨rfl, rfl, rfl, Or.inl rfl, fun _ h => h⟩⟩
  cancelled e he := by
    subst he
    refine (contextLaw p _).law.cancelPart e (fun _ _ => trivial)
      (clearCancelPending_sameContext st _) fun _ hs => ?_
    unfold finishCancel
    split
    · refine ⟨allAlong_of_forall fun _ _ _ => trivial, hs.trans (rollFallback_sameContext _ _)⟩
    · obtain ⟨l, n, heq, -⟩ := dropCancelled_eq (reportCancel p st e e.serverTs).st e
        (cancelledOrder (clearCancelPending st e.orderId) e)
      refine (contextLaw p _).law.keeps_op (via_ptOnCancelConfirmed _) (hs.trans ?_)
      rw [heq]
      exact ⟨rfl, rfl, rfl, Or.inl rfl, fun _ h => h⟩

/-- The convergence starts in the context of its event. -/
theorem sameContext_beforeConverge (hr : beforeConverge p st ev = some r) :
    SameContext (contextAt p st ev) r.st :=
  ((contextLaw p _).law.beforeConverge (context_event p st ev) hr).2

/-- A decision ends in the context of its event. -/
theorem CoidsOk.sameContext (h : CoidsOk st) (ev : Event) :
    SameContext (contextAt p st ev) (decideV33 p st ev).st :=
  ((contextLaw p _).law.decide (J := fun t _ => SameContext (contextAt p st ev) t)
    (context_event p st ev) (fun _ _ hs => hs) fun _ hr _ hs =>
      ⟨allAlong_of_forall fun _ _ _ => trivial,
        Run.preserves (fun _ _ _ hop h => SameContext.trans h hop.sameContext)
          (h.via_converge hr) hs⟩).2

/-! ### What a create names -/

/-- A create names the ticker of the spot bucket, which is known. -/
theorem LadderOp.place_ticker (h : LadderOp p now P st acts st') :
    ∀ a ∈ acts, a.kind.isPlace = true → a.ticker = some (spotTicker st) ∧ st.spotSd.isSome := by
  intro a ha hplace
  cases h.emits a ha with
  | report hkind =>
    cases hk : a.kind <;> simp [hk, ActionKind.isPlace, ActionKind.isReport] at hplace hkind
  | cancel o _ heq =>
    have hcancel := isCancel_cancelAction st o
    rw [← heq] at hcancel
    cases hk : a.kind <;> simp [hk, ActionKind.isPlace, ActionKind.isCancel] at hplace hcancel
  | create nTop m price guard hmem =>
    rw [placeSlot, placeOne, List.mem_singleton] at hmem
    subst hmem
    exact ⟨rfl, (quoting_of_gate guard.gate).spot⟩
  | amend o nTop m price guard movable hmem =>
    rw [emitRoll, List.mem_singleton] at hmem
    subst hmem
    simp only [mk, twinKind] at hplace
    split at hplace <;> simp [ActionKind.isPlace] at hplace

/-- Every create of a convergence names the spot bucket of its event's context. -/
theorem CoidsOk.place_ticker (h : CoidsOk st) (hr : V33.beforeConverge p st ev = some r) :
    ∀ a ∈ (converge p r.st ev.serverTs).acts, a.kind.isPlace = true →
      a.ticker = some (spotTicker (contextAt p st ev)) ∧ (contextAt p st ev).spotSd.isSome := by
  have hstart := sameContext_beforeConverge hr
  refine (Run.outputs (I := SameContext (contextAt p st ev)) (fun s acts t hop hs => ?_)
    (h.via_converge hr) hstart).2
  refine ⟨hs.trans hop.sameContext, fun a ha hplace => ?_⟩
  have hspot : s.spotSd = (contextAt p st ev).spotSd := congrArg Quote.spotSd hs.quote
  have htickers : s.bucketTickers = (contextAt p st ev).bucketTickers :=
    congrArg Books.bucketTickers hs.books
  obtain ⟨hticker, hsome⟩ := hop.place_ticker a ha hplace
  rw [spotTicker, hspot, htickers] at hticker
  rw [hspot] at hsome
  exact ⟨hticker, hsome⟩

end Context

end Pilot.V33
