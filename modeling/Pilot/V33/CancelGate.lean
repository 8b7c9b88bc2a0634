import Pilot.V33.Runs

/-!
# The gate of the re-place

After a tracked cancel-all the core waits until its count of outstanding cancels is down
to zero, and places again. The count is a single number: every confirm that names a
remembered order takes one off, whether or not that order was counted or has been confirmed
before. As long as each confirm that counts down names an order not yet reported, the
count bounds the unreported cancels and the re-place waits for all of them.
-/

namespace Pilot.V33

/-! ### The cancels not reported yet -/

/-- The venue id a cancel names. -/
def cancelledId (a : V33Action) : Option String := if a.kind.isCancel then a.orderId else none

/-- The ids of the cancels emitted and not reported yet, after one more action. -/
def noteCancel (u : List String) (a : V33Action) : List String := u ++ (cancelledId a).toList

/-- The ids still not reported once an event has been read. -/
def reported (u : List String) (ev : Event) : List String :=
  match ev with
  | .orderCancelled e => u.filter fun oid => e.orderId ≠ some oid
  | _ => u

/-- A cancel confirm takes one off the outstanding cancels. -/
def countsDown (st : V33State) (e : OrderCancelled) : Bool :=
  match e.orderId with
  | none => false
  | some oid =>
    ((cancelledOrder st e).isSome || st.cancelCtx.contains oid) &&
      decide (0 < st.outstandingCancels) && (rollOfCancel st e).isNone && !latched st

/-- A cancel confirm that counts down names an order whose cancel is not reported yet. -/
def CountsOnce (w : V33State × List String) (ev : Event) : Prop :=
  match ev with
  | .orderCancelled e => countsDown w.1 e = true → ∀ oid ∈ e.orderId, oid ∈ w.2
  | _ => True

instance (w : V33State × List String) : ∀ ev, Decidable (CountsOnce w ev)
  | .orderCancelled e =>
    inferInstanceAs (Decidable (countsDown w.1 e = true → ∀ oid ∈ e.orderId, oid ∈ w.2))
  | .bookUpdate _ | .trade _ | .orderAck _ | .orderAmended _ | .fill _ | .clockTick _ =>
    .isTrue trivial

/-- A place after a re-place was armed finds every cancel reported. -/
def PlacesSettled (armed : Bool) (u : List String) (a : V33Action) : Prop :=
  armed = true → a.kind.isPlace = true → u = []

/-- The core has latched, or awaiting it has nothing on the ladder, and the unreported cancels,
with `slack` more, are outstanding. -/
structure GateOk (armed : Bool) (slack : ℕ) (st : V33State) (u : List String) : Prop where
  awaiting : st.awaitingReplace = armed
  counted : latched st = true ∨
    ((armed = true → st.ladder = [] ∧ st.rollsInFlight = []) ∧
      u.length + slack ≤ st.outstandingCancels)

section Gate

variable {p : V33Params} {now : ℚ} {P : Permit} {st st' : V33State} {acts : List V33Action}
  {armed : Bool} {slack : ℕ} {u : List String}

/-- A cancel names the order it is for. -/
@[simp] theorem cancelledId_cancelAction (st : V33State) (o : RestOrder) :
    cancelledId (cancelAction st o) = o.orderId := by
  rw [cancelledId, if_pos (isCancel_cancelAction st o)]
  rfl

/-- The cancels of a list of orders are noted with their ids. -/
theorem foldl_noteCancel (l : List RestOrder) (u : List String) :
    (l.map (cancelAction st)).foldl noteCancel u = u ++ l.filterMap RestOrder.orderId := by
  induction l generalizing u with
  | nil => simp
  | cons o l ih =>
    rw [List.map_cons, List.foldl_cons, ih, noteCancel, cancelledId_cancelAction]
    cases ho : o.orderId <;> simp [ho]

/-- The number of orders with a venue id. -/
theorem length_filterMap_orderId (l : List RestOrder) :
    (l.filterMap RestOrder.orderId).length = l.countP fun o => o.orderId.isSome := by
  induction l with
  | nil => rfl
  | cons o l ih => cases ho : o.orderId <;> simp [ho, ih]

/-- A cancel is no place. -/
theorem placesSettled_of_cancel {a : V33Action} (h : a.kind.isCancel = true) :
    PlacesSettled armed u a := by
  intro _ hplace
  cases hk : a.kind <;> simp [hk, ActionKind.isCancel, ActionKind.isPlace] at h hplace

/-- Reports and wing actions are neither places nor cancels. -/
theorem kind_ignored {k : ActionKind} (h : k.isReport = true ∨ k.isWing = true) :
    k.isPlace = false ∧ k.isCancel = false := by
  cases k <;> simp [ActionKind.isReport, ActionKind.isWing] at h <;> exact ⟨rfl, rfl⟩

/-- Reports and actions on the wings place nothing. -/
theorem placesSettled_ignored {a : V33Action}
    (h : a.kind.isReport = true ∨ a.kind.isWing = true) : PlacesSettled armed u a := by
  intro _ hplace
  rw [(kind_ignored h).1] at hplace
  exact absurd hplace (by simp)

/-- Reports and actions on the wings cancel nothing. -/
theorem noteCancel_ignored {a : V33Action} (h : a.kind.isReport = true ∨ a.kind.isWing = true) :
    noteCancel u a = u := by
  simp [noteCancel, cancelledId, (kind_ignored h).2]

/-- Reports leave the open cancels alone. -/
theorem foldl_reports (h : ∀ a ∈ acts, a.kind.isReport = true) (u : List String) :
    acts.foldl noteCancel u = u :=
  foldl_ignored fun a ha _ => noteCancel_ignored (Or.inl (h a ha))

/-- The cancels of a list of orders keep the promise of the places. -/
theorem allAlong_cancels (l : List RestOrder) (u : List String) :
    AllAlong noteCancel (PlacesSettled armed) u (l.map (cancelAction st)) := by
  refine allAlong_of_forall fun a ha u => ?_
  obtain ⟨o, -, rfl⟩ := List.mem_map.mp ha
  exact placesSettled_of_cancel (isCancel_cancelAction st o)

/-- What changes neither the latches nor the count, and no empty ladder, keeps the gate. -/
theorem GateOk.congr (h : GateOk armed slack st u) (hlatches : st.toLatches.le st'.toLatches)
    (hladder : st.ladder = [] → st'.ladder = [])
    (hrolls : st.rollsInFlight = [] → st'.rollsInFlight = [])
    (hawait : st'.awaitingReplace = st.awaitingReplace)
    (hcount : st'.outstandingCancels = st.outstandingCancels) : GateOk armed slack st' u := by
  refine ⟨hawait.trans h.awaiting, ?_⟩
  rcases h.counted with hl | ⟨hempty, hle⟩
  · exact Or.inl (latched_of_le hlatches hl)
  · refine Or.inr ⟨fun ha => ?_, hcount ▸ hle⟩
    exact ⟨hladder (hempty ha).1, hrolls (hempty ha).2⟩

/-- Cancelling one order whose cancel is counted keeps the gate. -/
theorem GateOk.cancelOne (h : GateOk armed slack st u) {o : RestOrder} (ho : o ∈ st.ladder)
    (hlatches : st'.toLatches = st.toLatches) (hawait : st'.awaitingReplace = st.awaitingReplace)
    (hcount : st'.outstandingCancels =
      st.outstandingCancels + if o.orderId.isSome then 1 else 0) :
    GateOk armed slack st' (noteCancel u (cancelAction st o)) := by
  refine ⟨hawait.trans h.awaiting, ?_⟩
  rcases h.counted with hl | ⟨hempty, hle⟩
  · exact Or.inl ((latched_congr hlatches).trans hl)
  · refine Or.inr ⟨fun ha => ?_, ?_⟩
    · simp [(hempty ha).1] at ho
    · rw [noteCancel, cancelledId_cancelAction, List.length_append, hcount]
      cases ho : o.orderId <;> simp <;> omega

/-- A latched cancel-all keeps the gate. -/
theorem GateOk.drop (h : GateOk armed slack st u) (done : latched st = true) :
    AllAlong noteCancel (PlacesSettled armed) u (cancelAll st false).acts ∧
      ∀ v, GateOk armed slack (cancelAll st false).st v := by
  refine ⟨allAlong_cancels _ _, fun v => ?_⟩
  rw [cancelAll_st]
  exact ⟨h.awaiting, Or.inl done⟩

/-- The law of the gate, up to the convergence. -/
theorem gateLaw (p : V33Params) (armed : Bool) (slack : ℕ) :
    LadderLaw p noteCancel (PlacesSettled armed) (GateOk armed slack) where
  frame hframe h := by
    refine h.congr (by rw [hframe.latches]; exact Latches.le_refl _) ?_ ?_
      (congrArg Ladder.awaitingReplace hframe.ladder)
      (congrArg Ladder.outstandingCancels hframe.ladder)
    · rw [congrArg Ladder.ladder hframe.ladder]; exact id
    · rw [congrArg Ladder.rollsInFlight hframe.ladder]; exact id
  ignored _ _ ha := ⟨placesSettled_ignored ha, noteCancel_ignored ha⟩
  op {_ st acts _ u} hop h := by
    cases hop with
    | report x acts reports =>
      refine ⟨allAlong_of_forall fun a ha _ => placesSettled_ignored (Or.inl (reports a ha)), ?_⟩
      rw [foldl_reports reports]
      exact h.congr (Latches.le_refl _) id id rfl rfl
    | latch x le => exact ⟨trivial, h.congr le id id rfl rfl⟩
    | drop done => exact ⟨(h.drop done).1, (h.drop done).2 _⟩
    | stallCancel coid =>
      unfold ptCancelRung
      split
      · exact ⟨trivial, h⟩
      · next o ho =>
        dsimp only
        rw [retainCancelled_eq]
        exact ⟨⟨placesSettled_of_cancel (isCancel_cancelAction st o), trivial⟩,
          h.cancelOne (find?_mem_and ho).1 rfl rfl rfl⟩
    | clear permitted => exact absurd permitted id
    | create nTop m price guard weight budget permitted => exact absurd permitted id
    | leaveBucket empty still permitted => exact absurd permitted id
    | resume empty still settled permitted => exact absurd permitted id
    | enterBucket empty still settled spot permitted => exact absurd permitted id
    | roll o nTop m price guard movable room permitted => exact absurd permitted id
    | shrink o movable permitted => exact absurd permitted id
  record r _ h := h.congr (Latches.le_refl _)
    (fun he => by simp [recordFill, reduceOrder, he]) id rfl rfl
  seen _ _ h := h.congr (Latches.le_refl _) id id rfl rfl

/-! ### The convergence -/

/-- A slot may be quoted only when nothing is awaited. -/
theorem GateOk.settled (h : GateOk st.awaitingReplace slack st u) {nTop price : ℚ} {m : ℕ}
    (hg : SlotGuard p now st nTop m price) :
    st.awaitingReplace = false ∧ u.length + slack ≤ st.outstandingCancels := by
  rcases h.counted with hl | ⟨hempty, hle⟩
  · rw [latched_of_slot hg] at hl
    exact absurd hl (by simp)
  · refine ⟨?_, hle⟩
    by_contra hawait
    have hawait' : st.awaitingReplace = true := by simpa using hawait
    obtain ⟨h1, h2⟩ := hempty hawait'
    exact (hg.awaits hawait').elim (fun hn => hn h1) fun hn => hn h2

/-- A place or a roll keeps the gate: nothing is awaited. -/
theorem GateOk.quote (h : GateOk st.awaitingReplace slack st u) {nTop price : ℚ} {m : ℕ}
    (hg : SlotGuard p now st nTop m price) (hawait : st'.awaitingReplace = st.awaitingReplace)
    (hcount : st'.outstandingCancels = st.outstandingCancels) :
    GateOk st'.awaitingReplace slack st' u := by
  obtain ⟨hfalse, hle⟩ := h.settled hg
  refine ⟨rfl, Or.inr ⟨fun ha => ?_, hcount ▸ hle⟩⟩
  rw [hawait, hfalse] at ha
  exact absurd ha (by simp)

/-- A place cancels nothing. -/
theorem noteCancel_of_isPlace {a : V33Action} (h : a.kind.isPlace = true) : noteCancel u a = u := by
  have hkind : a.kind.isCancel = false := by
    cases hk : a.kind <;> simp [hk, ActionKind.isPlace] at h <;> rfl
  simp [noteCancel, cancelledId, hkind]

/-- An amend cancels nothing. -/
theorem noteCancel_of_isAmend {a : V33Action} (h : a.kind.isAmend = true) : noteCancel u a = u := by
  have hkind : a.kind.isCancel = false := by
    cases hk : a.kind <;> simp [hk, ActionKind.isAmend] at h <;> rfl
  simp [noteCancel, cancelledId, hkind]

/-- The amend of a roll is an amend. -/
theorem isAmend_emitRoll (o : RestOrder) (price : ℚ) (m : ℤ) :
    ∀ a ∈ (emitRoll p st o price m now).acts, a.kind.isAmend = true := by
  intro a ha
  rw [emitRoll, List.mem_singleton] at ha
  subst ha
  simp only [mk, twinKind]
  split <;> rfl

/-- A tracked cancel-all counts what it cancels and leaves nothing on the ladder. -/
theorem GateOk.clear (h : GateOk st.awaitingReplace slack st u) :
    GateOk (cancelAllThenReplace st).st.awaitingReplace slack (cancelAllThenReplace st).st
      (u ++ st.ladder.filterMap RestOrder.orderId) := by
  rw [cancelAllThenReplace_st, cancelAll_st]
  refine ⟨rfl, ?_⟩
  rcases h.counted with hl | ⟨-, hle⟩
  · exact Or.inl hl
  · refine Or.inr ⟨fun _ => ⟨rfl, rfl⟩, ?_⟩
    rw [List.length_append, length_filterMap_orderId]
    simp only [if_true]
    omega

/-- Every operation of a convergence keeps the gate. -/
theorem GateOk.op (hop : LadderOp p now P st acts st') (hstall : ¬P.stall)
    (h : GateOk st.awaitingReplace slack st u) :
    GateOk st'.awaitingReplace slack st' (acts.foldl noteCancel u) := by
  cases hop with
  | report x acts reports =>
    rw [foldl_reports reports]
    exact h.congr (Latches.le_refl _) id id rfl rfl
  | latch x le => exact h.congr le id id rfl rfl
  | drop done =>
    have := (h.drop done).2 ((cancelAll st false).acts.foldl noteCancel u)
    exact ⟨rfl, this.counted.imp id fun hc =>
      ⟨fun _ => by rw [cancelAll_st]; exact ⟨rfl, rfl⟩, hc.2⟩⟩
  | clear =>
    rw [cancelAllThenReplace_acts, foldl_noteCancel]
    exact h.clear
  | leaveBucket => exact h.congr (Latches.le_refl _) id id rfl rfl
  | enterBucket => exact h.congr (Latches.le_refl _) id id rfl rfl
  | resume =>
    refine ⟨rfl, h.counted.imp id fun hc => ⟨fun ha => ?_, hc.2⟩⟩
    exact absurd ha (by simp)
  | create nTop m price guard =>
    have hacts : (placeSlot p st m price now).acts.foldl noteCancel u = u :=
      noteCancel_of_isPlace (isPlace_placeAction _ _ _)
    rw [hacts]
    exact h.quote guard rfl rfl
  | roll o nTop m price guard movable =>
    rw [foldl_ignored fun a ha u => noteCancel_of_isAmend (isAmend_emitRoll o price m a ha)]
    exact h.quote guard rfl rfl
  | shrink o movable =>
    unfold shrinkOne
    dsimp only
    rw [retainCancelled_eq]
    exact h.cancelOne movable.mem rfl rfl rfl
  | stallCancel coid covered permitted => exact absurd permitted hstall

/-- Once latched, a convergence places nothing. -/
theorem latched_op (hop : LadderOp p now P st acts st') (h : latched st = true) :
    AllAlong noteCancel (PlacesSettled armed) u acts ∧ latched st' = true := by
  have hacts : AllAlong noteCancel (PlacesSettled armed) u acts := by
    refine allAlong_of_forall fun a ha u => ?_
    cases hop.emits a ha with
    | report kind => exact placesSettled_ignored (Or.inl kind)
    | cancel o _ eq => exact eq ▸ placesSettled_of_cancel (isCancel_cancelAction st o)
    | create nTop m price guard mem =>
      rw [latched_of_slot guard] at h
      exact absurd h (by simp)
    | amend o nTop m price guard movable mem =>
      rw [latched_of_slot guard] at h
      exact absurd h (by simp)
  exact ⟨hacts, latched_of_le hop.latches_le h⟩

/-- While a re-place is armed: everything outstanding is counted, or everything is reported. -/
structure ArmedOk (st : V33State) (u : List String) : Prop where
  gate : GateOk st.awaitingReplace 0 st u
  open_ : latched st = false → st.awaitingReplace = true ∨ u = []

/-- A convergence that moves no order places only once every cancel is reported. -/
theorem ArmedOk.op (hop : LadderOp p now P st acts st') (hstall : ¬P.stall) (hmove : ¬P.move)
    (h : ArmedOk st u) :
    AllAlong noteCancel (PlacesSettled armed) u acts ∧ ArmedOk st' (acts.foldl noteCancel u) := by
  have hgate := h.gate.op hop hstall
  by_cases hl : latched st = true
  · obtain ⟨hacts, hl'⟩ := latched_op hop hl
    exact ⟨hacts, hgate, fun hn => absurd hl' (by simp [hn])⟩
  have hunlatched : latched st = false := by simpa using hl
  have hopen := h.open_ hunlatched
  have hcount := h.gate.counted.resolve_left hl
  cases hop with
  | report x acts reports =>
    refine ⟨allAlong_of_forall fun a ha _ => placesSettled_ignored (Or.inl (reports a ha)),
      hgate, fun _ => ?_⟩
    rw [foldl_reports reports]
    exact hopen
  | latch x le => exact ⟨trivial, hgate, fun _ => hopen⟩
  | drop done => exact absurd done hl
  | clear =>
    refine ⟨allAlong_cancels _ _, hgate, fun _ => ?_⟩
    rw [cancelAllThenReplace_acts, foldl_noteCancel, cancelAllThenReplace_st]
    by_cases hempty : st.ladder = []
    · rcases hopen with ha | hu
      · exact Or.inl (by simp [ha])
      · exact Or.inr (by simp [hempty, hu])
    · exact Or.inl (by simp [hempty])
  | leaveBucket => exact ⟨trivial, hgate, fun _ => hopen⟩
  | enterBucket => exact ⟨trivial, hgate, fun _ => hopen⟩
  | resume empty still settled =>
    refine ⟨trivial, hgate, fun _ => Or.inr ?_⟩
    rcases hopen with ha | hu
    · have hzero : ¬0 < st.outstandingCancels := fun hpos => settled ⟨ha, hpos⟩
      have hle : u.length ≤ st.outstandingCancels := hcount.2
      have hlen : u.length = 0 := by omega
      exact List.eq_nil_of_length_eq_zero hlen
    · exact hu
  | create nTop m price guard =>
    obtain ⟨hfalse, -⟩ := h.gate.settled guard
    have hu : u = [] := hopen.resolve_left (by simp [hfalse])
    refine ⟨⟨fun _ _ => hu, trivial⟩, hgate, fun _ => Or.inr ?_⟩
    exact (noteCancel_of_isPlace (isPlace_placeAction _ _ _)).trans hu
  | roll o nTop m price guard movable room permitted => exact absurd permitted hmove
  | shrink o movable permitted => exact absurd permitted hmove
  | stallCancel coid covered permitted => exact absurd permitted hstall

/-! ### Events -/

/-- The fallback of a failed amend keeps the gate, and places nothing while a re-place is
armed. -/
theorem GateOk.rollFallback (h : GateOk armed slack st u) {rp : RollPending}
    (hrp : rp ∈ st.rollsInFlight) :
    (rollFallback p st rp now).Keeps noteCancel (PlacesSettled armed) (GateOk armed slack) u := by
  have hdropped : GateOk armed slack
      { V33.dropRoll st rp.oldCoid with
        ladder := dropOrder (V33.dropRoll st rp.oldCoid).ladder rp.oldCoid } u :=
    h.congr (Latches.le_refl _) (fun he => by simp [V33.dropRoll, dropOrder, he])
      (fun he => by simp [V33.dropRoll, he]) rfl rfl
  unfold V33.rollFallback
  dsimp only
  split
  · exact keeps_quiet hdropped
  · split_ifs with hplace
    · have hunlatched : latched st = false := by
        have h1 : st.restAllotmentDone = false := by simpa [V33.dropRoll] using hplace.1
        have h2 : st.stoodDown = false := by simpa [V33.dropRoll] using hplace.2.1
        simp [latched, h1, h2]
      obtain ⟨hempty, hle⟩ := h.counted.resolve_left (by simp [hunlatched])
      have hunarmed : armed = true → False := fun ha => by simp [(hempty ha).2] at hrp
      refine ⟨⟨fun ha => absurd ha hunarmed, trivial⟩, ?_⟩
      refine ⟨h.awaiting, Or.inr ⟨fun ha => absurd ha hunarmed, ?_⟩⟩
      rw [placeOne, List.foldl_cons, noteCancel_of_isPlace (isPlace_placeAction _ _ _)]
      exact hle
    · exact keeps_quiet hdropped

/-- When a confirm lowers the number of outstanding cancels. -/
theorem countsDown_iff {e : OrderCancelled} {oid : String} (hoid : e.orderId = some oid) :
    countsDown st e = true ↔
      ((cancelledOrder st e).isSome = true ∨ st.cancelCtx.contains oid = true) ∧
        0 < st.outstandingCancels ∧ rollOfCancel st e = none ∧ latched st = false := by
  simp only [countsDown, hoid, Bool.and_eq_true, Bool.or_eq_true, decide_eq_true_eq,
    Option.isNone_iff_eq_none, Bool.not_eq_true', and_assoc]

/-- The order of a confirm is found as before once its pending price is cleared. -/
theorem cancelledOrder_clear (oid : Option String) (e : OrderCancelled) :
    cancelledOrder (clearCancelPending st oid) e = cancelledOrder st e := by
  obtain ⟨d, hd⟩ := clearCancelPending_eq st oid
  rw [hd]
  rfl

/-- The confirm that counts down may take up the slack its report left. -/
theorem GateOk.dropCancelled {s t : V33State} {e : OrderCancelled}
    (h : GateOk armed slack t u) (hstill : latched t = true ∨ Still s t) (hleaves : Leaves s t)
    (hroll : rollOfCancel t e = none) (hslack : countsDown s e = true → slack = 1) :
    GateOk armed 0 (dropCancelled t e (cancelledOrder s e)) u := by
  obtain ⟨l, n, heq, hl⟩ := dropCancelled_eq t e (cancelledOrder s e)
  have hcount : latched t = false →
      t.outstandingCancels ≤
        (V33.dropCancelled t e (cancelledOrder s e)).outstandingCancels + slack := by
    intro hunlatched
    have hs := hstill.resolve_left (by simp [hunlatched])
    unfold V33.dropCancelled
    cases hoid : e.orderId with
    | none => cases cancelledOrder s e <;> exact Nat.le_add_right _ _
    | some oid =>
      have hdown : (cancelledOrder s e).isSome = true ∨ t.cancelCtx.contains oid = true →
          0 < t.outstandingCancels → slack = 1 := by
        intro hnamed hpos
        refine hslack ((countsDown_iff hoid).mpr ⟨hs.ctx ▸ hnamed, hs.outstanding ▸ hpos, ?_, ?_⟩)
        · unfold rollOfCancel at hroll ⊢
          rw [← hs.rolls]
          exact hroll
        · by_contra hl
          have := latched_of_le hleaves.latches (by simpa using hl)
          simp [hunlatched] at this
      cases hlive : cancelledOrder s e with
      | none =>
        dsimp only
        split_ifs with hdec
        · have := hdown (by simpa [hlive] using hdec.1) hdec.2
          show t.outstandingCancels ≤ t.outstandingCancels - 1 + slack
          omega
        · exact Nat.le_add_right _ _
      | some o =>
        dsimp only
        split_ifs with hdec
        · have := hdown (by simp [hlive]) hdec.2
          show t.outstandingCancels ≤ t.outstandingCancels - 1 + slack
          omega
        · exact Nat.le_add_right _ _
  refine ⟨?_, ?_⟩
  · rw [heq]
    exact h.awaiting
  · by_cases hlatched : latched t = true
    · left
      rw [heq]
      exact hlatched
    · obtain ⟨hempty, hle⟩ := h.counted.resolve_left hlatched
      have := hcount (by simpa using hlatched)
      refine Or.inr ⟨fun ha => ?_, by omega⟩
      obtain ⟨h1, h2⟩ := hempty ha
      rw [heq]
      rw [h1] at hl
      exact ⟨List.sublist_nil.mp hl, h2⟩

/-- Removing an id that is there shortens the list. -/
theorem length_reported_lt {e : OrderCancelled} {oid : String} (hoid : e.orderId = some oid)
    (hmem : oid ∈ u) : (reported u (.orderCancelled e)).length + 1 ≤ u.length := by
  refine List.length_filter_lt_length_iff_exists.mpr ⟨oid, hmem, ?_⟩
  simp [hoid]

/-- A report leaves no more cancels open. -/
theorem length_reported_le (ev : Event) : (reported u ev).length ≤ u.length := by
  cases ev with
  | orderCancelled e => exact List.length_filter_le _ _
  | _ => exact le_rfl

/-- The gate holds with a smaller slack when fewer cancels are open. -/
theorem GateOk.mono {v : List String} {k : ℕ} (h : GateOk armed slack st u)
    (hle : v.length + k ≤ u.length + slack) : GateOk armed k st v :=
  ⟨h.awaiting, h.counted.imp id fun hc => ⟨hc.1, hle.trans hc.2⟩⟩

/-- The context keeps the gate. -/
theorem GateOk.recompute (h : GateOk armed slack st u) :
    GateOk armed slack (recomputeContext p st now) u := by
  obtain ⟨q, x, heq, -⟩ := recomputeContext_eq p st now
  rw [heq]
  exact h.congr (Latches.le_refl _) (fun he => by simp [he]) id rfl rfl

/-- The inputs of an event that counts each cancel once keep the gate. -/
theorem gate_event (h : GateOk st.awaitingReplace 0 st u) (ev : Event)
    (hok : CountsOnce (st, u) ev) :
    EventLaw p (fun _ => True) noteCancel (PlacesSettled st.awaitingReplace)
      (GateOk st.awaitingReplace 0) st ev
      (reported u ev) := by
  have hstay : GateOk st.awaitingReplace 0 st (reported u ev) :=
    h.mono (by have := length_reported_le (u := u) ev; omega)
  refine ⟨fun _ _ => trivial, fun _ => hstay, fun e _ => ?_, fun now _ => hstay.recompute,
    fun e _ => ?_, fun e _ => ?_,
    fun e he => ?_, fun e rp _ _ => ⟨?_, fun o _ => ?_⟩⟩
  · obtain ⟨b, hb⟩ := foldBook_eq st e
    rw [hb]
    refine GateOk.recompute ?_
    exact hstay.congr (Latches.le_refl _) id id rfl rfl
  · unfold applyAck
    split_ifs
    · refine hstay.congr (Latches.le_refl _) (fun hl => ?_) id rfl rfl
      simp [replaceOrder, hl]
    · exact hstay
  · obtain ⟨d, hd⟩ := clearCancelPending_eq st e.orderId
    rw [hd]
    exact hstay.congr (Latches.le_refl _) id id rfl rfl
  · subst he
    -- a confirm that counts down leaves one cancel of slack, which its drop takes up
    obtain ⟨k, hk, hdown⟩ : ∃ k, (reported u (.orderCancelled e)).length + k ≤ u.length ∧
        (countsDown st e = true → k = 1) := by
      by_cases hc : countsDown st e = true
      · refine ⟨1, ?_, fun _ => rfl⟩
        cases hoid : e.orderId with
        | none => simp [countsDown, hoid] at hc
        | some oid => exact length_reported_lt hoid (hok hc oid hoid)
      · exact ⟨0, length_reported_le _, fun hc' => absurd hc' hc⟩
    have hclear : GateOk st.awaitingReplace k (clearCancelPending st e.orderId)
        (reported u (.orderCancelled e)) := by
      obtain ⟨d, hd⟩ := clearCancelPending_eq st e.orderId
      rw [hd]
      exact (h.mono (by omega)).congr (Latches.le_refl _) id id rfl rfl
    refine (gateLaw p _ k).law.cancelPart e (fun _ _ => trivial) hclear fun v hs => ?_
    unfold finishCancel
    split
    · next rp hrp =>
      exact (hs.rollFallback (mem_of_rollOfCancel hrp)).imp fun _ _ hv => hv.mono (by omega)
    · next hroll =>
      rw [cancelledOrder_clear]
      exact (gateLaw p _ 0).law.keeps_op (via_ptOnCancelConfirmed _)
        (hs.dropCancelled (still_reportCancel e) (leaves_reportCancel e) hroll hdown)
  · exact hstay.congr (Latches.le_refl _) id (fun he => by simp [V33.dropRoll, he]) rfl rfl
  · exact hstay.congr (Latches.le_refl _)
      (fun he => by simp [V33.confirmRoll, V33.dropRoll, replaceOrder, he])
      (fun he => by simp [V33.confirmRoll, V33.dropRoll, he]) rfl rfl

/-- A decision that counts each cancel once keeps the gate, and places settled. -/
theorem GateOk.decide (hcoids : CoidsOk st) (h : GateOk st.awaitingReplace 0 st u) (ev : Event)
    (hok : CountsOnce (st, u) ev) :
    (decideV33 p st ev).Keeps noteCancel (PlacesSettled st.awaitingReplace)
      (fun s v => GateOk s.awaitingReplace 0 s v) (reported u ev) := by
  refine (gateLaw p st.awaitingReplace 0).law.decide (gate_event h ev hok)
    (fun s v hs => hs.awaiting.symm ▸ hs) fun r hr v hs => ?_
  have hs' : GateOk r.st.awaitingReplace 0 r.st v := hs.awaiting.symm ▸ hs
  by_cases hlatched : latched r.st = true
  · refine Outcome.Keeps.imp (I := fun s v => latched s = true ∧ GateOk s.awaitingReplace 0 s v)
      ((hcoids.via_converge hr).keeps ⟨hlatched, hs'⟩ fun hop hI => ?_) fun _ _ hI => hI.2
    obtain ⟨hacts, hl⟩ := latched_op hop hI.1
    exact ⟨hacts, hl, hI.2.op hop id⟩
  · cases harmed : st.awaitingReplace with
    | false =>
      exact (hcoids.via_converge hr).keeps hs' fun hop hI =>
        ⟨allAlong_of_forall fun _ _ _ ha => absurd ha (by simp), hI.op hop id⟩
    | true =>
      -- nothing rests, so the convergence has nothing to move
      obtain ⟨hempty, -⟩ := hs.counted.resolve_left hlatched
      have hvia := @via_converge p ev.serverTs ⟨fun _ => True, fun _ => True, False, True, False⟩ _
        (hcoids.beforeConverge hr).nodup (fun _ _ _ => trivial) trivial
        (fun _ hn => hn (hempty harmed)) (fun _ _ _ => trivial)
      have harmed' : ArmedOk r.st v :=
        ⟨hs', fun _ => Or.inl (hs.awaiting.trans harmed)⟩
      exact Outcome.Keeps.imp (I := ArmedOk)
        (hvia.keeps harmed' fun hop hI => hI.op hop id id) fun _ _ hI => hI.gate

end Gate

/-! ### Runs -/

/-- A new window has no cancel open. -/
theorem GateOk.new {p : V33Params} {st : V33State} (h : IsNew p st) :
    GateOk st.awaitingReplace 0 st [] := by
  obtain ⟨_, _, _, _, _, _, rfl⟩ := h
  exact ⟨rfl, Or.inr ⟨fun _ => ⟨rfl, rfl⟩, le_rfl⟩⟩

/-- Along every run in which each confirm that counts down names an unreported order, a
re-place that was armed places only once every cancelled order is reported. -/
theorem replaces_after_reports (p : V33Params) (evs : List Event) (w : V33State × List String)
    (h : Watched p reported noteCancel [] CountsOnce evs w) (harmed : w.1.awaitingReplace = true)
    (ev : Event) (hok : CountsOnce w ev) :
    AllAlong noteCancel (fun u a => a.kind.isPlace = true → u = []) (reported w.2 ev)
      (decideV33 p w.1 ev).acts := by
  obtain ⟨hcoids, hgate⟩ : CoidsOk w.1 ∧ GateOk w.1.awaitingReplace 0 w.1 w.2 :=
    h.preserves (I := fun st u => CoidsOk st ∧ GateOk st.awaitingReplace 0 st u)
      (fun st hst => ⟨CoidsOk.new hst, GateOk.new hst⟩)
      (fun st u ev hst hok => ⟨hst.1.decide ev, (hst.2.decide hst.1 ev hok).2⟩)
  refine (hgate.decide hcoids ev hok).1.imp fun u a _ hP hplace => ?_
  exact hP harmed hplace

/-- The sample ladder on its way to the other bucket, one of its two cancels confirmed. -/
def oneConfirmed : List Event :=
  sampleOpening ++
    [centBook "B200" 60 62 1002, .orderCancelled ⟨some "v1", 1003, 0, none, none, none⟩]

/-- Confirmed one after the other, the cancels let the ladder be placed again. -/
theorem replaces_after_reports_sample :
    let w := oneConfirmed.foldl (nextWatched samplePolicy reported noteCancel)
      (sampleWindow samplePolicy, [])
    AllAlong noteCancel (fun u a => a.kind.isPlace = true → u = [])
      (reported w.2 (.orderCancelled ⟨some "v2", 1004, 0, none, none, none⟩))
      (decideV33 samplePolicy w.1 (.orderCancelled ⟨some "v2", 1004, 0, none, none, none⟩)).acts :=
  replaces_after_reports samplePolicy _ _ (watched_sample (by decide +kernel)) (by decide +kernel) _
    (by decide +kernel)

/-- One of the cancels is confirmed twice: the ladder is placed again over the other. -/
theorem replaces_over_unreported :
    let w := oneConfirmed.foldl (nextWatched samplePolicy reported noteCancel)
      (sampleWindow samplePolicy, [])
    w.1.awaitingReplace = true ∧
      ¬AllAlong noteCancel (fun u a => a.kind.isPlace = true → u = [])
        (reported w.2 (.orderCancelled ⟨some "v1", 1004, 0, none, none, none⟩))
        (decideV33 samplePolicy w.1
          (.orderCancelled ⟨some "v1", 1004, 0, none, none, none⟩)).acts := by
  decide +kernel

end Pilot.V33
