import Pilot.Lib.Transitions
import Pilot.V33.Decide

/-!
# The ladder in small steps

Every convergence is a run of small guarded operations on the ladder: a cancel-all, a
place, a roll, a shrink, a switch of the ladder's bucket, and updates that name no order.
An invariant of the ladder is proved once for each operation.
-/

namespace Pilot.V33

/-! ### Outcomes as runs -/

/-- The outcome is reached from `s` by a run of `R`. -/
def Outcome.Via (R : V33State → List V33Action → V33State → Prop) (s : V33State) (r : Outcome) :
    Prop :=
  Run R s r.acts r.st

section Via

variable {R : V33State → List V33Action → V33State → Prop} {s : V33State} {r : Outcome}

/-- Doing nothing is a run of no steps. -/
theorem via_quiet (R : V33State → List V33Action → V33State → Prop) (s : V33State) :
    s.quiet.Via R s := Run.refl s

/-- Two runs make one. -/
theorem Outcome.Via.andThen {next : V33State → Outcome} (h : r.Via R s)
    (k : (next r.st).Via R r.st) : (r.andThen next).Via R s := Run.trans h k

/-- A silent step may follow a run. -/
theorem Outcome.Via.mapSt {f : V33State → V33State} (h : r.Via R s) (k : R r.st [] (f r.st)) :
    (r.mapSt f).Via R s := by
  have := Run.trans h (Run.single k)
  rwa [List.append_nil] at this

/-- A silent step in front of an outcome. -/
theorem via_of_step {s' : V33State} (h : R s [] s') (k : r.Via R s') : r.Via R s :=
  Run.step h k

/-- A loop of runs is a run. -/
theorem via_forEach {α : Type} {body : α → V33State → Outcome}
    (h : ∀ x s, (body x s).Via R s) (xs : List α) (s : V33State) : (forEach xs body s).Via R s := by
  induction xs generalizing s with
  | nil => exact via_quiet R s
  | cons x xs ih => exact (h x s).andThen (ih _)

end Via

/-- Doing nothing leaves the state. -/
@[simp] theorem quiet_st (s : V33State) : s.quiet.st = s := rfl

/-- Doing nothing emits nothing. -/
@[simp] theorem quiet_acts (s : V33State) : s.quiet.acts = [] := rfl

/-- The state after two parts is that of the second. -/
@[simp] theorem andThen_st (r : Outcome) (next : V33State → Outcome) :
    (r.andThen next).st = (next r.st).st := rfl

/-- Two parts emit one after the other. -/
@[simp] theorem andThen_acts (r : Outcome) (next : V33State → Outcome) :
    (r.andThen next).acts = r.acts ++ (next r.st).acts := rfl

/-- The state after a change is the changed one. -/
@[simp] theorem mapSt_st (r : Outcome) (f : V33State → V33State) : (r.mapSt f).st = f r.st := rfl

/-- A change of the state emits nothing. -/
@[simp] theorem mapSt_acts (r : Outcome) (f : V33State → V33State) :
    (r.mapSt f).acts = r.acts := rfl

/-! ### What a cancel retains -/

/-- The remembered cancels with an order added. -/
def rememberIn (d : Dict String CancelCtx) (o : RestOrder) : Dict String CancelCtx :=
  match o.orderId with
  | none => d
  | some oid => d.set oid ⟨o.clientOrderId, o.price, o.rung, o.eRung, o.bucketSd⟩

/-- The held prices with an order added. -/
def armIn (d : Dict String ℚ) (o : RestOrder) : Dict String ℚ :=
  match o.orderId with
  | none => d
  | some oid => d.set oid o.price

/-- Remembering a cancelled order writes the memory only. -/
theorem retainCancelled_eq (st : V33State) (o : RestOrder) :
    retainCancelled st o =
      { st with
        cancelCtx := rememberIn st.cancelCtx o
        cancelPendingPx := armIn st.cancelPendingPx o } := by
  unfold retainCancelled rememberCancelCtx armCancelPending rememberIn armIn
  cases o.orderId <;> rfl

/-- Remembering cancelled orders writes the memory only. -/
theorem foldl_retainCancelled (l : List RestOrder) (st : V33State) :
    l.foldl retainCancelled st =
      { st with
        cancelCtx := l.foldl rememberIn st.cancelCtx
        cancelPendingPx := l.foldl armIn st.cancelPendingPx } := by
  induction l generalizing st with
  | nil => rfl
  | cons o l ih => rw [List.foldl_cons, retainCancelled_eq, ih]; rfl

/-- Cancelling the ladder remembers its orders and empties it. -/
theorem cancelAll_st (st : V33State) (track : Bool) :
    (cancelAll st track).st =
      { st with
        cancelCtx := st.ladder.foldl rememberIn st.cancelCtx
        cancelPendingPx := st.ladder.foldl armIn st.cancelPendingPx
        ladder := []
        rollsInFlight := []
        convergingDir := 0
        outstandingCancels := st.outstandingCancels +
          if track then st.ladder.countP fun o => o.orderId.isSome else 0 } := by
  unfold cancelAll
  rw [foldl_retainCancelled]

/-- Cancelling the ladder emits one cancel for each order. -/
theorem cancelAll_acts (st : V33State) (track : Bool) :
    (cancelAll st track).acts = st.ladder.map (cancelAction st) := rfl

/-- Cancelling before a replacement emits one cancel for each order. -/
theorem cancelAllThenReplace_acts (st : V33State) :
    (cancelAllThenReplace st).acts = st.ladder.map (cancelAction st) := rfl

/-- Cancelling before a replacement waits for the reports of what rested. -/
theorem cancelAllThenReplace_st (st : V33State) :
    (cancelAllThenReplace st).st =
      { (cancelAll st true).st with
        awaitingReplace := st.awaitingReplace || !st.ladder.isEmpty } := by
  unfold cancelAllThenReplace
  rw [mapSt_st, cancelAll_st]
  by_cases h : st.ladder.isEmpty = true <;> simp [h]

/-! ### Operations -/

/-- The kinds that only report. -/
def ActionKind.isReport : ActionKind → Bool
  | .standDown => true
  | .shadowFillOutsideWindow => true
  | .shadowFillBelowMin => true
  | .alarm => true
  | _ => false

/-- The kinds that put an order on a price: a create. -/
def ActionKind.isPlace : ActionKind → Bool
  | .placeRest => true
  | .wouldPlaceRest => true
  | _ => false

/-- The kinds that move an order to a price: an amend. -/
def ActionKind.isAmend : ActionKind → Bool
  | .amendRest => true
  | .wouldAmendRest => true
  | _ => false

/-- The kinds that take an order off the book: a cancel. -/
def ActionKind.isCancel : ActionKind → Bool
  | .cancelRest => true
  | .wouldCancelRest => true
  | _ => false

/-- The kinds that concern the wings. -/
def ActionKind.isWing : ActionKind → Bool
  | .takeWings => true
  | .wouldTakeWings => true
  | .retryWing => true
  | .takeBucketNo => true
  | .wouldTakeBucketNo => true
  | .unwindWings => true
  | .wouldUnwindWings => true
  | .wingNetted => true
  | _ => false

/-- The core has stopped quoting for the hour. -/
def latched (st : V33State) : Bool := st.restAllotmentDone || st.stoodDown

/-- No latch of `a` is open in `b`. -/
def Latches.le (a b : Latches) : Prop :=
  (a.bucketUnknown = true → b.bucketUnknown = true) ∧
    (a.restAllotmentDone = true → b.restAllotmentDone = true) ∧
    (a.ptStoodDown = true → b.ptStoodDown = true) ∧ (a.stoodDown = true → b.stoodDown = true)

/-- Doing nothing opens no latch. -/
theorem Latches.le_refl (a : Latches) : a.le a := ⟨id, id, id, id⟩

/-- Two steps that open no latch open none together. -/
theorem Latches.le.trans {a b c : Latches} (h : a.le b) (k : b.le c) : a.le c :=
  ⟨k.1 ∘ h.1, k.2.1 ∘ h.2.1, k.2.2.1 ∘ h.2.2.1, k.2.2.2 ∘ h.2.2.2⟩

/-- What a caller allows: a cancel-all for a re-place, a create, moving the orders that rest,
the bookkeeping of a quote, and the cancels of a stall. -/
structure Permit where
  replace : V33State → Prop
  create : V33State → Prop
  move : Prop
  quote : Prop
  stall : Prop

/-- What the convergence may do. -/
def Permit.converge : Permit := ⟨fun _ => True, fun _ => True, True, True, False⟩

/-- What happens outside the convergence: orders only leave the ladder. -/
def Permit.leave : Permit := ⟨fun _ => False, fun _ => False, False, False, True⟩

/-- The slot may be quoted now: the gate is open, nothing awaits a cancel, and the ladder
need not leave its bucket. -/
structure SlotGuard (p : V33Params) (now : ℚ) (st : V33State) (nTop : ℚ) (m : ℕ) (price : ℚ) :
    Prop where
  gate : quoteGate p st now = .quote nTop
  slot : (m, price) ∈ placeableOpenSlots p st nTop
  open_ : st.restAllotmentDone = false
  settled : ¬(st.awaitingReplace = true ∧ 0 < st.outstandingCancels)
  awaits : st.awaitingReplace = true → st.ladder ≠ [] ∨ st.rollsInFlight ≠ []
  bucket : st.rollsInFlight ≠ [] ∨ st.restBucketSd = st.spotSd ∨
    (st.restBucketSd = none ∧ st.ladder ≠ [])
  unoccupied : price ∉ st.ladder.map RestOrder.price
  unpromised : price ∉ st.rollsInFlight.map RollPending.targetPrice
  unheld : price ∉ heldCancelPrices st

/-- A live order that may be moved or cancelled: nothing is in flight for it. -/
structure MovableGuard (st : V33State) (o : RestOrder) : Prop where
  mem : o ∈ st.ladder
  live : o.live = true
  acked : o.orderId.isSome
  free : o.clientOrderId ∉ st.rollsInFlight.map RollPending.oldCoid
  uncovered : o.clientOrderId ∉ ptCoveredCoids st
  unbooked : st.restBookedByCoid.getD o.clientOrderId 0 = 0

/-- The small operations on the ladder. -/
inductive LadderOp (p : V33Params) (now : ℚ) (P : Permit) :
    V33State → List V33Action → V33State → Prop
  | report (st : V33State) (x : Pacing) (acts : List V33Action)
      (reports : ∀ a ∈ acts, a.kind.isReport = true) :
      LadderOp p now P st acts { st with toPacing := x }
  | latch (st : V33State) (x : Latches) (le : st.toLatches.le x) :
      LadderOp p now P st [] { st with toLatches := x }
  | drop (st : V33State) (done : latched st = true) :
      LadderOp p now P st (cancelAll st false).acts (cancelAll st false).st
  | clear (st : V33State) (permitted : P.replace st) :
      LadderOp p now P st (cancelAllThenReplace st).acts (cancelAllThenReplace st).st
  | leaveBucket (st : V33State) (empty : st.ladder = []) (still : st.rollsInFlight = [])
      (permitted : P.quote) :
      LadderOp p now P st [] { st with restBucketSd := none }
  | resume (st : V33State) (empty : st.ladder = []) (still : st.rollsInFlight = [])
      (settled : ¬(st.awaitingReplace = true ∧ 0 < st.outstandingCancels)) (permitted : P.quote) :
      LadderOp p now P st [] { st with awaitingReplace := false }
  | enterBucket (st : V33State) (empty : st.ladder = []) (still : st.rollsInFlight = [])
      (settled : st.awaitingReplace = false) (spot : st.spotSd.isSome) (permitted : P.quote) :
      LadderOp p now P st [] { st with restBucketSd := st.spotSd }
  | create (st : V33State) (nTop : ℚ) (m : ℕ) (price : ℚ) (guard : SlotGuard p now st nTop m price)
      (weight : weightOfMargin p m ≠ 0)
      (budget : filledContracts st + restingContracts st + weightOfMargin p m ≤ allotment p)
      (permitted : P.create st) :
      LadderOp p now P st (placeSlot p st m price now).acts (placeSlot p st m price now).st
  | roll (st : V33State) (o : RestOrder) (nTop : ℚ) (m : ℕ) (price : ℚ)
      (guard : SlotGuard p now st nTop m price) (movable : MovableGuard st o)
      (room : st.rollsInFlight.length < p.maxAmendsInFlight) (permitted : P.move) :
      LadderOp p now P st (emitRoll p st o price m now).acts (emitRoll p st o price m now).st
  | shrink (st : V33State) (o : RestOrder) (movable : MovableGuard st o) (permitted : P.move) :
      LadderOp p now P st (shrinkOne o st).acts (shrinkOne o st).st
  | stallCancel (st : V33State) (coid : String)
      (covered : ∃ t ∈ st.printThroughTriggers, coid ∈ t.rungCoids) (permitted : P.stall) :
      LadderOp p now P st (ptCancelRung p coid st).acts (ptCancelRung p coid st).st

/-- What an operation emits: a report, the cancel of an order on the ladder, a create on a slot
that may be quoted, or the amend of an order that may be moved. -/
inductive Emits (p : V33Params) (now : ℚ) (st : V33State) (a : V33Action) : Prop
  | report (kind : a.kind.isReport = true)
  | cancel (o : RestOrder) (mem : o ∈ st.ladder) (eq : a = cancelAction st o)
  | create (nTop : ℚ) (m : ℕ) (price : ℚ) (guard : SlotGuard p now st nTop m price)
      (mem : a ∈ (placeSlot p st m price now).acts)
  | amend (o : RestOrder) (nTop : ℚ) (m : ℕ) (price : ℚ) (guard : SlotGuard p now st nTop m price)
      (movable : MovableGuard st o) (mem : a ∈ (emitRoll p st o price m now).acts)

/-- An operation on the ladder emits only what its guards allow. -/
theorem LadderOp.emits {p : V33Params} {now : ℚ} {P : Permit} {st st' : V33State}
    {acts : List V33Action} (h : LadderOp p now P st acts st') :
    ∀ a ∈ acts, Emits p now st a := by
  have hall : ∀ a ∈ st.ladder.map (cancelAction st), Emits p now st a := by
    intro a ha
    obtain ⟨o, ho, rfl⟩ := List.mem_map.mp ha
    exact Emits.cancel o ho rfl
  intro a ha
  cases h with
  | report _ _ reports => exact Emits.report (reports a ha)
  | drop => exact hall a (cancelAll_acts st false ▸ ha)
  | clear => exact hall a (cancelAllThenReplace_acts st ▸ ha)
  | create nTop m price guard => exact Emits.create nTop m price guard ha
  | roll o nTop m price guard movable => exact Emits.amend o nTop m price guard movable ha
  | shrink o movable => exact Emits.cancel o movable.mem (List.mem_singleton.mp ha)
  | stallCancel coid =>
    unfold ptCancelRung at ha
    split at ha
    · simp at ha
    · next o ho => exact Emits.cancel o (find?_mem_and ho).1 (List.mem_singleton.mp ha)
  | _ => simp at ha

/-- No operation opens a latch. -/
theorem LadderOp.latches_le {p : V33Params} {now : ℚ} {P : Permit} {st st' : V33State}
    {acts : List V33Action} (h : LadderOp p now P st acts st') :
    st.toLatches.le st'.toLatches := by
  cases h with
  | latch x le => exact le
  | drop =>
    rw [cancelAll_st]
    exact Latches.le_refl _
  | clear =>
    rw [cancelAllThenReplace_st, cancelAll_st]
    exact Latches.le_refl _
  | shrink o =>
    unfold shrinkOne
    dsimp only
    rw [retainCancelled_eq]
    exact Latches.le_refl _
  | stallCancel coid =>
    unfold ptCancelRung
    split
    · exact Latches.le_refl _
    · dsimp only
      rw [retainCancelled_eq]
      exact Latches.le_refl _
  | _ => exact Latches.le_refl _

/-- A cancel is a cancel, live or not. -/
theorem isCancel_cancelAction (st : V33State) (o : RestOrder) :
    (cancelAction st o).kind.isCancel = true := by
  simp only [cancelAction, mk, twinKind]
  split <;> rfl

/-- A create is a create, live or not. -/
theorem isPlace_placeAction {p : V33Params} {st : V33State} (coid : String) (n count : ℚ) :
    (placeAction p st coid n count).kind.isPlace = true := by
  simp only [placeAction, mk, twinKind]
  split <;> rfl

/-- Where nothing is created or moved an operation reports or cancels. -/
theorem LadderOp.kind_of_still {p : V33Params} {now : ℚ} {P : Permit} {st st' : V33State}
    {acts : List V33Action} (h : LadderOp p now P st acts st') (hcreate : ¬P.create st)
    (hmove : ¬P.move) : ∀ a ∈ acts, a.kind.isReport = true ∨ a.kind.isCancel = true := by
  have hall : ∀ a ∈ st.ladder.map (cancelAction st),
      a.kind.isReport = true ∨ a.kind.isCancel = true := by
    intro a ha
    obtain ⟨o, -, rfl⟩ := List.mem_map.mp ha
    exact Or.inr (isCancel_cancelAction st o)
  intro a ha
  cases h with
  | report _ _ reports => exact Or.inl (reports a ha)
  | drop => exact hall a (cancelAll_acts st false ▸ ha)
  | clear => exact hall a (cancelAllThenReplace_acts st ▸ ha)
  | stallCancel coid =>
    unfold ptCancelRung at ha
    split at ha
    · simp at ha
    · next o _ =>
      obtain rfl := List.mem_singleton.mp ha
      exact Or.inr (isCancel_cancelAction st o)
  | create nTop m price guard weight budget permitted => exact absurd permitted hcreate
  | roll o nTop m price guard movable room permitted => exact absurd permitted hmove
  | shrink o movable permitted => exact absurd permitted hmove
  | _ => simp at ha

/-! ### Slots -/

/-- Different margins have different prices. -/
theorem priceOfMargin_injective (p : V33Params) (nTop : ℚ) :
    Function.Injective fun m : ℕ => priceOfMargin p nTop m := by
  intro a b h
  simp only [priceOfMargin, cent] at h
  have h' : ((a - eMinCents p : ℤ) : ℚ) = ((b - eMinCents p : ℤ) : ℚ) := by linarith
  have h'' : (a : ℤ) - eMinCents p = b - eMinCents p := by exact_mod_cast h'
  omega

/-- The placeable slots have different prices. -/
theorem nodup_placeable (p : V33Params) (st : V33State) (nTop : ℚ) :
    ((placeableOpenSlots p st nTop).map Prod.snd).Nodup := by
  have hslots : (openSlots st).Nodup := List.nodup_range.filter _
  have hprices : (((openSlots st).map fun m : ℕ => (m, priceOfMargin p nTop m)).map
      Prod.snd).Nodup := by
    rw [List.map_map]
    exact hslots.map (priceOfMargin_injective p nTop)
  exact hprices.sublist (List.filter_sublist.map _)

/-- The slots of a list may be quoted one after the other. -/
structure SlotsGuard (p : V33Params) (now : ℚ) (st : V33State) (nTop : ℚ)
    (slots : List (ℕ × ℚ)) : Prop where
  each : ∀ s ∈ slots, SlotGuard p now st nTop s.1 s.2
  distinct : (slots.map Prod.snd).Nodup

/-- The movable orders of a list may be moved one after the other. -/
structure MovablesGuard (st : V33State) (out : List RestOrder) : Prop where
  each : ∀ o ∈ out, MovableGuard st o
  distinct : (out.map RestOrder.clientOrderId).Nodup

section Guards

variable {p : V33Params} {now : ℚ} {P : Permit} {st : V33State} {nTop price : ℚ} {m : ℕ}
  {o : RestOrder} {slots : List (ℕ × ℚ)} {out : List RestOrder}

/-- The guards of a list of slots hold of its tail. -/
theorem SlotsGuard.tail {s : ℕ × ℚ} (h : SlotsGuard p now st nTop (s :: slots)) :
    SlotsGuard p now st nTop slots :=
  ⟨fun x hx => h.each x (by simp [hx]), (List.nodup_cons.mp h.distinct).2⟩

/-- A place adds the weight of its margin. -/
theorem restingContracts_placeSlot :
    restingContracts (placeSlot p st m price now).st =
      restingContracts st + weightOfMargin p m := by
  simp [placeSlot, placeOne, mintCoid, restingContracts, qCount_natCast]

/-- A place adds one order. -/
theorem length_ladder_placeSlot :
    (placeSlot p st m price now).st.ladder.length = st.ladder.length + 1 := by
  simp [placeSlot, placeOne, mintCoid]

/-- After a place the other slots may still be quoted. -/
theorem SlotsGuard.placeSlot (h : SlotsGuard p now st nTop ((m, price) :: slots)) :
    SlotsGuard p now (placeSlot p st m price now).st nTop slots := by
  refine ⟨fun s hs => ?_, h.tail.distinct⟩
  have hg := h.tail.each s hs
  have hne : s.2 ≠ price := fun he =>
    (List.nodup_cons.mp h.distinct).1 (List.mem_map.mpr ⟨s, hs, he⟩)
  refine ⟨hg.gate, hg.slot, hg.open_, hg.settled,
    fun _ => Or.inl (by simp [V33.placeSlot, placeOne]), ?_, ?_, hg.unpromised, hg.unheld⟩
  · rcases hg.bucket with h1 | h1 | ⟨h1, _⟩
    · exact Or.inl h1
    · exact Or.inr (Or.inl h1)
    · exact Or.inr (Or.inr ⟨h1, by simp [V33.placeSlot, placeOne]⟩)
  · have := hg.unoccupied
    simp only [V33.placeSlot, placeOne, mintCoid, List.map_append, List.map_cons, List.map_nil,
      List.mem_append, List.mem_singleton, not_or]
    exact ⟨this, hne⟩

/-- After a roll to a slot the other slots may still be quoted. -/
theorem SlotsGuard.emitRoll (h : SlotsGuard p now st nTop ((m, price) :: slots)) :
    SlotsGuard p now (emitRoll p st o price m now).st nTop slots := by
  refine ⟨fun s hs => ?_, h.tail.distinct⟩
  have hg := h.tail.each s hs
  have hne : s.2 ≠ price := fun he =>
    (List.nodup_cons.mp h.distinct).1 (List.mem_map.mpr ⟨s, hs, he⟩)
  refine ⟨hg.gate, hg.slot, hg.open_, hg.settled, fun _ => Or.inr (by simp [V33.emitRoll]),
    Or.inl ?_, hg.unoccupied, ?_, hg.unheld⟩
  · simp [V33.emitRoll]
  · have := hg.unpromised
    simp only [V33.emitRoll, mintCoid, List.map_append, List.map_cons, List.map_nil,
      List.mem_append, List.mem_singleton, not_or]
    exact ⟨this, hne⟩

/-- The guards of a list of movable orders hold of its tail. -/
theorem MovablesGuard.tail (h : MovablesGuard st (o :: out)) : MovablesGuard st out :=
  ⟨fun x hx => h.each x (by simp [hx]), (List.nodup_cons.mp h.distinct).2⟩

/-- No movable order is listed twice. -/
theorem MovablesGuard.ne_head (h : MovablesGuard st (o :: out)) {x : RestOrder} (hx : x ∈ out) :
    x.clientOrderId ≠ o.clientOrderId := fun he =>
  (List.nodup_cons.mp h.distinct).1 (List.mem_map.mpr ⟨x, hx, he⟩)

/-- After a roll the other movable orders stay movable. -/
theorem MovablesGuard.emitRoll (h : MovablesGuard st (o :: out)) :
    MovablesGuard (emitRoll p st o price m now).st out := by
  refine ⟨fun x hx => ?_, h.tail.distinct⟩
  have hg := h.tail.each x hx
  refine ⟨hg.mem, hg.live, hg.acked, ?_, hg.uncovered, hg.unbooked⟩
  have := hg.free
  simp only [V33.emitRoll, mintCoid, List.map_append, List.map_cons, List.map_nil,
    List.mem_append, List.mem_singleton, not_or]
  exact ⟨this, h.ne_head hx⟩

/-- After a shrink the other movable orders stay movable. -/
theorem MovablesGuard.shrinkOne (h : MovablesGuard st (o :: out)) :
    MovablesGuard (shrinkOne o st).st out := by
  refine ⟨fun x hx => ?_, h.tail.distinct⟩
  have hg := h.tail.each x hx
  obtain ⟨oid, hoid⟩ := Option.isSome_iff_exists.mp (h.each o (by simp)).acked
  refine ⟨?_, hg.live, hg.acked, ?_, ?_, ?_⟩
  · simp only [V33.shrinkOne, retainCancelled, rememberCancelCtx, armCancelPending, hoid,
      dropOrder, List.mem_filter]
    exact ⟨hg.mem, by simpa using h.ne_head hx⟩
  · simpa only [V33.shrinkOne, retainCancelled, rememberCancelCtx, armCancelPending, hoid]
      using hg.free
  · simpa only [V33.shrinkOne, retainCancelled, rememberCancelCtx, armCancelPending, hoid,
      ptCoveredCoids] using hg.uncovered
  · simpa only [V33.shrinkOne, retainCancelled, rememberCancelCtx, armCancelPending, hoid]
      using hg.unbooked

end Guards

/-! ### What a convergence is about to do -/

/-- A missing wing keeps its rests for now. -/
def holding (p : V33Params) (st : V33State) (reason : Reason) (now : ℚ) : Bool :=
  decide (reason = .staleOrMissingWing ∧ 0 < p.standDownHoldMs) &&
    !(st.ladder.isEmpty && st.rollsInFlight.isEmpty) &&
      match st.holdSince with
      | none => true
      | some since => decide ((now - since) * 1000 < p.standDownHoldMs)

/-- The convergence gets past the latches that end the hour. -/
def convergesOn (p : V33Params) (st : V33State) (now : ℚ) : Bool :=
  !st.restAllotmentDone && !(replaceRateAlarm p st now && !st.stoodDown)

/-- The convergence cancels every rung for a later re-place. -/
def clearsLadder (p : V33Params) (st : V33State) (now : ℚ) : Bool :=
  convergesOn p st now &&
    match quoteGate p st now with
    | .warmup => false
    | .noQuote reason => !holding p st reason now
    | .quote _ => bucketMoved st

/-- A quote moves and creates nothing: the ladder leaves its bucket, or awaits its cancels. -/
def quoteWaits (st : V33State) : Bool :=
  bucketMoved st || (st.awaitingReplace && decide (0 < st.outstandingCancels))

/-- The convergence may put orders on the open slots. -/
def quotes (p : V33Params) (st : V33State) (now : ℚ) : Bool :=
  convergesOn p st now && !quoteWaits st &&
    match quoteGate p st now with
    | .quote _ => true
    | _ => false

/-- The slots a quote at `nTop` would put a new order on, if their weights fit. -/
def quoteSlots (p : V33Params) (nTop now : ℚ) (st : V33State) : List (ℕ × ℚ) :=
  let target := placeableOpenSlots p st nTop
  if quoteWaits st then []
  else if st.ladder.isEmpty && st.rollsInFlight.isEmpty then
    target.filter fun s => !(heldCancelPrices st).contains s.2
  else if st.ladder.any RestOrder.pending then []
  else
    let out := outOrders st target
    if debouncing p st (needDirection p st nTop out) now then []
    else
      (((vacantSlots st target).insertionSort fun a b => a.2 ≤ b.2).drop out.length).take
        (p.maxAmendsInFlight - st.rollsInFlight.length - out.length)

/-- The slots the convergence would put a new order on, if their weights fit. -/
def slotsToCreate (p : V33Params) (st : V33State) (now : ℚ) : List (ℕ × ℚ) :=
  if convergesOn p st now then
    match quoteGate p st now with
    | .quote nTop => quoteSlots p nTop now (resumeQuoting st).st
    | _ => []
  else []

/-! ### The convergence as a run -/

/-- What an open gate says. -/
structure Quoting (p : V33Params) (st : V33State) (now nTop : ℚ) : Prop where
  running : st.stoodDown = false
  window : inWindow p st now = true
  spot : st.spotSd.isSome
  fresh : st.spotBucketStale = false
  wings : st.W.isSome
  top : st.nTop = some nTop
  floor : p.nMin ≤ nTop

section Converge

variable {p : V33Params} {now nTop : ℚ} {P : Permit} {st : V33State}

/-- An open gate means that every condition of quoting holds. -/
theorem quoting_of_gate (h : quoteGate p st now = .quote nTop) : Quoting p st now nTop := by
  simp only [quoteGate] at h
  split_ifs at h with h1 h2 h3 h4 h5 h6
  cases hn : st.nTop with
  | none => simp [hn] at h
  | some n =>
    simp only [hn] at h
    split_ifs at h with h7
    obtain rfl : n = nTop := by simpa using h
    exact ⟨by simpa using h1, decide_eq_true ⟨not_lt.mp h2, not_lt.mp h3⟩,
      Option.isSome_iff_ne_none.mpr h4, by simpa using h5, Option.isSome_iff_ne_none.mpr h6, hn,
      not_lt.mp h7⟩

/-- A slot may be quoted only before the hour is latched. -/
theorem latched_of_slot {price : ℚ} {m : ℕ} (h : SlotGuard p now st nTop m price) :
    latched st = false := by
  simp [latched, h.open_, (quoting_of_gate h.gate).running]

/-- Standing down is an operation on the ladder. -/
theorem via_standdown (reason : Reason) : (standdown st reason).Via (LadderOp p now P) st := by
  unfold standdown
  split
  · exact Run.single (LadderOp.report st { st.toPacing with standDownReason := some reason } []
      (by simp))
  · exact Run.single (LadderOp.report st
      { st.toPacing with
        lastStanddownReason := some reason
        standDownReason := some reason } _ (by simp [ActionKind.isReport]))

/-- Ending a hold changes the pacing only. -/
theorem endHold_eq (st : V33State) : ∃ x : Pacing, endHold st = { st with toPacing := x } := by
  unfold endHold
  split
  · exact ⟨{ st.toPacing with holdReason := none, holdSince := none }, rfl⟩
  · exact ⟨st.toPacing, rfl⟩

/-- Without a quote the ladder is held or cleared. -/
theorem via_noQuoteStep (reason : Reason)
    (hclear : holding p st reason now = false → ∀ s, s.ladder = st.ladder → P.replace s) :
    (noQuoteStep p st reason now).Via (LadderOp p now P) st := by
  obtain ⟨x, hx⟩ := endHold_eq st
  have hstep : LadderOp p now P st [] { st with toPacing := x } :=
    LadderOp.report st x [] (by simp)
  unfold noQuoteStep
  split_ifs with h
  · cases hs : st.holdSince with
    | none =>
      exact Run.single (LadderOp.report st
        { st.toPacing with
          holdReason := some reason
          holdSince := some now
          holdSubCause := st.wingSubCause } _ (by simp [ActionKind.isReport, standdownAction]))
    | some since =>
      dsimp only
      split_ifs with ht
      · exact via_quiet _ _
      · have hperm : holding p st reason now = false := by
          simp only [holding, hs, h.1, h.2.1, decide_eq_false ht, Bool.and_false]
        rw [hx]
        refine Outcome.Via.andThen (via_of_step
          (LadderOp.report st
            { x with
              lastStanddownReason := some .staleOrMissingWing
              standDownReason := some .staleOrMissingWing } [] (by simp))
          (Run.single (LadderOp.clear _ (hclear hperm _ rfl)))) ?_
        exact Run.single (LadderOp.report _ _ _ (by simp [ActionKind.isReport, standdownAction]))
  · have hperm : holding p st reason now = false := by
      unfold holding
      by_cases h1 : reason = .staleOrMissingWing ∧ 0 < p.standDownHoldMs
      · have h2 : st.ladder.isEmpty = true ∧ st.rollsInFlight.isEmpty = true := by
          by_contra hn
          exact h ⟨h1.1, h1.2, hn⟩
        simp [h2.1, h2.2]
      · simp [decide_eq_false h1]
    rw [hx]
    exact (via_of_step hstep (Run.single (LadderOp.clear _ (hclear hperm _ rfl)))).andThen
      (via_standdown reason)

/-- Creating the slots of a list. -/
theorem via_createSlots (slots : List (ℕ × ℚ)) (h : SlotsGuard p now st nTop slots)
    (hcreate : ∀ s, st.ladder.length ≤ s.ladder.length →
      s.ladder.length < st.ladder.length + slots.length → P.create s) :
    (createSlots p now slots st).Via (LadderOp p now P) st := by
  induction slots generalizing st with
  | nil => exact via_quiet _ _
  | cons s rest ih =>
    obtain ⟨m, price⟩ := s
    simp only [createSlots]
    split_ifs with hw hb
    · refine ih h.tail fun s hs hs' => hcreate s hs ?_
      simp only [List.length_cons]
      omega
    · exact via_quiet _ _
    · have hop := LadderOp.create st nTop m price (h.each (m, price) (by simp)) hw (not_lt.mp hb)
        (hcreate st le_rfl (by simp))
      refine Outcome.Via.andThen (Run.single hop) (ih h.placeSlot fun s hs hs' => hcreate s ?_ ?_)
      · rw [length_ladder_placeSlot] at hs
        omega
      · rw [length_ladder_placeSlot] at hs'
        simp only [List.length_cons]
        omega

/-- Placing the slots of a list, of which those whose price is held are left out. -/
theorem via_placeSlots (held : List ℚ) (budget : ℚ) (slots : List (ℕ × ℚ)) (used : ℚ)
    (h : SlotsGuard p now st nTop (slots.filter fun s => !held.contains s.2))
    (hbudget : filledContracts st + restingContracts st - used = allotment p - budget)
    (hcreate : ∀ s, st.ladder.length ≤ s.ladder.length →
      s.ladder.length < st.ladder.length + (slots.filter fun s => !held.contains s.2).length →
        P.create s) :
    (placeSlots p held budget now slots used st).Via (LadderOp p now P) st := by
  induction slots generalizing st used with
  | nil => exact via_quiet _ _
  | cons s rest ih =>
    obtain ⟨m, price⟩ := s
    simp only [placeSlots]
    by_cases hh : price ∈ held
    · rw [if_pos (Or.inr (Or.inr hh))]
      rw [List.filter_cons_of_neg (by simpa using hh)] at h hcreate
      exact ih used h hbudget hcreate
    · rw [List.filter_cons_of_pos (by simpa using hh)] at h hcreate
      split_ifs with hskip
      · refine ih used h.tail hbudget fun s hs hs' => hcreate s hs ?_
        simp only [List.length_cons]
        omega
      · simp only [not_or, not_lt] at hskip
        have hop := LadderOp.create st nTop m price (h.each (m, price) (by simp)) hskip.1
          (by linarith [hskip.2.1]) (hcreate st le_rfl (by simp))
        refine Outcome.Via.andThen (Run.single hop)
          (ih _ h.placeSlot ?_ fun s hs hs' => hcreate s ?_ ?_)
        · have hf : filledContracts (placeSlot p st m price now).st = filledContracts st := rfl
          rw [restingContracts_placeSlot, hf]
          linarith
        · rw [length_ladder_placeSlot] at hs
          omega
        · rw [length_ladder_placeSlot] at hs'
          simp only [List.length_cons]
          omega

/-- Placing does not read the ladder's bucket. -/
theorem placeSlots_restBucket (held : List ℚ) (budget : ℚ) (slots : List (ℕ × ℚ)) (used : ℚ)
    (x : Option ℤ) :
    placeSlots p held budget now slots used { st with restBucketSd := x } =
      ⟨{ (placeSlots p held budget now slots used st).st with restBucketSd := x },
        (placeSlots p held budget now slots used st).acts⟩ := by
  induction slots generalizing st used with
  | nil => rfl
  | cons s rest ih =>
    obtain ⟨m, price⟩ := s
    simp only [placeSlots]
    split_ifs
    · exact ih used
    · simp only [Outcome.andThen]
      have := @ih (placeSlot p st m price now).st (used + weightOfMargin p m)
      simp only [placeSlot, placeOne, mintCoid] at this ⊢
      rw [this]
      rfl

/-- Placing leaves the quote alone. -/
theorem placeSlots_toQuote (held : List ℚ) (budget : ℚ) (slots : List (ℕ × ℚ)) (used : ℚ) :
    (placeSlots p held budget now slots used st).st.toQuote = st.toQuote := by
  induction slots generalizing st used with
  | nil => rfl
  | cons s rest ih =>
    obtain ⟨m, price⟩ := s
    simp only [placeSlots]
    split_ifs
    · exact ih used
    · exact ih _

/-- A placement that emits nothing changes nothing. -/
theorem placeSlots_of_no_acts (held : List ℚ) (budget : ℚ) (slots : List (ℕ × ℚ)) (used : ℚ)
    (h : (placeSlots p held budget now slots used st).acts = []) :
    placeSlots p held budget now slots used st = st.quiet := by
  induction slots generalizing st used with
  | nil => rfl
  | cons s rest ih =>
    obtain ⟨m, price⟩ := s
    simp only [placeSlots] at h ⊢
    split_ifs at h ⊢ with hskip
    · exact ih used h
    · simp [placeSlot, placeOne] at h

/-- Placing on an empty ladder. -/
theorem via_placeAll (hgate : quoteGate p st now = .quote nTop)
    (hempty : st.ladder = []) (hstill : st.rollsInFlight = [])
    (hsettled : st.awaitingReplace = false)
    (hopen : st.restAllotmentDone = false) (hquote : P.quote)
    (hcreate : ∀ s, s.ladder.length <
      ((placeableOpenSlots p st nTop).filter fun s => !(heldCancelPrices st).contains s.2).length →
        P.create s) :
    (placeAll p st nTop now).Via (LadderOp p now P) st := by
  have hq := quoting_of_gate hgate
  unfold placeAll
  dsimp only
  have hguard : SlotsGuard p now { st with restBucketSd := st.spotSd } nTop
      ((placeableOpenSlots p st nTop).filter fun s => !(heldCancelPrices st).contains s.2) := by
    refine ⟨fun s hs => ?_, (nodup_placeable p st nTop).sublist (List.filter_sublist.map _)⟩
    obtain ⟨hs, hheld⟩ := List.mem_filter.mp hs
    exact ⟨hgate, hs, hopen, by simp [hsettled], by simp [hsettled], Or.inr (Or.inl rfl),
      by simp [hempty],
      by simp [hstill], by simpa [heldCancelPrices] using hheld⟩
  have hrun := via_placeSlots (P := P) (heldCancelPrices st)
    ((allotment p : ℚ) - filledContracts st - restingContracts st)
    (placeableOpenSlots p st nTop) 0 hguard
    (by simp only [filledContracts, restingContracts]; ring)
    (fun s _ hs => hcreate s (by simpa [hempty] using hs))
  rw [placeSlots_restBucket] at hrun
  have hspot : (placeSlots p (heldCancelPrices st)
      ((allotment p : ℚ) - filledContracts st - restingContracts st) now
      (placeableOpenSlots p st nTop) 0 st).st.spotSd = st.spotSd :=
    congrArg Quote.spotSd (placeSlots_toQuote _ _ _ _)
  have hquiet := @placeSlots_of_no_acts p now st (heldCancelPrices st)
    ((allotment p : ℚ) - filledContracts st - restingContracts st) (placeableOpenSlots p st nTop) 0
  generalize placeSlots p (heldCancelPrices st)
    ((allotment p : ℚ) - filledContracts st - restingContracts st) now
    (placeableOpenSlots p st nTop) 0 st = r at hrun hspot hquiet ⊢
  split_ifs with h1 h2
  · exact Run.single (LadderOp.latch st { st.toLatches with restAllotmentDone := true }
      ⟨id, fun _ => rfl, id, id⟩)
  · rw [hquiet (List.isEmpty_iff.mp h2)]
    exact via_quiet _ _
  · refine via_of_step (LadderOp.enterBucket st hempty hstill hsettled hq.spot hquote) ?_
    rw [← hspot] at hrun
    have hpace := @LadderOp.report p now P
      { r.st with restBucketSd := r.st.spotSd }
      { r.st.toPacing with
        convergingDir := 0
        lastReplaceTs := some now
        replaceCount := r.st.replaceCount + 1
        replaceTimes := recentTimes r.st now ++ [now] } [] (by simp)
    have hall := Run.trans hrun (Run.single hpace)
    rw [List.append_nil] at hall
    rw [← hspot]
    exact hall

/-- Rolling the orders of a list onto slots keeps the guards of what is left over. -/
theorem via_rolls (pairs : List (RestOrder × ℕ × ℚ)) (out : List RestOrder) (slots : List (ℕ × ℚ))
    (hout : MovablesGuard st (pairs.map Prod.fst ++ out))
    (hslots : SlotsGuard p now st nTop (pairs.map Prod.snd ++ slots))
    (hroom : st.rollsInFlight.length + pairs.length ≤ p.maxAmendsInFlight) (hmove : P.move) :
    let r := forEach pairs (fun x st => emitRoll p st x.1 x.2.2 x.2.1 now) st
    r.Via (LadderOp p now P) st ∧ MovablesGuard r.st out ∧ SlotsGuard p now r.st nTop slots ∧
      r.st.ladder = st.ladder ∧ r.acts.length = pairs.length := by
  induction pairs generalizing st with
  | nil => exact ⟨via_quiet _ _, hout, hslots, rfl, rfl⟩
  | cons x rest ih =>
    obtain ⟨o, m, price⟩ := x
    simp only [List.map_cons, List.cons_append, List.length_cons] at hout hslots hroom
    obtain ⟨hrun, hout', hslots', hladder, hlen⟩ := ih hout.emitRoll hslots.emitRoll (by
      simp only [emitRoll, mintCoid, List.length_append, List.length_singleton]
      omega)
    have hop := LadderOp.roll (P := P) st o nTop m price (hslots.each (m, price) (by simp))
      (hout.each o (by simp)) (by omega) hmove
    refine ⟨Outcome.Via.andThen (Run.single hop) hrun, hout', hslots', hladder, ?_⟩
    simp only [forEach, andThen_acts, List.length_append, hlen, List.length_cons]
    simp only [emitRoll, List.length_singleton]
    omega

/-- Shrinking the orders of a list. -/
theorem via_shrinks (out : List RestOrder) (hout : MovablesGuard st out) (hmove : P.move) :
    (forEach out shrinkOne st).Via (LadderOp p now P) st := by
  induction out generalizing st with
  | nil => exact via_quiet _ _
  | cons o rest ih =>
    exact Outcome.Via.andThen (Run.single (LadderOp.shrink st o (hout.each o (by simp)) hmove))
      (ih hout.shrinkOne)

/-- An order off its target may be moved. -/
theorem movable_of_outOrders {target : List (ℕ × ℚ)} {o : RestOrder}
    (h : o ∈ outOrders st target) : MovableGuard st o := by
  simp only [outOrders, List.mem_filter, Bool.and_eq_true, decide_eq_true_eq,
    Bool.not_eq_true', List.contains_eq_mem, decide_eq_false_iff_not] at h
  obtain ⟨hmem, ⟨⟨⟨⟨hlive, hacked⟩, hfree⟩, _⟩, huncovered⟩, hunbooked⟩ := h
  exact ⟨hmem, hlive, hacked, hfree, huncovered, hunbooked⟩

/-- The orders off the target have different client order ids. -/
theorem movables_outOrders (hcoids : (st.ladder.map RestOrder.clientOrderId).Nodup)
    (target : List (ℕ × ℚ)) :
    MovablesGuard st ((outOrders st target).insertionSort fun a b => a.price ≤ b.price) := by
  have hperm := List.perm_insertionSort (fun a b : RestOrder => a.price ≤ b.price)
    (outOrders st target)
  refine ⟨fun o ho => movable_of_outOrders (hperm.mem_iff.mp ho), ?_⟩
  exact (hperm.map _).nodup_iff.mpr (hcoids.sublist (List.filter_sublist.map _))

/-- The vacant slots of an open gate may be quoted. -/
theorem slots_vacantSlots (hgate : quoteGate p st now = .quote nTop)
    (hopen : st.restAllotmentDone = false)
    (hsettled : ¬(st.awaitingReplace = true ∧ 0 < st.outstandingCancels))
    (hsome : st.ladder ≠ [] ∨ st.rollsInFlight ≠ [])
    (hbucket : st.rollsInFlight ≠ [] ∨ st.restBucketSd = st.spotSd ∨
      (st.restBucketSd = none ∧ st.ladder ≠ [])) :
    SlotsGuard p now st nTop
      ((vacantSlots st (placeableOpenSlots p st nTop)).insertionSort fun a b => a.2 ≤ b.2) := by
  have hperm := List.perm_insertionSort (fun a b : ℕ × ℚ => a.2 ≤ b.2)
    (vacantSlots st (placeableOpenSlots p st nTop))
  refine ⟨fun s hs => ?_, ?_⟩
  · have hs := hperm.mem_iff.mp hs
    simp only [vacantSlots, List.mem_filter, Bool.and_eq_true, Bool.not_eq_true',
      List.contains_eq_mem, decide_eq_false_iff_not] at hs
    obtain ⟨hmem, ⟨hunocc, hunprom⟩, hunheld⟩ := hs
    exact ⟨hgate, hmem, hopen, hsettled, fun _ => hsome, hbucket, hunocc, hunprom, hunheld⟩
  · exact (hperm.map _).nodup_iff.mpr
      ((nodup_placeable p st nTop).sublist (List.filter_sublist.map _))

/-- Moving orders: rolls, then shrinks or creates. -/
theorem via_moveOrders (out : List RestOrder) (vacant : List (ℕ × ℚ)) (budget : ℕ)
    (resumed : Bool) (hout : MovablesGuard st out) (hvacant : SlotsGuard p now st nTop vacant)
    (hroom : st.rollsInFlight.length + budget ≤ p.maxAmendsInFlight) (hmove : P.move)
    (hcreate : ∀ s, st.ladder.length ≤ s.ladder.length →
      s.ladder.length < st.ladder.length +
        ((vacant.drop out.length).take (budget - out.length)).length → P.create s) :
    (moveOrders p st out vacant budget resumed now).Via (LadderOp p now P) st := by
  obtain ⟨hfst, hsnd⟩ := take_zip_split out vacant budget
  have hlen : ((out.zip vacant).take budget).length ≤ budget := List.length_take_le _ _
  generalize hpairs : (out.zip vacant).take budget = pairs at hfst hsnd hlen
  obtain ⟨hrun, hout', hvacant', hladder, _⟩ := @via_rolls p now nTop P st pairs
    (out.drop pairs.length) (vacant.drop pairs.length) (by rwa [hfst]) (by rwa [hsnd]) (by omega)
    hmove
  unfold moveOrders
  dsimp only
  rw [hpairs]
  generalize forEach pairs (fun x st => emitRoll p st x.1 x.2.2 x.2.1 now) st = rolls at *
  have hextra : (if pairs.length < out.length then
        forEach ((out.drop pairs.length).take (budget - pairs.length)) shrinkOne rolls.st
      else
        createSlots p now ((vacant.drop pairs.length).take (budget - pairs.length))
          rolls.st).Via (LadderOp p now P) rolls.st := by
    split_ifs with h
    · exact via_shrinks _ ⟨fun o ho => hout'.each o (List.mem_of_mem_take ho),
        hout'.distinct.sublist ((List.take_sublist _ _).map _)⟩ hmove
    · have hpl : pairs.length = out.length := by
        have := congrArg List.length hfst
        simp only [List.length_append, List.length_map, List.length_drop] at this
        omega
      have hslots : SlotsGuard p now rolls.st nTop
          ((vacant.drop pairs.length).take (budget - pairs.length)) :=
        ⟨fun x hx => hvacant'.each x (List.mem_of_mem_take hx),
          hvacant'.distinct.sublist ((List.take_sublist _ _).map _)⟩
      refine via_createSlots _ hslots fun s hs hs' => hcreate s ?_ ?_
      · rwa [hladder] at hs
      · rwa [hladder, hpl] at hs'
  generalize (if pairs.length < out.length then
        forEach ((out.drop pairs.length).take (budget - pairs.length)) shrinkOne rolls.st
      else
        createSlots p now ((vacant.drop pairs.length).take (budget - pairs.length))
          rolls.st) = extra at hextra ⊢
  have hall := Run.trans hrun hextra
  split_ifs
  · have hpace := @LadderOp.report p now P extra.st
      { extra.st.toPacing with
        lastReplaceTs := some now
        replaceTimes := recentTimes extra.st now ++ List.replicate extra.acts.length now }
      [] (by simp)
    have hall' := Run.trans hall (Run.single hpace)
    rw [List.append_nil] at hall'
    exact hall'
  · exact hall

/-- Converging a ladder whose orders are all acknowledged. -/
theorem via_moveStage (resumed : Bool) (hgate : quoteGate p st now = .quote nTop)
    (hcoids : (st.ladder.map RestOrder.clientOrderId).Nodup)
    (hopen : st.restAllotmentDone = false) (hmoved : bucketMoved st = false)
    (hsettled : ¬(st.awaitingReplace = true ∧ 0 < st.outstandingCancels))
    (hsome : ¬(st.ladder.isEmpty = true ∧ st.rollsInFlight.isEmpty = true))
    (hpending : st.ladder.any RestOrder.pending = false) (hmove : P.move)
    (hcreate : ∀ s, st.ladder.length ≤ s.ladder.length →
      s.ladder.length < st.ladder.length + (quoteSlots p nTop now st).length → P.create s) :
    (moveStage p nTop resumed now st).Via (LadderOp p now P) st := by
  have hsome' : st.ladder ≠ [] ∨ st.rollsInFlight ≠ [] := by
    simp only [List.isEmpty_iff] at hsome
    tauto
  have hbucket : st.rollsInFlight ≠ [] ∨ st.restBucketSd = st.spotSd ∨
      (st.restBucketSd = none ∧ st.ladder ≠ []) := by
    by_cases hrolls : st.rollsInFlight = []
    · have hladder : st.ladder ≠ [] := fun he => hsome (by simp [he, hrolls])
      by_cases hspot : st.restBucketSd = st.spotSd
      · exact Or.inr (Or.inl hspot)
      · cases hrest : st.restBucketSd with
        | none => exact Or.inr (Or.inr ⟨rfl, hladder⟩)
        | some sd =>
          rw [hrest] at hspot
          simp [bucketMoved, hrest, hspot, hrolls, hladder] at hmoved
    · exact Or.inl hrolls
  have hout := movables_outOrders hcoids (placeableOpenSlots p st nTop)
  have hvacant := slots_vacantSlots hgate hopen hsettled hsome' hbucket
  unfold moveStage
  dsimp only
  split_ifs with h1 h2 h3 h4
  · exact Run.single (LadderOp.report st { st.toPacing with convergingDir := 0 } [] (by simp))
  · exact via_quiet _ _
  · exact via_quiet _ _
  · exact Run.single (LadderOp.report st
      { st.toPacing with
        convergingDir := needDirection p st nTop (outOrders st (placeableOpenSlots p st nTop)) }
      [] (by simp))
  · refine via_of_step (LadderOp.report st
      { st.toPacing with
        convergingDir := needDirection p st nTop (outOrders st (placeableOpenSlots p st nTop)) }
      [] (by simp)) (@via_moveOrders p now nTop P _ _ _ _ resumed
        ⟨fun o ho => ?_, hout.distinct⟩ ⟨fun x hx => ?_, hvacant.distinct⟩ ?_ hmove ?_)
    · obtain ⟨a, b, c, d, e, f⟩ := hout.each o ho
      exact ⟨a, b, c, d, e, f⟩
    · obtain ⟨a, b, c, d, e, f, g, h, i⟩ := hvacant.each x hx
      exact ⟨a, b, c, d, e, f, g, h, i⟩
    · show st.rollsInFlight.length + (p.maxAmendsInFlight - st.rollsInFlight.length) ≤ _
      have h4' : p.maxAmendsInFlight - st.rollsInFlight.length ≠ 0 := h4
      omega
    · intro s hs hs'
      refine hcreate s hs ?_
      have hslots : quoteSlots p nTop now st =
          (((vacantSlots st (placeableOpenSlots p st nTop)).insertionSort
            fun a b => a.2 ≤ b.2).drop (outOrders st (placeableOpenSlots p st nTop)).length).take
              (p.maxAmendsInFlight - st.rollsInFlight.length -
                (outOrders st (placeableOpenSlots p st nTop)).length) := by
        unfold quoteSlots
        dsimp only
        rw [if_neg (by simpa [quoteWaits, hmoved] using hsettled), if_neg (by simpa using hsome),
          if_neg (by simpa using hpending), if_neg h3]
      rw [hslots]
      simpa only [List.length_insertionSort] using hs'

/-- Placing the open slots of an empty ladder. -/
theorem via_placeStage (hgate : quoteGate p st now = .quote nTop)
    (hempty : st.ladder = []) (hstill : st.rollsInFlight = [])
    (hopen : st.restAllotmentDone = false) (hmoved : bucketMoved st = false)
    (hsettled : ¬(st.awaitingReplace = true ∧ 0 < st.outstandingCancels))
    (hquote : P.quote)
    (hcreate : ∀ s, s.ladder.length < (quoteSlots p nTop now st).length → P.create s) :
    (placeStage p nTop now st).Via (LadderOp p now P) st := by
  have hslots : quoteSlots p nTop now st =
      (placeableOpenSlots p st nTop).filter fun s => !(heldCancelPrices st).contains s.2 := by
    unfold quoteSlots
    dsimp only
    rw [if_neg (by simpa [quoteWaits, hmoved] using hsettled), if_pos (by simp [hempty, hstill])]
  rw [hslots] at hcreate
  unfold placeStage
  split_ifs with h1 h2
  · exact via_of_step (LadderOp.resume st hempty hstill hsettled hquote)
      (via_placeAll hgate hempty hstill rfl hopen hquote hcreate)
  · exact Run.single (LadderOp.latch st { st.toLatches with restAllotmentDone := true }
      ⟨id, fun _ => rfl, id, id⟩)
  · exact via_placeAll hgate hempty hstill (by simpa using h1) hopen hquote hcreate

/-- Quoting: leave the bucket, await the cancels, place, or converge. -/
theorem via_quoteStep (resumed : Bool) (hgate : quoteGate p st now = .quote nTop)
    (hcoids : (st.ladder.map RestOrder.clientOrderId).Nodup)
    (hopen : st.restAllotmentDone = false)
    (hclear : bucketMoved st = true → P.replace st) (hquote : P.quote)
    (hmove : quoteWaits st = false → ¬(st.ladder = [] ∧ st.rollsInFlight = []) → P.move)
    (hcreate : ∀ s, st.ladder.length ≤ s.ladder.length →
      s.ladder.length < st.ladder.length + (quoteSlots p nTop now st).length → P.create s) :
    (quoteStep p nTop resumed now st).Via (LadderOp p now P) st := by
  unfold quoteStep
  split_ifs with h1 h2 h3 h4
  · have hempty : (cancelAllThenReplace st).st.ladder = [] ∧
        (cancelAllThenReplace st).st.rollsInFlight = [] := by
      rw [cancelAllThenReplace_st, cancelAll_st]
      exact ⟨rfl, rfl⟩
    exact Outcome.Via.mapSt (Run.single (LadderOp.clear st (hclear h1)))
      (LadderOp.leaveBucket _ hempty.1 hempty.2 hquote)
  · exact via_quiet _ _
  · have hempty : st.ladder = [] := List.isEmpty_iff.mp h3.1
    exact via_placeStage hgate hempty (List.isEmpty_iff.mp h3.2) hopen (by simpa using h1) h2 hquote
      fun s hs => hcreate s (by simp [hempty]) (by simpa [hempty] using hs)
  · exact via_quiet _ _
  · exact via_moveStage resumed hgate hcoids hopen (by simpa using h1) h2 h3 (by simpa using h4)
      (hmove (by simpa [quoteWaits, h1] using h2)
      (by simpa only [List.isEmpty_iff] using h3)) hcreate

/-- Resuming changes the pacing only. -/
theorem resumeQuoting_eq (st : V33State) :
    ∃ x : Pacing, (resumeQuoting st).st = { st with toPacing := x } := by
  obtain ⟨x, hx⟩ := endHold_eq st
  unfold resumeQuoting
  dsimp only
  rw [hx]
  split_ifs
  · exact ⟨{ x with lastStanddownReason := none, standDownReason := none }, rfl⟩
  · exact ⟨x, rfl⟩

/-- A convergence is a run of small operations. The permits are asked for only where the
code clears the ladder and where it creates. -/
theorem via_converge (hcoids : (st.ladder.map RestOrder.clientOrderId).Nodup)
    (hclear : clearsLadder p st now = true → ∀ s, s.ladder = st.ladder → P.replace s)
    (hquote : P.quote)
    (hmove : quotes p st now = true → ¬(st.ladder = [] ∧ st.rollsInFlight = []) → P.move)
    (hcreate : ∀ s, st.ladder.length ≤ s.ladder.length →
      s.ladder.length < st.ladder.length + (slotsToCreate p st now).length → P.create s) :
    (converge p st now).Via (LadderOp p now P) st := by
  unfold converge
  split_ifs with h1 h2
  · exact Run.single (LadderOp.drop st (by simp [latched, h1]))
  · refine via_of_step (LadderOp.latch st { st.toLatches with stoodDown := true }
      ⟨id, id, id, fun _ => rfl⟩) ?_
    have hdrop := @LadderOp.drop p now P { st with stoodDown := true }
      (by simp [latched])
    rw [cancelAll_acts, cancelAll_st] at hdrop
    refine Outcome.Via.andThen (Run.single ?_) (via_standdown _)
    rw [mapSt_acts, mapSt_st, cancelAll_acts, cancelAll_st]
    exact hdrop
  · have hon : convergesOn p st now = true := by
      simp only [convergesOn, Bool.and_eq_true, Bool.not_eq_true']
      exact ⟨by simpa using h1, by simpa using h2⟩
    split
    · exact via_quiet _ _
    · next reason hgate =>
      exact via_noQuoteStep reason fun hh => hclear (by simp [clearsLadder, hon, hgate, hh])
    · next nTop hgate =>
      obtain ⟨x, hx⟩ := resumeQuoting_eq st
      refine Outcome.Via.andThen (r := resumeQuoting st) ?_ ?_
      · have hreports : ∀ a ∈ (resumeQuoting st).acts, a.kind.isReport = true := by
          simp only [resumeQuoting]
          split_ifs <;> simp [standdownAction, ActionKind.isReport]
        have hop := @LadderOp.report p now P st x _ hreports
        rw [← hx] at hop
        exact Run.single hop
      · have hslots : slotsToCreate p st now = quoteSlots p nTop now (resumeQuoting st).st := by
          simp [slotsToCreate, hon, hgate]
        rw [hslots] at hcreate
        rw [hx] at hcreate ⊢
        exact via_quoteStep _ hgate hcoids (by simpa using h1)
          (fun hm => hclear
            (by simp only [clearsLadder, hon, hgate, Bool.true_and]; exact hm) _ rfl)
          hquote (fun hw => hmove (by
            have hw' : quoteWaits st = false := hw
            simp [quotes, hon, hgate, hw'])) hcreate

/-- A convergence that does not quote creates nothing. -/
theorem slotsToCreate_of_not_quotes (h : quotes p st now = false) :
    slotsToCreate p st now = [] := by
  unfold slotsToCreate
  split_ifs with hon
  · split
    · next nTop hgate =>
      obtain ⟨x, hx⟩ := resumeQuoting_eq st
      have hwaits : quoteWaits st = true := by simpa [quotes, hon, hgate] using h
      rw [hx]
      exact if_pos hwaits
    · rfl
  · rfl

/-- A convergence that quotes does not clear the ladder. -/
theorem clearsLadder_of_quotes (h : quotes p st now = true) : clearsLadder p st now = false := by
  unfold quotes at h
  simp only [Bool.and_eq_true, Bool.not_eq_true'] at h
  obtain ⟨⟨hon, hwaits⟩, hgate⟩ := h
  unfold clearsLadder
  split at hgate
  · next nTop hg =>
    rw [hg, hon]
    simp only [quoteWaits, Bool.or_eq_false_iff] at hwaits
    simpa using hwaits.1
  · simp at hgate

end Converge

end Pilot.V33
