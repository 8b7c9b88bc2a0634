import Mathlib.Data.List.Pairwise
import Pilot.V33.CancelGate

/-!
# One order at a price

The price of a cancelled order is held until its cancel resolves, and nothing is placed on
or amended to a held price. A fill of the order releases its price, whether or not lots of
the order are left, and the fallback of a failed amend does not look at the held prices:
the law asks that fills of a leaving order complete it and that the fallback's price is
free.
-/

namespace Pilot.V33

/-! ### The orders still leaving -/

/-- The fill names the order, by its venue id or by its client order id. -/
def fillNames (e : Fill) (o : RestOrder) : Bool :=
  (e.orderId.isSome && o.orderId == e.orderId) || o.clientOrderId == e.clientOrderId

/-- The confirm names the order, by its venue id or by its client order id. -/
def cancelNames (e : OrderCancelled) (o : RestOrder) : Bool :=
  (e.orderId.isSome && o.orderId == e.orderId) || e.clientOrderId == some o.clientOrderId

/-- What is left of a leaving order after a fill, if any lots are. -/
def leftOf (e : Fill) (o : RestOrder) : Option RestOrder :=
  if fillNames e o then
    if o.count ≤ e.count then none else some { o with count := o.count - e.count }
  else some o

/-- The orders still leaving once an event has been read. -/
def readLeaving (g : List RestOrder) (ev : Event) : List RestOrder :=
  match ev with
  | .orderCancelled e => g.filter fun o => !cancelNames e o
  | .fill e => g.filterMap (leftOf e)
  | _ => g

/-- The orders still leaving after one more action: a cancelled order starts to leave. -/
def noteLeaving (g : List RestOrder) (a : V33Action) : List RestOrder :=
  if a.kind.isCancel then g ++ a.rest.toList else g

/-- A create or an amend goes to a price at which no order is leaving. -/
def ClearOfLeaving (g : List RestOrder) (a : V33Action) : Prop :=
  a.kind.isPlace = true ∨ a.kind.isAmend = true → ∀ o ∈ g, a.price ≠ some o.price

instance (g : List RestOrder) (a : V33Action) : Decidable (ClearOfLeaving g a) :=
  inferInstanceAs (Decidable (_ ∨ _ → _))

/-! ### What the law asks -/

/-- No order that leaves without a venue id stands at one of the prices. -/
def UnnamedOff (g : List RestOrder) (prices : List ℚ) : Prop :=
  ∀ o ∈ g, o.orderId = none → o.price ∉ prices

instance (g : List RestOrder) (prices : List ℚ) : Decidable (UnnamedOff g prices) :=
  inferInstanceAs (Decidable (∀ o ∈ g, _ → _))

/-- The prices of the placeable open slots under the ladder top. -/
def slotPrices (p : V33Params) (st : V33State) : List ℚ :=
  match st.nTop with
  | none => []
  | some nTop => (placeableOpenSlots p st nTop).map Prod.snd

/-- The event releases no price early and puts no order on a held price: a fill that names a
leaving order's venue id completes it, an acknowledged id is new, and the price of a
fallback that re-places is not held. -/
def ReleasesLate (p : V33Params) (st : V33State) (g : List RestOrder) (ev : Event) : Prop :=
  match ev with
  | .fill e => ∀ o ∈ readLeaving g ev, e.orderId.isSome → o.orderId ≠ e.orderId
  | .orderAck e =>
    (∃ o ∈ st.ladder, o.clientOrderId = e.clientOrderId ∧ o.pending = true) →
      some e.orderId ∉ st.ladder.map RestOrder.orderId ∧
        st.cancelPendingPx.contains e.orderId = false
  | .orderCancelled e =>
    ∀ rp ∈ rollOfCancel st e, Replaces p (reportCancel p st e e.serverTs).st rp e.serverTs →
      fallbackPrice st rp ∉ heldCancelPrices (clearCancelPending st e.orderId) ∧
        UnnamedOff (readLeaving g ev) [fallbackPrice st rp]
  | _ => True

/-- When the convergence quotes, no order that leaves without a venue id stands at the price of
a placeable slot. -/
def QuotesClear (p : V33Params) (st : V33State) (g : List RestOrder) (ev : Event) : Prop :=
  ∀ r ∈ beforeConverge p st ev, quotes p r.st ev.serverTs = true →
    UnnamedOff (r.acts.foldl noteLeaving (readLeaving g ev)) (slotPrices p r.st)

/-- What the law asks of an event. -/
def SlotSafe (p : V33Params) (w : V33State × List RestOrder) (ev : Event) : Prop :=
  ReleasesLate p w.1 w.2 ev ∧ QuotesClear p w.1 w.2 ev

instance (p : V33Params) (st : V33State) (g : List RestOrder) :
    ∀ ev, Decidable (ReleasesLate p st g ev)
  | .fill e => inferInstanceAs (Decidable (∀ o ∈ _, e.orderId.isSome = true → _))
  | .orderAck _ => inferInstanceAs (Decidable ((∃ o ∈ st.ladder, _ ∧ _) → _ ∧ _))
  | .orderCancelled e => inferInstanceAs (Decidable (∀ rp ∈ rollOfCancel st e, _ → _))
  | .bookUpdate _ | .trade _ | .orderAmended _ | .clockTick _ => .isTrue trivial

instance (p : V33Params) (st : V33State) (g : List RestOrder) (ev : Event) :
    Decidable (QuotesClear p st g ev) :=
  inferInstanceAs (Decidable (∀ r ∈ beforeConverge p st ev, _ → _))

instance (p : V33Params) (w : V33State × List RestOrder) (ev : Event) :
    Decidable (SlotSafe p w ev) :=
  inferInstanceAs (Decidable (_ ∧ _))

/-! ### The held prices -/

/-- Every order that leaves under a venue id holds its price, and the ids of the ladder are
different and hold none. -/
structure Holds (st : V33State) (g : List RestOrder) : Prop where
  distinct : (st.ladder.map RestOrder.orderId).Pairwise fun a b => ∀ i, a = some i → b ≠ some i
  unheld : ∀ i, some i ∈ st.ladder.map RestOrder.orderId → st.cancelPendingPx.get? i = none
  held : ∀ o ∈ g, ∀ i, o.orderId = some i → st.cancelPendingPx.get? i = some o.price

/-- The core has latched, or every leaving order holds its price. -/
def HoldsOk (st : V33State) (g : List RestOrder) : Prop := latched st = true ∨ Holds st g

section Slots

variable {p : V33Params} {now : ℚ} {P : Permit} {st st' : V33State} {acts : List V33Action}
  {g : List RestOrder}

/-- A cancelled order starts to leave. -/
theorem noteLeaving_cancelAction (st : V33State) (o : RestOrder) :
    noteLeaving g (cancelAction st o) = g ++ [o] := by
  rw [noteLeaving, if_pos (isCancel_cancelAction st o)]
  rfl

theorem foldl_noteLeaving (l : List RestOrder) (g : List RestOrder) :
    (l.map (cancelAction st)).foldl noteLeaving g = g ++ l := by
  induction l generalizing g with
  | nil => simp
  | cons o l ih =>
    rw [List.map_cons, List.foldl_cons, noteLeaving_cancelAction, ih]
    simp

/-- What is no cancel leaves the leaving orders alone. -/
theorem noteLeaving_of_not_cancel {a : V33Action} (h : a.kind.isCancel = false) :
    noteLeaving g a = g := by
  simp [noteLeaving, h]

/-- A create or an amend is no cancel. -/
theorem isCancel_of_quote {k : ActionKind} (h : k.isPlace = true ∨ k.isAmend = true) :
    k.isCancel = false := by
  cases k <;> simp [ActionKind.isPlace, ActionKind.isAmend] at h <;> rfl

theorem noteLeaving_ignored {a : V33Action} (h : a.kind.isReport = true ∨ a.kind.isWing = true) :
    noteLeaving g a = g :=
  noteLeaving_of_not_cancel (kind_ignored h).2

/-- What neither creates nor amends is clear of the leaving orders. -/
theorem clearOfLeaving_of_kind {a : V33Action}
    (h : a.kind.isReport = true ∨ a.kind.isWing = true ∨ a.kind.isCancel = true) :
    ClearOfLeaving g a := by
  intro hquote
  cases hk : a.kind <;>
    simp [hk, ActionKind.isReport, ActionKind.isWing, ActionKind.isCancel, ActionKind.isPlace,
      ActionKind.isAmend] at h hquote

/-- Holding survives when orders only leave and no price is released. -/
theorem Holds.shrink (h : Holds st g)
    (hladder : (st'.ladder.map RestOrder.orderId).Sublist (st.ladder.map RestOrder.orderId))
    (hpx : st'.cancelPendingPx = st.cancelPendingPx) : Holds st' g := by
  refine ⟨h.distinct.sublist hladder, fun i hi => ?_, fun o ho i hi => ?_⟩
  · rw [hpx]
    exact h.unheld i (hladder.subset hi)
  · rw [hpx]
    exact h.held o ho i hi

/-- Orders with the same venue id are the same order. -/
theorem Holds.unique (h : Holds st g) {o o' : RestOrder} (ho : o ∈ st.ladder) (ho' : o' ∈ st.ladder)
    {i : String} (hi : o.orderId = some i) (hi' : o'.orderId = some i) : o = o' := by
  by_contra hne
  have hsymm : Std.Symm fun a b : RestOrder => ∀ i, a.orderId = some i → b.orderId ≠ some i :=
    ⟨fun a b hab i hb ha => hab i ha hb⟩
  exact (List.pairwise_map.mp h.distinct).forall ho ho' hne i hi hi'

/-- Arming a list of orders holds the price of each. -/
theorem get?_foldl_armIn {l : List RestOrder} {d : Dict String ℚ} {i : String} {price : ℚ}
    (hprice : ∀ o ∈ l, o.orderId = some i → o.price = price)
    (h : (∃ o ∈ l, o.orderId = some i) ∨ d.get? i = some price) :
    (l.foldl armIn d).get? i = some price := by
  induction l generalizing d with
  | nil => simpa using h
  | cons o l ih =>
    rw [List.foldl_cons]
    refine ih (fun o' ho' => hprice o' (by simp [ho'])) ?_
    cases hid : o.orderId with
    | none =>
      rcases h with ⟨o', ho', hi⟩ | hd
      · rcases List.mem_cons.mp ho' with rfl | ho'
        · rw [hid] at hi
          exact absurd hi (by simp)
        · exact Or.inl ⟨o', ho', hi⟩
      · exact Or.inr (by simpa [armIn, hid] using hd)
    | some j =>
      by_cases hj : j = i
      · subst hj
        right
        simp [armIn, hid, hprice o (by simp) hid]
      · rcases h with ⟨o', ho', hi⟩ | hd
        · rcases List.mem_cons.mp ho' with rfl | ho'
          · exact absurd (Option.some.inj (hid.symm.trans hi)) hj
          · exact Or.inl ⟨o', ho', hi⟩
        · have hi : ¬i = j := fun h => hj h.symm
          exact Or.inr (by simpa [armIn, hid, Dict.get?_set, hi] using hd)

/-- A cancelled order holds its price. -/
theorem Holds.cancelOne (h : Holds st g) {o : RestOrder} (ho : o ∈ st.ladder)
    (hladder : st'.ladder = dropOrder st.ladder o.clientOrderId)
    (hpx : st'.cancelPendingPx = armIn st.cancelPendingPx o) : Holds st' (g ++ [o]) := by
  have hsub : st'.ladder.Sublist st.ladder := hladder ▸ dropOrder_sublist _ _
  refine ⟨h.distinct.sublist (hsub.map _), fun i hi => ?_, fun x hx i hi => ?_⟩
  · obtain ⟨x, hx, hxi⟩ := List.mem_map.mp hi
    have hold := h.unheld i ((hsub.map _).subset hi)
    rw [hpx]
    cases hid : o.orderId with
    | none => simpa [armIn, hid] using hold
    | some j =>
      -- the cancelled order has left the ladder, so its id is another one
      have hne : i ≠ j := by
        rintro rfl
        have hsame := h.unique (hsub.subset hx) ho hxi hid
        rw [hladder] at hx
        simpa [hsame] using List.of_mem_filter hx
      simpa [armIn, hid, Dict.get?_set, hne] using hold
  · rw [hpx]
    have harm := @get?_foldl_armIn [o] st.cancelPendingPx i x.price
    simp only [List.mem_singleton, forall_eq, exists_eq_left, List.foldl_cons,
      List.foldl_nil] at harm
    rcases List.mem_append.mp hx with hx | hx
    · have hheld := h.held x hx i hi
      refine harm (fun hoi => ?_) (Or.inr hheld)
      rw [h.unheld i (hoi ▸ List.mem_map_of_mem ho)] at hheld
      exact absurd hheld (by simp)
    · obtain rfl := List.mem_singleton.mp hx
      exact harm (fun _ => rfl) (Or.inl hi)

/-- The orders of a cancel-all hold their prices. -/
theorem Holds.cancelAll (h : Holds st g) (hladder : st'.ladder = [])
    (hpx : st'.cancelPendingPx = st.ladder.foldl armIn st.cancelPendingPx) :
    Holds st' (g ++ st.ladder) := by
  refine ⟨by simp [hladder], by simp [hladder], fun x hx i hi => ?_⟩
  rw [hpx]
  rcases List.mem_append.mp hx with hx | hx
  · have hheld := h.held x hx i hi
    refine get?_foldl_armIn (fun o ho hoi => ?_) (Or.inr hheld)
    rw [h.unheld i (hoi ▸ List.mem_map_of_mem ho)] at hheld
    exact absurd hheld (by simp)
  · exact get?_foldl_armIn (fun o ho hoi => by rw [h.unique ho hx hoi hi]) (Or.inl ⟨x, hx, hi⟩)

/-- A created order has no venue id yet. -/
theorem Holds.placeOne (h : Holds st g) (price : ℚ) (rung : ℤ) (eRung count : ℚ) :
    Holds (placeOne p st price rung eRung now count).st g := by
  refine ⟨?_, fun i hi => h.unheld i ?_, h.held⟩
  · simp only [V33.placeOne, mintCoid, List.map_append, List.map_cons, List.map_nil]
    refine List.pairwise_append.mpr ⟨h.distinct, List.pairwise_singleton _ _, ?_⟩
    intro a _ b hb i _
    simp [List.mem_singleton.mp hb]
  · simpa [V33.placeOne, mintCoid] using hi

/-- Every small ladder operation holds the prices of what it cancels. -/
theorem Holds.op (hop : LadderOp p now P st acts st') (h : Holds st g) :
    Holds st' (acts.foldl noteLeaving g) := by
  cases hop with
  | report x acts reports =>
    rw [foldl_ignored fun a ha g => noteLeaving_ignored (Or.inl (reports a ha))]
    exact h.shrink (List.Sublist.refl _) rfl
  | drop =>
    rw [cancelAll_acts, foldl_noteLeaving, cancelAll_st]
    exact h.cancelAll rfl rfl
  | clear =>
    rw [cancelAllThenReplace_acts, foldl_noteLeaving, cancelAllThenReplace_st, cancelAll_st]
    exact h.cancelAll rfl rfl
  | create nTop m price =>
    have hacts : (placeSlot p st m price now).acts.foldl noteLeaving g = g :=
      noteLeaving_of_not_cancel (isCancel_of_quote (Or.inl (isPlace_placeAction _ _ _)))
    rw [hacts]
    exact h.placeOne _ _ _ _
  | roll o nTop m price =>
    rw [foldl_ignored fun a ha g => noteLeaving_of_not_cancel
      (isCancel_of_quote (Or.inr (isAmend_emitRoll o price m a ha)))]
    exact h.shrink (List.Sublist.refl _) rfl
  | shrink o movable =>
    unfold shrinkOne
    dsimp only
    rw [retainCancelled_eq, List.foldl_cons, noteLeaving_cancelAction]
    exact h.cancelOne movable.mem rfl rfl
  | stallCancel coid =>
    unfold ptCancelRung
    split
    · exact h
    · next o ho =>
      dsimp only
      rw [retainCancelled_eq, List.foldl_cons, noteLeaving_cancelAction]
      obtain ⟨hmem, hcoid⟩ := find?_mem_and ho
      obtain rfl : o.clientOrderId = coid := by simpa using hcoid
      exact h.cancelOne hmem rfl rfl
  | _ => exact h.shrink (List.Sublist.refl _) rfl

/-- A latched core stays latched through every small ladder operation. -/
theorem latched_ladderOp (hop : LadderOp p now P st acts st') (h : latched st = true) :
    latched st' = true := (@latched_op p now P st st' acts false [] hop h).2

/-- The law of the held prices outside the convergence. -/
theorem holdsLaw (p : V33Params) : LadderLaw p noteLeaving ClearOfLeaving HoldsOk where
  frame hframe h := by
    refine h.imp (fun hl => (latched_congr hframe.latches).trans hl) fun hh => hh.shrink ?_ ?_
    · rw [congrArg Ladder.ladder hframe.ladder]
    · exact congrArg Ladder.cancelPendingPx hframe.ladder
  ignored _ _ ha := ⟨clearOfLeaving_of_kind (ha.imp id Or.inl), noteLeaving_ignored ha⟩
  op hop h := by
    refine ⟨allAlong_of_forall fun a ha _ => ?_, h.imp (latched_ladderOp hop) (Holds.op hop)⟩
    exact clearOfLeaving_of_kind ((hop.kind_of_still id id a ha).imp id Or.inr)
  record r _ h := h.imp id fun hh =>
    hh.shrink (map_reduceOrder_sublist _ _ _ _ fun _ _ => rfl) rfl
  seen _ _ h := h.imp id fun hh => hh.shrink (List.Sublist.refl _) rfl

/-! ### The convergence -/

/-- The prices a slot may be quoted at follow from the quote and the open slots. -/
theorem mem_slotPrices {s : V33State} (hquote : s.toQuote = st.toQuote)
    (hslots : s.marginState = st.marginState) {nTop price : ℚ} {m : ℕ}
    (hg : SlotGuard p now s nTop m price) : price ∈ slotPrices p st := by
  have htop : st.nTop = some nTop := by
    rw [← congrArg Quote.nTop hquote]
    exact (quoting_of_gate hg.gate).top
  have hcap : s.cap = st.cap := congrArg Quote.cap hquote
  have hslot := hg.slot
  unfold placeableOpenSlots openSlots at hslot
  rw [hslots, hcap] at hslot
  unfold slotPrices
  rw [htop]
  exact List.mem_map_of_mem hslot

/-- A slot that may be quoted is clear of the leaving orders. -/
theorem Holds.clear (h : Holds st g) {nTop price : ℚ} {m : ℕ} {prices : List ℚ}
    (hg : SlotGuard p now st nTop m price) (hoff : UnnamedOff g prices) (hmem : price ∈ prices) :
    ∀ o ∈ g, price ≠ o.price := by
  rintro o ho rfl
  cases hid : o.orderId with
  | none => exact hoff o ho hid hmem
  | some i => exact hg.unheld (Dict.mem_values_of_get? (h.held o ho i hid))

/-- While the convergence quotes: prices are held, the slots stand, and no order leaving without
a venue id is at one of them. -/
structure QuoteOk (p : V33Params) (start st : V33State) (g : List RestOrder) : Prop where
  holds : Holds st g
  quote : st.toQuote = start.toQuote
  slots : st.marginState = start.marginState
  off : UnnamedOff g (slotPrices p start)

/-- The slots and the quote survive every operation but a cancel-all and a stall cancel. -/
theorem slots_op (hop : LadderOp p now P st acts st') (hstall : ¬P.stall) :
    st'.marginState = st.marginState := by
  cases hop with
  | drop => rw [cancelAll_st]
  | clear => rw [cancelAllThenReplace_st, cancelAll_st]
  | shrink o =>
    unfold shrinkOne
    dsimp only
    rw [retainCancelled_eq]
  | stallCancel coid covered permitted => exact absurd permitted hstall
  | _ => rfl

/-- An operation of a quoting convergence goes to no price an order is leaving. -/
theorem QuoteOk.op {start : V33State} (hop : LadderOp p now P st acts st') (hstall : ¬P.stall)
    (hclear : ¬P.replace st) (h : latched st = true ∨ QuoteOk p start st g) :
    AllAlong noteLeaving ClearOfLeaving g acts ∧
      (latched st' = true ∨ QuoteOk p start st' (acts.foldl noteLeaving g)) := by
  have hframe := hop.frame.quote
  have hslots := slots_op hop hstall
  have hkeep : ∀ {g'}, Holds st' g' → UnnamedOff g' (slotPrices p start) → QuoteOk p start st g →
      QuoteOk p start st' g' := fun hh hoff hq =>
    ⟨hh, hframe.trans hq.quote, hslots.trans hq.slots, hoff⟩
  -- on a slot nothing is latched, and its price is one of those the leaving orders are off
  have hquote : ∀ {nTop price : ℚ} {m : ℕ} {a : V33Action}, SlotGuard p now st nTop m price →
      a.price = some price → QuoteOk p start st g ∧ ClearOfLeaving g a := by
    intro nTop price m a hg ha
    have hq := h.resolve_left (by simp [latched_of_slot hg])
    refine ⟨hq, fun _ o ho heq => ?_⟩
    rw [ha] at heq
    exact hq.holds.clear hg hq.off (mem_slotPrices hq.quote hq.slots hg) o ho
      (Option.some.inj heq)
  have hholds := fun hq : QuoteOk p start st g => Holds.op hop hq.holds
  cases hop with
  | report x acts reports =>
    refine ⟨allAlong_of_forall fun a ha _ => clearOfLeaving_of_kind (Or.inl (reports a ha)), ?_⟩
    rw [foldl_ignored fun a ha g => noteLeaving_ignored (Or.inl (reports a ha))] at hholds ⊢
    exact h.imp id fun hq => hkeep (hholds hq) hq.off hq
  | drop done =>
    refine ⟨allAlong_of_forall fun a ha _ => ?_, Or.inl (by rw [cancelAll_st]; exact done)⟩
    rw [cancelAll_acts] at ha
    obtain ⟨o, -, rfl⟩ := List.mem_map.mp ha
    exact clearOfLeaving_of_kind (Or.inr (Or.inr (isCancel_cancelAction st o)))
  | clear permitted => exact absurd permitted hclear
  | create nTop m price guard =>
    obtain ⟨hq, hfree⟩ := @hquote nTop price m
      (placeAction p (mintCoid st).2 (mintCoid st).1 price (qCount (weightOfMargin p m))) guard rfl
    refine ⟨⟨hfree, trivial⟩, Or.inr (hkeep (hholds hq) ?_ hq)⟩
    have hacts : (placeSlot p st m price now).acts.foldl noteLeaving g = g :=
      noteLeaving_of_not_cancel (isCancel_of_quote (Or.inl (isPlace_placeAction _ _ _)))
    rw [hacts]
    exact hq.off
  | roll o nTop m price guard =>
    have hprice : ∀ a ∈ (emitRoll p st o price m now).acts, a.price = some price := by
      intro a ha
      obtain rfl := List.mem_singleton.mp ha
      rfl
    have hamends := @isAmend_emitRoll p now st o price m
    refine ⟨?_, ?_⟩
    · exact ⟨(hquote guard (hprice _ (List.mem_singleton_self _))).2, trivial⟩
    · obtain ⟨hq, -⟩ := hquote guard (hprice _ (List.mem_singleton_self _))
      rw [foldl_ignored fun a ha g => noteLeaving_of_not_cancel
        (isCancel_of_quote (Or.inr (hamends a ha)))] at hholds ⊢
      exact Or.inr (hkeep (hholds hq) hq.off hq)
  | shrink o movable =>
    refine ⟨⟨clearOfLeaving_of_kind (Or.inr (Or.inr (isCancel_cancelAction st o))), trivial⟩, ?_⟩
    refine h.imp (fun hl => ?_) fun hq => hkeep (hholds hq) ?_ hq
    · unfold shrinkOne
      dsimp only
      rw [retainCancelled_eq]
      exact hl
    · have hacts : (shrinkOne o st).acts.foldl noteLeaving g = g ++ [o] :=
        noteLeaving_cancelAction st o
      rw [hacts]
      intro x hx hid
      rcases List.mem_append.mp hx with hx | hx
      · exact hq.off x hx hid
      · obtain rfl := List.mem_singleton.mp hx
        have := movable.acked
        simp [hid] at this
  | stallCancel coid covered permitted => exact absurd permitted hstall
  | latch x le =>
    exact ⟨trivial, h.imp (latched_of_le le) fun hq => hkeep (hholds hq) hq.off hq⟩
  | _ => exact ⟨trivial, h.imp id fun hq => hkeep (hholds hq) hq.off hq⟩

/-- An operation of a convergence that does not quote neither creates nor amends. -/
theorem HoldsOk.op_still (hop : LadderOp p now P st acts st') (hcreate : ¬P.create st)
    (hmove : ¬P.move) (h : HoldsOk st g) :
    AllAlong noteLeaving ClearOfLeaving g acts ∧ HoldsOk st' (acts.foldl noteLeaving g) := by
  exact ⟨allAlong_of_forall fun a ha _ => clearOfLeaving_of_kind
    ((hop.kind_of_still hcreate hmove a ha).imp id Or.inr),
    h.imp (latched_ladderOp hop) (Holds.op hop)⟩

/-! ### Events -/

/-- What is left of the leaving orders keeps ids and prices. -/
theorem mem_readLeaving {ev : Event} {o : RestOrder} (h : o ∈ readLeaving g ev) :
    ∃ o' ∈ g, o'.orderId = o.orderId ∧ o'.price = o.price := by
  cases ev with
  | orderCancelled e => exact ⟨o, List.mem_of_mem_filter h, rfl, rfl⟩
  | fill e =>
    obtain ⟨o', ho', hleft⟩ := List.mem_filterMap.mp h
    unfold leftOf at hleft
    split_ifs at hleft
    · obtain rfl := Option.some.inj hleft
      exact ⟨o', ho', rfl, rfl⟩
    · obtain rfl := Option.some.inj hleft
      exact ⟨o', ho', rfl, rfl⟩
  | _ => exact ⟨o, h, rfl, rfl⟩

/-- Reading an event keeps what is held. -/
theorem Holds.read (h : Holds st g) (ev : Event) : Holds st (readLeaving g ev) := by
  refine ⟨h.distinct, h.unheld, fun o ho i hi => ?_⟩
  obtain ⟨o', ho', hid, hprice⟩ := mem_readLeaving ho
  rw [← hprice]
  exact h.held o' ho' i (hid.trans hi)

/-- A price is released once no order with its venue id is leaving. -/
theorem Holds.clearCancelPending (h : Holds st g) (oid : Option String)
    (hgone : ∀ o ∈ g, oid.isSome → o.orderId ≠ oid) : Holds (clearCancelPending st oid) g := by
  unfold V33.clearCancelPending
  cases oid with
  | none => exact h
  | some j =>
    refine ⟨h.distinct, fun i hi => ?_, fun o ho i hi => ?_⟩
    · rw [Dict.get?_pop, h.unheld i hi, ite_self]
    · have hne : i ≠ j := by
        rintro rfl
        exact hgone o ho rfl hi
      rw [Dict.get?_pop, if_neg hne]
      exact h.held o ho i hi

theorem Holds.recompute (h : Holds st g) : Holds (recomputeContext p st now) g := by
  obtain ⟨q, x, heq, -⟩ := recomputeContext_eq p st now
  rw [heq]
  refine h.shrink ?_ rfl
  rw [List.map_map]
  exact (List.map_congr_left fun o _ => refresh_orderId _ o) ▸ List.Sublist.refl _

/-- A new venue id keeps the ids of the ladder different. -/
theorem Holds.applyAck (h : Holds st g) {ev : OrderAck}
    (hnew : (∃ o ∈ st.ladder, o.clientOrderId = ev.clientOrderId ∧ o.pending = true) →
      some ev.orderId ∉ st.ladder.map RestOrder.orderId ∧
        st.cancelPendingPx.contains ev.orderId = false) : Holds (applyAck st ev) g := by
  unfold V33.applyAck
  split_ifs with hany
  · obtain ⟨o, ho, hnamed⟩ := List.any_eq_true.mp hany
    simp only [Bool.and_eq_true, beq_iff_eq] at hnamed
    obtain ⟨hfresh, hfree⟩ := hnew ⟨o, ho, hnamed⟩
    have hnone : st.cancelPendingPx.get? ev.orderId = none := by
      cases hget : st.cancelPendingPx.get? ev.orderId with
      | none => rfl
      | some price => simp [Dict.contains, hget] at hfree
    obtain ⟨x, hx⟩ : ∃ x, st.ladder.find? (fun o => o.clientOrderId == ev.clientOrderId) = some x :=
      Option.isSome_iff_exists.mp (List.find?_isSome.mpr ⟨o, ho, by simp [hnamed.1]⟩)
    obtain ⟨front, back, heq, hrep, -⟩ := replaceFirst_split
      (f := fun o : RestOrder =>
        { o with orderId := some ev.orderId, live := true, pending := false }) hx
    have hdistinct := h.distinct
    have hunheld := h.unheld
    rw [heq] at hdistinct hunheld hfresh
    simp only [List.map_append, List.map_cons, List.mem_append, List.mem_cons, not_or]
      at hdistinct hunheld hfresh
    refine ⟨?_, fun i hi => ?_, h.held⟩
    · simp only [replaceOrder, hrep, List.map_append, List.map_cons]
      rw [List.pairwise_append, List.pairwise_cons] at hdistinct ⊢
      obtain ⟨hfront, ⟨-, hback⟩, hcross⟩ := hdistinct
      refine ⟨hfront, ⟨fun b hb i hi hbi => ?_, hback⟩, fun a ha b hb i hai hbi => ?_⟩
      · obtain rfl := Option.some.inj hi
        exact hfresh.2.2 (hbi ▸ hb)
      · rcases List.mem_cons.mp hb with rfl | hb
        · obtain rfl := Option.some.inj hbi
          exact hfresh.1 (hai ▸ ha)
        · exact hcross a ha b (List.mem_cons_of_mem _ hb) i hai hbi
    · simp only [replaceOrder, hrep, List.map_append, List.map_cons, List.mem_append,
        List.mem_cons] at hi
      rcases hi with hi | hi | hi
      · exact hunheld i (Or.inl hi)
      · obtain rfl := Option.some.inj hi
        exact hnone
      · exact hunheld i (Or.inr (Or.inr hi))
  · exact h

/-- Dropping an order and its roll holds what was held. -/
theorem Holds.dropMover (h : Holds st g) (coid : String) :
    Holds { dropRoll st coid with ladder := dropOrder (dropRoll st coid).ladder coid } g :=
  h.shrink ((dropOrder_sublist _ _).map _) rfl

/-- The fallback of a failed amend goes to no price an order is leaving. -/
theorem HoldsOk.rollFallback (h : HoldsOk st g) (rp : RollPending)
    (hfree : Replaces p st rp now → ∀ o ∈ g, fallbackPrice st rp ≠ o.price) :
    (rollFallback p st rp now).Keeps noteLeaving ClearOfLeaving HoldsOk g := by
  have hdropped : HoldsOk (withoutMover st rp) g := h.imp id fun hh => hh.dropMover rp.oldCoid
  rcases rollFallback_cases p st rp now with ⟨hplaces, nTop, -, heq⟩ | ⟨-, heq⟩
  · have hacts : ∀ s price rung eRung lots,
        (placeOne p s price rung eRung now lots).acts.foldl noteLeaving g = g := fun _ _ _ _ _ =>
      noteLeaving_of_not_cancel (isCancel_of_quote (Or.inl (isPlace_placeAction _ _ _)))
    rw [heq]
    refine ⟨⟨fun _ o ho hprice => ?_, trivial⟩, ?_⟩
    · exact hfree hplaces o ho (Option.some.inj hprice)
    · rw [hacts]
      exact hdropped.imp id fun hh => hh.placeOne _ _ _ _
  · rw [heq]
    exact keeps_quiet hdropped

/-- A confirm releases a price only with the orders it names. -/
theorem Holds.readCancel (h : Holds st g) (e : OrderCancelled) :
    Holds (V33.clearCancelPending st e.orderId) (readLeaving g (.orderCancelled e)) := by
  refine (h.read _).clearCancelPending _ fun o ho hsome heq => ?_
  have hnamed := List.of_mem_filter ho
  simp [cancelNames, hsome, heq] at hnamed

/-- A cancel confirm holds what it does not release. -/
theorem HoldsOk.cancelPart (h : HoldsOk st g) (e : OrderCancelled)
    (hok : ReleasesLate p st g (.orderCancelled e)) :
    ((reportCancel p st e e.serverTs).andThen
      (finishCancel p (cancelledOrder (clearCancelPending st e.orderId) e) e e.serverTs)).Keeps
        noteLeaving ClearOfLeaving HoldsOk (readLeaving g (.orderCancelled e)) := by
  obtain ⟨d, hd⟩ := clearCancelPending_eq st e.orderId
  have hclear : HoldsOk (clearCancelPending st e.orderId) (readLeaving g (.orderCancelled e)) :=
    h.imp (fun hl => by rw [hd]; exact hl) fun hh => hh.readCancel e
  have hreport : (reportCancel p st e e.serverTs).Keeps noteLeaving ClearOfLeaving HoldsOk
      (readLeaving g (.orderCancelled e)) :=
    (holdsLaw p).law.bookLaw.reportCancel e (fun _ _ => trivial) hclear
  refine hreport.andThen_at ?_
  have hs := hreport.2
  unfold finishCancel
  split
  · next rp hrp =>
    refine HoldsOk.rollFallback hs rp fun hplaces => ?_
    have hunlatched : latched (reportCancel p st e e.serverTs).st = false := by
      simp [latched, hplaces.2.1, hplaces.2.2.1]
    -- without a latch the report cancelled nothing and released one price
    obtain ⟨-, hpx, hacts⟩ :=
      (@reportCancel_quiet p e.serverTs st e).resolve_left (by simp [hunlatched])
    have hleaves : Leaves st (reportCancel p st e e.serverTs).st := leaves_reportCancel e
    obtain ⟨hheld, hoff⟩ := hok rp (hleaves.rollOfCancel hrp) hplaces
    rw [foldl_ignored fun a ha g => noteLeaving_ignored (hacts a ha)] at hs ⊢
    rw [hleaves.fallbackPrice]
    rintro o ho heq
    have hh := hs.resolve_left (by simp [hunlatched])
    cases hid : o.orderId with
    | none => exact hoff o ho hid (by simp [heq])
    | some i =>
      refine hheld (heq ▸ Dict.mem_values_of_get? (k := i) ?_)
      rw [← hpx]
      exact hh.held o ho i hid
  · obtain ⟨l, n, heq, hl⟩ := dropCancelled_eq (reportCancel p st e e.serverTs).st e
      (cancelledOrder (clearCancelPending st e.orderId) e)
    refine (holdsLaw p).law.keeps_op (via_ptOnCancelConfirmed _) ?_
    rw [heq]
    exact hs.imp id fun hh => hh.shrink (hl.map _) rfl

/-- A confirmed amend keeps the venue ids. -/
theorem orderIds_confirmRoll (rp : RollPending) (newPrice : ℚ) :
    (confirmRoll p st rp newPrice now).ladder.map RestOrder.orderId =
      st.ladder.map RestOrder.orderId := by
  simp only [confirmRoll, replaceOrder]
  rw [map_replaceFirst_of_eq]
  intro o _
  rfl

/-- The inputs of an event that releases no price early hold the prices. -/
theorem holds_event (h : HoldsOk st g) (ev : Event) (hok : ReleasesLate p st g ev) :
    EventLaw p (fun _ => True) noteLeaving ClearOfLeaving HoldsOk st ev (readLeaving g ev) := by
  have hread : HoldsOk st (readLeaving g ev) := h.imp id fun hh => hh.read ev
  have hrecompute : ∀ {s now}, HoldsOk s (readLeaving g ev) →
      HoldsOk (recomputeContext p s now) (readLeaving g ev) := by
    intro s now hs
    obtain ⟨q, x, heq, -⟩ := recomputeContext_eq p s now
    refine hs.imp (fun hl => ?_) Holds.recompute
    rw [heq]
    exact hl
  refine ⟨fun _ _ => trivial, fun _ => hread, fun e _ => hrecompute ?_, fun now _ =>
    hrecompute hread,
    fun e he => ?_, fun e he => ?_, fun e he => ?_, fun e rp _ _ => ⟨?_, fun o _ => ?_⟩⟩
  · obtain ⟨b, hb⟩ := foldBook_eq st e
    rw [hb]
    exact hread.imp id fun hh => hh.shrink (List.Sublist.refl _) rfl
  · subst he
    refine hread.imp (fun hl => ?_) fun hh => hh.applyAck hok
    unfold applyAck
    split_ifs <;> exact hl
  · subst he
    obtain ⟨d, hd⟩ := clearCancelPending_eq st e.orderId
    refine hread.imp (fun hl => ?_) fun hh => hh.clearCancelPending _ hok
    rw [hd]
    exact hl
  · subst he
    exact h.cancelPart e hok
  · exact hread.imp id fun hh => hh.shrink (List.Sublist.refl _) rfl
  · refine hread.imp id fun hh => hh.shrink ?_ rfl
    rw [orderIds_confirmRoll]
    exact List.Sublist.refl _

/-- A safe decision goes to no price an order is leaving. -/
theorem HoldsOk.decide (hcoids : CoidsOk st) (h : HoldsOk st g) (ev : Event)
    (hok : SlotSafe p (st, g) ev) :
    (decideV33 p st ev).Keeps noteLeaving ClearOfLeaving HoldsOk (readLeaving g ev) := by
  have hevent := holds_event (p := p) h ev hok.1
  cases hr : beforeConverge p st ev with
  | none =>
    refine (holdsLaw p).law.decide hevent (fun _ _ hs => hs) fun r hr' => ?_
    rw [hr] at hr'
    exact absurd hr' (by simp)
  | some r =>
    have hbefore := (holdsLaw p).law.beforeConverge hevent hr
    rw [decideV33_of_beforeConverge hr]
    refine hbefore.andThen_at ?_
    have hdistinct := (hcoids.beforeConverge hr).nodup
    cases hquotes : quotes p r.st ev.serverTs with
    | false =>
      have hvia := @via_converge p ev.serverTs
        ⟨fun _ => True, fun _ => False, False, True, False⟩ _ hdistinct (fun _ _ _ => trivial)
        trivial (fun hq => by simp [hquotes] at hq) fun s hs hs' => by
          simp only [slotsToCreate_of_not_quotes hquotes, List.length_nil, add_zero] at hs'
          omega
      exact hvia.keeps hbefore.2 fun hop hI => hI.op_still hop id id
    | true =>
      have hvia := @via_converge p ev.serverTs
        ⟨fun _ => False, fun _ => True, True, True, False⟩ _ hdistinct
        (fun hc => by simp [clearsLadder_of_quotes hquotes] at hc) trivial (fun _ _ => trivial)
        (fun _ _ _ => trivial)
      have hstart := hbefore.2.imp id fun hh =>
        (⟨hh, rfl, rfl, hok.2 r hr hquotes⟩ : QuoteOk p r.st r.st _)
      refine Outcome.Keeps.imp (I := fun s g => latched s = true ∨ QuoteOk p r.st s g)
        (hvia.keeps hstart fun hop hI => QuoteOk.op hop id id hI) fun _ _ hI => ?_
      exact hI.imp id QuoteOk.holds

end Slots

/-! ### Runs -/

theorem HoldsOk.new {p : V33Params} {st : V33State} (h : IsNew p st) : HoldsOk st [] := by
  obtain ⟨_, _, _, _, _, _, rfl⟩ := h
  exact Or.inr ⟨by simp [V33State.new], by simp [V33State.new], by simp⟩

/-- Along every run that releases no price early, no create and no amend goes to a price at which
a cancelled order is still leaving. -/
theorem single_order_at_price (p : V33Params) (evs : List Event) (w : V33State × List RestOrder)
    (h : Watched p readLeaving noteLeaving [] (SlotSafe p) evs w) (ev : Event)
    (hok : SlotSafe p w ev) :
    AllAlong noteLeaving ClearOfLeaving (readLeaving w.2 ev) (decideV33 p w.1 ev).acts := by
  obtain ⟨hcoids, hholds⟩ : CoidsOk w.1 ∧ HoldsOk w.1 w.2 :=
    h.preserves (I := fun st g => CoidsOk st ∧ HoldsOk st g)
      (fun st hst => ⟨CoidsOk.new hst, HoldsOk.new hst⟩)
      (fun st g ev hst hok => ⟨hst.1.decide ev, (hst.2.decide hst.1 ev hok).2⟩)
  exact (hholds.decide hcoids ev hok).1

/-- Rungs are quoted from 58 cents. -/
def highFloor : V33Params := { samplePolicy with nMin := 58 / 100 }

/-- The upper rung is cancelled for want of a slot, and `count` of its lots fill first. -/
def fillWhileLeaving (count : ℚ) : List Event :=
  sampleOpening ++
    [centBook "B100" 41 43 1002,
      .fill ⟨some "v1", "c-1", count, some (59 / 100), .no, 1003, some "B100", some .ws⟩]

/-- The core and the leaving orders after that fill. -/
def filledWhileLeaving (count : ℚ) : V33State × List RestOrder :=
  (fillWhileLeaving count).foldl (nextWatched highFloor readLeaving noteLeaving)
    (sampleWindow highFloor, [])

set_option maxRecDepth 2000 in
/-- A fill that completes the leaving order lets its price be quoted again. -/
theorem single_order_at_price_sample :
    AllAlong noteLeaving ClearOfLeaving
      (readLeaving (filledWhileLeaving 1).2 (centBook "B100" 39 41 1004))
      (decideV33 highFloor (filledWhileLeaving 1).1 (centBook "B100" 39 41 1004)).acts :=
  single_order_at_price highFloor (fillWhileLeaving 1) (filledWhileLeaving 1)
    (watched_sample (by decide +kernel)) _ (by decide +kernel)

/-- Half of the leaving order fills: its price is released and another order is amended to it. -/
theorem amends_onto_leaving :
    ¬AllAlong noteLeaving ClearOfLeaving
      (readLeaving (filledWhileLeaving (1 / 2)).2 (centBook "B100" 39 41 1004))
      (decideV33 highFloor (filledWhileLeaving (1 / 2)).1 (centBook "B100" 39 41 1004)).acts := by
  decide +kernel

end Pilot.V33
