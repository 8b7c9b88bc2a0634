import Pilot.V33.QuoteSafety
import Pilot.V33.DecisionContext

/-!
# No rung is filled twice

A filled slot of the margin array stays filled. Creates and amends of the convergence go to
open slots. The fallback of a failed amend goes to the target of the amend, whose margin may
have drifted onto a filled slot while the amend was in flight.
-/

namespace Pilot.V33

/-- A bid at a price whose margin at the current top is an open slot. -/
def OnOpenRung (p : V33Params) (s : V33State) (a : V33Action) : Prop :=
  ∃ nTop n, ∃ m : ℕ, s.nTop = some nTop ∧ a.price = some n ∧ marginOf p nTop n = m ∧
    s.marginState[m]? = some .openOrder

/-- No cancel confirm of an order with an amend in flight re-places it at a price, the target
of the amend under the cap, whose margin at the current top is no open slot. -/
def FallbackOnOpenRung (p : V33Params) (st : V33State) (ev : Event) : Prop :=
  ∀ e, ev = .orderCancelled e → ∀ rp, rollOfCancel (reportCancel p st e e.serverTs).st e = some rp →
    Replaces p (reportCancel p st e e.serverTs).st rp e.serverTs →
      ∃ nTop, ∃ m : ℕ, st.nTop = some nTop ∧ marginOf p nTop (fallbackPrice st rp) = m ∧
        (reportCancel p st e e.serverTs).st.marginState[m]? = some .openOrder

/-- Filled slots stay filled, and every bid of the decision goes to an open slot. -/
structure NeverRefills (p : V33Params) (st : V33State) (ev : Event) : Prop where
  stays : ∀ later, KeepsFilled st.marginState (after p st later).marginState
  bids : ∀ a ∈ (decideV33 p st ev).acts, a.kind.isQuote = true →
    (∃ s, EmittedAt p st ev s a) ∧ ∀ s, EmittedAt p st ev s a → OnOpenRung p s a

section Refill

variable {p : V33Params} {now : ℚ} {P : Permit} {st st' : V33State} {acts : List V33Action}

/-! ### Filled slots -/

/-- The context leaves the margins alone. -/
theorem contextAt_marginState (p : V33Params) (st : V33State) (ev : Event) :
    (contextAt p st ev).marginState = st.marginState := by
  cases ev with
  | bookUpdate e =>
    obtain ⟨b, hb⟩ := foldBook_eq st e
    obtain ⟨q, x, heq, -⟩ := recomputeContext_eq p (withBook st (.bookUpdate e)) e.serverTs
    rw [contextAt, heq]
    show (stampStrikeFeed (foldBook st e) e).marginState = _
    rw [hb]
  | clockTick now =>
    obtain ⟨q, x, heq, -⟩ := recomputeContext_eq p st now
    rw [contextAt, heq]
  | _ => rfl

/-- A decision keeps filled margins filled. -/
theorem keepsFilled_decide (h : CoidsOk st) (ev : Event) :
    KeepsFilled st.marginState (decideV33 p st ev).st.marginState := by
  have hslots := (h.sameContext (p := p) ev).slots
  rw [contextAt_marginState] at hslots
  exact hslots

/-- A filled slot is filled in every later state. -/
theorem keepsFilled_after (h : CoidsOk st) (evs : List Event) :
    KeepsFilled st.marginState (after p st evs).marginState := by
  induction evs generalizing st with
  | nil => exact fun _ hm => hm
  | cons ev evs ih =>
    intro m hm
    exact ih (h.decide ev) m (keepsFilled_decide h ev m hm)

/-! ### Bids -/

/-- The margin of the price of a margin. -/
theorem marginOf_priceOfMargin (p : V33Params) (nTop : ℚ) (m : ℤ) :
    marginOf p nTop (priceOfMargin p nTop m) = m := by
  rw [marginOf, rungOf_priceOfMargin]
  omega

/-- The price of a placeable slot is on the slot. -/
theorem SlotGuard.onOpenRung {nTop price : ℚ} {m : ℕ} (h : SlotGuard p now st nTop m price)
    {a : V33Action} (hprice : a.price = some price) : OnOpenRung p st a := by
  obtain ⟨hslot, -⟩ := List.mem_filter.mp h.slot
  obtain ⟨k, hk, heq⟩ := List.mem_map.mp hslot
  obtain ⟨rfl, rfl⟩ := Prod.mk.inj heq
  obtain ⟨-, hopen⟩ := List.mem_filter.mp hk
  refine ⟨nTop, _, k, (quoting_of_gate h.gate).top, hprice, marginOf_priceOfMargin p nTop k, ?_⟩
  exact of_decide_eq_true hopen

/-- A small operation bids only on open slots. -/
theorem LadderOp.onOpenRung (hop : LadderOp p now P st acts st') {a : V33Action} (ha : a ∈ acts)
    (hquote : a.kind.isQuote = true) : OnOpenRung p st a := by
  cases hop.emits a ha with
  | report hkind => simp [isQuote_eq_false (Or.inl (Or.inl hkind))] at hquote
  | cancel o _ heq =>
    have hcancel := isCancel_cancelAction st o
    rw [← heq] at hcancel
    simp [isQuote_eq_false (Or.inr hcancel)] at hquote
  | create nTop m price guard hmem =>
    refine guard.onOpenRung ?_
    rw [List.mem_singleton.mp hmem]
    rfl
  | amend o nTop m price guard movable hmem =>
    refine guard.onOpenRung ?_
    rw [List.mem_singleton.mp hmem]
    rfl

/-- A fallback that re-places emits one create, at the target of its amend under the cap. -/
theorem rollFallback_price {rp : RollPending} {a : V33Action}
    (ha : a ∈ (rollFallback p st rp now).acts) :
    a.kind.isQuote = true ∧ a.price = some (fallbackPrice st rp) ∧ st.nTop.isSome := by
  rcases rollFallback_cases p st rp now with ⟨hplaces, nTop, -, heq⟩ | ⟨-, heq⟩
  · rw [heq, placeOne, List.mem_singleton] at ha
    subst ha
    refine ⟨?_, rfl, hplaces.1⟩
    simp only [placeAction, mk, twinKind]
    split <;> rfl
  · rw [heq] at ha
    cases ha

/-- A reported cancel leaves the context alone. -/
theorem reportCancel_sameContext (p : V33Params) (st : V33State) (e : OrderCancelled) :
    SameContext st (reportCancel p st e now).st :=
  ((contextLaw p st).law.bookLaw.reportCancel (g := ()) e (fun _ _ => trivial)
    (clearCancelPending_sameContext st _)).2

/-- The price of a fallback is read from the context. -/
theorem fallbackPrice_sameContext {s t : V33State} (h : SameContext s t) (rp : RollPending) :
    fallbackPrice t rp = fallbackPrice s rp := by
  rw [fallbackPrice, fallbackPrice, congrArg Quote.cap h.quote]

/-- The emissions of a decision are those of its convergence and its fallback. -/
theorem mem_acts_of_emittedAt {ev : Event} {s : V33State} {a : V33Action}
    (h : EmittedAt p st ev s a) : a ∈ (decideV33 p st ev).acts := by
  cases h with
  | converge r before pre acts post t reached step mem rest whole =>
    rw [decideV33_of_beforeConverge before, andThen_acts, whole]
    simp only [List.mem_append]
    tauto
  | fallback e event rp reported roll mem =>
    subst event
    subst reported
    show a ∈ (applyCancelled p st e e.serverTs).acts
    rw [applyCancelled, andThen_acts, andThen_acts]
    refine List.mem_append_left _ (List.mem_append_right _ ?_)
    rw [finishCancel, roll]
    exact mem

/-- A decision that refills no slot re-places no failed amend off the open slots. -/
theorem NeverRefills.fallback {ev : Event} (h : NeverRefills p st ev) :
    FallbackOnOpenRung p st ev := by
  intro e he rp hrp hplaces
  obtain ⟨a, ha⟩ := List.exists_mem_of_ne_nil _ (rollFallback_acts_ne_nil.mpr hplaces)
  have hat : EmittedAt p st ev _ a := EmittedAt.fallback e he rp rfl hrp ha
  obtain ⟨hquote, hprice, -⟩ := rollFallback_price ha
  obtain ⟨nTop, n, m, htop, hn, hm, hopen⟩ := (h.bids a (mem_acts_of_emittedAt hat) hquote).2 _ hat
  have hsame : SameContext st (reportCancel p st e e.serverTs).st :=
    reportCancel_sameContext p st e
  rw [hprice] at hn
  obtain rfl := Option.some.inj hn
  rw [fallbackPrice_sameContext hsame] at hm
  rw [congrArg Quote.nTop hsame.quote] at htop
  exact ⟨nTop, m, htop, hm, hopen⟩

end Refill

/-! ### Runs -/

/-- At every point of a run a decision keeps the filled slots and bids on open ones exactly if
no cancel confirm re-places a failed amend off the open slots. -/
theorem never_refill (p : V33Params) (evs : List Event) (st : V33State)
    (h : Reached p (fun _ _ => True) evs st) (ev : Event) :
    NeverRefills p st ev ↔ FallbackOnOpenRung p st ev := by
  have hcoids : CoidsOk st := h.preserves (I := CoidsOk) (fun _ hst => CoidsOk.new hst)
    (fun _ ev hst _ => hst.decide ev)
  refine ⟨fun hsafe => hsafe.fallback, fun hfallback => ?_⟩
  refine ⟨keepsFilled_after hcoids, fun a ha hquote => ⟨exists_emittedAt hcoids ha hquote, ?_⟩⟩
  intro s hat
  cases hat with
  | converge r before pre acts post t reached step mem => exact step.onOpenRung mem hquote
  | fallback e event rp reported roll mem =>
    subst reported
    have hsame : SameContext st (reportCancel p st e e.serverTs).st :=
      reportCancel_sameContext p st e
    obtain ⟨nTop, m, htop, hm, hopen⟩ :=
      hfallback e event rp roll (rollFallback_acts_ne_nil.mp (List.ne_nil_of_mem mem))
    refine ⟨nTop, fallbackPrice st rp, m, ?_, ?_, hm, hopen⟩
    · rw [congrArg Quote.nTop hsame.quote]
      exact htop
    · rw [(rollFallback_price mem).2.1, fallbackPrice_sameContext hsame]

/-- The venue cancels an order on its way to an open slot: the fallback bids on that slot. -/
theorem never_refill_sample :
    let st := after samplePolicy (sampleWindow samplePolicy) amendsInFlight
    let failed : OrderCancelled := ⟨some "v1", 1003, 0, some "c-1", none, none⟩
    (∃ a ∈ (decideV33 samplePolicy st (.orderCancelled failed)).acts, a.kind.isPlace = true) ∧
      NeverRefills samplePolicy st (.orderCancelled failed) := by
  intro st failed
  refine ⟨by decide +kernel,
    (never_refill samplePolicy _ _ (reached_sample (by decide +kernel)) _).mpr ?_⟩
  intro e he rp hrp _
  cases he
  have hroll : ∀ rp ∈ rollOfCancel (reportCancel samplePolicy st failed failed.serverTs).st failed,
      fallbackPrice st rp = 57 / 100 := by decide +kernel
  refine ⟨58 / 100, 6, by decide +kernel, ?_, by decide +kernel⟩
  rw [hroll rp hrp]
  decide +kernel

/-- One order is on its way two cents down, the other filled on the top slot, and the top moves
down to where the amend is headed. -/
def amendOntoFilled : V33State :=
  after samplePolicy (sampleWindow samplePolicy) (amendsInFlight ++
    [.fill ⟨some "v2", "c-2", 1, some (58 / 100), .no, 1003, some "B100", none⟩,
      centBook "B100" 42 44 1004])

/-- The venue cancelled the order whose amend failed. -/
def amendFailed : OrderCancelled := ⟨some "v1", 1005, 0, some "c-1", none, none⟩

/-- The fallback of the failed amend bids on the filled slot again. -/
theorem refilled_after_fallback :
    ¬NeverRefills samplePolicy amendOntoFilled (.orderCancelled amendFailed) := by
  intro h
  have hbid : ∃ rp ∈ (rollOfCancel (reportCancel samplePolicy amendOntoFilled amendFailed 1005).st
      amendFailed).toList, Replaces samplePolicy
        (reportCancel samplePolicy amendOntoFilled amendFailed 1005).st rp 1005 ∧
      fallbackPrice amendOntoFilled rp = 57 / 100 := by decide +kernel
  have htop : amendOntoFilled.nTop = some (57 / 100) := by decide +kernel
  have hfilled : (reportCancel samplePolicy amendOntoFilled amendFailed 1005).st.marginState[5]? =
      some .filled := by decide +kernel
  obtain ⟨rp, hrp, hplaces, hprice⟩ := hbid
  obtain ⟨nTop, m, hn, hm, hopen⟩ :=
    h.fallback amendFailed rfl rp (Option.mem_toList.mp hrp) hplaces
  rw [htop] at hn
  obtain rfl := Option.some.inj hn
  have hfive : marginOf samplePolicy (57 / 100) (57 / 100) = (5 : ℕ) := by decide +kernel
  rw [hprice, hfive] at hm
  obtain rfl := Int.ofNat.inj hm
  rw [show (amendFailed.serverTs : ℚ) = 1005 from rfl, hfilled] at hopen
  exact absurd hopen (by simp)

end Pilot.V33
