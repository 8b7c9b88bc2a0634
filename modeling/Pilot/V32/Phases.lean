import Pilot.V32.RestSteps
import Pilot.V32.VenueSteps

/-!
# The phases of the rest

While an order is created, amended or cancelled exactly one action or one report of it is
under way. Each phase says what the slot holds, what may rest at the venue, and how the
lots filled relate to the lots booked.
-/

namespace Pilot.V32

open V33 (ActionKind Event Fill OrderAck OrderAmended OrderCancelled)

variable {p : V32Params} {t : ℚ} {st st' : V32State} {v v' : Venue} {acts : List V32Action}
  {evs : List Event}

/-- The lots filled of the other orders, and those booked of this one, are off the wanted
remainder. -/
def Accounted (p : V32Params) (st : V32State) (v : Venue) (coid oid : String) : Prop :=
  filledLots v - filledOf v oid + bookedFor st coid ≤ spentLots p st

/-- No cancel and no amend is unresolved. -/
def Unflagged (st : V32State) : Prop := st.cancelInFlight = false ∧ st.amendInFlight = false

/-- A cancel of the order is booked under the id: the order is in the slot, or was remembered
when its slot was cleared. -/
def Attributes (st : V32State) (coid oid : String) : Prop :=
  (∃ o, st.restLive = some o ∧ o.orderId = some oid ∧ o.clientOrderId = coid) ∨
    (st.restLive = none ∧ ∃ price, st.cancelCtx.get? oid = some (coid, price))

/-- The phase of the rest, with the action and the report under way. -/
inductive Phase (p : V32Params) (st : V32State) (v : Venue) : List V32Action → List Event → Prop
  /-- No order. -/
  | clear (hlive : st.restLive = none) (hpending : st.restPending = none) (hflags : Unflagged st)
      (hrests : OnlyRests v none) (hlots : filledLots v ≤ spentLots p st) : Phase p st v [] []
  /-- One acknowledged order. -/
  | held {o : RestOrder} {oid : String} (hlive : st.restLive = some o)
      (hpending : st.restPending = none) (hflags : Unflagged st) (hoid : o.orderId = some oid)
      (hrests : OnlyRests v (some oid)) (hknown : (v.get? oid).isSome)
      (hlots : Accounted p st v o.clientOrderId oid) : Phase p st v [] []
  /-- A create is to be sent. -/
  | placing {o : RestOrder} {a : V32Action} {k : ℤ} (hlive : st.restLive = none)
      (hpending : st.restPending = some o) (hflags : Unflagged st) (hoid : o.orderId = none)
      (hkind : a.kind = .placeRest) (hcoid : a.clientOrderId = some o.clientOrderId)
      (hcount : a.count = k) (hpos : 0 ≤ k) (hfit : filledLots v + k ≤ p.contracts)
      (hrests : OnlyRests v none)
      (hlots : filledLots v + bookedFor st o.clientOrderId ≤ spentLots p st) : Phase p st v [a] []
  /-- A create was accepted. -/
  | acked {o : RestOrder} {oid : String} {ts : ℚ} (hlive : st.restLive = none)
      (hpending : st.restPending = some o) (hflags : Unflagged st)
      (hrests : OnlyRests v (some oid)) (hknown : (v.get? oid).isSome)
      (hlots : Accounted p st v o.clientOrderId oid) :
      Phase p st v [] [.orderAck ⟨o.clientOrderId, oid, ts⟩]
  /-- A create was refused. -/
  | refused {o : RestOrder} {e : OrderCancelled} (hlive : st.restLive = none)
      (hpending : st.restPending = some o) (hflags : Unflagged st) (hoid : o.orderId = none)
      (heid : e.orderId = none) (hfilled : e.filledCountBeforeCancel = 0)
      (hrests : OnlyRests v none) (hlots : filledLots v ≤ spentLots p st) :
      Phase p st v [] [.orderCancelled e]
  /-- A cancel is to be sent. -/
  | cancelling {a : V32Action} {oid coid : String} {price : ℚ} (hlive : st.restLive = none)
      (hpending : st.restPending = none) (hkind : a.kind = .cancelRest)
      (hoid : a.orderId = some oid) (hctx : st.cancelCtx.get? oid = some (coid, price))
      (hrests : OnlyRests v (some oid)) (hknown : (v.get? oid).isSome)
      (hlots : Accounted p st v coid oid) : Phase p st v [a] []
  /-- A cancel was confirmed. -/
  | cancelled {e : OrderCancelled} {oid coid : String} (hpending : st.restPending = none)
      (hoid : e.orderId = some oid) (hattr : Attributes st coid oid)
      (hgrid : OnGrid 100 e.filledCountBeforeCancel)
      (hfilled : filledOf v oid ≤ e.filledCountBeforeCancel) (hrests : OnlyRests v none)
      (hlots : Accounted p st v coid oid) : Phase p st v [] [.orderCancelled e]
  /-- An amend is to be sent. -/
  | amending {o : RestOrder} {a : V32Action} {oid new : String} (hlive : st.restLive = some o)
      (hpending : st.restPending = none) (hcancel : st.cancelInFlight = false)
      (hoid : o.orderId = some oid) (hkind : a.kind = .amendRest) (haoid : a.orderId = some oid)
      (hnew : a.updatedClientOrderId = some new) (hnonempty : new ≠ "")
      (hfresh : bookedFor st new = 0) (hne : new ≠ o.clientOrderId) (hminted : Minted st new)
      (hcount : a.count = restPlaceCount p st) (hpos : 1 ≤ restPlaceCount p st)
      (hrests : OnlyRests v (some oid)) (hknown : (v.get? oid).isSome)
      (hlots : Accounted p st v o.clientOrderId oid) : Phase p st v [a] []
  /-- An amend was accepted. -/
  | amended {o : RestOrder} {e : OrderAmended} (hlive : st.restLive = some o)
      (hpending : st.restPending = none) (hcancel : st.cancelInFlight = false)
      (hoid : o.orderId = some e.orderId) (hnonempty : e.clientOrderId ≠ "")
      (hfresh : bookedFor st e.clientOrderId = 0) (hne : e.clientOrderId ≠ o.clientOrderId)
      (hminted : Minted st e.clientOrderId)
      (hrests : OnlyRests v (some e.orderId)) (hknown : (v.get? e.orderId).isSome)
      (hlots : Accounted p st v o.clientOrderId e.orderId) : Phase p st v [] [.orderAmended e]

/-- At most one order rests in any phase. -/
theorem Phase.onlyRests (h : Phase p st v acts evs) : ∃ x, OnlyRests v x := by
  cases h <;> exact ⟨_, ‹OnlyRests v _›⟩

/-! ### The venue drifts -/

/-- The venue fills and drops orders: for the order that may rest the fills of the others are
the same, and where nothing rests all fills are. -/
structure Drifts (v v' : Venue) : Prop where
  rests : ∀ x, OnlyRests v x → OnlyRests v' x
  known : ∀ oid, (v.get? oid).isSome → (v'.get? oid).isSome
  others : ∀ oid, OnlyRests v (some oid) →
    filledLots v' - filledOf v' oid = filledLots v - filledOf v oid
  still : OnlyRests v none →
    filledLots v' = filledLots v ∧ ∀ oid, filledOf v' oid = filledOf v oid

/-- Losing orders is a drift. -/
theorem Loses.drifts (h : Loses v v') : Drifts v v' := by
  refine ⟨fun x hx => h.onlyRests hx, fun oid hoid => ?_, fun oid _ => ?_, fun _ => ?_⟩
  · rw [h.isSome]
    exact hoid
  · rw [h.filledLots, h.filledOf]
  · exact ⟨h.filledLots, h.filledOf⟩

/-- A fill is a drift. -/
theorem venueFill_drifts (v : Venue) (oid : String) (lots : ℚ) :
    Drifts v (venueFill v oid lots) := by
  refine ⟨fun x hx => venueFill_onlyRests hx oid lots, fun j hj => venueFill_isSome v oid lots hj,
    fun j hj => venueFill_others hj oid lots, fun hnone => ?_⟩
  rw [venueFill_of_onlyRests_none hnone]
  exact ⟨rfl, fun _ => rfl⟩

/-- The other orders stay accounted for while the venue drifts. -/
theorem Accounted.drifts {coid oid : String} (h : Accounted p st v coid oid) (hd : Drifts v v')
    (hrests : OnlyRests v (some oid)) : Accounted p st v' coid oid := by
  unfold Accounted at h ⊢
  rw [hd.others oid hrests]
  exact h

/-- A phase survives what the venue does on its own. -/
theorem Phase.drifts (h : Phase p st v acts evs) (hd : Drifts v v') : Phase p st v' acts evs := by
  cases h with
  | clear hlive hpending hflags hrests hlots =>
    exact .clear hlive hpending hflags (hd.rests _ hrests) ((hd.still hrests).1 ▸ hlots)
  | held hlive hpending hflags hoid hrests hknown hlots =>
    exact .held hlive hpending hflags hoid (hd.rests _ hrests) (hd.known _ hknown)
      (hlots.drifts hd hrests)
  | placing hlive hpending hflags hoid hkind hcoid hcount hpos hfit hrests hlots =>
    have hstill := (hd.still hrests).1
    exact .placing hlive hpending hflags hoid hkind hcoid hcount hpos (hstill ▸ hfit)
      (hd.rests _ hrests) (hstill ▸ hlots)
  | acked hlive hpending hflags hrests hknown hlots =>
    exact .acked hlive hpending hflags (hd.rests _ hrests) (hd.known _ hknown)
      (hlots.drifts hd hrests)
  | refused hlive hpending hflags hoid heid hfilled hrests hlots =>
    exact .refused hlive hpending hflags hoid heid hfilled (hd.rests _ hrests)
      ((hd.still hrests).1 ▸ hlots)
  | cancelling hlive hpending hkind hoid hctx hrests hknown hlots =>
    exact .cancelling hlive hpending hkind hoid hctx (hd.rests _ hrests) (hd.known _ hknown)
      (hlots.drifts hd hrests)
  | cancelled hpending hoid hattr hgrid hfilled hrests hlots =>
    obtain ⟨hlotsEq, hfilledEq⟩ := hd.still hrests
    refine .cancelled hpending hoid hattr hgrid (by rw [hfilledEq]; exact hfilled)
      (hd.rests _ hrests) ?_
    unfold Accounted at hlots ⊢
    rw [hlotsEq, hfilledEq]
    exact hlots
  | amending hlive hpending hcancel hoid hkind haoid hnew hnonempty hfresh hne hminted hcount hpos
      hrests hknown hlots =>
    exact .amending hlive hpending hcancel hoid hkind haoid hnew hnonempty hfresh hne hminted hcount
      hpos (hd.rests _ hrests) (hd.known _ hknown) (hlots.drifts hd hrests)
  | amended hlive hpending hcancel hoid hnonempty hfresh hne hminted hrests hknown hlots =>
    exact .amended hlive hpending hcancel hoid hnonempty hfresh hne hminted (hd.rests _ hrests)
      (hd.known _ hknown) (hlots.drifts hd hrests)

/-! ### Private fills -/

/-- A credit puts no order into an empty slot. -/
theorem Credits.live_eq_none {coid : String} {lots : ℚ} (h : Credits p coid lots st st')
    (hlive : st.restLive = none) : st'.restLive = none := by
  have := h.live
  rw [hlive, Option.map_none, Option.map_eq_none_iff] at this
  exact this

/-- A credit keeps the ids of the live order. -/
theorem Credits.live_eq_some {coid : String} {lots : ℚ} {o : RestOrder}
    (h : Credits p coid lots st st') (hlive : st.restLive = some o) :
    ∃ o', st'.restLive = some o' ∧ o'.clientOrderId = o.clientOrderId ∧ o'.orderId = o.orderId := by
  have := h.live
  rw [hlive, Option.map_some, Option.map_eq_some_iff] at this
  obtain ⟨o', ho', hkey⟩ := this
  exact ⟨o', ho', congrArg Prod.fst hkey, congrArg Prod.snd hkey⟩

/-- A credit starts no cancel and no amend. -/
theorem Credits.unflagged {coid : String} {lots : ℚ} (h : Credits p coid lots st st')
    (hflags : Unflagged st) : Unflagged st' :=
  ⟨h.cancelInFlight.trans hflags.1, h.amendInFlight.trans hflags.2⟩

/-- A credit lowers no spent lots. -/
theorem Credits.spent_le {coid : String} {lots x : ℚ} (h : Credits p coid lots st st')
    (hlots : 0 ≤ lots) (hx : x ≤ spentLots p st) : x ≤ spentLots p st' := by
  rw [h.spent]
  linarith

/-- A credit keeps the order accounted for. -/
theorem Credits.accounted {coid c oid : String} {lots : ℚ} (h : Credits p coid lots st st')
    (hlots : 0 ≤ lots) (ha : Accounted p st v c oid) : Accounted p st' v c oid := by
  unfold Accounted at ha ⊢
  rw [h.spent, h.booked]
  split_ifs <;> linarith

/-- A credit keeps what a cancel of the order is booked under. -/
theorem Credits.attributes {coid c oid : String} {lots : ℚ} (h : Credits p coid lots st st')
    (ha : Attributes st c oid) : Attributes st' c oid := by
  rcases ha with ⟨o, hlive, hoid, hc⟩ | ⟨hlive, hctx⟩
  · obtain ⟨o', hlive', hcoid', hoid'⟩ := h.live_eq_some hlive
    exact Or.inl ⟨o', hlive', hoid'.trans hoid, hcoid'.trans hc⟩
  · exact Or.inr ⟨h.live_eq_none hlive, h.ctx ▸ hctx⟩

/-- A phase with no action under way survives a booking of the order in the slot. -/
theorem Phase.credits {coid : String} {lots : ℚ} (h : Phase p st v [] evs)
    (hc : Credits p coid lots st st') (hlots : 0 ≤ lots) (hslot : lots ≠ 0 → SlotId st coid) :
    Phase p st' v [] evs := by
  cases h with
  | clear hlive hpending hflags hrests h =>
    exact .clear (hc.live_eq_none hlive) (hc.pending.trans hpending) (hc.unflagged hflags) hrests
      (hc.spent_le hlots h)
  | held hlive hpending hflags hoid hrests hknown h =>
    obtain ⟨o', hlive', hcoid', hoid'⟩ := hc.live_eq_some hlive
    exact .held hlive' (hc.pending.trans hpending) (hc.unflagged hflags) (hoid'.trans hoid) hrests
      hknown (hcoid' ▸ hc.accounted hlots h)
  | acked hlive hpending hflags hrests hknown h =>
    exact .acked (hc.live_eq_none hlive) (hc.pending.trans hpending) (hc.unflagged hflags) hrests
      hknown (hc.accounted hlots h)
  | refused hlive hpending hflags hoid heid hfilled hrests h =>
    exact .refused (hc.live_eq_none hlive) (hc.pending.trans hpending) (hc.unflagged hflags) hoid
      heid hfilled hrests (hc.spent_le hlots h)
  | cancelled hpending hoid hattr hgrid hfilled hrests h =>
    exact .cancelled (hc.pending.trans hpending) hoid (hc.attributes hattr) hgrid hfilled hrests
      (hc.accounted hlots h)
  | @amended o e hlive hpending hcancel hoid hnonempty hfresh hne hminted hrests hknown h =>
    obtain ⟨o', hlive', hcoid', hoid'⟩ := hc.live_eq_some hlive
    have hfresh' : bookedFor st' e.clientOrderId = 0 := by
      rw [hc.booked, hfresh, zero_add]
      split_ifs with heq
      · -- only the order in the slot is booked, and its id is the old one
        by_contra hne'
        obtain ⟨o'', ho'' | ho'', hcoid''⟩ := hslot hne'
        · rw [hlive, Option.mem_some_iff] at ho''
          exact hne (heq.trans (hcoid''.symm.trans (by rw [ho''])))
        · rw [hpending] at ho''
          exact absurd ho'' (by simp)
      · rfl
    exact .amended hlive' (hc.pending.trans hpending) (hc.cancelInFlight.trans hcancel)
      (hoid'.trans hoid) hnonempty hfresh' (hcoid' ▸ hne) (hc.minted hminted) hrests hknown
      (hcoid' ▸ hc.accounted hlots h)

end Pilot.V32
