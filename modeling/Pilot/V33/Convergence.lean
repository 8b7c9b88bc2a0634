import Pilot.V33.ClientOrderIds

/-!
# Converging to the open slots

While nothing fills and the quote stands, the convergence moves an order off the slots to a
vacant slot, cancels one once no slot is vacant, or creates one once no order is off the slots.
Every move and every acknowledgement uses up some of the work left.
-/

namespace Pilot.V33

/-! ### The work left -/

/-- The prices of the open slots that may be quoted. -/
def openPrices (p : V33Params) (st : V33State) (nTop : ℚ) : List ℚ :=
  (placeableOpenSlots p st nTop).map Prod.snd

/-- The orders off the slots that no amend moves yet. -/
def outCount (p : V33Params) (st : V33State) (nTop : ℚ) : ℕ :=
  (outOrders st (placeableOpenSlots p st nTop)).length

/-- The slots that nothing rests on or moves to. -/
def vacantCount (p : V33Params) (st : V33State) (nTop : ℚ) : ℕ :=
  (vacantSlots st (placeableOpenSlots p st nTop)).length

/-- The creates, amends and cancels that are not acknowledged. -/
def outstanding (st : V33State) : ℕ :=
  st.ladder.countP RestOrder.pending + st.rollsInFlight.length + st.cancelPendingPx.entries.length

/-- What the moves to come and the acknowledgements use up. -/
def workLeft (p : V33Params) (st : V33State) (nTop : ℚ) : ℕ :=
  2 * (outCount p st nTop + vacantCount p st nTop) + outstanding st

/-! ### The ladder on its way -/

/-- An order is live, or waits on a slot for its acknowledgement. -/
inductive OrderStands (prices : List ℚ) (o : RestOrder) : Prop
  | live (pending : o.pending = false) (live : o.live = true) (acked : o.orderId.isSome)
  | created (pending : o.pending = true) (unknown : o.orderId = none) (slot : o.price ∈ prices)

/-- An amend moves a live order that is off the slots to one of them. -/
structure RollStands (prices : List ℚ) (ladder : List RestOrder) (r : RollPending) : Prop where
  target : r.targetPrice ∈ prices
  vacant : r.targetPrice ∉ ladder.map RestOrder.price
  mover : ∃ o ∈ ladder, o.clientOrderId = r.oldCoid ∧ o.orderId = r.orderId ∧
    o.pending = false ∧ o.price ∉ prices

/-- A ladder without fills that converges under a quote: its orders have distinct prices and
ids and the same lots, and what is in flight leads from the prices off the slots to them. -/
structure ConvergeOk (p : V33Params) (nTop : ℚ) (lots : ℕ) (st : V33State) : Prop where
  unlatched : st.restAllotmentDone = false
  unheld : st.holdSince = none
  bucket : st.restBucketSd = none ∨ st.restBucketSd = st.spotSd
  settled : st.awaitingReplace = false
  unfilled : st.restFills = []
  fresh : st.rungsFilled = 0
  unbooked : ∀ coid, st.restBookedByCoid.getD coid 0 = 0
  resolved : ∀ t ∈ st.printThroughTriggers, t.resolved = true
  weights : ∀ m ∈ openSlots st, weightOfMargin p m = lots
  counts : ∀ o ∈ st.ladder, o.count = lots
  coids : CoidsOk st
  prices : (st.ladder.map RestOrder.price).Nodup
  ids : ∀ a ∈ st.ladder, ∀ b ∈ st.ladder, a.orderId.isSome → a.orderId = b.orderId →
    a.clientOrderId = b.clientOrderId
  leaving : ∀ oid ∈ st.cancelPendingPx.keys, ∀ o ∈ st.ladder, o.orderId ≠ some oid
  held : ∀ price ∈ heldCancelPrices st, price ∉ openPrices p st nTop
  orders : ∀ o ∈ st.ladder, OrderStands (openPrices p st nTop) o
  rolls : ∀ r ∈ st.rollsInFlight, RollStands (openPrices p st nTop) st.ladder r
  targets : (st.rollsInFlight.map RollPending.targetPrice).Nodup

section Counts

variable {p : V33Params} {nTop now : ℚ} {lots : ℕ} {st st' : V33State}

/-- While the ladder converges no order is covered by a trigger. -/
theorem ConvergeOk.uncovered (h : ConvergeOk p nTop lots st) : ptCoveredCoids st = [] := by
  unfold ptCoveredCoids
  have hnone : st.printThroughTriggers.filter (fun t => !t.resolved) = [] := by
    rw [List.filter_eq_nil_iff]
    intro t ht
    simp [h.resolved t ht]
  rw [hnone, List.flatMap_nil]

/-- The orders to move: live, off the slots, and not on their way. -/
theorem ConvergeOk.mem_out (h : ConvergeOk p nTop lots st) {o : RestOrder} :
    o ∈ outOrders st (placeableOpenSlots p st nTop) ↔ o ∈ st.ladder ∧
      o.clientOrderId ∉ st.rollsInFlight.map RollPending.oldCoid ∧
        o.price ∉ openPrices p st nTop := by
  unfold outOrders
  rw [List.mem_filter, h.uncovered]
  simp only [h.unbooked, Bool.and_eq_true, Bool.not_eq_true', List.contains_eq_mem,
    decide_eq_false_iff_not, List.not_mem_nil, not_false_eq_true, decide_true, and_true]
  constructor
  · rintro ⟨ho, ⟨⟨-, -⟩, hfree⟩, hoff⟩
    exact ⟨ho, hfree, hoff⟩
  · rintro ⟨ho, hfree, hoff⟩
    cases h.orders o ho with
    | live _ hlive hacked => exact ⟨ho, ⟨⟨hlive, hacked⟩, hfree⟩, hoff⟩
    | created _ _ hslot => exact absurd hslot hoff

/-- The slots to fill: nothing rests on them and nothing moves to them. -/
theorem ConvergeOk.mem_vacant (h : ConvergeOk p nTop lots st) {s : ℕ × ℚ} :
    s ∈ vacantSlots st (placeableOpenSlots p st nTop) ↔ s ∈ placeableOpenSlots p st nTop ∧
      s.2 ∉ st.ladder.map RestOrder.price ∧
        s.2 ∉ st.rollsInFlight.map RollPending.targetPrice := by
  unfold vacantSlots
  simp only [List.mem_filter, Bool.and_eq_true, Bool.not_eq_true', List.contains_eq_mem,
    decide_eq_false_iff_not]
  constructor
  · rintro ⟨hs, ⟨hfree, hunpromised⟩, -⟩
    exact ⟨hs, hfree, hunpromised⟩
  · rintro ⟨hs, hfree, hunpromised⟩
    exact ⟨hs, ⟨hfree, hunpromised⟩, fun hheld => h.held s.2 hheld (List.mem_map_of_mem hs)⟩

/-- The orders off the slots are those to move and those on their way. -/
theorem ConvergeOk.out_perm (h : ConvergeOk p nTop lots st) :
    ((st.ladder.filter fun o => o.price ∉ openPrices p st nTop).map
      RestOrder.clientOrderId).Perm
        ((outOrders st (placeableOpenSlots p st nTop)).map RestOrder.clientOrderId ++
          st.rollsInFlight.map RollPending.oldCoid) := by
  have hout : ((outOrders st (placeableOpenSlots p st nTop)).map RestOrder.clientOrderId).Nodup :=
    h.coids.nodup.sublist (List.filter_sublist.map _)
  rw [List.perm_ext_iff_of_nodup (h.coids.nodup.sublist (List.filter_sublist.map _))
    (List.nodup_append.mpr ⟨hout, h.coids.oldNodup, ?_⟩)]
  · intro coid
    simp only [List.mem_append, List.mem_map, List.mem_filter, decide_eq_true_eq]
    constructor
    · rintro ⟨o, ⟨ho, hoff⟩, rfl⟩
      by_cases hmoving : o.clientOrderId ∈ st.rollsInFlight.map RollPending.oldCoid
      · exact Or.inr (List.mem_map.mp hmoving)
      · exact Or.inl ⟨o, h.mem_out.mpr ⟨ho, hmoving, hoff⟩, rfl⟩
    · rintro (⟨o, ho, rfl⟩ | ⟨r, hr, rfl⟩)
      · obtain ⟨hmem, -, hoff⟩ := h.mem_out.mp ho
        exact ⟨o, ⟨hmem, hoff⟩, rfl⟩
      · obtain ⟨o, ho, hcoid, -, -, hoff⟩ := (h.rolls r hr).mover
        exact ⟨o, ⟨ho, hoff⟩, hcoid⟩
  · rintro coid hcoid _ hold rfl
    obtain ⟨o, ho, rfl⟩ := List.mem_map.mp hcoid
    exact (h.mem_out.mp ho).2.1 hold

/-- Every slot is vacant, or an order rests on it, or an order moves to it. -/
theorem ConvergeOk.slots_perm (h : ConvergeOk p nTop lots st) :
    (openPrices p st nTop).Perm
      ((vacantSlots st (placeableOpenSlots p st nTop)).map Prod.snd ++
        ((st.ladder.filter fun o => o.price ∈ openPrices p st nTop).map RestOrder.price ++
          st.rollsInFlight.map RollPending.targetPrice)) := by
  have hslots : (openPrices p st nTop).Nodup := nodup_placeable p st nTop
  have hvacant : ((vacantSlots st (placeableOpenSlots p st nTop)).map Prod.snd).Nodup :=
    hslots.sublist (List.filter_sublist.map _)
  have htaken : ((st.ladder.filter fun o => o.price ∈ openPrices p st nTop).map RestOrder.price ++
      st.rollsInFlight.map RollPending.targetPrice).Nodup := by
    refine List.nodup_append.mpr
      ⟨h.prices.sublist (List.filter_sublist.map _), h.targets, ?_⟩
    rintro price hprice _ htarget rfl
    obtain ⟨r, hr, rfl⟩ := List.mem_map.mp htarget
    exact (h.rolls r hr).vacant ((List.filter_sublist.map _).subset hprice)
  rw [List.perm_ext_iff_of_nodup hslots (List.nodup_append.mpr ⟨hvacant, htaken, ?_⟩)]
  · intro price
    constructor
    · intro hprice
      obtain ⟨s, hs, rfl⟩ := List.mem_map.mp hprice
      by_cases hrests : s.2 ∈ st.ladder.map RestOrder.price
      · obtain ⟨o, ho, heq⟩ := List.mem_map.mp hrests
        have hon : o ∈ st.ladder.filter fun o => o.price ∈ openPrices p st nTop := by
          rw [List.mem_filter, heq]
          exact ⟨ho, by simpa using hprice⟩
        rw [← heq]
        exact List.mem_append_right _ (List.mem_append_left _ (List.mem_map_of_mem hon))
      · by_cases hpromised : s.2 ∈ st.rollsInFlight.map RollPending.targetPrice
        · exact List.mem_append_right _ (List.mem_append_right _ hpromised)
        · exact List.mem_append_left _
            (List.mem_map_of_mem (h.mem_vacant.mpr ⟨hs, hrests, hpromised⟩))
    · intro hprice
      rcases List.mem_append.mp hprice with hprice | hprice
      · obtain ⟨s, hs, rfl⟩ := List.mem_map.mp hprice
        exact List.mem_map_of_mem (h.mem_vacant.mp hs).1
      · rcases List.mem_append.mp hprice with hprice | hprice
        · obtain ⟨o, ho, rfl⟩ := List.mem_map.mp hprice
          simpa using (List.mem_filter.mp ho).2
        · obtain ⟨r, hr, rfl⟩ := List.mem_map.mp hprice
          exact (h.rolls r hr).target
  · rintro price hprice _ htakenPrice rfl
    obtain ⟨s, hs, rfl⟩ := List.mem_map.mp hprice
    obtain ⟨-, hfree, hunpromised⟩ := h.mem_vacant.mp hs
    rcases List.mem_append.mp htakenPrice with htakenPrice | htakenPrice
    · exact hfree ((List.filter_sublist.map _).subset htakenPrice)
    · exact hunpromised htakenPrice

/-- How many orders are off the slots. -/
theorem ConvergeOk.out_count (h : ConvergeOk p nTop lots st) :
    st.ladder.countP (fun o => o.price ∉ openPrices p st nTop) =
      outCount p st nTop + st.rollsInFlight.length := by
  have hlength := h.out_perm.length_eq
  rw [List.length_append, List.length_map, List.length_map, List.length_map] at hlength
  rw [List.countP_eq_length_filter]
  exact hlength

/-- How many slots are taken. -/
theorem ConvergeOk.vacant_count (h : ConvergeOk p nTop lots st) :
    (placeableOpenSlots p st nTop).length = vacantCount p st nTop +
      (st.ladder.countP (fun o => o.price ∈ openPrices p st nTop) +
        st.rollsInFlight.length) := by
  have hlength := h.slots_perm.length_eq
  rw [List.length_append, List.length_append, List.length_map, List.length_map, List.length_map,
    openPrices, List.length_map] at hlength
  rw [List.countP_eq_length_filter]
  exact hlength

/-- A free slot is one of the open slots at its price. -/
theorem ConvergeOk.open_of_mem {s : ℕ × ℚ} (hs : s ∈ placeableOpenSlots p st nTop) :
    s.1 ∈ openSlots st := by
  obtain ⟨m, hm, rfl⟩ := List.mem_map.mp (List.mem_filter.mp hs).1
  exact hm

end Counts

/-! ### Moves -/

/-- The amends among the actions. -/
def amendCount (acts : List V33Action) : ℕ := acts.countP fun a => a.kind.isAmend

/-- One action counts as an amend if it is one, shadowed or not. -/
theorem amendCount_mk (shakedown : Bool) (a : V33Action) :
    amendCount [mk shakedown a] = if a.kind.isAmend then 1 else 0 := by
  have htwin : (mk shakedown a).kind.isAmend = a.kind.isAmend := by
    unfold mk
    cases shakedown <;> cases a.kind <;> rfl
  unfold amendCount
  rw [List.countP_singleton, htwin]

/-- The actions lead a converging ladder on: each uses up work, an amend moves an order off the
slots to a slot, and only orders off the slots are moved or cancelled. -/
structure Advance (p : V33Params) (nTop : ℚ) (lots : ℕ) (st : V33State) (acts : List V33Action)
    (st' : V33State) : Prop where
  ok : ConvergeOk p nTop lots st'
  slots : placeableOpenSlots p st' nTop = placeableOpenSlots p st nTop
  work : workLeft p st' nTop + acts.length ≤ workLeft p st nTop
  amends : amendCount acts + min (outCount p st' nTop) (vacantCount p st' nTop) =
    min (outCount p st nTop) (vacantCount p st nTop)
  off : ∀ a ∈ acts, (a.kind.isAmend || a.kind.isCancel) = true →
    ∃ o, a.rest = some o ∧ o.price ∉ openPrices p st nTop

section Moves

variable {p : V33Params} {nTop now : ℚ} {lots : ℕ} {st st' st'' : V33State}
  {acts acts' : List V33Action}

/-- Nothing is done. -/
theorem Advance.refl (h : ConvergeOk p nTop lots st) : Advance p nTop lots st [] st :=
  ⟨h, rfl, le_rfl, by simp [amendCount], by simp⟩

/-- Two advances are one. -/
theorem Advance.trans (h : Advance p nTop lots st acts st')
    (k : Advance p nTop lots st' acts' st'') : Advance p nTop lots st (acts ++ acts') st'' := by
  refine ⟨k.ok, k.slots.trans h.slots, ?_, ?_, fun a ha hmoves => ?_⟩
  · rw [List.length_append]
    have hfirst := h.work
    have hthen := k.work
    omega
  · have hfirst := h.amends
    have hthen := k.amends
    unfold amendCount at *
    rw [List.countP_append]
    omega
  · rcases List.mem_append.mp ha with ha | ha
    · exact h.off a ha hmoves
    · obtain ⟨o, ho, hoff⟩ := k.off a ha hmoves
      rw [openPrices, h.slots] at hoff
      exact ⟨o, ho, hoff⟩

/-- An order that is off the slots was acknowledged. -/
theorem ConvergeOk.live_of_off (h : ConvergeOk p nTop lots st) {o : RestOrder} (ho : o ∈ st.ladder)
    (hoff : o.price ∉ openPrices p st nTop) : o.pending = false ∧ o.orderId.isSome := by
  cases h.orders o ho with
  | live hpending _ hacked => exact ⟨hpending, hacked⟩
  | created _ _ hslot => exact absurd hslot hoff

/-- The amend of an order off the slots to a vacant slot. -/
theorem ConvergeOk.emitRoll (h : ConvergeOk p nTop lots st) {o : RestOrder} {s : ℕ × ℚ}
    (ho : o ∈ outOrders st (placeableOpenSlots p st nTop))
    (hs : s ∈ vacantSlots st (placeableOpenSlots p st nTop)) (m : ℤ) :
    ConvergeOk p nTop lots (emitRoll p st o s.2 m now).st := by
  obtain ⟨hmem, hfree, hoff⟩ := h.mem_out.mp ho
  obtain ⟨hslot, hvacant, hunpromised⟩ := h.mem_vacant.mp hs
  have hnew : RollStands (openPrices p st nTop) st.ladder
      ⟨o.orderId, o.clientOrderId, (mintCoid st).1, s.2, m, now⟩ :=
    ⟨List.mem_map_of_mem hslot, hvacant, o, hmem, rfl, rfl, (h.live_of_off hmem hoff).1, hoff⟩
  refine { h with
    coids := h.coids.emitRoll s.2 m hfree
    rolls := fun r hr => ?_
    targets := ?_ }
  · rcases List.mem_append.mp hr with hr | hr
    · exact h.rolls r hr
    · rw [List.mem_singleton.mp hr]
      exact hnew
  · show ((st.rollsInFlight ++ [_]).map RollPending.targetPrice).Nodup
    rw [List.map_append, List.nodup_append]
    refine ⟨h.targets, by simp, ?_⟩
    rintro price hprice _ hlast rfl
    simp only [List.map_cons, List.map_nil, List.mem_singleton] at hlast
    exact hunpromised (hlast ▸ hprice)

/-- Moving an order off its target to a vacant slot is an advance. -/
theorem Advance.roll (h : ConvergeOk p nTop lots st) {o : RestOrder} {s : ℕ × ℚ}
    (ho : o ∈ outOrders st (placeableOpenSlots p st nTop))
    (hs : s ∈ vacantSlots st (placeableOpenSlots p st nTop)) (m : ℤ) :
    Advance p nTop lots st (emitRoll p st o s.2 m now).acts (emitRoll p st o s.2 m now).st := by
  have hok := @ConvergeOk.emitRoll p nTop now lots st h o s ho hs m
  have hout := h.out_count
  have hvacant := h.vacant_count
  have hout' := hok.out_count
  have hvacant' := hok.vacant_count
  have hrolls : (V33.emitRoll p st o s.2 m now).st.rollsInFlight.length =
      st.rollsInFlight.length + 1 := by simp [V33.emitRoll, mintCoid]
  have hladder : (V33.emitRoll p st o s.2 m now).st.ladder = st.ladder := rfl
  have hslots : placeableOpenSlots p (V33.emitRoll p st o s.2 m now).st nTop =
    placeableOpenSlots p st nTop := rfl
  have hheld : (V33.emitRoll p st o s.2 m now).st.cancelPendingPx = st.cancelPendingPx := rfl
  have hpos : 0 < outCount p st nTop := List.length_pos_of_mem ho
  have hpos' : 0 < vacantCount p st nTop := List.length_pos_of_mem hs
  rw [openPrices, hslots, hladder, hrolls] at hout' hvacant'
  rw [openPrices] at hout hvacant
  have hkind : amendCount (V33.emitRoll p st o s.2 m now).acts = 1 := amendCount_mk _ _
  refine ⟨hok, rfl, ?_, ?_, fun a ha _ => ?_⟩
  · have hone : (V33.emitRoll p st o s.2 m now).acts.length = 1 := rfl
    unfold workLeft outstanding
    rw [hladder, hrolls, hheld, hone]
    omega
  · rw [hkind]
    omega
  · obtain rfl := List.mem_singleton.mp ha
    exact ⟨o, rfl, (h.mem_out.mp ho).2.2⟩

/-- A price that is held for a new id. -/
theorem entries_set_of_new {d : Dict String ℚ} {oid : String} (hnew : oid ∉ d.keys) (price : ℚ) :
    (d.set oid price).entries = d.entries ++ [(oid, price)] := Dict.assocSet_of_notMem hnew price

/-- The cancel of an order off the slots. -/
theorem ConvergeOk.shrinkOne (h : ConvergeOk p nTop lots st) {o : RestOrder}
    (ho : o ∈ outOrders st (placeableOpenSlots p st nTop)) :
    ConvergeOk p nTop lots (shrinkOne o st).st ∧
      outstanding (shrinkOne o st).st = outstanding st + 1 ∧
      (shrinkOne o st).st.rollsInFlight = st.rollsInFlight := by
  obtain ⟨hmem, hfree, hoff⟩ := h.mem_out.mp ho
  obtain ⟨hpending, hacked⟩ := h.live_of_off hmem hoff
  obtain ⟨oid, hoid⟩ := Option.isSome_iff_exists.mp hacked
  have hnew : oid ∉ st.cancelPendingPx.keys := fun hkey => h.leaving oid hkey o hmem hoid
  have hst : (V33.shrinkOne o st).st = { st with
      cancelCtx := rememberIn st.cancelCtx o
      cancelPendingPx := st.cancelPendingPx.set oid o.price
      ladder := dropOrder st.ladder o.clientOrderId
      outstandingCancels := st.outstandingCancels + 1 } := by
    unfold V33.shrinkOne
    dsimp only
    rw [retainCancelled_eq]
    simp only [armIn, hoid, Option.isSome_some, if_true]
  have hentries := entries_set_of_new hnew o.price
  have hdrop {x : RestOrder} (hx : x ∈ dropOrder st.ladder o.clientOrderId) :
      x ∈ st.ladder ∧ x.clientOrderId ≠ o.clientOrderId := by
    simpa [dropOrder] using hx
  rw [hst]
  refine ⟨{ h with
    counts := fun x hx => h.counts x (hdrop hx).1
    coids := h.coids.shrink rfl le_rfl ((dropOrder_sublist _ _).map _) (List.Sublist.refl _)
    prices := h.prices.sublist ((dropOrder_sublist _ _).map _)
    ids := fun a ha b hb => h.ids a (hdrop ha).1 b (hdrop hb).1
    leaving := fun key hkey x hx => ?_
    held := fun price hprice => ?_
    orders := fun x hx => h.orders x (hdrop hx).1
    rolls := fun r hr => ?_ }, ?_, rfl⟩
  · have hkey' : key ∈ (st.cancelPendingPx.set oid o.price).keys := hkey
    rw [Dict.keys, hentries, List.map_append] at hkey'
    rcases List.mem_append.mp hkey' with hold | hlast
    · exact h.leaving key hold x (hdrop hx).1
    · rw [List.mem_singleton.mp hlast]
      intro hsame
      apply (hdrop hx).2
      exact h.ids x (hdrop hx).1 o hmem (by rw [hsame]; rfl) (hsame.trans hoid.symm)
  · have hprice' : price ∈ (st.cancelPendingPx.set oid o.price).values := hprice
    rw [Dict.values, hentries, List.map_append] at hprice'
    rcases List.mem_append.mp hprice' with hold | hlast
    · exact h.held price hold
    · rw [List.mem_singleton.mp hlast]
      exact hoff
  · obtain ⟨htarget, hvacant, x, hx, hcoid, hid, hlive, hxoff⟩ := h.rolls r hr
    refine ⟨htarget, fun hin => hvacant (((dropOrder_sublist _ _).map _).subset hin), x, ?_, hcoid,
      hid, hlive, hxoff⟩
    have hne : x.clientOrderId ≠ o.clientOrderId := by
      rw [hcoid]
      intro hsame
      exact hfree (hsame ▸ List.mem_map_of_mem hr)
    simpa [dropOrder] using ⟨hx, hne⟩
  · have hcount : (dropOrder st.ladder o.clientOrderId).countP RestOrder.pending =
        st.ladder.countP RestOrder.pending := by
      unfold dropOrder
      rw [List.countP_filter]
      apply List.countP_congr
      intro x hx
      simp only [Bool.and_eq_true, decide_eq_true_eq, and_iff_left_iff_imp]
      rintro hwaits hsame
      obtain rfl : x = o := List.inj_on_of_nodup_map h.coids.nodup hx hmem hsame
      rw [hpending] at hwaits
      cases hwaits
    show (dropOrder st.ladder o.clientOrderId).countP RestOrder.pending + st.rollsInFlight.length +
      (st.cancelPendingPx.set oid o.price).entries.length = _
    rw [hcount, hentries, List.length_append, List.length_singleton]
    unfold outstanding
    omega

/-- Cancelling an order off its target is an advance when no slot is vacant. -/
theorem Advance.shrink (h : ConvergeOk p nTop lots st) {o : RestOrder}
    (ho : o ∈ outOrders st (placeableOpenSlots p st nTop)) (hfull : vacantCount p st nTop = 0) :
    Advance p nTop lots st (shrinkOne o st).acts (shrinkOne o st).st := by
  obtain ⟨hok, houtstanding, hrolls⟩ := h.shrinkOne ho
  obtain ⟨hmem, hfree, hoff⟩ := h.mem_out.mp ho
  have hslots : placeableOpenSlots p (V33.shrinkOne o st).st nTop =
      placeableOpenSlots p st nTop := by
    unfold V33.shrinkOne
    dsimp only
    rw [retainCancelled_eq]
    rfl
  have hladder : (V33.shrinkOne o st).st.ladder = dropOrder st.ladder o.clientOrderId := by
    unfold V33.shrinkOne
    dsimp only
    rw [retainCancelled_eq]
  have hdropped (q : RestOrder → Bool) : st.ladder.countP q =
      (dropOrder st.ladder o.clientOrderId).countP q + if q o then 1 else 0 := by
    have hperm := @perm_cons_filter _ _ _ RestOrder.clientOrderId _ _ hmem h.coids.nodup
    rw [hperm.countP_eq, List.countP_cons]
    rfl
  have hout := h.out_count
  have hvacant := h.vacant_count
  have hout' := hok.out_count
  have hvacant' := hok.vacant_count
  rw [openPrices, hslots, hladder, hrolls] at hout' hvacant'
  rw [openPrices, hdropped, if_pos (by simpa [openPrices] using hoff)] at hout
  rw [openPrices, hdropped, if_neg (by simpa [openPrices] using hoff)] at hvacant
  have hkind : amendCount (V33.shrinkOne o st).acts = 0 := amendCount_mk _ _
  refine ⟨hok, hslots, ?_, ?_, fun a ha _ => ?_⟩
  · have hone : (V33.shrinkOne o st).acts.length = 1 := rfl
    unfold workLeft
    rw [houtstanding, hone]
    omega
  · rw [hkind]
    omega
  · obtain rfl := List.mem_singleton.mp ha
    exact ⟨o, rfl, hoff⟩

/-- The create on a vacant slot. -/
theorem ConvergeOk.placeSlot (h : ConvergeOk p nTop lots st) {s : ℕ × ℚ}
    (hs : s ∈ vacantSlots st (placeableOpenSlots p st nTop)) :
    ConvergeOk p nTop lots (placeSlot p st s.1 s.2 now).st := by
  obtain ⟨hslot, hvacant, hunpromised⟩ := h.mem_vacant.mp hs
  have hlots : qCount (weightOfMargin p s.1 : ℚ) = lots := by
    rw [h.weights s.1 (ConvergeOk.open_of_mem hslot), qCount_natCast]
  have hnew {x : RestOrder} (hx : x ∈ (V33.placeSlot p st s.1 s.2 now).st.ladder) :
      x ∈ st.ladder ∨ x.price = s.2 ∧ x.count = lots ∧ x.pending = true ∧ x.orderId = none := by
    rcases List.mem_append.mp hx with hx | hx
    · exact Or.inl hx
    · rw [List.mem_singleton.mp hx]
      exact Or.inr ⟨rfl, hlots, rfl, rfl⟩
  refine { h with
    counts := fun x hx => ?_
    coids := h.coids.placeOne _ _ _ _
    prices := ?_
    ids := fun a ha b hb hacked hsame => ?_
    leaving := fun oid hoid x hx => ?_
    orders := fun x hx => ?_
    rolls := fun r hr => ?_ }
  · rcases hnew hx with hx | ⟨-, hcount, -⟩
    · exact h.counts x hx
    · exact hcount
  · show ((st.ladder ++ [_]).map RestOrder.price).Nodup
    rw [List.map_append, List.nodup_append]
    refine ⟨h.prices, by simp, ?_⟩
    rintro price hprice _ hlast rfl
    simp only [List.map_cons, List.map_nil, List.mem_singleton] at hlast
    exact hvacant (hlast ▸ hprice)
  · rcases hnew ha with ha | ⟨-, -, -, hnone⟩
    · rcases hnew hb with hb | ⟨-, -, -, hnone⟩
      · exact h.ids a ha b hb hacked hsame
      · rw [hsame, hnone] at hacked
        cases hacked
    · rw [hnone] at hacked
      cases hacked
  · rcases hnew hx with hx | ⟨-, -, -, hnone⟩
    · exact h.leaving oid hoid x hx
    · rw [hnone]
      simp
  · rcases hnew hx with hx | ⟨hprice, -, hpending, hnone⟩
    · exact h.orders x hx
    · refine .created hpending hnone ?_
      rw [hprice]
      exact List.mem_map_of_mem hslot
  · obtain ⟨htarget, hfree, x, hx, hmover⟩ := h.rolls r hr
    refine ⟨htarget, fun hin => ?_, x, List.mem_append_left _ hx, hmover⟩
    obtain ⟨y, hy, hprice⟩ := List.mem_map.mp hin
    rcases hnew hy with hy | ⟨hlast, -⟩
    · exact hfree (hprice ▸ List.mem_map_of_mem hy)
    · apply hunpromised
      rw [← hlast, hprice]
      exact List.mem_map_of_mem hr

/-- Filling a vacant slot is an advance when no order is off its target. -/
theorem Advance.create (h : ConvergeOk p nTop lots st) {s : ℕ × ℚ}
    (hs : s ∈ vacantSlots st (placeableOpenSlots p st nTop)) (hplaced : outCount p st nTop = 0) :
    Advance p nTop lots st (placeSlot p st s.1 s.2 now).acts (placeSlot p st s.1 s.2 now).st := by
  have hok := @ConvergeOk.placeSlot p nTop now lots st h s hs
  obtain ⟨hslot, -, -⟩ := h.mem_vacant.mp hs
  have hslots : placeableOpenSlots p (V33.placeSlot p st s.1 s.2 now).st nTop =
      placeableOpenSlots p st nTop := rfl
  have hrolls : (V33.placeSlot p st s.1 s.2 now).st.rollsInFlight = st.rollsInFlight := rfl
  have hheld : (V33.placeSlot p st s.1 s.2 now).st.cancelPendingPx = st.cancelPendingPx := rfl
  obtain ⟨o, hladder, ho, hwaits⟩ : ∃ o : RestOrder,
      (V33.placeSlot p st s.1 s.2 now).st.ladder = st.ladder ++ [o] ∧ o.price = s.2 ∧
        o.pending = true := ⟨_, rfl, rfl, rfl⟩
  have hout := h.out_count
  have hvacant := h.vacant_count
  have hout' := hok.out_count
  have hvacant' := hok.vacant_count
  have hprice : s.2 ∈ (placeableOpenSlots p st nTop).map Prod.snd := List.mem_map_of_mem hslot
  rw [openPrices] at hout hvacant
  rw [openPrices, hslots, hrolls, hladder, List.countP_append, List.countP_singleton, ho]
    at hout' hvacant'
  rw [if_neg (by simpa using hprice)] at hout'
  rw [if_pos (by simpa using hprice)] at hvacant'
  have hkind : amendCount (V33.placeSlot p st s.1 s.2 now).acts = 0 := amendCount_mk _ _
  refine ⟨hok, rfl, ?_, ?_, fun a ha hmoves => ?_⟩
  · have hone : (V33.placeSlot p st s.1 s.2 now).acts.length = 1 := rfl
    unfold workLeft outstanding
    rw [hladder, List.countP_append, List.countP_singleton, if_pos hwaits, hrolls, hheld, hone]
    omega
  · rw [hkind]
    omega
  · obtain rfl := List.mem_singleton.mp ha
    have hplace (shakedown : Bool) (act : V33Action) (hact : act.kind = .placeRest) :
        ((V33.mk shakedown act).kind.isAmend || (V33.mk shakedown act).kind.isCancel) = false := by
      unfold V33.mk
      rw [hact]
      cases shakedown <;> rfl
    rw [placeAction, hplace _ _ rfl] at hmoves
    cases hmoves

/-! ### Moves one after the other -/

/-- Amends of different orders to different slots. What is not in the list stays to be moved and
to be filled. -/
theorem Advance.rolls (pairs : List (RestOrder × ℕ × ℚ)) (h : ConvergeOk p nTop lots st)
    (hout : ∀ x ∈ pairs, x.1 ∈ outOrders st (placeableOpenSlots p st nTop))
    (hvacant : ∀ x ∈ pairs, x.2 ∈ vacantSlots st (placeableOpenSlots p st nTop))
    (hcoids : (pairs.map fun x => x.1.clientOrderId).Nodup)
    (hprices : (pairs.map fun x => x.2.2).Nodup) :
    let r := forEach pairs (fun x s => emitRoll p s x.1 x.2.2 x.2.1 now) st
    Advance p nTop lots st r.acts r.st ∧ amendCount r.acts = pairs.length ∧
      (∀ o ∈ outOrders st (placeableOpenSlots p st nTop),
        o.clientOrderId ∉ pairs.map (fun x => x.1.clientOrderId) →
          o ∈ outOrders r.st (placeableOpenSlots p r.st nTop)) ∧
      ∀ s ∈ vacantSlots st (placeableOpenSlots p st nTop), s.2 ∉ pairs.map (fun x => x.2.2) →
        s ∈ vacantSlots r.st (placeableOpenSlots p r.st nTop) := by
  induction pairs generalizing st with
  | nil => exact ⟨Advance.refl h, rfl, fun o ho _ => ho, fun s hs _ => hs⟩
  | cons x pairs ih =>
    obtain ⟨o, s⟩ := x
    rw [List.map_cons, List.nodup_cons] at hcoids hprices
    have ho := hout (o, s) (by simp)
    have hs := hvacant (o, s) (by simp)
    have hfirst := @Advance.roll p nTop now lots st h o s ho hs s.1
    have houtStays (y : RestOrder) (hy : y ∈ outOrders st (placeableOpenSlots p st nTop))
        (hne : y.clientOrderId ≠ o.clientOrderId) :
        y ∈ outOrders (V33.emitRoll p st o s.2 s.1 now).st
          (placeableOpenSlots p (V33.emitRoll p st o s.2 s.1 now).st nTop) := by
      obtain ⟨hmem, hfree, hoff⟩ := h.mem_out.mp hy
      refine hfirst.ok.mem_out.mpr ⟨hmem, ?_, hoff⟩
      show y.clientOrderId ∉ (st.rollsInFlight ++ [_]).map RollPending.oldCoid
      rw [List.map_append, List.mem_append, not_or]
      exact ⟨hfree, by simpa using hne⟩
    have hvacantStays (y : ℕ × ℚ) (hy : y ∈ vacantSlots st (placeableOpenSlots p st nTop))
        (hne : y.2 ≠ s.2) :
        y ∈ vacantSlots (V33.emitRoll p st o s.2 s.1 now).st
          (placeableOpenSlots p (V33.emitRoll p st o s.2 s.1 now).st nTop) := by
      obtain ⟨hmem, hfree, hunpromised⟩ := h.mem_vacant.mp hy
      refine hfirst.ok.mem_vacant.mpr ⟨hmem, hfree, ?_⟩
      show y.2 ∉ (st.rollsInFlight ++ [_]).map RollPending.targetPrice
      rw [List.map_append, List.mem_append, not_or]
      exact ⟨hunpromised, by simpa using hne⟩
    obtain ⟨hrest, hamends, houtRest, hvacantRest⟩ := ih hfirst.ok
      (fun y hy => houtStays y.1 (hout y (by simp [hy])) fun hsame =>
        hcoids.1 (hsame ▸ List.mem_map_of_mem (f := fun x => x.1.clientOrderId) hy))
      (fun y hy => hvacantStays y.2 (hvacant y (by simp [hy])) fun hsame =>
        hprices.1 (hsame ▸ List.mem_map_of_mem (f := fun x => x.2.2) hy)) hcoids.2 hprices.2
    refine ⟨hfirst.trans hrest, ?_, fun y hy hnew => ?_, fun y hy hnew => ?_⟩
    · have hone : amendCount (V33.emitRoll p st o s.2 s.1 now).acts = 1 := amendCount_mk _ _
      rw [forEach, andThen_acts, amendCount, List.countP_append]
      unfold amendCount at hone hamends
      rw [hone, hamends, List.length_cons]
      omega
    · rw [List.map_cons, List.mem_cons, not_or] at hnew
      exact houtRest y (houtStays y hy hnew.1) hnew.2
    · rw [List.map_cons, List.mem_cons, not_or] at hnew
      exact hvacantRest y (hvacantStays y hy hnew.1) hnew.2

/-- Cancels of different orders once no slot is vacant. -/
theorem Advance.shrinks (os : List RestOrder) (h : ConvergeOk p nTop lots st)
    (hout : ∀ o ∈ os, o ∈ outOrders st (placeableOpenSlots p st nTop))
    (hcoids : (os.map RestOrder.clientOrderId).Nodup) (hfull : vacantCount p st nTop = 0) :
    Advance p nTop lots st (forEach os shrinkOne st).acts (forEach os shrinkOne st).st ∧
      (forEach os shrinkOne st).acts.length = os.length := by
  induction os generalizing st with
  | nil => exact ⟨Advance.refl h, rfl⟩
  | cons o os ih =>
    rw [List.map_cons, List.nodup_cons] at hcoids
    have ho := hout o (by simp)
    have hfirst := Advance.shrink h ho hfull
    have hladder : (V33.shrinkOne o st).st.ladder = dropOrder st.ladder o.clientOrderId := by
      unfold V33.shrinkOne
      dsimp only
      rw [retainCancelled_eq]
    have hrolls := (h.shrinkOne ho).2.2
    have hout' (y : RestOrder) (hy : y ∈ os) : y ∈ outOrders (V33.shrinkOne o st).st
        (placeableOpenSlots p (V33.shrinkOne o st).st nTop) := by
      obtain ⟨hmem, hfree, hoff⟩ := h.mem_out.mp (hout y (by simp [hy]))
      have hne : y.clientOrderId ≠ o.clientOrderId := fun hsame =>
        hcoids.1 (hsame ▸ List.mem_map_of_mem hy)
      refine hfirst.ok.mem_out.mpr ⟨?_, by rwa [hrolls], by rwa [openPrices, hfirst.slots]⟩
      rw [hladder]
      simpa [dropOrder] using ⟨hmem, hne⟩
    have hnone : vacantSlots st (placeableOpenSlots p st nTop) = [] :=
      List.length_eq_zero_iff.mp hfull
    have hfull' : vacantCount p (V33.shrinkOne o st).st nTop = 0 := by
      apply List.length_eq_zero_iff.mpr
      apply List.eq_nil_iff_forall_not_mem.mpr
      intro y hy
      obtain ⟨hslot, hfree, hunpromised⟩ := hfirst.ok.mem_vacant.mp hy
      rw [hfirst.slots] at hslot
      rw [hladder] at hfree
      rw [hrolls] at hunpromised
      have hvacant : y ∈ vacantSlots st (placeableOpenSlots p st nTop) := by
        refine h.mem_vacant.mpr ⟨hslot, fun hin => ?_, hunpromised⟩
        obtain ⟨x, hx, hprice⟩ := List.mem_map.mp hin
        by_cases hsame : x.clientOrderId = o.clientOrderId
        · obtain rfl : x = o :=
            List.inj_on_of_nodup_map h.coids.nodup hx (h.mem_out.mp ho).1 hsame
          exact (h.mem_out.mp ho).2.2 (hprice ▸ List.mem_map_of_mem hslot)
        · exact hfree (hprice ▸ List.mem_map_of_mem (by simpa [dropOrder] using ⟨hx, hsame⟩))
      rw [hnone] at hvacant
      cases hvacant
    obtain ⟨hrest, hlength⟩ := ih hfirst.ok hout' hcoids.2 hfull'
    refine ⟨hfirst.trans hrest, ?_⟩
    have hone : (V33.shrinkOne o st).acts.length = 1 := rfl
    rw [forEach, andThen_acts, List.length_append, hlength, hone, List.length_cons]
    omega

/-- Every rung has the same lots. -/
structure Uniform (p : V33Params) (lots : ℕ) : Prop where
  pos : 0 < lots
  same : ∀ w ∈ p.rungLots, w = lots

/-- With equal weights the allotment is the number of rungs times the weight. -/
theorem Uniform.allotment (h : Uniform p lots) : allotment p = p.rungs * lots := by
  unfold V33.allotment
  rw [List.eq_replicate_of_mem h.same, List.sum_replicate, p.rungLots_length, nsmul_eq_mul,
    Nat.cast_id]

/-- There are no more open slots than rungs. -/
theorem ConvergeOk.slots_le (h : ConvergeOk p nTop lots st) (hu : Uniform p lots) :
    (placeableOpenSlots p st nTop).length ≤ p.rungs := by
  have hrung (m : ℕ) (hm : m ∈ openSlots st) :
      0 ≤ (m : ℤ) - eMinCents p ∧ ((m : ℤ) - eMinCents p).toNat < p.rungs := by
    have hweight := h.weights m hm
    unfold weightOfMargin weightOfRung at hweight
    split_ifs at hweight with hin
    · rw [p.rungLots_length] at hin
      omega
    · have hpos := hu.pos
      omega
  have hnodup : ((openSlots st).map fun m : ℕ => ((m : ℤ) - eMinCents p).toNat).Nodup := by
    apply List.Nodup.map_on _ (List.nodup_range.filter _)
    intro a ha b hb hsame
    have hlow := (hrung a ha).1
    have hlow' := (hrung b hb).1
    omega
  have hsub : ((openSlots st).map fun m : ℕ => ((m : ℤ) - eMinCents p).toNat) ⊆
      List.range p.rungs := by
    intro k hk
    obtain ⟨m, hm, rfl⟩ := List.mem_map.mp hk
    exact List.mem_range.mpr (hrung m hm).2
  have hlength := (List.subperm_of_subset hnodup hsub).length_le
  rw [List.length_map, List.length_range] at hlength
  calc (placeableOpenSlots p st nTop).length
      ≤ ((openSlots st).map fun m : ℕ => (m, priceOfMargin p nTop m)).length :=
        List.length_filter_le _ _
    _ = (openSlots st).length := List.length_map _
    _ ≤ p.rungs := hlength

/-- With every order on its way to a slot, a vacant slot has its lots left. -/
theorem ConvergeOk.room (h : ConvergeOk p nTop lots st) (hu : Uniform p lots)
    (hplaced : outCount p st nTop = 0) (hvacant : 0 < vacantCount p st nTop) :
    filledContracts st + restingContracts st + lots ≤ V33.allotment p := by
  have hout := h.out_count
  have hslots := h.vacant_count
  have hle := h.slots_le hu
  have hsplit := List.length_eq_countP_add_countP
    (fun o : RestOrder => decide (o.price ∈ openPrices p st nTop)) (l := st.ladder)
  have hoff : st.ladder.countP (fun o => !decide (o.price ∈ openPrices p st nTop)) =
      st.ladder.countP (fun o => o.price ∉ openPrices p st nTop) := by
    simp only [decide_not]
  have hlength : st.ladder.length + 1 ≤ p.rungs := by
    simp only [Bool.not_eq_true, Bool.decide_eq_false] at hsplit
    omega
  have hresting : restingContracts st = st.ladder.length * lots := by
    unfold restingContracts
    rw [List.map_congr_left h.counts, List.map_const', List.sum_replicate, nsmul_eq_mul]
  have hfilled : filledContracts st = 0 := by simp [filledContracts, h.unfilled]
  have hlots : (st.ladder.length + 1) * lots ≤ p.rungs * lots := Nat.mul_le_mul_right lots hlength
  rw [hresting, hfilled, hu.allotment]
  have hcast : (((st.ladder.length + 1) * lots : ℕ) : ℚ) ≤ ((p.rungs * lots : ℕ) : ℚ) := by
    exact_mod_cast hlots
  push_cast at hcast ⊢
  linarith

/-- After a create the other slots stay vacant and no order is off the slots. -/
theorem ConvergeOk.after_create (h : ConvergeOk p nTop lots st) {s : ℕ × ℚ}
    (hs : s ∈ vacantSlots st (placeableOpenSlots p st nTop)) (hplaced : outCount p st nTop = 0) :
    outCount p (V33.placeSlot p st s.1 s.2 now).st nTop = 0 ∧
      ∀ y ∈ vacantSlots st (placeableOpenSlots p st nTop), y.2 ≠ s.2 →
        y ∈ vacantSlots (V33.placeSlot p st s.1 s.2 now).st
          (placeableOpenSlots p (V33.placeSlot p st s.1 s.2 now).st nTop) := by
  have hok := @ConvergeOk.placeSlot p nTop now lots st h s hs
  obtain ⟨hslot, -, -⟩ := h.mem_vacant.mp hs
  have hmem {x : RestOrder} (hx : x ∈ (V33.placeSlot p st s.1 s.2 now).st.ladder) :
      x ∈ st.ladder ∨ x.price = s.2 := by
    rcases List.mem_append.mp hx with hx | hx
    · exact Or.inl hx
    · rw [List.mem_singleton.mp hx]
      exact Or.inr rfl
  constructor
  · have hnone : outOrders st (placeableOpenSlots p st nTop) = [] :=
      List.length_eq_zero_iff.mp hplaced
    apply List.length_eq_zero_iff.mpr
    apply List.eq_nil_iff_forall_not_mem.mpr
    intro y hy
    obtain ⟨hy, hfree, hoff⟩ := hok.mem_out.mp hy
    rcases hmem hy with hy | hprice
    · have hout : y ∈ outOrders st (placeableOpenSlots p st nTop) :=
        h.mem_out.mpr ⟨hy, hfree, hoff⟩
      rw [hnone] at hout
      cases hout
    · apply hoff
      rw [hprice]
      exact List.mem_map_of_mem hslot
  · intro y hy hne
    obtain ⟨hyslot, hfree, hunpromised⟩ := h.mem_vacant.mp hy
    refine hok.mem_vacant.mpr ⟨hyslot, fun hin => ?_, hunpromised⟩
    obtain ⟨x, hx, hprice⟩ := List.mem_map.mp hin
    rcases hmem hx with hx | hlast
    · exact hfree (hprice ▸ List.mem_map_of_mem hx)
    · exact hne (hprice.symm.trans hlast)

/-- Creates on different vacant slots once no order is off the slots. -/
theorem Advance.creates (hu : Uniform p lots) (slots : List (ℕ × ℚ))
    (h : ConvergeOk p nTop lots st)
    (hvacant : ∀ s ∈ slots, s ∈ vacantSlots st (placeableOpenSlots p st nTop))
    (hprices : (slots.map Prod.snd).Nodup) (hplaced : outCount p st nTop = 0) :
    Advance p nTop lots st (createSlots p now slots st).acts (createSlots p now slots st).st ∧
      (createSlots p now slots st).acts.length = slots.length := by
  induction slots generalizing st with
  | nil => exact ⟨Advance.refl h, rfl⟩
  | cons s slots ih =>
    obtain ⟨m, price⟩ := s
    rw [List.map_cons, List.nodup_cons] at hprices
    have hs := hvacant (m, price) (by simp)
    have hweight : weightOfMargin p m = lots :=
      h.weights m (ConvergeOk.open_of_mem (h.mem_vacant.mp hs).1)
    have hroom := h.room hu hplaced (List.length_pos_of_mem hs)
    have hfirst := @Advance.create p nTop now lots st h (m, price) hs hplaced
    obtain ⟨hplaced', hstays⟩ := @ConvergeOk.after_create p nTop now lots st h (m, price) hs hplaced
    obtain ⟨hrest, hlength⟩ := ih hfirst.ok
      (fun y hy => hstays y (hvacant y (by simp [hy])) fun hsame =>
        hprices.1 (hsame ▸ List.mem_map_of_mem hy)) hprices.2 hplaced'
    have hpos := hu.pos
    have hcreate : createSlots p now ((m, price) :: slots) st =
        (V33.placeSlot p st m price now).andThen (createSlots p now slots) := by
      rw [createSlots, hweight, if_neg (by omega), if_neg (not_lt.mpr hroom)]
    rw [hcreate]
    refine ⟨hfirst.trans hrest, ?_⟩
    have hone : (V33.placeSlot p st m price now).acts.length = 1 := rfl
    rw [andThen_acts, List.length_append, hlength, hone, List.length_cons]
    omega

/-- Placing the vacant slots of a list that the budget covers. -/
theorem Advance.places (hu : Uniform p lots) (held : List ℚ) (budget : ℚ) (slots : List (ℕ × ℚ))
    (used : ℚ) (h : ConvergeOk p nTop lots st)
    (hvacant : ∀ s ∈ slots, s ∈ vacantSlots st (placeableOpenSlots p st nTop))
    (hprices : (slots.map Prod.snd).Nodup) (hplaced : outCount p st nTop = 0)
    (hbudget : used + slots.length * lots ≤ budget) (hheld : ∀ s ∈ slots, s.2 ∉ held) :
    Advance p nTop lots st (placeSlots p held budget now slots used st).acts
        (placeSlots p held budget now slots used st).st ∧
      (placeSlots p held budget now slots used st).acts.length = slots.length := by
  induction slots generalizing st used with
  | nil => exact ⟨Advance.refl h, rfl⟩
  | cons s slots ih =>
    obtain ⟨m, price⟩ := s
    rw [List.map_cons, List.nodup_cons] at hprices
    rw [List.length_cons] at hbudget
    push_cast at hbudget
    have hs := hvacant (m, price) (by simp)
    have hweight : weightOfMargin p m = lots :=
      h.weights m (ConvergeOk.open_of_mem (h.mem_vacant.mp hs).1)
    have hfirst := @Advance.create p nTop now lots st h (m, price) hs hplaced
    obtain ⟨hplaced', hstays⟩ := @ConvergeOk.after_create p nTop now lots st h (m, price) hs hplaced
    obtain ⟨hrest, hlength⟩ := ih (used + lots) hfirst.ok
      (fun y hy => hstays y (hvacant y (by simp [hy])) fun hsame =>
        hprices.1 (hsame ▸ List.mem_map_of_mem hy)) hprices.2 hplaced' (by linarith)
      (fun y hy => hheld y (by simp [hy]))
    have hpos := hu.pos
    have hfits : ¬budget < used + lots := by
      have hmore : (0 : ℚ) ≤ slots.length * lots := by positivity
      rw [not_lt]
      linarith
    have hplace : placeSlots p held budget now ((m, price) :: slots) used st =
        (V33.placeSlot p st m price now).andThen
          (placeSlots p held budget now slots (used + lots)) := by
      have hfree : price ∉ held := hheld (m, price) (by simp)
      rw [placeSlots, hweight, if_neg]
      rintro (hzero | hover | hin)
      · omega
      · exact hfits hover
      · exact hfree hin
    rw [hplace]
    refine ⟨hfirst.trans hrest, ?_⟩
    have hone : (V33.placeSlot p st m price now).acts.length = 1 := rfl
    rw [andThen_acts, List.length_append, hlength, hone, List.length_cons]
    omega

/-- A step that changes neither the orders nor the slots. -/
theorem Advance.still (h : ConvergeOk p nTop lots st')
    (hslots : placeableOpenSlots p st' nTop = placeableOpenSlots p st nTop)
    (hout : outCount p st' nTop = outCount p st nTop)
    (hvacant : vacantCount p st' nTop = vacantCount p st nTop)
    (hopen : outstanding st' = outstanding st) : Advance p nTop lots st [] st' := by
  refine ⟨h, hslots, ?_, ?_, by simp⟩
  · unfold workLeft
    rw [hout, hvacant, hopen, List.length_nil, Nat.add_zero]
  · rw [hout, hvacant]
    simp [amendCount]

/-- The pace of the ladder does not matter to it. -/
theorem Advance.pacing (h : ConvergeOk p nTop lots st) (x : Pacing) (hx : x.holdSince = none) :
    Advance p nTop lots st [] { st with toPacing := x } := by
  have hok : ConvergeOk p nTop lots { st with toPacing := x } := { h with
    unheld := hx
    coids := h.coids.shrink rfl le_rfl (List.Sublist.refl _) (List.Sublist.refl _) }
  exact .still hok rfl rfl rfl rfl

/-- After `n` amends the budget left goes to cancels if orders are left over, or to creates if
slots are. -/
theorem Advance.extras {out : List RestOrder} {vacant : List (ℕ × ℚ)} {n budget : ℕ}
    (hu : Uniform p lots) (h : ConvergeOk p nTop lots st)
    (hout : ∀ o ∈ out.drop n, o ∈ outOrders st (placeableOpenSlots p st nTop))
    (hvacant : ∀ x ∈ vacant.drop n, x ∈ vacantSlots st (placeableOpenSlots p st nTop))
    (hcoids : ((out.drop n).map RestOrder.clientOrderId).Nodup)
    (hprices : ((vacant.drop n).map Prod.snd).Nodup)
    (hn : n = min budget (min out.length vacant.length))
    (hmin : n + min (outCount p st nTop) (vacantCount p st nTop) = min out.length vacant.length) :
    let extra := if n < out.length then
        forEach ((out.drop n).take (budget - n)) shrinkOne st
      else createSlots p now ((vacant.drop n).take (budget - n)) st
    Advance p nTop lots st extra.acts extra.st ∧
      (n = 0 → 0 < budget → 0 < out.length + vacant.length → extra.acts ≠ []) := by
  dsimp only
  split_ifs with hleft
  · by_cases hnone : budget - n = 0
    · rw [hnone, List.take_zero]
      refine ⟨Advance.refl h, fun hzero hpos => ?_⟩
      omega
    · have hfull : vacantCount p st nTop = 0 := by
        obtain ⟨o, ho⟩ := List.exists_mem_of_length_pos (l := out.drop n)
          (by rw [List.length_drop]; omega)
        have hpos : 0 < outCount p st nTop := List.length_pos_of_mem (hout o ho)
        omega
      obtain ⟨hadvance, hlength⟩ := Advance.shrinks ((out.drop n).take (budget - n)) h
        (fun o ho => hout o (List.mem_of_mem_take ho))
        (hcoids.sublist ((List.take_sublist _ _).map _)) hfull
      refine ⟨hadvance, fun _ _ _ hempty => ?_⟩
      rw [hempty, List.length_nil, List.length_take, List.length_drop] at hlength
      omega
  · cases hslots : (vacant.drop n).take (budget - n) with
    | nil =>
      refine ⟨Advance.refl h, fun hzero hpos hsome => ?_⟩
      have hlength := congrArg List.length hslots
      rw [List.length_nil, List.length_take, List.length_drop] at hlength
      omega
    | cons x rest =>
      have hin {y : ℕ × ℚ} (hy : y ∈ x :: rest) : y ∈ vacant.drop n :=
        List.mem_of_mem_take (hslots ▸ hy)
      have hplaced : outCount p st nTop = 0 := by
        have hpos : 0 < vacantCount p st nTop :=
          List.length_pos_of_mem (hvacant x (hin (by simp)))
        omega
      have hnodup : ((x :: rest).map Prod.snd).Nodup := by
        rw [← hslots]
        exact hprices.sublist ((List.take_sublist _ _).map _)
      obtain ⟨hadvance, hlength⟩ := @Advance.creates p nTop now lots st hu (x :: rest) h
        (fun y hy => hvacant y (hin hy)) hnodup hplaced
      refine ⟨hadvance, fun _ _ _ hempty => ?_⟩
      rw [hempty] at hlength
      cases hlength

/-- With budget and work left the convergence moves something. -/
theorem Advance.moveOrders (hu : Uniform p lots) (h : ConvergeOk p nTop lots st)
    {out : List RestOrder} {vacant : List (ℕ × ℚ)} {budget : ℕ} (resumed : Bool)
    (hout : out.Perm (outOrders st (placeableOpenSlots p st nTop)))
    (hvacant : vacant.Perm (vacantSlots st (placeableOpenSlots p st nTop)))
    (hbudget : 0 < budget) (hwork : 0 < outCount p st nTop + vacantCount p st nTop) :
    Advance p nTop lots st (moveOrders p st out vacant budget resumed now).acts
        (moveOrders p st out vacant budget resumed now).st ∧
      (moveOrders p st out vacant budget resumed now).acts ≠ [] := by
  obtain ⟨hfst, hsnd⟩ := take_zip_split out vacant budget
  have hpairsLength : ((out.zip vacant).take budget).length =
      min budget (min out.length vacant.length) := by simp
  have houtCount : outCount p st nTop = out.length := hout.length_eq.symm
  have hvacantCount : vacantCount p st nTop = vacant.length := hvacant.length_eq.symm
  have hcoids : (out.map RestOrder.clientOrderId).Nodup :=
    (hout.map _).nodup_iff.mpr (h.coids.nodup.sublist (List.filter_sublist.map _))
  have hprices : (vacant.map Prod.snd).Nodup :=
    (hvacant.map _).nodup_iff.mpr ((nodup_placeable p st nTop).sublist (List.filter_sublist.map _))
  generalize hpairs : (out.zip vacant).take budget = pairs at hfst hsnd hpairsLength
  rw [← hfst, List.map_append, List.nodup_append, List.map_map] at hcoids
  rw [← hsnd, List.map_append, List.nodup_append, List.map_map] at hprices
  have hmemOut {o : RestOrder} (ho : o ∈ out) : o ∈ outOrders st (placeableOpenSlots p st nTop) :=
    hout.mem_iff.mp ho
  have hmemVacant {x : ℕ × ℚ} (hx : x ∈ vacant) :
      x ∈ vacantSlots st (placeableOpenSlots p st nTop) := hvacant.mem_iff.mp hx
  obtain ⟨hrolls, hamends, houtRest, hvacantRest⟩ := @Advance.rolls p nTop now lots st pairs h
    (fun x hx => hmemOut (by rw [← hfst]; exact List.mem_append_left _ (List.mem_map_of_mem hx)))
    (fun x hx => hmemVacant (by
      rw [← hsnd]
      exact List.mem_append_left _ (List.mem_map_of_mem hx)))
    hcoids.1 hprices.1
  have hextra := @Advance.extras p nTop now lots _ out vacant pairs.length budget hu hrolls.ok
    (fun o ho => houtRest o (hmemOut (List.mem_of_mem_drop ho)) fun hin =>
      hcoids.2.2 _ hin _ (List.mem_map_of_mem ho) rfl)
    (fun x hx => hvacantRest x (hmemVacant (List.mem_of_mem_drop hx)) fun hin =>
      hprices.2.2 _ hin _ (List.mem_map_of_mem hx) rfl)
    hcoids.2.1 hprices.2.1 hpairsLength (by
      rw [← hamends, ← houtCount, ← hvacantCount]
      exact hrolls.amends)
  unfold V33.moveOrders
  dsimp only
  rw [hpairs]
  generalize forEach pairs (fun x s => V33.emitRoll p s x.1 x.2.2 x.2.1 now) st = rolls at *
  generalize (if pairs.length < out.length then
      forEach ((out.drop pairs.length).take (budget - pairs.length)) V33.shrinkOne rolls.st
    else createSlots p now ((vacant.drop pairs.length).take (budget - pairs.length))
      rolls.st) = extra at hextra ⊢
  obtain ⟨hmore, hsome⟩ := hextra
  have hall := hrolls.trans hmore
  have hacts : rolls.acts ++ extra.acts ≠ [] := by
    intro hnone
    obtain ⟨hnoRolls, hnoMore⟩ := List.append_eq_nil_iff.mp hnone
    rw [hnoRolls] at hamends
    exact hsome hamends.symm hbudget (by omega) hnoMore
  split_ifs
  · refine ⟨?_, hacts⟩
    have hlast := hall.trans (Advance.pacing hall.ok { extra.st.toPacing with
      lastReplaceTs := some now
      replaceTimes := recentTimes extra.st now ++ List.replicate extra.acts.length now }
        hall.ok.unheld)
    rwa [List.append_nil] at hlast
  · exact ⟨hall, hacts⟩

/-! ### The convergence -/

/-- The debounce has passed since the last move. -/
def pastDebounce (p : V33Params) (st : V33State) (now : ℚ) : Prop :=
  (p.debMs : ℚ) ≤ (now - st.lastReplaceTs.getD (-10 ^ 18)) * 1000

/-- Nothing awaits an acknowledgement. -/
def Answered (st : V33State) : Prop := outstanding st = 0

/-- Once everything is answered nothing is in flight. -/
theorem Answered.still (h : Answered st) :
    st.rollsInFlight = [] ∧ st.ladder.any RestOrder.pending = false := by
  unfold Answered outstanding at h
  constructor
  · apply List.length_eq_zero_iff.mp
    omega
  · rw [List.any_eq_false]
    exact List.countP_eq_zero.mp (by omega)

/-- What a convergence does: it leads the ladder on, moves something if it can, and is silent
once there is nothing to do. -/
structure Leads (p : V33Params) (nTop now : ℚ) (lots : ℕ) (st : V33State) (r : Outcome) :
    Prop where
  advance : Advance p nTop lots st r.acts r.st
  moves : Answered st → pastDebounce p st now →
    0 < outCount p st nTop + vacantCount p st nTop → r.acts ≠ []
  silent : outCount p st nTop + vacantCount p st nTop = 0 → r.acts = []

/-- Doing nothing leads on when the ladder has nothing to do yet. -/
theorem Leads.quiet (h : ConvergeOk p nTop lots st)
    (hbusy : ¬(Answered st ∧ pastDebounce p st now ∧
      0 < outCount p st nTop + vacantCount p st nTop)) : Leads p nTop now lots st st.quiet :=
  ⟨Advance.refl h, fun ha hd hw => absurd ⟨ha, hd, hw⟩ hbusy, fun _ => rfl⟩

/-- The moves of a pass lead on. -/
theorem Leads.moveStage (hu : Uniform p lots) (h : ConvergeOk p nTop lots st) (resumed : Bool) :
    Leads p nTop now lots st (moveStage p nTop resumed now st) := by
  unfold V33.moveStage
  dsimp only
  split_ifs with hdone hstill hdebounce hfull
  · have hpace := Advance.pacing h { st.toPacing with convergingDir := 0 } h.unheld
    refine ⟨hpace, fun _ _ hwork => ?_, fun _ => rfl⟩
    rw [List.isEmpty_iff, List.isEmpty_iff] at hdone
    rw [outCount, vacantCount, hdone.1, hdone.2] at hwork
    cases hwork
  · apply Leads.quiet h
    rintro ⟨hanswered, -, -⟩
    rw [hanswered.still.1] at hstill
    exact hstill rfl
  · apply Leads.quiet h
    rintro ⟨-, hpast, -⟩
    simp only [debouncing, decide_eq_true_eq] at hdebounce
    exact absurd hdebounce.2 (not_lt.mpr hpast)
  · have hpace := Advance.pacing h { st.toPacing with
        convergingDir := needDirection p st nTop (outOrders st (placeableOpenSlots p st nTop)) }
      h.unheld
    refine ⟨hpace, fun hanswered _ _ => ?_, fun _ => rfl⟩
    have hbudget := p.maxAmendsInFlight_pos
    rw [hanswered.still.1, List.length_nil] at hfull
    omega
  · have hpace := Advance.pacing h { st.toPacing with
        convergingDir := needDirection p st nTop (outOrders st (placeableOpenSlots p st nTop)) }
      h.unheld
    have hwork : 0 < outCount p st nTop + vacantCount p st nTop := by
      by_contra hnone
      have hnil : outCount p st nTop = 0 ∧ vacantCount p st nTop = 0 := by omega
      apply hdone
      rw [List.isEmpty_iff, List.isEmpty_iff]
      exact ⟨List.length_eq_zero_iff.mp hnil.1, List.length_eq_zero_iff.mp hnil.2⟩
    obtain ⟨hmoves, hsome⟩ := @Advance.moveOrders p nTop now lots _ hu hpace.ok _ _ _ resumed
      (List.perm_insertionSort (fun a b : RestOrder => a.price ≤ b.price) _)
      (List.perm_insertionSort (fun a b : ℕ × ℚ => a.2 ≤ b.2) _) (Nat.pos_of_ne_zero hfull) hwork
    refine ⟨hpace.trans hmoves, fun _ _ _ => hsome, fun hnone => ?_⟩
    omega

/-- An empty ladder is placed in whole. -/
theorem Leads.placeStage (hu : Uniform p lots) (hsets : 0 < p.maxSetsPerHour)
    (h : ConvergeOk p nTop lots st) (hempty : st.ladder = []) (hrolls : st.rollsInFlight = []) :
    Leads p nTop now lots st (placeStage p nTop now st) := by
  have hout : outCount p st nTop = 0 := by simp [outCount, outOrders, hempty]
  have hvacant : vacantSlots st (placeableOpenSlots p st nTop) = placeableOpenSlots p st nTop := by
    apply List.filter_eq_self.mpr
    intro s hs
    have hheld : s.2 ∉ heldCancelPrices st := fun hin => h.held s.2 hin (List.mem_map_of_mem hs)
    simp [hempty, hrolls, hheld]
  have hcount : vacantCount p st nTop = (placeableOpenSlots p st nTop).length := by
    rw [vacantCount, hvacant]
  have hresting : restingContracts st = 0 := by simp [restingContracts, hempty]
  have hfilled : filledContracts st = 0 := by simp [filledContracts, h.unfilled]
  have hallotment : (allotment p : ℚ) = p.rungs * lots := by
    rw [hu.allotment]
    push_cast
    rfl
  have hbudget : ¬((allotment p : ℚ) - filledContracts st - restingContracts st ≤ 0 ∨
      p.maxSetsPerHour ≤ st.rungsFilled) := by
    rw [hresting, hfilled, h.fresh, hallotment]
    have hpos : (0 : ℚ) < p.rungs * lots := by
      have hrungs := p.rungs_pos
      exact_mod_cast Nat.mul_pos hrungs hu.pos
    rintro (hnone | hsets')
    · linarith
    · omega
  obtain ⟨hadvance, hlength⟩ := @Advance.places p nTop now lots st hu (heldCancelPrices st)
    ((allotment p : ℚ) - filledContracts st - restingContracts st) (placeableOpenSlots p st nTop) 0
    h (fun s hs => hvacant.symm ▸ hs) (nodup_placeable p st nTop) hout (by
      rw [hresting, hfilled, hallotment]
      have hle : ((placeableOpenSlots p st nTop).length * lots : ℚ) ≤ p.rungs * lots := by
        exact_mod_cast Nat.mul_le_mul_right lots (h.slots_le hu)
      linarith)
    (fun s hs hin => h.held s.2 hin (List.mem_map_of_mem hs))
  unfold V33.placeStage
  rw [h.settled, h.fresh, if_neg (by simp), if_neg (by simp)]
  unfold placeAll
  dsimp only
  rw [if_neg hbudget]
  generalize placeSlots p (heldCancelPrices st) _ now (placeableOpenSlots p st nTop) 0 st = placed
    at hadvance hlength ⊢
  split_ifs with hnone
  · refine ⟨hadvance, fun _ _ hwork => ?_, fun _ => List.isEmpty_iff.mp hnone⟩
    rw [List.isEmpty_iff.mp hnone] at hlength
    rw [hout, hcount, ← hlength] at hwork
    cases hwork
  · have hok := hadvance.ok
    have hmoved : ConvergeOk p nTop lots { placed.st with
        restBucketSd := placed.st.spotSd
        convergingDir := 0
        lastReplaceTs := some now
        replaceCount := placed.st.replaceCount + 1
        replaceTimes := recentTimes placed.st now ++ [now] } := { hok with
      bucket := Or.inr rfl
      coids := hok.coids.shrink rfl le_rfl (List.Sublist.refl _) (List.Sublist.refl _) }
    have hlast := hadvance.trans (Advance.still hmoved rfl rfl rfl rfl)
    rw [List.append_nil] at hlast
    refine ⟨hlast, fun _ _ _ hquiet => hnone ?_, fun hwork => ?_⟩
    · exact List.isEmpty_iff.mpr hquiet
    · apply List.length_eq_zero_iff.mp
      rw [mapSt_acts, hlength, ← hcount]
      omega

/-- While the ladder rests on the spot's bucket a quote leads it on. -/
theorem Leads.quoteStep (hu : Uniform p lots) (hsets : 0 < p.maxSetsPerHour)
    (h : ConvergeOk p nTop lots st) (resumed : Bool) :
    Leads p nTop now lots st (quoteStep p nTop resumed now st) := by
  have hstays : bucketMoved st = false := by
    unfold bucketMoved
    rcases h.bucket with hnone | hspot
    · rw [hnone]
      rfl
    · simp [hspot]
  unfold V33.quoteStep
  rw [hstays, h.settled, if_neg (by simp), if_neg (by simp)]
  split_ifs with hempty hpending
  · rw [List.isEmpty_iff, List.isEmpty_iff] at hempty
    exact Leads.placeStage hu hsets h hempty.1 hempty.2
  · apply Leads.quiet h
    rintro ⟨hanswered, -, -⟩
    rw [hanswered.still.2] at hpending
    cases hpending
  · exact Leads.moveStage hu h resumed

/-- A quote that holds leads the ladder on. -/
theorem Leads.converge (hu : Uniform p lots) (hsets : 0 < p.maxSetsPerHour)
    (h : ConvergeOk p nTop lots st) (hgate : quoteGate p st now = .quote nTop)
    (hrate : replaceRateAlarm p st now = false) :
    Leads p nTop now lots st (converge p st now) := by
  obtain ⟨x, hx, hheld⟩ : ∃ x : Pacing, resumeQuoting st = ⟨{ st with toPacing := x }, []⟩ ∧
      x.holdSince = none ∧ x.lastReplaceTs = st.lastReplaceTs := by
    unfold resumeQuoting endHold
    rw [h.unheld]
    simp only [Option.isSome_none, Bool.false_eq_true, if_false]
    split_ifs
    · exact ⟨{ st.toPacing with lastStanddownReason := none, standDownReason := none }, rfl,
        h.unheld, rfl⟩
    · exact ⟨st.toPacing, rfl, h.unheld, rfl⟩
  have hresume := Advance.pacing h x hheld.1
  have hquote := @Leads.quoteStep p nTop now lots _ hu hsets hresume.ok
    st.holdSince.isSome
  unfold V33.converge
  rw [h.unlatched, hrate, hgate]
  simp only [Bool.false_eq_true, false_and, if_false]
  rw [hx]
  have hpast (hdeb : pastDebounce p st now) : pastDebounce p { st with toPacing := x } now := by
    unfold pastDebounce
    rw [hheld.2]
    exact hdeb
  exact ⟨hresume.trans hquote.advance,
    fun hanswered hdeb hwork => hquote.moves hanswered (hpast hdeb) hwork, hquote.silent⟩

end Moves

end Pilot.V33
