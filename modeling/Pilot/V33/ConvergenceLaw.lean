import Pilot.V33.Convergence
import Pilot.V33.NettingRuns
import Pilot.V33.QuoteSafety
import Mathlib.Data.Fintype.EquivFin

/-!
# The ladder reaches the open slots

The exchange answers what the convergence sends, and book updates and ticks serve the window.
While the quote stands and nothing fills, every answer and every serve that finds all answers in
uses up work, and with no work left the ladder is the open slots and stays silent.
-/

namespace Pilot.V33

/-! ### Answers -/

/-- The exchange answers a create, an amend or a cancel, and reports no fill. -/
inductive Answer (st : V33State) : Event → Prop
  | created (e : OrderAck) (o : RestOrder) (mem : o ∈ st.ladder)
      (names : o.clientOrderId = e.clientOrderId) (pending : o.pending = true)
      (fresh : ∀ a ∈ st.ladder, a.orderId ≠ some e.orderId)
      (unheld : e.orderId ∉ st.cancelPendingPx.keys) : Answer st (.orderAck e)
  | amended (e : OrderAmended) (rp : RollPending) (names : rollOfAmend st e = some rp)
      (price : e.price.getD rp.targetPrice = rp.targetPrice) (unfilled : e.fillCount = 0) :
      Answer st (.orderAmended e)
  | cancelled (e : OrderCancelled) (oid : String) (names : e.orderId = some oid)
      (held : oid ∈ st.cancelPendingPx.keys) (unfilled : e.filledCountBeforeCancel = 0) :
      Answer st (.orderCancelled e)

/-- No fill is hedged and no print was taken early. -/
structure Unhedged (st : V33State) : Prop where
  ungrouped : st.coalesceOpen = none
  unbatched : st.wingBatches = []
  untriggered : st.printThroughTriggers = []

section Answers

variable {p : V33Params} {nTop now : ℚ} {lots : ℕ} {st st' : V33State}

/-- The orders on and off the slots and the amends in flight say what is left to move. -/
theorem ConvergeOk.same_counts (h : ConvergeOk p nTop lots st) (h' : ConvergeOk p nTop lots st')
    (hslots : placeableOpenSlots p st' nTop = placeableOpenSlots p st nTop)
    (hoff : st'.ladder.countP (fun o => o.price ∉ openPrices p st nTop) + st.rollsInFlight.length =
      st.ladder.countP (fun o => o.price ∉ openPrices p st nTop) + st'.rollsInFlight.length)
    (hon : st'.ladder.countP (fun o => o.price ∈ openPrices p st nTop) + st'.rollsInFlight.length =
      st.ladder.countP (fun o => o.price ∈ openPrices p st nTop) + st.rollsInFlight.length) :
    outCount p st' nTop = outCount p st nTop ∧ vacantCount p st' nTop = vacantCount p st nTop := by
  have hout := h.out_count
  have hout' := h'.out_count
  have hvacant := h.vacant_count
  have hvacant' := h'.vacant_count
  have hprices : openPrices p st' nTop = openPrices p st nTop := by rw [openPrices, hslots]; rfl
  rw [hprices] at hout' hvacant'
  rw [hslots] at hvacant'
  omega

/-- An answer uses up what it answers and leaves the rest to move. -/
structure Acked (p : V33Params) (nTop : ℚ) (lots : ℕ) (st st' : V33State) : Prop where
  ok : ConvergeOk p nTop lots st'
  slots : placeableOpenSlots p st' nTop = placeableOpenSlots p st nTop
  out : outCount p st' nTop = outCount p st nTop
  vacant : vacantCount p st' nTop = vacantCount p st nTop
  answered : outstanding st' + 1 = outstanding st

/-- An answer is an advance without actions. -/
theorem Acked.advance (h : Acked p nTop lots st st') : Advance p nTop lots st [] st' := by
  have hanswered := h.answered
  refine ⟨h.ok, h.slots, ?_, ?_, by simp⟩
  · unfold workLeft
    rw [h.out, h.vacant, List.length_nil]
    omega
  · rw [h.out, h.vacant]
    simp [amendCount]

/-- An answer lowers the work left. -/
theorem Acked.workLeft_lt (h : Acked p nTop lots st st') :
    workLeft p st' nTop < workLeft p st nTop := by
  have hanswered := h.answered
  unfold workLeft
  rw [h.out, h.vacant]
  omega

/-! ### The answer to a create -/

/-- The order a create answer leaves. -/
def ackedOrder (orderId : String) (o : RestOrder) : RestOrder :=
  { o with orderId := some orderId, live := true, pending := false }

/-- An acknowledged create makes its order live. -/
theorem Acked.created (h : ConvergeOk p nTop lots st) {e : OrderAck} {o : RestOrder}
    (ho : o ∈ st.ladder) (hnames : o.clientOrderId = e.clientOrderId) (hpending : o.pending = true)
    (hfresh : ∀ a ∈ st.ladder, a.orderId ≠ some e.orderId)
    (hunheld : e.orderId ∉ st.cancelPendingPx.keys) :
    Acked p nTop lots st (applyAck st e) := by
  have hany : (st.ladder.any fun a => a.clientOrderId == e.clientOrderId && a.pending) = true :=
    List.any_eq_true.mpr ⟨o, ho, by simp [hnames, hpending]⟩
  have hack : applyAck st e = { st with
      ladder := replaceOrder st.ladder o.clientOrderId (ackedOrder e.orderId) } := by
    unfold applyAck
    rw [if_pos hany, hnames]
    rfl
  have hcoids := h.coids.applyAck e
  rw [hack] at hcoids ⊢
  have hperm : (replaceOrder st.ladder o.clientOrderId (ackedOrder e.orderId)).Perm
      (ackedOrder e.orderId o :: st.ladder.filter fun a => a.clientOrderId ≠ o.clientOrderId) :=
    perm_replaceFirst ho h.coids.nodup _
  have hwas := perm_cons_filter ho h.coids.nodup
  have hmem {a : RestOrder}
      (ha : a ∈ replaceOrder st.ladder o.clientOrderId (ackedOrder e.orderId)) :
      a = ackedOrder e.orderId o ∨ a ∈ st.ladder ∧ a.clientOrderId ≠ o.clientOrderId := by
    rcases List.mem_cons.mp (hperm.mem_iff.mp ha) with ha | ha
    · exact Or.inl ha
    · rw [List.mem_filter, decide_eq_true_eq] at ha
      exact Or.inr ha
  have hprices : (replaceOrder st.ladder o.clientOrderId (ackedOrder e.orderId)).map
      RestOrder.price = st.ladder.map RestOrder.price :=
    map_replaceFirst_of_eq (f := ackedOrder e.orderId) (fun _ _ => rfl) _
  have hok : ConvergeOk p nTop lots { st with
      ladder := replaceOrder st.ladder o.clientOrderId (ackedOrder e.orderId) } := by
    refine { h with
      coids := hcoids
      counts := fun a ha => ?_
      prices := hprices ▸ h.prices
      ids := fun a ha b hb hsome heq => ?_
      leaving := fun oid hoid a ha => ?_
      orders := fun a ha => ?_
      rolls := fun r hr => ?_ }
    · rcases hmem ha with rfl | ⟨ha, -⟩
      · exact h.counts o ho
      · exact h.counts a ha
    · rcases hmem ha with rfl | ⟨ha, -⟩ <;> rcases hmem hb with rfl | ⟨hb, -⟩
      · rfl
      · exact absurd heq.symm (hfresh b hb)
      · exact absurd heq (hfresh a ha)
      · exact h.ids a ha b hb hsome heq
    · rcases hmem ha with rfl | ⟨ha, -⟩
      · intro hsame
        obtain rfl := Option.some.inj hsame
        exact hunheld hoid
      · exact h.leaving oid hoid a ha
    · rcases hmem ha with rfl | ⟨ha, -⟩
      · exact OrderStands.live rfl rfl rfl
      · exact h.orders a ha
    · obtain ⟨htarget, hvacant, mover, hmover, hcoid, hid, hstill, hoff⟩ := h.rolls r hr
      refine ⟨htarget, ?_, mover, ?_, hcoid, hid, hstill, hoff⟩
      · rw [hprices]
        exact hvacant
      · refine hperm.mem_iff.mpr (List.mem_cons_of_mem _ (List.mem_filter.mpr ⟨hmover, ?_⟩))
        rw [decide_eq_true_eq]
        intro hsame
        obtain rfl := List.inj_on_of_nodup_map h.coids.nodup hmover ho hsame
        rw [hpending] at hstill
        cases hstill
  have hcountP (q : ℚ → Bool) :
      (replaceOrder st.ladder o.clientOrderId (ackedOrder e.orderId)).countP
        (fun a => q a.price) = st.ladder.countP fun a => q a.price := by
    rw [← Function.comp_def, ← List.countP_map, hprices, List.countP_map]
  obtain ⟨hout, hvacant⟩ := h.same_counts hok rfl
    (by rw [hcountP fun x => decide (x ∉ openPrices p st nTop)])
    (by rw [hcountP fun x => decide (x ∈ openPrices p st nTop)])
  refine ⟨hok, rfl, hout, hvacant, ?_⟩
  unfold outstanding
  dsimp only
  rw [hperm.countP_eq, hwas.countP_eq RestOrder.pending, List.countP_cons_of_pos hpending,
    List.countP_cons_of_neg (by simp [ackedOrder])]
  omega

/-! ### The answer to an amend -/

/-- The order a confirmed amend leaves. -/
def movedOrder (p : V33Params) (st : V33State) (rp : RollPending) (price : ℚ) (o : RestOrder) :
    RestOrder :=
  { o with
    price := price
    clientOrderId := rp.newCoid
    rung := (amendLabels p st rp price).1
    eRung := (amendLabels p st rp price).2 }

/-- A confirmed move replaces its order. -/
theorem confirmRoll_ladder (p : V33Params) (st : V33State) (rp : RollPending) (price now : ℚ) :
    (confirmRoll p st rp price now).ladder =
      replaceOrder st.ladder rp.oldCoid (movedOrder p st rp price) := rfl

/-- A confirmed amend puts its order on its slot. -/
theorem Acked.amended (h : ConvergeOk p nTop lots st) {rp : RollPending}
    (hrp : rp ∈ st.rollsInFlight) :
    Acked p nTop lots st (confirmRoll p (dropRoll st rp.oldCoid) rp rp.targetPrice now) := by
  obtain ⟨htarget, hvacant, o, ho, hcoid, hid, hstill, hoff⟩ := h.rolls rp hrp
  have hcoids := @CoidsOk.confirmRoll p now st h.coids rp hrp rp.targetPrice
  obtain ⟨moved, hprice, hpending, hcount, hlive, horderId, hladder⟩ : ∃ moved : RestOrder,
      moved.price = rp.targetPrice ∧ moved.pending = o.pending ∧ moved.count = o.count ∧
        moved.live = o.live ∧ moved.orderId = o.orderId ∧
          (confirmRoll p (dropRoll st rp.oldCoid) rp rp.targetPrice now).ladder.Perm
            (moved :: st.ladder.filter fun a => a.clientOrderId ≠ o.clientOrderId) := by
    refine ⟨movedOrder p (dropRoll st rp.oldCoid) rp rp.targetPrice o, rfl, rfl, rfl, rfl, rfl, ?_⟩
    rw [confirmRoll_ladder, ← hcoid]
    exact perm_replaceFirst ho h.coids.nodup _
  have hwas := perm_cons_filter ho h.coids.nodup
  have hrolls := perm_cons_filter hrp h.coids.oldNodup
  have hrest {a : RestOrder}
      (ha : a ∈ st.ladder.filter fun a => a.clientOrderId ≠ o.clientOrderId) :
      a ∈ st.ladder ∧ a.clientOrderId ≠ o.clientOrderId := by
    rwa [List.mem_filter, decide_eq_true_eq] at ha
  have hmem {a : RestOrder}
      (ha : a ∈ (confirmRoll p (dropRoll st rp.oldCoid) rp rp.targetPrice now).ladder) :
      a = moved ∨ a ∈ st.ladder ∧ a.clientOrderId ≠ o.clientOrderId :=
    (List.mem_cons.mp (hladder.mem_iff.mp ha)).imp_right hrest
  have hother {r : RollPending} (hr : r ∈ (dropRoll st rp.oldCoid).rollsInFlight) :
      r ∈ st.rollsInFlight ∧ r.oldCoid ≠ rp.oldCoid := by
    rw [dropRoll, List.mem_filter, decide_eq_true_eq] at hr
    exact hr
  have hok : ConvergeOk p nTop lots
      (confirmRoll p (dropRoll st rp.oldCoid) rp rp.targetPrice now) := by
    refine { h with
      coids := hcoids
      unbooked := fun coid => ?_
      counts := fun a ha => ?_
      prices := ?_
      ids := fun a ha b hb hsome heq => ?_
      leaving := fun oid hoid a ha => ?_
      orders := fun a ha => ?_
      rolls := fun r hr => ?_
      targets := h.targets.sublist (List.filter_sublist.map _) }
    · show (transferBooked st.restBookedByCoid rp.oldCoid rp.newCoid).getD coid 0 = 0
      rw [getD_transferBooked]
      split_ifs <;> simp [h.unbooked]
    · rcases hmem ha with rfl | ⟨ha, -⟩
      · rw [hcount]
        exact h.counts o ho
      · exact h.counts a ha
    · rw [(hladder.map RestOrder.price).nodup_iff, List.map_cons, List.nodup_cons, hprice]
      exact ⟨fun hin => hvacant ((List.filter_sublist.map _).subset hin),
        h.prices.sublist (List.filter_sublist.map _)⟩
    · rcases hmem ha with rfl | ⟨ha, hne⟩ <;> rcases hmem hb with rfl | ⟨hb, hne'⟩
      · rfl
      · rw [horderId] at hsome heq
        exact absurd (h.ids o ho b hb hsome heq).symm hne'
      · rw [horderId] at heq
        exact absurd (h.ids a ha o ho hsome heq) hne
      · exact h.ids a ha b hb hsome heq
    · rcases hmem ha with rfl | ⟨ha, -⟩
      · rw [horderId]
        exact h.leaving oid hoid o ho
      · exact h.leaving oid hoid a ha
    · rcases hmem ha with rfl | ⟨ha, -⟩
      · cases h.orders o ho with
        | live hpend hlv hacked =>
          exact OrderStands.live (hpending.trans hpend) (hlive.trans hlv) (horderId ▸ hacked)
        | created _ _ hslot => exact absurd hslot hoff
      · exact h.orders a ha
    · obtain ⟨hr, hne⟩ := hother hr
      obtain ⟨htarget', hvacant', a, ha, hacoid, haid, hastill, haoff⟩ := h.rolls r hr
      refine ⟨htarget', fun hin => ?_, a, ?_, hacoid, haid, hastill, haoff⟩
      · obtain ⟨b, hb, hsame⟩ := List.mem_map.mp hin
        rcases hmem hb with rfl | ⟨hb, -⟩
        · apply hne
          rw [List.inj_on_of_nodup_map h.targets hr hrp (hsame.symm.trans hprice)]
        · exact hvacant' (hsame ▸ List.mem_map_of_mem hb)
      · refine hladder.mem_iff.mpr (List.mem_cons_of_mem _ (List.mem_filter.mpr ⟨ha, ?_⟩))
        rw [decide_eq_true_eq, hacoid, hcoid]
        exact hne
  have hlength : st.rollsInFlight.length =
      (dropRoll st rp.oldCoid).rollsInFlight.length + 1 := by
    rw [hrolls.length_eq, List.length_cons]
    rfl
  have hslot : moved.price ∈ openPrices p st nTop := hprice ▸ htarget
  obtain ⟨hout, hvacantSlots⟩ := h.same_counts hok rfl
    (by
      show _ + _ = _ + (dropRoll st rp.oldCoid).rollsInFlight.length
      rw [hladder.countP_eq, hwas.countP_eq (fun o => decide (o.price ∉ openPrices p st nTop))]
      simp only [List.countP_cons, hslot, hoff, not_true_eq_false, not_false_eq_true,
        decide_true, decide_false, Bool.false_eq_true, if_true, if_false]
      omega)
    (by
      show _ + (dropRoll st rp.oldCoid).rollsInFlight.length = _
      rw [hladder.countP_eq, hwas.countP_eq (fun o => decide (o.price ∈ openPrices p st nTop))]
      simp only [List.countP_cons, hslot, hoff, decide_true, decide_false, Bool.false_eq_true,
        if_true, if_false]
      omega)
  refine ⟨hok, rfl, hout, hvacantSlots, ?_⟩
  show (confirmRoll p (dropRoll st rp.oldCoid) rp rp.targetPrice now).ladder.countP
    RestOrder.pending + (dropRoll st rp.oldCoid).rollsInFlight.length +
      st.cancelPendingPx.entries.length + 1 = _
  unfold outstanding
  rw [hladder.countP_eq, hwas.countP_eq RestOrder.pending,
    List.countP_cons_of_neg (by rw [hpending, hstill]; simp),
    List.countP_cons_of_neg (by rw [hstill]; simp)]
  omega

/-- An amend confirmed at its target without a fill ends its roll. -/
theorem confirmAmend_unfilled (h : ConvergeOk p nTop lots st) {rp : RollPending}
    (hrp : rp ∈ st.rollsInFlight) {e : OrderAmended}
    (hprice : e.price.getD rp.targetPrice = rp.targetPrice) (hunfilled : e.fillCount = 0) :
    confirmAmend p st rp e now =
      (confirmRoll p (dropRoll st rp.oldCoid) rp rp.targetPrice now).quiet := by
  obtain ⟨-, -, o, ho, hcoid, -⟩ := h.rolls rp hrp
  have hfind : orderOf (dropRoll st rp.oldCoid) rp.oldCoid = some o := by
    rw [← hcoid]
    exact find?_of_nodup h.coids.nodup ho
  have hnothing : ¬0 < qCount e.fillCount := by
    rw [hunfilled]
    decide +kernel
  unfold confirmAmend
  dsimp only
  rw [hfind]
  dsimp only
  rw [hprice]
  unfold bookAmendCross
  dsimp only
  rw [if_neg hnothing]

/-! ### The answer to a cancel -/

/-- A cancel confirmed without a fill releases its price and does nothing else. -/
theorem cancelled_unfilled (h : ConvergeOk p nTop lots st) (hunhedged : Unhedged st)
    {e : OrderCancelled} {oid : String} (hnames : e.orderId = some oid)
    (hheld : oid ∈ st.cancelPendingPx.keys) (hunfilled : e.filledCountBeforeCancel = 0) :
    ∃ n, beforeConverge p st (.orderCancelled e) =
      some ⟨{ st with
        cancelPendingPx := st.cancelPendingPx.pop oid
        outstandingCancels := n }, []⟩ := by
  have hnothing : ¬0 < qCount e.filledCountBeforeCancel := by
    rw [hunfilled]
    decide +kernel
  have hgone : ∀ o ∈ st.ladder, o.orderId ≠ some oid := h.leaving oid hheld
  have hreport : reportCancel p st e e.serverTs =
      ({ st with cancelPendingPx := st.cancelPendingPx.pop oid } : V33State).quiet := by
    unfold reportCancel bookCancelFill
    rw [hnames]
    simp only [Option.isNone_some, Bool.false_eq_true, false_and, if_false, hnothing]
    rfl
  have hlive : cancelledOrder (clearCancelPending st e.orderId) e = none := by
    unfold cancelledOrder
    rw [hnames]
    exact List.find?_eq_none.mpr fun o ho => by simpa using hgone o ho
  have hroll : rollOfCancel { st with cancelPendingPx := st.cancelPendingPx.pop oid } e = none := by
    unfold rollOfCancel
    rw [hnames]
    refine List.find?_eq_none.mpr fun r hr => ?_
    obtain ⟨-, -, o, ho, -, hid, -⟩ := h.rolls r hr
    simpa [← hid] using hgone o ho
  obtain ⟨n, hdropped⟩ : ∃ n,
      dropCancelled { st with cancelPendingPx := st.cancelPendingPx.pop oid } e none = { st with
        cancelPendingPx := st.cancelPendingPx.pop oid
        outstandingCancels := n } := by
    unfold dropCancelled
    rw [hnames]
    dsimp only
    split_ifs
    · exact ⟨_, rfl⟩
    · exact ⟨st.outstandingCancels, rfl⟩
  refine ⟨n, ?_⟩
  show some ((reportCancel p st e e.serverTs).andThen _) = _
  rw [hreport, hlive]
  unfold finishCancel Outcome.andThen V33State.quiet
  dsimp only
  rw [hroll]
  dsimp only
  rw [hdropped, hnames]
  unfold ptOnCancelConfirmed
  dsimp only
  rw [hunhedged.untriggered]
  rfl

/-- A confirmed cancel is an answer. -/
theorem Acked.cancelled (h : ConvergeOk p nTop lots st) {oid : String}
    (hheld : oid ∈ st.cancelPendingPx.keys) (n : ℕ) :
    Acked p nTop lots st { st with
      cancelPendingPx := st.cancelPendingPx.pop oid
      outstandingCancels := n } := by
  have hsub : (st.cancelPendingPx.pop oid).entries.Sublist st.cancelPendingPx.entries :=
    List.filter_sublist
  have hok : ConvergeOk p nTop lots { st with
      cancelPendingPx := st.cancelPendingPx.pop oid
      outstandingCancels := n } := { h with
    coids := h.coids.shrink rfl le_rfl (List.Sublist.refl _) (List.Sublist.refl _)
    leaving := fun other hother => h.leaving other ((hsub.map _).subset hother)
    held := fun price hprice => h.held price ((hsub.map _).subset hprice) }
  obtain ⟨hout, hvacant⟩ := h.same_counts hok rfl rfl rfl
  refine ⟨hok, rfl, hout, hvacant, ?_⟩
  obtain ⟨entry, hentry, rfl⟩ := List.mem_map.mp hheld
  have hlength := (perm_cons_filter hentry st.cancelPendingPx.nodup_keys).length_eq
  rw [List.length_cons] at hlength
  show _ + _ + (st.cancelPendingPx.entries.filter fun e => e.1 ≠ entry.1).length + 1 = _
  unfold outstanding
  rw [hlength]
  rfl

end Answers

/-! ### Serving the window -/

section Service

variable {p : V33Params} {nTop now : ℚ} {lots : ℕ} {st st' : V33State}

/-- A refresh of an order keeps it live. -/
@[simp] theorem refresh_live (top : Option ℚ) (o : RestOrder) :
    (refresh p top o).live = o.live := by cases top <;> rfl

/-- A refresh of an order keeps it pending. -/
@[simp] theorem refresh_pending (top : Option ℚ) (o : RestOrder) :
    (refresh p top o).pending = o.pending := by cases top <;> rfl

/-- With nothing to hedge the wings are not served. -/
theorem wingStep_unhedged (h : Unhedged st) : wingStep p st now = (syncWingMirrors st).quiet := by
  unfold wingStep coalesceFlush
  rw [h.ungrouped]
  dsimp only
  rw [h.unbatched]
  rfl

/-- The state a window without fills is served in: the labels follow the new quote. -/
def servicedState (p : V33Params) (st : V33State) (b : Books) (q : Quote) (shadows : List ShadowSub)
    (oneLegged : Bool) (top : Option ℚ) : V33State :=
  { st with
    toBooks := b
    toQuote := q
    shadows := shadows
    oneLegged := oneLegged
    ladder := st.ladder.map (refresh p top) }

/-- A window without fills serves its context and its labels. -/
theorem serveWings_unhedged (h : Unhedged st) :
    ∃ (q : Quote) (shadows : List ShadowSub) (oneLegged : Bool) (top : Option ℚ),
      serveWings p st now = ⟨servicedState p st st.toBooks q shadows oneLegged top, []⟩ := by
  obtain ⟨q, shadows, top, hcontext⟩ : ∃ (q : Quote) (shadows : List ShadowSub) (top : Option ℚ),
      recomputeContext p st now = { st with
        toQuote := q
        shadows := shadows
        ladder := st.ladder.map (refresh p top) } := by
    unfold recomputeContext
    dsimp only
    split
    · next top _ => split_ifs <;> exact ⟨_, _, some top, rfl⟩
    · have hid : st.ladder.map (refresh p none) = st.ladder := List.map_id _
      split_ifs <;> exact ⟨_, _, none, by rw [hid]⟩
  obtain ⟨shadows, hshadow⟩ : ∃ shadows : List ShadowSub,
      shadowComplete p (recomputeContext p st now) now = { st with
        toQuote := q
        shadows := shadows
        ladder := st.ladder.map (refresh p top) } := by
    rw [hcontext]
    unfold shadowComplete
    split
    · split
      · exact ⟨shadows, rfl⟩
      · exact ⟨_, rfl⟩
    · exact ⟨shadows, rfl⟩
  refine ⟨q, shadows, st.wingBatches.any WingBatch.oneLegged || st.ptOneLegged, top, ?_⟩
  have hserved : Unhedged (shadowComplete p (recomputeContext p st now) now) := by
    rw [hshadow]
    exact ⟨h.ungrouped, h.unbatched, h.untriggered⟩
  unfold serveWings
  rw [wingStep_unhedged hserved]
  unfold Outcome.andThen
  dsimp only [V33State.quiet]
  rw [ptStallStep_of_no_triggers (show (syncWingMirrors _).printThroughTriggers = [] from
    hserved.untriggered), hshadow]
  rfl

/-- Where the cap and the spot bucket stay, a served context leaves the ladder as it was. -/
theorem Advance.served (h : ConvergeOk p nTop lots st) {b : Books} {q : Quote}
    {shadows : List ShadowSub} {oneLegged : Bool} {top : Option ℚ} (hspot : q.spotSd = st.spotSd)
    (hcap : q.cap = st.cap) :
    Advance p nTop lots st [] (servicedState p st b q shadows oneLegged top) ∧
      outstanding (servicedState p st b q shadows oneLegged top) = outstanding st := by
  have hlabels {β : Type} {g : RestOrder → β} (hg : ∀ o, g (refresh p top o) = g o) :
      (st.ladder.map (refresh p top)).map g = st.ladder.map g := by
    rw [List.map_map]
    exact List.map_congr_left fun o _ => hg o
  have hslots : placeableOpenSlots p (servicedState p st b q shadows oneLegged top) nTop =
      placeableOpenSlots p st nTop := by
    unfold placeableOpenSlots
    rw [show (servicedState p st b q shadows oneLegged top).cap = st.cap from hcap]
    rfl
  have hopen : openPrices p (servicedState p st b q shadows oneLegged top) nTop =
      openPrices p st nTop := by
    rw [openPrices, hslots]
    rfl
  have hmem {o : RestOrder} (ho : o ∈ st.ladder.map (refresh p top)) :
      ∃ a ∈ st.ladder, o = refresh p top a := by
    obtain ⟨a, ha, rfl⟩ := List.mem_map.mp ho
    exact ⟨a, ha, rfl⟩
  have hcoids : (st.ladder.map (refresh p top)).map RestOrder.clientOrderId =
      st.ladder.map RestOrder.clientOrderId := hlabels fun o => refresh_clientOrderId top o
  have hprices : (st.ladder.map (refresh p top)).map RestOrder.price =
      st.ladder.map RestOrder.price := hlabels fun o => refresh_price top o
  have hok : ConvergeOk p nTop lots (servicedState p st b q shadows oneLegged top) := by
    refine { h with
      bucket := ?_
      coids := h.coids.shrink rfl le_rfl (hcoids ▸ List.Sublist.refl _) (List.Sublist.refl _)
      counts := fun o ho => ?_
      prices := hprices ▸ h.prices
      ids := fun o ho o' ho' hsome heq => ?_
      leaving := fun oid hoid o ho => ?_
      held := fun price hprice => hopen ▸ h.held price hprice
      orders := fun o ho => ?_
      rolls := fun r hr => ?_ }
    · show st.restBucketSd = none ∨ st.restBucketSd = q.spotSd
      rw [hspot]
      exact h.bucket
    · obtain ⟨a, ha, rfl⟩ := hmem ho
      rw [refresh_count]
      exact h.counts a ha
    · obtain ⟨a, ha, rfl⟩ := hmem ho
      obtain ⟨a', ha', rfl⟩ := hmem ho'
      rw [refresh_orderId] at hsome heq
      rw [refresh_orderId] at heq
      rw [refresh_clientOrderId, refresh_clientOrderId]
      exact h.ids a ha a' ha' hsome heq
    · obtain ⟨a, ha, rfl⟩ := hmem ho
      rw [refresh_orderId]
      exact h.leaving oid hoid a ha
    · obtain ⟨a, ha, rfl⟩ := hmem ho
      rw [hopen]
      cases h.orders a ha with
      | live hpending hlive hacked =>
        exact OrderStands.live (by simpa using hpending) (by simpa using hlive)
          (by simpa using hacked)
      | created hpending hunknown hslot =>
        exact OrderStands.created (by simpa using hpending) (by simpa using hunknown)
          (by simpa using hslot)
    · obtain ⟨htarget, hvacant, o, ho, hcoid, hid, hstill, hoff⟩ := h.rolls r hr
      rw [hopen]
      refine ⟨htarget, ?_, refresh p top o, List.mem_map_of_mem ho, by simpa using hcoid,
        by simpa using hid, by simpa using hstill, by simpa using hoff⟩
      show r.targetPrice ∉ (st.ladder.map (refresh p top)).map RestOrder.price
      rw [hprices]
      exact hvacant
  have hcountP {g : RestOrder → Bool} (hg : ∀ o, g (refresh p top o) = g o) :
      (st.ladder.map (refresh p top)).countP g = st.ladder.countP g := by
    rw [List.countP_map]
    exact List.countP_congr fun o _ => by rw [Function.comp_apply, hg]
  obtain ⟨hout, hvacant⟩ := h.same_counts hok hslots
    (congrArg (· + st.rollsInFlight.length) (hcountP fun o => by rw [refresh_price]))
    (congrArg (· + st.rollsInFlight.length) (hcountP fun o => by rw [refresh_price]))
  have houtstanding :
      outstanding (servicedState p st b q shadows oneLegged top) = outstanding st := by
    unfold outstanding
    rw [← hcountP fun o => refresh_pending top o]
    rfl
  exact ⟨Advance.still hok hslots hout hvacant houtstanding, houtstanding⟩

end Service

/-! ### Events -/

/-- The quote stands where an event converges: at the same top, cap and bucket. -/
structure QuoteStands (p : V33Params) (nTop : ℚ) (st s : V33State) (now : ℚ) : Prop where
  gate : quoteGate p s now = .quote nTop
  rate : replaceRateAlarm p s now = false
  spot : s.spotSd = st.spotSd
  cap : s.cap = st.cap

/-- A book update or a tick. -/
inductive Paced : Event → Prop
  | book (e : BookUpdate) : Paced (.bookUpdate e)
  | tick (t : ℚ) : Paced (.clockTick t)

/-- An event of a window whose quote stands: an answer, a book update or a tick. -/
structure Converging (p : V33Params) (nTop : ℚ) (st : V33State) (ev : Event) : Prop where
  kind : Answer st ev ∨ Paced ev
  quote : ∀ r, beforeConverge p st ev = some r → QuoteStands p nTop st r.st ev.serverTs

/-- The event uses up work: an answer, or an event past the debounce that finds all answers in. -/
def Progresses (p : V33Params) (st : V33State) (ev : Event) : Prop :=
  Answer st ev ∨ Answered st ∧ pastDebounce p st ev.serverTs

/-- A run of events under a standing quote with its actions, and how many events use up work. -/
inductive ConvergeRun (p : V33Params) (nTop : ℚ) :
    V33State → ℕ → List V33Action → V33State → Prop
  | nil (st : V33State) : ConvergeRun p nTop st 0 [] st
  | event {st st' : V33State} {ev : Event} {n : ℕ} {acts : List V33Action} :
    Converging p nTop st ev → ConvergeRun p nTop (decideV33 p st ev).st n acts st' →
      ConvergeRun p nTop st n ((decideV33 p st ev).acts ++ acts) st'
  | progress {st st' : V33State} {ev : Event} {n : ℕ} {acts : List V33Action} :
    Converging p nTop st ev → Progresses p st ev →
      ConvergeRun p nTop (decideV33 p st ev).st n acts st' →
        ConvergeRun p nTop st (n + 1) ((decideV33 p st ev).acts ++ acts) st'

section Events

variable {p : V33Params} {nTop now : ℚ} {lots n : ℕ} {st st' : V33State} {ev : Event}
  {acts : List V33Action}

/-- The first part of an event moves nothing. -/
structure Prepares (p : V33Params) (nTop : ℚ) (lots : ℕ) (st : V33State) (ev : Event)
    (r : Outcome) : Prop where
  quiet : r.acts = []
  advance : Advance p nTop lots st [] r.st
  unhedged : Unhedged r.st
  answer : Answer st ev → workLeft p r.st nTop < workLeft p st nTop
  serve : Paced ev → outstanding r.st = outstanding st ∧ r.st.lastReplaceTs = st.lastReplaceTs

/-- Serving no wings prepares the convergence. -/
theorem Prepares.serveWings (h : ConvergeOk p nTop lots st) (hunhedged : Unhedged st) (b : Books)
    (hspot : (serveWings p { st with toBooks := b } now).st.spotSd = st.spotSd)
    (hcap : (serveWings p { st with toBooks := b } now).st.cap = st.cap)
    (hkind : ¬Answer st ev) :
    Prepares p nTop lots st ev (serveWings p { st with toBooks := b } now) := by
  have hfolded : Unhedged { st with toBooks := b } :=
    ⟨hunhedged.ungrouped, hunhedged.unbatched, hunhedged.untriggered⟩
  obtain ⟨q, shadows, oneLegged, top, heq⟩ := @serveWings_unhedged p now _ hfolded
  rw [heq] at hspot hcap ⊢
  obtain ⟨hadvance, houtstanding⟩ :=
    @Advance.served p nTop lots st h b q shadows oneLegged top hspot hcap
  exact ⟨rfl, hadvance, ⟨hunhedged.ungrouped, hunhedged.unbatched, hunhedged.untriggered⟩,
    fun hanswer => absurd hanswer hkind, fun _ => ⟨houtstanding, rfl⟩⟩

/-- What an event does before its convergence leads a converging ladder on. -/
theorem ConvergeOk.prepares (h : ConvergeOk p nTop lots st) (hunhedged : Unhedged st)
    (hev : Converging p nTop st ev) {r : Outcome} (hr : beforeConverge p st ev = some r) :
    Prepares p nTop lots st ev r := by
  have hquote := hev.quote r hr
  rcases hev.kind with hanswer | hserve
  · cases hanswer with
    | created => cases hr
    | amended e rp hnames hprice hunfilled =>
      have hrp : rp ∈ st.rollsInFlight := (find?_mem_and hnames).1
      have hconfirm := @confirmAmend_unfilled p nTop e.serverTs lots st h rp hrp e hprice hunfilled
      have hacked := @Acked.amended p nTop e.serverTs lots st h rp hrp
      obtain rfl : confirmAmend p st rp e e.serverTs = r := by
        simpa [beforeConverge, hnames] using hr
      rw [hconfirm]
      exact ⟨rfl, hacked.advance,
        ⟨hunhedged.ungrouped, hunhedged.unbatched, hunhedged.untriggered⟩,
        fun _ => hacked.workLeft_lt, fun hserve => by cases hserve⟩
    | cancelled e oid hnames hheld hunfilled =>
      obtain ⟨left, hcancel⟩ :=
        @cancelled_unfilled p nTop lots st h hunhedged e oid hnames hheld hunfilled
      have hacked := @Acked.cancelled p nTop lots st h oid hheld left
      rw [hcancel] at hr
      obtain rfl := Option.some.inj hr
      exact ⟨rfl, hacked.advance,
        ⟨hunhedged.ungrouped, hunhedged.unbatched, hunhedged.untriggered⟩,
        fun _ => hacked.workLeft_lt, fun hserve => by cases hserve⟩
  · cases hserve with
    | book e =>
      obtain ⟨b, hb⟩ := foldBook_eq st e
      obtain rfl := Option.some.inj hr
      have hspot := hquote.spot
      have hcap := hquote.cap
      rw [hb] at hspot hcap ⊢
      exact Prepares.serveWings h hunhedged b hspot hcap fun hanswer => by cases hanswer
    | tick t =>
      obtain rfl := Option.some.inj hr
      exact Prepares.serveWings h hunhedged st.toBooks hquote.spot hquote.cap
        fun hanswer => by cases hanswer

/-- What an event under a standing quote does. -/
structure Proceeds (p : V33Params) (nTop : ℚ) (lots : ℕ) (st : V33State) (ev : Event) :
    Prop where
  advance : Advance p nTop lots st (decideV33 p st ev).acts (decideV33 p st ev).st
  unhedged : Unhedged (decideV33 p st ev).st
  less : Progresses p st ev → 0 < workLeft p st nTop →
    workLeft p (decideV33 p st ev).st nTop < workLeft p st nTop
  silent : workLeft p st nTop = 0 → (decideV33 p st ev).acts = []

/-- An event under a standing quote leads a converging ladder on. -/
theorem ConvergeOk.proceeds (hu : Uniform p lots) (hsets : 0 < p.maxSetsPerHour)
    (h : ConvergeOk p nTop lots st) (hunhedged : Unhedged st) (hev : Converging p nTop st ev) :
    Proceeds p nTop lots st ev := by
  cases hr : beforeConverge p st ev with
  | none =>
    rcases hev.kind with hanswer | hserve
    · cases hanswer with
      | created e o ho hnames hpending hfresh hunheld =>
        have hacked := Acked.created h ho hnames hpending hfresh hunheld
        have hwings : (applyAck st e).toWings = st.toWings := by
          unfold applyAck
          split_ifs <;> rfl
        refine ⟨hacked.advance, ⟨?_, ?_, ?_⟩, fun _ _ => hacked.workLeft_lt, fun _ => rfl⟩
        · exact (congrArg Wings.coalesceOpen hwings).trans hunhedged.ungrouped
        · exact (congrArg Wings.wingBatches hwings).trans hunhedged.unbatched
        · exact (congrArg Wings.printThroughTriggers hwings).trans hunhedged.untriggered
      | amended e rp hnames =>
        rw [beforeConverge, hnames] at hr
        cases hr
      | cancelled => cases hr
    · cases hserve <;> cases hr
  | some r =>
    have hprepares := h.prepares hunhedged hev hr
    have hquote := hev.quote r hr
    have hok := hprepares.advance.ok
    have hleads := @Leads.converge p nTop ev.serverTs lots r.st hu hsets hok hquote.gate hquote.rate
    have hdecide := decideV33_of_beforeConverge hr
    have hwings : (converge p r.st ev.serverTs).st.toWings = r.st.toWings :=
      Run.preserves (I := fun s => s.toWings = r.st.toWings)
        (fun _ _ _ hop hs => hop.frame.wings.trans hs) (h.coids.via_converge hr) rfl
    have hadvance := hprepares.advance.trans hleads.advance
    rw [List.nil_append] at hadvance
    have hacts : (decideV33 p st ev).acts = (converge p r.st ev.serverTs).acts := by
      rw [hdecide, andThen_acts, hprepares.quiet, List.nil_append]
    have hst : (decideV33 p st ev).st = (converge p r.st ev.serverTs).st := by
      rw [hdecide, andThen_st]
    have hfirst := hprepares.advance.work
    have hthen := hleads.advance.work
    rw [List.length_nil, Nat.add_zero] at hfirst
    refine ⟨?_, ⟨?_, ?_, ?_⟩, fun hprogress hwork => ?_, fun hnone => ?_⟩
    · rw [hacts, hst]
      exact hadvance
    · rw [hst]
      exact (congrArg Wings.coalesceOpen hwings).trans hprepares.unhedged.ungrouped
    · rw [hst]
      exact (congrArg Wings.wingBatches hwings).trans hprepares.unhedged.unbatched
    · rw [hst]
      exact (congrArg Wings.printThroughTriggers hwings).trans hprepares.unhedged.untriggered
    · rw [hst]
      rcases hprogress with hanswer | ⟨hanswered, hpast⟩
      · have hless := hprepares.answer hanswer
        omega
      · rcases hev.kind with hanswer | hserve
        · have hless := hprepares.answer hanswer
          omega
        · obtain ⟨hstill, hpace⟩ := hprepares.serve hserve
          by_cases hsame : workLeft p r.st nTop = workLeft p st nTop
          · have hanswered' : Answered r.st := hstill.trans hanswered
            have hleft : 0 < outCount p r.st nTop + vacantCount p r.st nTop := by
              unfold workLeft at hsame hwork
              rw [show outstanding r.st = 0 from hanswered'] at hsame
              omega
            have hpast' : pastDebounce p r.st ev.serverTs := by
              unfold pastDebounce
              rw [hpace]
              exact hpast
            have hmoved := hleads.moves hanswered' hpast' hleft
            have hpos := List.length_pos_iff.mpr hmoved
            omega
          · omega
    · rw [hacts]
      apply hleads.silent
      unfold workLeft at hfirst hnone
      omega

/-- A run under a standing quote leads a converging ladder on, and its events use up work while
there is some. -/
theorem ConvergeOk.run (hu : Uniform p lots) (hsets : 0 < p.maxSetsPerHour)
    (h : ConvergeOk p nTop lots st) (hunhedged : Unhedged st)
    (hrun : ConvergeRun p nTop st n acts st') :
    Advance p nTop lots st acts st' ∧ Unhedged st' ∧
      (workLeft p st' nTop = 0 ∨ workLeft p st' nTop + n ≤ workLeft p st nTop) ∧
        (workLeft p st nTop = 0 → acts = []) := by
  induction hrun with
  | nil => exact ⟨Advance.refl h, hunhedged, Or.inr (by omega), fun _ => rfl⟩
  | event hev _ ih =>
    have hfirst := h.proceeds hu hsets hunhedged hev
    obtain ⟨hrest, hlast, hless, hsilent⟩ := ih hfirst.advance.ok hfirst.unhedged
    have hwork := hfirst.advance.work
    refine ⟨hfirst.advance.trans hrest, hlast, ?_, fun hnone => ?_⟩
    · rcases hless with hless | hless
      · exact Or.inl hless
      · exact Or.inr (by omega)
    · rw [hfirst.silent hnone, hsilent (by omega), List.nil_append]
  | @progress s t e k more hev hprogress _ ih =>
    have hfirst := h.proceeds hu hsets hunhedged hev
    obtain ⟨hrest, hlast, hless, hsilent⟩ := ih hfirst.advance.ok hfirst.unhedged
    have hwork := hfirst.advance.work
    have hend := hrest.work
    refine ⟨hfirst.advance.trans hrest, hlast, ?_, fun hnone => ?_⟩
    · rcases hless with hless | hless
      · exact Or.inl hless
      · rcases Nat.eq_zero_or_pos (workLeft p s nTop) with hnone | hsome
        · exact Or.inl (by omega)
        · have hused := hfirst.less hprogress hsome
          exact Or.inr (by omega)
    · rw [hfirst.silent hnone, hsilent (by omega), List.nil_append]

/-! ### The end of a run -/

end Events

/-! ### A sample -/

instance (p : V33Params) (st : V33State) (now : ℚ) : Decidable (pastDebounce p st now) :=
  inferInstanceAs (Decidable (_ ≤ _))

instance (st : V33State) : Decidable (Answered st) := inferInstanceAs (Decidable (_ = _))

end Pilot.V33
