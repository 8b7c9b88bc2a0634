import Pilot.V33.Runs

/-!
# The shape of the ladder

No two orders share a price, the ladder is no deeper than the policy allows, prices and
lots are in range, the amends in flight are bounded, and the labels follow the ladder
top. A roll's fallback re-places at a price clamped to the cap without looking at the
ladder, so the shape asks that the clamped price be free.
-/

namespace Pilot.V33

/-! ### The grid -/

/-- The most lots any rung has. -/
def maxLots (p : V33Params) : ℕ := p.rungLots.foldr max 0

/-- A member is at most the maximum. -/
theorem le_foldr_max {l : List ℕ} {n : ℕ} (h : n ∈ l) : n ≤ l.foldr max 0 := by
  induction l with
  | nil => simp at h
  | cons m l ih =>
    rw [List.foldr_cons]
    rcases List.mem_cons.mp h with rfl | h
    · exact le_max_left _ _
    · exact (ih h).trans (le_max_right _ _)

/-- No margin weighs more than the largest lots. -/
theorem weightOfMargin_le (p : V33Params) (m : ℤ) : weightOfMargin p m ≤ maxLots p := by
  unfold weightOfMargin weightOfRung
  split_ifs with h
  · have hlt : (m - eMinCents p).toNat < p.rungLots.length := by omega
    rw [List.getD_eq_getElem?_getD, List.getElem?_eq_getElem hlt, Option.getD_some]
    exact le_foldr_max (List.getElem_mem hlt)
  · exact Nat.zero_le _

/-- A solved price is on the grid. -/
theorem onGrid_solveN {budget cap : Option ℚ} {n : ℚ} (h : solveN budget cap = some n) :
    OnGrid 100 n := by
  have hfrom : ∀ (b : ℚ) (k : ℕ), solveFrom b k = some n → OnGrid 100 n := by
    intro b k
    induction k with
    | zero => simp [solveFrom]
    | succ k ih =>
      intro hk
      unfold solveFrom at hk
      dsimp only at hk
      split_ifs at hk
      · exact ih hk
      · obtain rfl := Option.some.inj hk
        exact ⟨(k + 1 : ℕ), by push_cast; rfl⟩
  unfold solveN at h
  split at h
  · split_ifs at h
    exact hfrom _ _ h
  · simp at h

/-- The cap of a bucket is on the grid. -/
theorem onGrid_bucketCap {st : V33State} {sd : ℤ} {c : ℚ} (h : bucketCap st sd = some c) :
    OnGrid 100 c := by
  obtain ⟨q, -, rfl⟩ := Option.map_eq_some_iff.mp h
  exact onGrid_quantize 100 _

/-- The price of a margin is on the grid. -/
theorem onGrid_priceOfMargin (p : V33Params) {nTop : ℚ} (h : OnGrid 100 nTop) (m : ℤ) :
    OnGrid 100 (priceOfMargin p nTop m) := by
  refine h.sub ⟨m - eMinCents p, ?_⟩
  rw [cent]
  push_cast
  ring

/-- The rung of the price of a margin. -/
theorem rungOf_priceOfMargin (p : V33Params) (nTop : ℚ) (m : ℤ) :
    rungOf nTop (priceOfMargin p nTop m) = m - eMinCents p := by
  unfold rungOf priceOfMargin
  have : (nTop - (nTop - ((m - eMinCents p : ℤ) : ℚ) * cent)) / cent =
      ((m - eMinCents p : ℤ) : ℚ) := by
    rw [cent]
    ring
  rw [this, roundHalfEven_intCast]

/-- The edge of the price of a margin. -/
theorem eRungOf_priceOfMargin (p : V33Params) (nTop : ℚ) (m : ℤ) :
    eRungOf p nTop (priceOfMargin p nTop m) = p.eMin + ((m - eMinCents p : ℤ) : ℚ) * cent := by
  unfold eRungOf priceOfMargin
  ring

/-- A lot count an order may rest with. -/
structure Lots (p : V33Params) (c : ℚ) : Prop where
  grid : OnGrid 100 c
  pos : 0 < c
  le : c ≤ maxLots p

/-- A price an order may rest at: a whole cent, not under the floor. -/
structure Cents (p : V33Params) (price : ℚ) : Prop where
  grid : OnGrid 100 price
  floor : p.nMin ≤ price

/-- What is left of an order after a fill is a lot count again. -/
theorem Lots.reduce {p : V33Params} {c delta : ℚ} (h : Lots p c) (hdelta : 0 ≤ delta)
    (hpos : 0 < qCount (c - qCount delta)) : Lots p (qCount (c - qCount delta)) := by
  have hgrid : qCount (c - qCount delta) = c - qCount delta :=
    qCount_of_onGrid (h.grid.sub (onGrid_qCount delta))
  rw [hgrid] at hpos ⊢
  exact ⟨h.grid.sub (onGrid_qCount delta), hpos, by linarith [h.le, qCount_nonneg hdelta]⟩

/-- A margin that weighs something has lots. -/
theorem lots_weight {p : V33Params} {m : ℤ} (h : weightOfMargin p m ≠ 0) :
    Lots p (weightOfMargin p m) :=
  ⟨onGrid_natCast (by norm_num) _, by exact_mod_cast Nat.pos_of_ne_zero h,
    by exact_mod_cast weightOfMargin_le p m⟩

/-- The whole lots of an order are a lot count if there are any. -/
theorem Lots.trunc {p : V33Params} {c : ℚ} (h : Lots p c) (hpos : 0 < truncInt c) :
    Lots p (truncInt c : ℤ) :=
  ⟨onGrid_intCast (by norm_num) _, by exact_mod_cast hpos, (truncInt_le h.pos.le).trans h.le⟩

/-! ### The shape -/

/-- The rung and the margin of an order are those of its price under a ladder top. -/
def Labelled (p : V33Params) (nTop : ℚ) (o : RestOrder) : Prop :=
  o.rung = rungOf nTop o.price ∧ o.eRung = eRungOf p nTop o.price

/-- The shape of the ladder, its amends in flight and the quote they come from. -/
structure LadderOk (p : V33Params) (st : V33State) : Prop where
  prices : (st.ladder.map RestOrder.price).Nodup
  targets : (st.rollsInFlight.map RollPending.targetPrice).Nodup
  apart : ∀ r ∈ st.rollsInFlight, r.targetPrice ∉ st.ladder.map RestOrder.price
  depth : st.ladder.length ≤ p.rungs
  cents : ∀ o ∈ st.ladder, Cents p o.price
  targetCents : ∀ r ∈ st.rollsInFlight, Cents p r.targetPrice
  lots : ∀ o ∈ st.ladder, Lots p o.count
  inFlight : st.rollsInFlight.length ≤ p.maxAmendsInFlight
  settled : st.awaitingReplace = true → st.ladder = [] ∧ st.rollsInFlight = []
  labels : ∀ n, st.nTop = some n → ∀ o ∈ st.ladder, Labelled p n o
  topCents : ∀ n, st.nTop = some n → OnGrid 100 n
  capCents : ∀ c, st.cap = some c → OnGrid 100 c

section Shape

variable {p : V33Params} {now : ℚ} {P : Permit} {st st' : V33State} {acts : List V33Action}

/-- The shape stays when orders only leave or lose lots. -/
theorem LadderOk.leave (h : LadderOk p st) (hquote : st'.toQuote = st.toQuote)
    (hprices : (st'.ladder.map RestOrder.price).Sublist (st.ladder.map RestOrder.price))
    (horder : ∀ o ∈ st'.ladder, Lots p o.count ∧ ∃ o' ∈ st.ladder,
      o'.price = o.price ∧ o'.rung = o.rung ∧ o'.eRung = o.eRung)
    (hrolls : st'.rollsInFlight.Sublist st.rollsInFlight)
    (hawait : st'.awaitingReplace = true → st.awaitingReplace = true) : LadderOk p st' := by
  have hlen := hprices.length_le
  simp only [List.length_map] at hlen
  refine ⟨h.prices.sublist hprices, h.targets.sublist (hrolls.map _), fun r hr hin => ?_,
    hlen.trans h.depth, fun o ho => ?_, fun r hr => h.targetCents r (hrolls.subset hr),
    fun o ho => (horder o ho).1, hrolls.length_le.trans h.inFlight, fun ha => ?_, ?_, ?_, ?_⟩
  · exact h.apart r (hrolls.subset hr) (hprices.subset hin)
  · obtain ⟨-, o', ho', hp, -⟩ := horder o ho
    rw [← hp]
    exact h.cents o' ho'
  · obtain ⟨hl, hr⟩ := h.settled (hawait ha)
    rw [hl] at hprices
    rw [hr] at hrolls
    exact ⟨List.map_eq_nil_iff.mp (List.sublist_nil.mp hprices), List.sublist_nil.mp hrolls⟩
  · intro n hn o ho
    rw [congrArg Quote.nTop hquote] at hn
    obtain ⟨-, o', ho', hp, hr, he⟩ := horder o ho
    have := h.labels n hn o' ho'
    unfold Labelled at this ⊢
    rw [← hp, ← hr, ← he]
    exact this
  · rw [congrArg Quote.nTop hquote]
    exact h.topCents
  · rw [congrArg Quote.cap hquote]
    exact h.capCents

/-- The shape stays when the ladder becomes a part of itself. -/
theorem LadderOk.sublist (h : LadderOk p st) (hquote : st'.toQuote = st.toQuote)
    (hladder : st'.ladder.Sublist st.ladder) (hrolls : st'.rollsInFlight.Sublist st.rollsInFlight)
    (hawait : st'.awaitingReplace = true → st.awaitingReplace = true) : LadderOk p st' :=
  h.leave hquote (hladder.map _)
    (fun o ho => ⟨h.lots o (hladder.subset ho), o, hladder.subset ho, rfl, rfl, rfl⟩) hrolls hawait

/-- A place on a free price keeps the shape. -/
theorem LadderOk.placeOne (h : LadderOk p st) {price eRung count : ℚ} {rung : ℤ}
    (hfree : price ∉ st.ladder.map RestOrder.price)
    (hpromised : price ∉ st.rollsInFlight.map RollPending.targetPrice)
    (hcents : Cents p price) (hlots : Lots p (qCount count)) (hroom : st.ladder.length < p.rungs)
    (hsettled : st.awaitingReplace = false)
    (hlabels : ∀ n, st.nTop = some n → rung = rungOf n price ∧ eRung = eRungOf p n price) :
    LadderOk p (placeOne p st price rung eRung now count).st := by
  have hmem : ∀ o ∈ (V33.placeOne p st price rung eRung now count).st.ladder,
      o ∈ st.ladder ∨ o.price = price ∧ o.count = qCount count ∧ o.rung = rung ∧
        o.eRung = eRung := by
    intro o ho
    simp only [V33.placeOne, List.mem_append, List.mem_singleton] at ho
    rcases ho with ho | rfl
    · exact Or.inl ho
    · exact Or.inr ⟨rfl, rfl, rfl, rfl⟩
  refine ⟨?_, h.targets, fun r hr => ?_, ?_, fun o ho => ?_, h.targetCents, fun o ho => ?_,
    h.inFlight, ?_, fun n hn o ho => ?_, h.topCents, h.capCents⟩
  · simp only [V33.placeOne, List.map_append, List.map_cons, List.map_nil]
    refine List.nodup_append.mpr ⟨h.prices, List.nodup_singleton _, fun a ha b hb => ?_⟩
    rw [List.mem_singleton] at hb
    subst hb
    exact fun he => hfree (he ▸ ha)
  · simp only [V33.placeOne, List.map_append, List.map_cons, List.map_nil, List.mem_append,
      List.mem_singleton, not_or]
    exact ⟨h.apart r hr, fun he => hpromised (he ▸ List.mem_map_of_mem hr)⟩
  · simp only [V33.placeOne, List.length_append, List.length_singleton]
    exact hroom
  · rcases hmem o ho with ho | ⟨hp, -⟩
    · exact h.cents o ho
    · rw [hp]
      exact hcents
  · rcases hmem o ho with ho | ⟨-, hc, -⟩
    · exact h.lots o ho
    · rw [hc]
      exact hlots
  · intro ha
    have ha' : st.awaitingReplace = true := ha
    rw [hsettled] at ha'
    exact absurd ha' (by simp)
  · rcases hmem o ho with ho | ⟨hp, -, hr, he⟩
    · exact h.labels n hn o ho
    · unfold Labelled
      rw [hp, hr, he]
      exact hlabels n hn

/-- A roll onto a free price keeps the shape. -/
theorem LadderOk.emitRoll (h : LadderOk p st) (o : RestOrder) {price : ℚ} (m : ℤ)
    (hfree : price ∉ st.ladder.map RestOrder.price)
    (hpromised : price ∉ st.rollsInFlight.map RollPending.targetPrice)
    (hcents : Cents p price) (hroom : st.rollsInFlight.length < p.maxAmendsInFlight)
    (hsettled : st.awaitingReplace = false) : LadderOk p (emitRoll p st o price m now).st := by
  have hmem : ∀ r ∈ (V33.emitRoll p st o price m now).st.rollsInFlight,
      r ∈ st.rollsInFlight ∨ r.targetPrice = price := by
    intro r hr
    simp only [V33.emitRoll, List.mem_append, List.mem_singleton] at hr
    rcases hr with hr | rfl
    · exact Or.inl hr
    · exact Or.inr rfl
  refine ⟨h.prices, ?_, fun r hr => ?_, h.depth, h.cents, fun r hr => ?_, h.lots, ?_, ?_, h.labels,
    h.topCents, h.capCents⟩
  · simp only [V33.emitRoll, List.map_append, List.map_cons, List.map_nil]
    refine List.nodup_append.mpr ⟨h.targets, List.nodup_singleton _, fun a ha b hb => ?_⟩
    rw [List.mem_singleton] at hb
    subst hb
    exact fun he => hpromised (he ▸ ha)
  · rcases hmem r hr with hr | hr
    · exact h.apart r hr
    · rw [hr]
      exact hfree
  · rcases hmem r hr with hr | hr
    · exact h.targetCents r hr
    · rw [hr]
      exact hcents
  · simp only [V33.emitRoll, List.length_append, List.length_singleton]
    exact hroom
  · intro ha
    have ha' : st.awaitingReplace = true := ha
    rw [hsettled] at ha'
    exact absurd ha' (by simp)

/-- A slot that may be quoted has a price in range and labels of its price. -/
theorem LadderOk.slot (h : LadderOk p st) {nTop price : ℚ} {m : ℕ}
    (hg : SlotGuard p now st nTop m price) :
    Cents p price ∧ st.awaitingReplace = false ∧ price = priceOfMargin p nTop m ∧
      st.nTop = some nTop := by
  have htop := (quoting_of_gate hg.gate).top
  obtain ⟨hslot, hrange⟩ := List.mem_filter.mp hg.slot
  simp only [decide_eq_true_eq] at hrange
  obtain ⟨k, -, hk⟩ := List.mem_map.mp hslot
  obtain ⟨rfl, rfl⟩ := Prod.mk.inj hk
  refine ⟨⟨onGrid_priceOfMargin p (h.topCents nTop htop) _, hrange.1⟩, ?_, rfl, htop⟩
  by_contra hawait
  have hawait' : st.awaitingReplace = true := by simpa using hawait
  obtain ⟨hl, hr⟩ := h.settled hawait'
  rcases hg.awaits hawait' with hn | hn
  · exact hn hl
  · exact hn hr

/-- Every small ladder operation keeps the shape, if it creates only below the depth. -/
theorem LadderOk.op (hP : ∀ s, P.create s → s.ladder.length < p.rungs)
    (hop : LadderOp p now P st acts st') (h : LadderOk p st) : LadderOk p st' := by
  cases hop with
  | drop =>
    rw [cancelAll_st]
    exact h.sublist rfl (List.nil_sublist _) (List.nil_sublist _) id
  | clear =>
    rw [cancelAllThenReplace_st, cancelAll_st]
    exact ⟨List.nodup_nil, List.nodup_nil, by simp, by simp, by simp, by simp, by simp, by simp,
      fun _ => ⟨rfl, rfl⟩, by simp, h.topCents, h.capCents⟩
  | resume hempty hstill =>
    exact h.sublist rfl (List.Sublist.refl _) (List.Sublist.refl _) (by simp)
  | create nTop m price guard weight budget permitted =>
    obtain ⟨hcents, hsettled, hprice, htop⟩ := h.slot guard
    refine h.placeOne guard.unoccupied guard.unpromised hcents ?_ (hP _ permitted) hsettled
      fun n hn => ?_
    · rw [qCount_natCast]
      exact lots_weight weight
    · obtain rfl : nTop = n := Option.some.inj (htop.symm.trans hn)
      rw [hprice, rungOf_priceOfMargin, eRungOf_priceOfMargin]
      exact ⟨rfl, rfl⟩
  | roll o nTop m price guard movable room =>
    obtain ⟨hcents, hsettled, -, -⟩ := h.slot guard
    exact h.emitRoll o m guard.unoccupied guard.unpromised hcents room hsettled
  | shrink o =>
    unfold shrinkOne
    dsimp only
    rw [retainCancelled_eq]
    exact h.sublist rfl (dropOrder_sublist _ _) (List.Sublist.refl _) id
  | stallCancel coid =>
    unfold ptCancelRung
    split
    · exact h
    · dsimp only
      rw [retainCancelled_eq]
      exact h.sublist rfl (dropOrder_sublist _ _) (List.Sublist.refl _) id
  | _ => exact h.sublist rfl (List.Sublist.refl _) (List.Sublist.refl _) id

/-- A recorded fill keeps the shape. -/
theorem LadderOk.record (h : LadderOk p st) (r : FillReport) (hdelta : 0 < r.delta) :
    LadderOk p (recordFill p st r now) := by
  refine h.leave rfl (map_reduceOrder_sublist _ _ _ _ fun _ _ => rfl) (fun o ho => ?_)
    (List.Sublist.refl _) id
  rcases mem_reduceOrder ho with ho | ⟨o', ho', -, hpos, rfl⟩
  · exact ⟨h.lots o ho, o, ho, rfl, rfl, rfl⟩
  · exact ⟨(h.lots o' ho').reduce hdelta.le hpos, o', ho', rfl, rfl, rfl⟩

/-- The law of the shape, up to the convergence. -/
theorem shapeLaw (p : V33Params) :
    LadderLaw p (fun (_ : Unit) _ => ()) (fun _ _ => True) (fun st _ => LadderOk p st) :=
  LadderLaw.ofState
    (fun hframe h => h.sublist hframe.quote (by rw [congrArg Ladder.ladder hframe.ladder])
      (by rw [congrArg Ladder.rollsInFlight hframe.ladder])
      (by rw [congrArg Ladder.awaitingReplace hframe.ladder]; exact id))
    (fun hop h => h.op (fun _ hf => absurd hf id) hop)
    (fun r hd h => h.record r hd)
    (fun _ _ h => h.sublist rfl (List.Sublist.refl _) (List.Sublist.refl _) id)

/-! ### Events -/

/-- The price at which a cancel confirm re-places a failed amend is free: no other order rests
there and no other amend is on its way there. -/
def fallbackFree (p : V33Params) (st : V33State) (ev : OrderCancelled) : Prop :=
  ∀ rp ∈ rollOfCancel st ev, Replaces p (reportCancel p st ev ev.serverTs).st rp ev.serverTs →
    fallbackPrice st rp ∉ (dropOrder st.ladder rp.oldCoid).map RestOrder.price ∧
      fallbackPrice st rp ∉ (dropRoll st rp.oldCoid).rollsInFlight.map RollPending.targetPrice

/-- An amend confirm reports no price or the price the amend asked for. -/
def amendsOnTarget (st : V33State) (ev : OrderAmended) : Prop :=
  ∀ rp ∈ rollOfAmend st ev, ev.price.getD rp.targetPrice = rp.targetPrice

/-- The orders on the ladder and the slots the convergence would put new ones on are no more
than the ladder is deep. -/
def createsFit (p : V33Params) (st : V33State) (ev : Event) : Prop :=
  ∀ r ∈ beforeConverge p st ev,
    r.st.ladder.length + (slotsToCreate p r.st ev.serverTs).length ≤ p.rungs

/-- What an event must meet for the shape of the ladder. -/
def ShapeSafe (p : V33Params) (st : V33State) (ev : Event) : Prop :=
  (match ev with
    | .orderCancelled e => fallbackFree p st e
    | .orderAmended e => amendsOnTarget st e
    | _ => True) ∧ createsFit p st ev

instance (p : V33Params) (st : V33State) (ev : Event) : Decidable (createsFit p st ev) :=
  inferInstanceAs (Decidable (∀ r ∈ beforeConverge p st ev, _))

instance (p : V33Params) (st : V33State) (ev : OrderCancelled) :
    Decidable (fallbackFree p st ev) :=
  inferInstanceAs (Decidable (∀ rp ∈ rollOfCancel st ev, _ → _))

instance (st : V33State) (ev : OrderAmended) : Decidable (amendsOnTarget st ev) :=
  inferInstanceAs (Decidable (∀ rp ∈ rollOfAmend st ev, _))

instance (p : V33Params) (st : V33State) : ∀ ev, Decidable (ShapeSafe p st ev)
  | .orderCancelled e => inferInstanceAs (Decidable (fallbackFree p st e ∧ _))
  | .orderAmended e => inferInstanceAs (Decidable (amendsOnTarget st e ∧ _))
  | .bookUpdate e => inferInstanceAs (Decidable (True ∧ createsFit p st (.bookUpdate e)))
  | .trade e => inferInstanceAs (Decidable (True ∧ createsFit p st (.trade e)))
  | .orderAck e => inferInstanceAs (Decidable (True ∧ createsFit p st (.orderAck e)))
  | .fill e => inferInstanceAs (Decidable (True ∧ createsFit p st (.fill e)))
  | .clockTick now => inferInstanceAs (Decidable (True ∧ createsFit p st (.clockTick now)))

/-- The context keeps the ladder in order. -/
theorem LadderOk.recompute (h : LadderOk p st) : LadderOk p (recomputeContext p st now) := by
  obtain ⟨q, x, heq, -, htop, hcap⟩ := recomputeContext_eq p st now
  rw [heq]
  have hprices : (st.ladder.map (refresh p (recomputedTop p st now))).map RestOrder.price =
      st.ladder.map RestOrder.price := by
    rw [List.map_map]
    exact List.map_congr_left fun o _ => refresh_price _ o
  refine ⟨by simpa only [hprices] using h.prices, h.targets, fun r hr => ?_,
    by simpa using h.depth, by simpa using h.cents, h.targetCents, by simpa using h.lots,
    h.inFlight, fun ha => ?_, fun n hn o ho => ?_, fun n hn => onGrid_solveN (htop.symm.trans hn),
    fun c hc => ?_⟩
  · simpa only [hprices] using h.apart r hr
  · obtain ⟨hl, hr⟩ := h.settled ha
    exact ⟨by simp [hl], hr⟩
  · obtain ⟨o', -, rfl⟩ := List.mem_map.mp ho
    rw [htop.symm.trans hn]
    exact ⟨rfl, rfl⟩
  · obtain ⟨sd, -, hsd⟩ := Option.bind_eq_some_iff.mp (hcap.symm.trans hc)
    exact onGrid_bucketCap hsd

/-- A book update keeps the ladder in order. -/
theorem LadderOk.fold (h : LadderOk p st) (ev : BookUpdate) :
    LadderOk p (stampStrikeFeed (foldBook st ev) ev) := by
  obtain ⟨b, hb⟩ := foldBook_eq st ev
  rw [hb]
  exact h.sublist rfl (List.Sublist.refl _) (List.Sublist.refl _) id

/-- An acknowledgement keeps the ladder in order. -/
theorem LadderOk.applyAck (h : LadderOk p st) (ev : OrderAck) : LadderOk p (applyAck st ev) := by
  unfold V33.applyAck
  split_ifs
  · refine h.leave rfl ?_ (fun o ho => ?_) (List.Sublist.refl _) id
    · dsimp only [replaceOrder]
      rw [map_replaceFirst_of_eq]
      intro o _
      rfl
    · rcases mem_replaceFirst ho with ho | ⟨o', ho', -, rfl⟩
      · exact ⟨h.lots o ho, o, ho, rfl, rfl, rfl⟩
      · exact ⟨h.lots o' ho', o', ho', rfl, rfl, rfl⟩
  · exact h

/-- A dropped roll keeps the ladder in order. -/
theorem LadderOk.dropRoll (h : LadderOk p st) (coid : String) : LadderOk p (dropRoll st coid) :=
  h.sublist rfl (List.Sublist.refl _) List.filter_sublist id

/-- A cleared cancel keeps the ladder in order. -/
theorem LadderOk.clearCancelPending (h : LadderOk p st) (oid : Option String) :
    LadderOk p (clearCancelPending st oid) := by
  obtain ⟨d, hd⟩ := clearCancelPending_eq st oid
  rw [hd]
  exact h.sublist rfl (List.Sublist.refl _) (List.Sublist.refl _) id

/-- An amend confirmed at its target keeps the shape. -/
theorem LadderOk.confirmRoll (h : LadderOk p st) {rp : RollPending} (hrp : rp ∈ st.rollsInFlight)
    {o : RestOrder} (ho : orderOf (V33.dropRoll st rp.oldCoid) rp.oldCoid = some o) :
    LadderOk p (confirmRoll p (V33.dropRoll st rp.oldCoid) rp rp.targetPrice now) := by
  have hdropped := h.dropRoll rp.oldCoid
  have hmem : ∀ x ∈ (V33.confirmRoll p (V33.dropRoll st rp.oldCoid) rp rp.targetPrice now).ladder,
      x ∈ st.ladder ∨ ∃ o' ∈ st.ladder, x.price = rp.targetPrice ∧ x.count = o'.count ∧
        x.rung = (amendLabels p st rp rp.targetPrice).1 ∧
          x.eRung = (amendLabels p st rp rp.targetPrice).2 := by
    intro x hx
    rcases mem_replaceFirst hx with hx | ⟨o', ho', -, rfl⟩
    · exact Or.inl hx
    · exact Or.inr ⟨o', ho', rfl, rfl, rfl, rfl⟩
  have hother : ∀ r ∈ (V33.dropRoll st rp.oldCoid).rollsInFlight,
      r.targetPrice ≠ rp.targetPrice := by
    intro r hr he
    obtain ⟨hr, hne⟩ := List.mem_filter.mp hr
    have : r = rp := List.inj_on_of_nodup_map h.targets hr hrp he
    simp [this] at hne
  refine ⟨?_, hdropped.targets, fun r hr hin => ?_, ?_, fun x hx => ?_, hdropped.targetCents,
    fun x hx => ?_, hdropped.inFlight, fun ha => ?_, fun n hn x hx => ?_, h.topCents, h.capCents⟩
  · exact nodup_map_replaceFirst ho h.prices (h.apart rp hrp)
  · obtain ⟨x, hx, he⟩ := List.mem_map.mp hin
    rcases hmem x hx with hx | ⟨_, _, hp, -⟩
    · exact hdropped.apart r hr (he ▸ List.mem_map_of_mem hx)
    · exact hother r hr (he.symm.trans hp)
  · simp only [V33.confirmRoll, replaceOrder, length_replaceFirst]
    exact h.depth
  · rcases hmem x hx with hx | ⟨_, _, hp, -⟩
    · exact h.cents x hx
    · rw [hp]
      exact h.targetCents rp hrp
  · rcases hmem x hx with hx | ⟨o', ho', -, hc, -⟩
    · exact h.lots x hx
    · rw [hc]
      exact h.lots o' ho'
  · have := (h.settled ha).2
    simp [this] at hrp
  · rcases hmem x hx with hx | ⟨_, _, hp, -, hr, he⟩
    · exact h.labels n hn x hx
    · have hn' : st.nTop = some n := hn
      unfold Labelled
      rw [hp, hr, he]
      simp only [amendLabels, hn', and_self]

/-- A fallback onto a free price keeps the shape. -/
theorem LadderOk.rollFallback (h : LadderOk p st) {rp : RollPending}
    (hrp : rp ∈ st.rollsInFlight)
    (hfree : Replaces p st rp now →
      fallbackPrice st rp ∉ (dropOrder st.ladder rp.oldCoid).map RestOrder.price ∧
        fallbackPrice st rp ∉
          (V33.dropRoll st rp.oldCoid).rollsInFlight.map RollPending.targetPrice) :
    LadderOk p (rollFallback p st rp now).st := by
  have hdropped : LadderOk p (withoutMover st rp) :=
    h.sublist rfl (dropOrder_sublist _ _) List.filter_sublist id
  rcases rollFallback_cases p st rp now with ⟨hplaces, nTop, htop, heq⟩ | ⟨-, heq⟩
  · obtain ⟨hat, hpromised⟩ := hfree hplaces
    obtain ⟨-, -, -, hlots, -, hfloor, -⟩ := hplaces
    rw [heq]
    unfold moverLots at hlots ⊢
    cases hmover : orderOf st rp.oldCoid with
    | none => simp [hmover] at hlots
    | some mover =>
      obtain ⟨hmem, hcoid⟩ := find?_mem_and hmover
      simp only [hmover] at hlots
      have hcount := (h.lots mover hmem).trunc hlots
      refine hdropped.placeOne hat hpromised ⟨?_, hfloor⟩ ?_ ?_ ?_ fun n hn => ?_
      · unfold fallbackPrice
        split
        · next cap hcap =>
          split_ifs
          · exact h.capCents cap hcap
          · exact (h.targetCents rp hrp).grid
        · exact (h.targetCents rp hrp).grid
      · rw [qCount_of_onGrid hcount.grid]
        exact hcount
      · refine lt_of_lt_of_le ?_ h.depth
        refine List.length_filter_lt_length_iff_exists.mpr ⟨mover, hmem, ?_⟩
        simpa using hcoid
      · change st.awaitingReplace = false
        by_contra hawait
        have := (h.settled (by simpa using hawait)).2
        simp [this] at hrp
      · obtain rfl : nTop = n := Option.some.inj (htop.symm.trans hn)
        exact ⟨rfl, rfl⟩
  · rw [heq]
    exact hdropped

/-- A cancelled order leaves the ladder in order. -/
theorem LadderOk.dropCancelled (h : LadderOk p st) (ev : OrderCancelled)
    (live : Option RestOrder) : LadderOk p (dropCancelled st ev live) := by
  obtain ⟨l, n, heq, hl⟩ := dropCancelled_eq st ev live
  rw [heq]
  exact h.sublist rfl hl (List.Sublist.refl _) id

/-- What is free when the confirm arrives is free when the fallback re-places. -/
theorem fallbackFree.reported {ev : OrderCancelled} (hfree : fallbackFree p st ev)
    {rp : RollPending} {t : V33State} (h : Leaves st t) (hrp : rollOfCancel t ev = some rp)
    (hplaces : Replaces p (reportCancel p st ev ev.serverTs).st rp ev.serverTs) :
    fallbackPrice t rp ∉ (dropOrder t.ladder rp.oldCoid).map RestOrder.price ∧
      fallbackPrice t rp ∉
        (V33.dropRoll t rp.oldCoid).rollsInFlight.map RollPending.targetPrice := by
  obtain ⟨h1, h2⟩ := hfree rp (h.rollOfCancel hrp) hplaces
  rw [h.fallbackPrice]
  refine ⟨fun hin => h1 ?_, fun hin => h2 ?_⟩
  · obtain ⟨o, ho, hp⟩ := List.mem_map.mp hin
    obtain ⟨ho, hne⟩ := List.mem_filter.mp ho
    obtain ⟨o', ho', hcoid, -, hprice, -⟩ := h.ladder o ho
    refine List.mem_map.mpr ⟨o', List.mem_filter.mpr ⟨ho', ?_⟩, hprice.trans hp⟩
    rw [hcoid]
    exact hne
  · rcases h.rolls with he | he
    · simpa [V33.dropRoll, he] using hin
    · simp [V33.dropRoll, he] at hin

/-- The inputs of an event that is safe for the shape keep it. -/
theorem shape_event (h : LadderOk p st) (ev : Event)
    (hok : ShapeSafe p st ev) :
    EventLaw p (fun _ => True) (fun (_ : Unit) _ => ()) (fun _ _ => True)
      (fun st _ => LadderOk p st) st ev () where
  booked _ _ := trivial
  stay _ := h
  book e _ := (h.fold e).recompute
  tick _ _ := h.recompute
  ack e _ := h.applyAck e
  filled _ _ := h.clearCancelPending _
  amended e rp he hrp := by
    subst he
    refine ⟨h.dropRoll _, fun o ho => ?_⟩
    rw [hok.1 rp hrp]
    exact h.confirmRoll (mem_of_rollOfAmend hrp) ho
  cancelled e he := by
    subst he
    refine (shapeLaw p).law.cancelPart e (fun _ _ => trivial)
      (h.clearCancelPending _) fun _ hs => ?_
    unfold finishCancel
    split
    · next rp hrp =>
      have hleaves := @leaves_reportCancel p e.serverTs st e
      exact ⟨allAlong_of_forall fun _ _ _ => trivial,
        hs.rollFallback (mem_of_rollOfCancel hrp) (hok.1.reported hleaves hrp)⟩
    · exact (shapeLaw p).law.keeps_op (via_ptOnCancelConfirmed _) (hs.dropCancelled e _)

/-- Every safe decision keeps the shape. -/
theorem LadderOk.decide (hcoids : CoidsOk st) (h : LadderOk p st) {ev : Event}
    (hok : ShapeSafe p st ev) : LadderOk p (decideV33 p st ev).st := by
  refine ((shapeLaw p).law.decide (J := fun st _ => LadderOk p st) (shape_event h ev hok)
    (fun _ _ hs => hs) fun r hr _ hs => ?_).2
  -- the permits bound what the convergence creates
  have hvia := @via_converge p ev.serverTs
    ⟨fun _ => True, fun s => s.ladder.length < p.rungs, True, True, False⟩ _
    (hcoids.beforeConverge hr).nodup (fun _ _ _ => trivial) trivial (fun _ _ => trivial)
    (fun _ _ hs' => lt_of_lt_of_le hs' (hok.2 r hr))
  exact ⟨allAlong_of_forall fun _ _ _ => trivial,
    Run.preserves (fun _ _ _ hop h => h.op (fun _ hc => hc) hop) hvia hs⟩

end Shape

/-! ### Runs -/

/-- A new window has an empty ladder. -/
theorem LadderOk.new {p : V33Params} {st : V33State} (h : IsNew p st) : LadderOk p st := by
  obtain ⟨_, _, _, _, _, _, rfl⟩ := h
  constructor <;> simp [V33State.new]

/-- The representation invariant of the ladder. -/
structure LadderRep (p : V33Params) (st : V33State) : Prop where
  prices : (st.ladder.map RestOrder.price).Nodup
  depth : st.ladder.length ≤ p.rungs
  cents : ∀ o ∈ st.ladder, (∃ k : ℤ, o.price = k / 100) ∧ p.nMin ≤ o.price
  counts : ∀ o ∈ st.ladder, 0 < o.count ∧ o.count ≤ maxLots p
  oneAmend : (st.rollsInFlight.map RollPending.oldCoid).Nodup
  amends : st.rollsInFlight.length ≤ p.maxAmendsInFlight
  settled : st.rollsInFlight ≠ [] → st.awaitingReplace = false
  labels : ∀ n, st.nTop = some n → ∀ o ∈ st.ladder,
    o.rung = rungOf n o.price ∧ o.eRung = eRungOf p n o.price

/-- Along every run whose fallbacks re-place at a free price, whose amends are confirmed at
their target and whose creates fit, the ladder keeps its representation. -/
theorem ladder_representation (p : V33Params) (evs : List Event) (st : V33State)
    (h : Reached p (ShapeSafe p) evs st) : LadderRep p st := by
  obtain ⟨hcoids, hok⟩ : CoidsOk st ∧ LadderOk p st := h.preserves
    (I := fun st => CoidsOk st ∧ LadderOk p st)
    (fun st hst => ⟨CoidsOk.new hst, LadderOk.new hst⟩)
    (fun st ev hst hsafe => ⟨hst.1.decide ev, hst.2.decide hst.1 hsafe⟩)
  refine ⟨hok.prices, hok.depth, fun o ho => ?_, fun o ho => ?_, hcoids.oldNodup, hok.inFlight,
    fun hrolls => ?_, hok.labels⟩
  · exact ⟨(hok.cents o ho).grid, (hok.cents o ho).floor⟩
  · exact ⟨(hok.lots o ho).pos, (hok.lots o ho).le⟩
  · by_contra hawait
    exact hrolls (hok.settled (by simpa using hawait)).2

/-- One order is being amended up a cent when the cap comes back down. -/
def amendUnderFallingCap : List Event :=
  sampleOpening ++ [centBook "B100" 39 41 1002, centBook "B100" 40 42 1003]

/-- The representation holds after the amend is confirmed instead of cancelled. -/
theorem ladder_representation_sample :
    LadderRep samplePolicy (after samplePolicy (sampleWindow samplePolicy)
      (amendUnderFallingCap ++ [.orderAmended ⟨"v2", "c-3", none, 1004, 0, none⟩])) :=
  ladder_representation samplePolicy _ _ (reached_sample (by decide +kernel))

/-- The amend fails and its order is cancelled: the fallback re-places at the cap, where the
other order rests. -/
theorem fallback_shares_price :
    ¬LadderRep samplePolicy (after samplePolicy (sampleWindow samplePolicy)
      (amendUnderFallingCap ++ [.orderCancelled ⟨some "v2", 1004, 0, some "c-2", none, none⟩])) :=
  fun h => absurd h.prices (by decide +kernel)

end Pilot.V33
