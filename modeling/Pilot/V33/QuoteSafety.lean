import Pilot.V33.LadderShape

/-!
# Quoting safety

Every create and every amend is emitted inside the quoting window, before the hour is
latched, from a known quote, at a whole cent between the floor and the cap, for whole lots.
Creates come from the convergence and from the fallback of a failed amend, amends from the
convergence alone.
-/

namespace Pilot.V33

/-- The kinds that bid for lots: creates and amends. -/
def ActionKind.isQuote (k : ActionKind) : Bool := k.isPlace || k.isAmend

/-- A state from which lots may be bid for: nothing is latched, the window is open and the
last recompute priced the wings, the cap and the ladder top. -/
structure MayQuote (p : V33Params) (now : ℚ) (st : V33State) : Prop where
  running : st.stoodDown = false
  open_ : st.restAllotmentDone = false
  notLate : (p.quoteEndS : ℚ) ≤ st.closeEpoch - now
  notEarly : (st.closeEpoch : ℚ) - now ≤ p.quoteStartS
  top : st.nTop.isSome
  wings : st.W.isSome
  cap : st.cap.isSome

/-- A bid in range: at a whole cent from the floor to the cap, for whole lots. -/
structure InRange (p : V33Params) (st : V33State) (a : V33Action) : Prop where
  price : ∃ n, a.price = some n ∧ OnGrid 100 n ∧ p.nMin ≤ n ∧ ∀ c ∈ st.cap, n ≤ c
  lots : ∃ n : ℕ, 1 ≤ n ∧ a.count = n

/-- The decision on an event emits `a` in the state `s`: at a step of its convergence, or
in the fallback of a cancel confirm once the confirm is booked. -/
inductive EmittedAt (p : V33Params) (st : V33State) (ev : Event) (s : V33State) (a : V33Action) :
    Prop
  | converge (r : Outcome) (before : beforeConverge p st ev = some r)
      (pre acts post : List V33Action) (t : V33State)
      (reached : Run (LadderOp p ev.serverTs Permit.converge) r.st pre s)
      (step : LadderOp p ev.serverTs Permit.converge s acts t) (mem : a ∈ acts)
      (rest : Run (LadderOp p ev.serverTs Permit.converge) t post
        (converge p r.st ev.serverTs).st)
      (whole : (converge p r.st ev.serverTs).acts = pre ++ acts ++ post)
  | fallback (e : OrderCancelled) (event : ev = .orderCancelled e) (rp : RollPending)
      (reported : s = (reportCancel p st e e.serverTs).st) (roll : rollOfCancel s e = some rp)
      (mem : a ∈ (rollFallback p s rp e.serverTs).acts)

/-! ### The quote -/

/-- What the bids of a state rest on: a known top belongs to a priced quote, tops, caps and
targets are whole cents, and an order without a booked fill still has its whole lots. -/
structure QuoteSound (st : V33State) : Prop where
  priced : st.nTop.isSome → st.W.isSome ∧ st.cap.isSome
  topCents : ∀ n, st.nTop = some n → OnGrid 100 n
  capCents : ∀ c, st.cap = some c → OnGrid 100 c
  targetCents : ∀ r ∈ st.rollsInFlight, OnGrid 100 r.targetPrice
  whole : ∀ o ∈ st.ladder, st.restBookedByCoid.getD o.clientOrderId 0 = 0 →
    ∃ n : ℕ, 1 ≤ n ∧ o.count = n
  booked : ∀ coid, OnGrid 100 (st.restBookedByCoid.getD coid 0) ∧
    0 ≤ st.restBookedByCoid.getD coid 0

section Quote

variable {p : V33Params} {now : ℚ} {P : Permit} {st st' : V33State} {acts : List V33Action}

/-- A known top comes with a priced quote. -/
theorem priced_recompute (h : (recomputeContext p st now).nTop.isSome) :
    (recomputeContext p st now).W.isSome ∧ (recomputeContext p st now).cap.isSome := by
  have hsolve : ∀ b c : Option ℚ, (solveN b c).isSome → b.isSome ∧ c.isSome := by
    intro b c
    cases b with
    | none => simp [solveN]
    | some b =>
      cases c with
      | none => simp [solveN]
      | some c => simp
  have hfields : (recomputeContext p st now).nTop =
      solveN ((recomputeContext p st now).W.map fun w => 2 - p.eMin - w)
        (recomputeContext p st now).cap := by
    unfold recomputeContext
    dsimp only
    split <;> split_ifs <;> rfl
  rw [hfields] at h
  obtain ⟨hw, hcap⟩ := hsolve _ _ h
  exact ⟨by simpa using hw, hcap⟩

/-- The quote stays in order while the orders on the ladder leave, keep their lots or are
whole. -/
theorem QuoteSound.keep (h : QuoteSound st) (hquote : st'.toQuote = st.toQuote)
    (hrolls : ∀ r ∈ st'.rollsInFlight, r ∈ st.rollsInFlight ∨ OnGrid 100 r.targetPrice)
    (hladder : ∀ o ∈ st'.ladder, o ∈ st.ladder ∨ ∃ n : ℕ, 1 ≤ n ∧ o.count = n)
    (hbooked : st'.restBookedByCoid = st.restBookedByCoid) : QuoteSound st' := by
  refine ⟨?_, ?_, ?_, fun r hr => ?_, fun o ho hb => ?_, ?_⟩
  · rw [congrArg Quote.nTop hquote, congrArg Quote.W hquote, congrArg Quote.cap hquote]
    exact h.priced
  · rw [congrArg Quote.nTop hquote]
    exact h.topCents
  · rw [congrArg Quote.cap hquote]
    exact h.capCents
  · rcases hrolls r hr with hr | hr
    · exact h.targetCents r hr
    · exact hr
  · rw [hbooked] at hb
    rcases hladder o ho with ho | hwhole
    · exact h.whole o ho hb
    · exact hwhole
  · rw [hbooked]
    exact h.booked

/-- A part of the ladder and of its amends. -/
theorem QuoteSound.sublist (h : QuoteSound st) (hquote : st'.toQuote = st.toQuote)
    (hladder : st'.ladder.Sublist st.ladder) (hrolls : st'.rollsInFlight.Sublist st.rollsInFlight)
    (hbooked : st'.restBookedByCoid = st.restBookedByCoid) : QuoteSound st' :=
  h.keep hquote (fun _ hr => Or.inl (hrolls.subset hr)) (fun _ ho => Or.inl (hladder.subset ho))
    hbooked

/-- The price of a slot is on the grid, above the least price and below the cap. -/
theorem QuoteSound.slotPrice (h : QuoteSound st) {nTop price : ℚ} {m : ℕ}
    (hg : SlotGuard p now st nTop m price) :
    OnGrid 100 price ∧ p.nMin ≤ price ∧ ∀ c ∈ st.cap, price ≤ c := by
  obtain ⟨hslot, hrange⟩ := List.mem_filter.mp hg.slot
  simp only [decide_eq_true_eq] at hrange
  obtain ⟨k, -, hk⟩ := List.mem_map.mp hslot
  obtain ⟨rfl, rfl⟩ := Prod.mk.inj hk
  exact ⟨onGrid_priceOfMargin p (h.topCents nTop (quoting_of_gate hg.gate).top) _, hrange.1,
    hrange.2⟩

/-- Every small ladder operation keeps the quote in order. -/
theorem QuoteSound.op (hop : LadderOp p now P st acts st') (h : QuoteSound st) :
    QuoteSound st' := by
  cases hop with
  | drop =>
    rw [cancelAll_st]
    exact h.sublist rfl (List.nil_sublist _) (List.nil_sublist _) rfl
  | clear =>
    rw [cancelAllThenReplace_st, cancelAll_st]
    exact h.sublist rfl (List.nil_sublist _) (List.nil_sublist _) rfl
  | create nTop m price guard weight =>
    refine h.keep rfl (fun _ hr => Or.inl hr) (fun o ho => ?_) rfl
    simp only [placeSlot, placeOne, List.mem_append, List.mem_singleton] at ho
    rcases ho with ho | rfl
    · exact Or.inl ho
    · exact Or.inr ⟨weightOfMargin p m, Nat.pos_of_ne_zero weight, qCount_natCast _⟩
  | roll o nTop m price guard =>
    refine h.keep rfl (fun r hr => ?_) (fun _ ho => Or.inl ho) rfl
    simp only [emitRoll, List.mem_append, List.mem_singleton] at hr
    rcases hr with hr | rfl
    · exact Or.inl hr
    · exact Or.inr (h.slotPrice guard).1
  | shrink o =>
    unfold shrinkOne
    dsimp only
    rw [retainCancelled_eq]
    exact h.sublist rfl (dropOrder_sublist _ _) (List.Sublist.refl _) rfl
  | stallCancel coid =>
    unfold ptCancelRung
    split
    · exact h
    · dsimp only
      rw [retainCancelled_eq]
      exact h.sublist rfl (dropOrder_sublist _ _) (List.Sublist.refl _) rfl
  | _ => exact h.sublist rfl (List.Sublist.refl _) (List.Sublist.refl _) rfl

/-- A recorded fill leaves an order whole only if it took nothing from it. -/
theorem QuoteSound.record (h : QuoteSound st) (r : FillReport) (hdelta : 0 < r.delta) :
    QuoteSound (recordFill p st r now) := by
  have hpos := qCount_nonneg hdelta.le
  have hexact : ∀ coid, qCount (st.restBookedByCoid.getD coid 0 + qCount r.delta) =
      st.restBookedByCoid.getD coid 0 + qCount r.delta := fun coid =>
    qCount_of_onGrid ((h.booked coid).1.add (onGrid_qCount _))
  have hbooked : ∀ coid, (recordFill p st r now).restBookedByCoid.getD coid 0 =
      if coid = r.coid then st.restBookedByCoid.getD r.coid 0 + qCount r.delta
      else st.restBookedByCoid.getD coid 0 := by
    intro coid
    simp only [recordFill, Dict.getD_set, hexact]
  refine ⟨h.priced, h.topCents, h.capCents, h.targetCents, fun o ho hb => ?_, fun coid => ?_⟩
  · rw [hbooked] at hb
    have hold : st.restBookedByCoid.getD o.clientOrderId 0 = 0 ∧
        (o.clientOrderId = r.coid → qCount r.delta = 0) := by
      split_ifs at hb with hc
      · have := (h.booked r.coid).2
        exact ⟨by rw [hc]; linarith, fun _ => by linarith⟩
      · exact ⟨hb, fun he => absurd he hc⟩
    rcases mem_reduceOrder ho with ho | ⟨o', ho', hcoid, -, rfl⟩
    · exact h.whole o ho hold.1
    · obtain ⟨n, hn, hcount⟩ := h.whole o' ho' hold.1
      refine ⟨n, hn, ?_⟩
      simp only [hold.2 hcoid, hcount, sub_zero, qCount_natCast]
  · rw [hbooked]
    split_ifs
    · exact ⟨(h.booked r.coid).1.add (onGrid_qCount _), by linarith [(h.booked r.coid).2]⟩
    · exact h.booked coid

/-- The law of the quote, up to the convergence. -/
theorem quoteLaw (p : V33Params) :
    LadderLaw p (fun (_ : Unit) _ => ()) (fun _ _ => True) (fun st _ => QuoteSound st) :=
  LadderLaw.ofState
    (fun hframe h => h.sublist hframe.quote (by rw [congrArg Ladder.ladder hframe.ladder])
      (by rw [congrArg Ladder.rollsInFlight hframe.ladder]) hframe.booked)
    (fun hop h => QuoteSound.op hop h)
    (fun r hd h => h.record r hd)
    (fun _ _ h => h.sublist rfl (List.Sublist.refl _) (List.Sublist.refl _) rfl)

/-! ### Events -/

/-- The context is derived soundly. -/
theorem QuoteSound.recompute (h : QuoteSound st) : QuoteSound (recomputeContext p st now) := by
  have hpriced := @priced_recompute p now st
  obtain ⟨q, x, heq, -, htop, hcap⟩ := recomputeContext_eq p st now
  rw [heq] at hpriced ⊢
  refine ⟨hpriced, fun n hn => onGrid_solveN (htop.symm.trans hn), fun c hc => ?_, h.targetCents,
    fun o ho hb => ?_, h.booked⟩
  · obtain ⟨sd, -, hsd⟩ := Option.bind_eq_some_iff.mp (hcap.symm.trans hc)
    exact onGrid_bucketCap hsd
  · obtain ⟨o', ho', rfl⟩ := List.mem_map.mp ho
    rw [refresh_count]
    exact h.whole o' ho' (by simpa using hb)

/-- A book update keeps the quotes sound. -/
theorem QuoteSound.fold (h : QuoteSound st) (ev : BookUpdate) :
    QuoteSound (stampStrikeFeed (foldBook st ev) ev) := by
  obtain ⟨b, hb⟩ := foldBook_eq st ev
  rw [hb]
  exact h.sublist rfl (List.Sublist.refl _) (List.Sublist.refl _) rfl

/-- An acknowledgement keeps the quotes sound. -/
theorem QuoteSound.applyAck (h : QuoteSound st) (ev : OrderAck) : QuoteSound (applyAck st ev) := by
  unfold V33.applyAck
  split_ifs
  · refine ⟨h.priced, h.topCents, h.capCents, h.targetCents, fun o ho hb => ?_, h.booked⟩
    rcases mem_replaceFirst ho with ho | ⟨o', ho', -, rfl⟩
    · exact h.whole o ho hb
    · exact h.whole o' ho' hb
  · exact h

/-- A cleared cancel keeps the quotes sound. -/
theorem QuoteSound.clearCancelPending (h : QuoteSound st) (oid : Option String) :
    QuoteSound (clearCancelPending st oid) := by
  obtain ⟨d, hd⟩ := clearCancelPending_eq st oid
  rw [hd]
  exact h.sublist rfl (List.Sublist.refl _) (List.Sublist.refl _) rfl

/-- A dropped roll keeps the quotes sound. -/
theorem QuoteSound.dropRoll (h : QuoteSound st) (coid : String) : QuoteSound (dropRoll st coid) :=
  h.sublist rfl (List.Sublist.refl _) List.filter_sublist rfl

/-- What the transfer of booked lots leaves under each id. -/
theorem getD_transferBooked (booked : Dict String ℚ) (oldCoid newCoid coid : String) :
    (transferBooked booked oldCoid newCoid).getD coid 0 =
      if newCoid = oldCoid then booked.getD coid 0
      else if coid = newCoid then booked.getD newCoid 0 + booked.getD oldCoid 0
      else if coid = oldCoid then 0
      else booked.getD coid 0 := by
  unfold transferBooked
  by_cases hsame : newCoid = oldCoid
  · rw [if_pos hsame, if_pos hsame]
  · rw [if_neg hsame, if_neg hsame]
    cases hold : booked.get? oldCoid with
    | none =>
      have hzero : booked.getD oldCoid 0 = 0 := by rw [Dict.getD, hold, Option.getD_none]
      by_cases hnew : coid = newCoid
      · rw [if_pos hnew, hnew, hzero, add_zero]
      · rw [if_neg hnew]
        by_cases ho : coid = oldCoid
        · rw [if_pos ho, ho, hzero]
        · rw [if_neg ho]
    | some v =>
      have hv : booked.getD oldCoid 0 = v := by rw [Dict.getD, hold, Option.getD_some]
      rw [hv]
      simp only [Dict.getD_set, Dict.getD_pop]

/-- A confirmed amend keeps the lots of its order and what is booked of it. -/
theorem QuoteSound.confirmRoll (h : QuoteSound st) (hcoids : CoidsOk st) {rp : RollPending}
    (hrp : rp ∈ st.rollsInFlight) {o : RestOrder} (ho : orderOf st rp.oldCoid = some o)
    (newPrice : ℚ) :
    QuoteSound (confirmRoll p (V33.dropRoll st rp.oldCoid) rp newPrice now) := by
  have hbooked : ∀ coid,
      (V33.confirmRoll p (V33.dropRoll st rp.oldCoid) rp newPrice now).restBookedByCoid.getD
        coid 0 = _ := getD_transferBooked st.restBookedByCoid rp.oldCoid rp.newCoid
  obtain ⟨homem, hocoid⟩ := find?_mem_and ho
  have hold : o.clientOrderId = rp.oldCoid := by simpa using hocoid
  have hne : rp.newCoid ≠ rp.oldCoid := fun he =>
    hcoids.unused rp hrp (he ▸ hold ▸ List.mem_map_of_mem homem)
  obtain ⟨front, back, heq, hrep, hfront⟩ := replaceFirst_split
    (f := fun o => { o with
      price := newPrice
      clientOrderId := rp.newCoid
      rung := (amendLabels p (V33.dropRoll st rp.oldCoid) rp newPrice).1
      eRung := (amendLabels p (V33.dropRoll st rp.oldCoid) rp newPrice).2 }) ho
  have hrest : ∀ x ∈ front ++ back, x ∈ st.ladder ∧ x.clientOrderId ≠ rp.oldCoid := by
    intro x hx
    have hmem : x ∈ st.ladder := by
      rw [heq]
      simp only [List.mem_append, List.mem_cons] at hx ⊢
      tauto
    refine ⟨hmem, fun he => ?_⟩
    have hnodup := hcoids.nodup
    rw [heq, List.map_append, List.map_cons, List.nodup_middle, List.nodup_cons] at hnodup
    refine hnodup.1 ?_
    rw [← List.map_append, hold, ← he]
    exact List.mem_map_of_mem hx
  refine ⟨h.priced, h.topCents, h.capCents, (h.dropRoll _).targetCents, fun x hx hb => ?_,
    fun coid => ?_⟩
  · rw [hbooked, if_neg hne] at hb
    have hx' : x ∈ front ++ back ∨ x.clientOrderId = rp.newCoid ∧ x.count = o.count := by
      simp only [V33.confirmRoll, replaceOrder] at hx
      rw [show (V33.dropRoll st rp.oldCoid).ladder = st.ladder from rfl, hrep] at hx
      simp only [List.mem_append, List.mem_cons] at hx ⊢
      rcases hx with hx | rfl | hx
      · exact Or.inl (Or.inl hx)
      · exact Or.inr ⟨rfl, rfl⟩
      · exact Or.inl (Or.inr hx)
    rcases hx' with hx' | ⟨hcoid, hcount⟩
    · obtain ⟨hmem, hxold⟩ := hrest x hx'
      have hxnew : x.clientOrderId ≠ rp.newCoid := fun he =>
        hcoids.unused rp hrp (he ▸ List.mem_map_of_mem hmem)
      rw [if_neg hxnew, if_neg hxold] at hb
      exact h.whole x hmem hb
    · rw [if_pos hcoid] at hb
      rw [hcount]
      refine h.whole o homem ?_
      rw [hold]
      have := (h.booked rp.newCoid).2
      have := (h.booked rp.oldCoid).2
      linarith
  · rw [hbooked, if_neg hne]
    split_ifs
    · exact ⟨(h.booked _).1.add (h.booked _).1, add_nonneg (h.booked _).2 (h.booked _).2⟩
    · exact ⟨⟨0, by norm_num⟩, le_rfl⟩
    · exact h.booked coid

/-- A natural number is its own truncation. -/
theorem truncInt_natCast (n : ℕ) : truncInt (n : ℚ) = n := by
  simp [truncInt]

/-- A positive number of whole lots is a lot count as it stands. -/
theorem qCount_of_pos {l : ℤ} (h : 0 < l) : ∃ n : ℕ, 1 ≤ n ∧ qCount l = n := by
  obtain ⟨n, rfl⟩ := Int.eq_ofNat_of_zero_le h.le
  refine ⟨n, by omega, ?_⟩
  simp

/-- The price of a fallback is a whole cent under the cap. -/
theorem QuoteSound.fallbackPrice (h : QuoteSound st) {rp : RollPending}
    (hrp : rp ∈ st.rollsInFlight) :
    OnGrid 100 (fallbackPrice st rp) ∧ ∀ c ∈ st.cap, V33.fallbackPrice st rp ≤ c := by
  unfold V33.fallbackPrice
  cases hcap : st.cap with
  | none => exact ⟨h.targetCents rp hrp, by simp⟩
  | some cap =>
    dsimp only
    split_ifs with hlt
    · exact ⟨h.capCents cap hcap, by simp⟩
    · exact ⟨h.targetCents rp hrp, by simpa using not_lt.mp hlt⟩

/-- The fallback of a roll keeps the quotes sound. -/
theorem QuoteSound.rollFallback (h : QuoteSound st) (rp : RollPending) :
    QuoteSound (rollFallback p st rp now).st := by
  have hdropped : QuoteSound
      { V33.dropRoll st rp.oldCoid with
        ladder := dropOrder (V33.dropRoll st rp.oldCoid).ladder rp.oldCoid } :=
    (h.dropRoll _).sublist rfl (dropOrder_sublist _ _) (List.Sublist.refl _) rfl
  unfold V33.rollFallback
  dsimp only
  split
  · exact hdropped
  · split_ifs with hplace
    · refine hdropped.keep rfl (fun _ hr => Or.inl hr) (fun o ho => ?_) rfl
      simp only [placeOne, List.mem_append, List.mem_singleton] at ho
      rcases ho with ho | rfl
      · exact Or.inl ho
      · exact Or.inr (qCount_of_pos hplace.2.2.1)
    · exact hdropped

/-- A cancelled order leaves the quotes sound. -/
theorem QuoteSound.dropCancelled (h : QuoteSound st) (ev : OrderCancelled)
    (live : Option RestOrder) :
    QuoteSound (dropCancelled st ev live) := by
  obtain ⟨l, n, heq, hl⟩ := dropCancelled_eq st ev live
  rw [heq]
  exact h.sublist rfl hl (List.Sublist.refl _) rfl

/-- A reported cancel keeps the quotes sound. -/
theorem QuoteSound.reportCancel (h : QuoteSound st) (e : OrderCancelled) :
    QuoteSound (reportCancel p st e now).st :=
  ((quoteLaw p).law.bookLaw.reportCancel (g := ()) e (fun _ _ => trivial)
  (h.clearCancelPending _)).2

/-- The inputs of every event keep the quote in order. -/
theorem quote_event (h : QuoteSound st) (hcoids : CoidsOk st) (ev : Event) :
    EventLaw p (fun _ => True) (fun (_ : Unit) _ => ()) (fun _ _ => True)
      (fun st _ => QuoteSound st) st ev () where
  booked _ _ := trivial
  stay _ := h
  book e _ := (h.fold e).recompute
  tick _ _ := h.recompute
  ack e _ := h.applyAck e
  filled _ _ := h.clearCancelPending _
  amended e rp _ hrp :=
    ⟨h.dropRoll _, fun _ ho => h.confirmRoll hcoids (mem_of_rollOfAmend hrp) ho _⟩
  cancelled e _ := (quoteLaw p).law.cancelPart e (fun _ _ => trivial) (h.clearCancelPending _)
    fun _ hs => by
      unfold finishCancel
      split
      · exact ⟨allAlong_of_forall fun _ _ _ => trivial, hs.rollFallback _⟩
      · exact (quoteLaw p).law.keeps_op (via_ptOnCancelConfirmed _) (hs.dropCancelled e _)

/-- A decision keeps the quotes sound. -/
theorem QuoteSound.decide (h : QuoteSound st) (hcoids : CoidsOk st) (ev : Event) :
    QuoteSound (decideV33 p st ev).st :=
  ((quoteLaw p).law.decide (J := fun st _ => QuoteSound st) (quote_event h hcoids ev)
    (fun _ _ hs => hs) fun _ hr _ hs => ⟨allAlong_of_forall fun _ _ _ => trivial,
      Run.preserves (fun _ _ _ hop h => QuoteSound.op hop h) (hcoids.via_converge hr) hs⟩).2

/-! ### Emissions -/

/-- A report, a wing order and a cancel bid for nothing. -/
theorem isQuote_eq_false {k : ActionKind}
    (h : (k.isReport = true ∨ k.isWing = true) ∨ k.isCancel = true) : k.isQuote = false := by
  cases k <;> simp_all [ActionKind.isReport, ActionKind.isWing, ActionKind.isCancel,
    ActionKind.isQuote, ActionKind.isPlace, ActionKind.isAmend]

/-- Where the gate is open the state may quote. -/
theorem mayQuote_of_gate {nTop : ℚ} (h : QuoteSound st) (hopen : st.restAllotmentDone = false)
    (hgate : quoteGate p st now = .quote nTop) : MayQuote p now st := by
  have hq := quoting_of_gate hgate
  have htop : st.nTop.isSome := by simp [hq.top]
  obtain ⟨hearly, hlate⟩ := of_decide_eq_true hq.window
  exact ⟨hq.running, hopen, hearly, hlate, htop, hq.wings, (h.priced htop).2⟩

/-- A small operation bids only for a slot of an open gate. -/
theorem QuoteSound.emits (h : QuoteSound st) (hop : LadderOp p now P st acts st') {a : V33Action}
    (ha : a ∈ acts) (hquote : a.kind.isQuote = true) : MayQuote p now st ∧ InRange p st a := by
  have hcancel : ∀ o, a ≠ cancelAction st o := by
    rintro o rfl
    simp [isQuote_eq_false (Or.inr (isCancel_cancelAction st o))] at hquote
  have hall : a ∉ st.ladder.map (cancelAction st) := by
    intro hmem
    obtain ⟨o, -, he⟩ := List.mem_map.mp hmem
    exact hcancel o he.symm
  cases hop with
  | report _ _ reports => simp [isQuote_eq_false (Or.inl (Or.inl (reports a ha)))] at hquote
  | drop => exact absurd (cancelAll_acts st false ▸ ha) hall
  | clear => exact absurd (cancelAllThenReplace_acts st ▸ ha) hall
  | shrink o => exact absurd (List.mem_singleton.mp ha) (hcancel o)
  | stallCancel coid =>
    unfold ptCancelRung at ha
    split at ha
    · simp at ha
    · next o _ => exact absurd (List.mem_singleton.mp ha) (hcancel o)
  | create nTop m price guard weight =>
    have hprice := h.slotPrice guard
    refine ⟨mayQuote_of_gate h guard.open_ guard.gate, ?_⟩
    rw [List.mem_singleton.mp ha]
    exact ⟨⟨price, rfl, hprice⟩, weightOfMargin p m, Nat.pos_of_ne_zero weight, qCount_natCast _⟩
  | roll o nTop m price guard movable =>
    have hprice := h.slotPrice guard
    obtain ⟨n, hn, hcount⟩ := h.whole o movable.mem movable.unbooked
    refine ⟨mayQuote_of_gate h guard.open_ guard.gate, ?_⟩
    rw [List.mem_singleton.mp ha]
    refine ⟨⟨price, rfl, hprice⟩, n, hn, ?_⟩
    change ((truncInt o.count : ℤ) : ℚ) = n
    rw [hcount, truncInt_natCast]
    rfl
  | _ => simp at ha

/-- A fallback bids only inside the window and for the lots that rested. -/
theorem QuoteSound.emits_fallback (h : QuoteSound st) {rp : RollPending}
    (hrp : rp ∈ st.rollsInFlight)
    {a : V33Action} (ha : a ∈ (V33.rollFallback p st rp now).acts) :
    MayQuote p now st ∧ InRange p st a := by
  have hprice := h.fallbackPrice hrp
  unfold V33.rollFallback at ha
  dsimp only at ha
  split at ha
  · simp at ha
  · next nTop htop =>
    split_ifs at ha with hplace
    · obtain ⟨hopen, hrunning, hlots, hwindow, hfloor, -⟩ := hplace
      have htop' : st.nTop.isSome := by
        rw [show st.nTop = some nTop from htop]
        rfl
      obtain ⟨hearly, hlate⟩ := of_decide_eq_true hwindow
      rw [List.mem_singleton.mp ha]
      have hopen' : st.restAllotmentDone = false := Bool.not_eq_true _ ▸ hopen
      have hrunning' : st.stoodDown = false := Bool.not_eq_true _ ▸ hrunning
      exact ⟨⟨hrunning', hopen', hearly, hlate, htop', (h.priced htop').1, (h.priced htop').2⟩,
        ⟨_, rfl, hprice.1, hfloor, hprice.2⟩, qCount_of_pos hlots⟩
    · simp at ha

/-- Outside the convergence and the fallback nothing bids. -/
theorem stillLaw (p : V33Params) :
    LadderLaw p (fun (_ : Unit) _ => ()) (fun _ a => a.kind.isQuote = false)
      (fun _ _ => True) where
  frame _ _ := trivial
  ignored _ _ h := ⟨isQuote_eq_false (Or.inl h), rfl⟩
  op hop _ := ⟨allAlong_of_forall fun a ha _ => isQuote_eq_false
    ((hop.kind_of_still id id a ha).imp Or.inl id), trivial⟩
  record _ _ _ := trivial
  seen _ _ _ := trivial

/-- A cancel confirm bids only in its fallback. -/
theorem emits_cancelPart (e : OrderCancelled) {a : V33Action} (hquote : a.kind.isQuote = true)
    (ha : a ∈ ((V33.reportCancel p st e e.serverTs).andThen (finishCancel p
      (cancelledOrder (V33.clearCancelPending st e.orderId) e) e e.serverTs)).acts) :
    ∃ s, EmittedAt p st (.orderCancelled e) s a := by
  have hreport : (V33.reportCancel p st e e.serverTs).Keeps _ _ _ () :=
    (@stillLaw p).law.bookLaw.reportCancel e (fun _ _ => trivial) trivial
  rcases List.mem_append.mp ha with ha | ha
  · have := forall_of_allAlong hreport.1 a ha
    simp [this] at hquote
  · unfold finishCancel at ha
    split at ha
    · next rp hrp => exact ⟨_, EmittedAt.fallback e rfl rp rfl hrp ha⟩
    · have hstill := (@stillLaw p).law.keeps_op (g := ())
        (@via_ptOnCancelConfirmed p e.serverTs (V33.dropCancelled
          (V33.reportCancel p st e e.serverTs).st e
            (cancelledOrder (V33.clearCancelPending st e.orderId) e)) e.orderId) trivial
      have := forall_of_allAlong hstill.1 a ha
      simp [this] at hquote

/-- Every bid is emitted by the convergence or by a fallback. -/
theorem exists_emittedAt (hcoids : CoidsOk st) {ev : Event} {a : V33Action}
    (ha : a ∈ (decideV33 p st ev).acts) (hquote : a.kind.isQuote = true) :
    ∃ s, EmittedAt p st ev s a := by
  have hinputs : (∀ e, ev ≠ .orderCancelled e) → EventLaw p (fun _ => True)
      (fun (_ : Unit) _ => ()) (fun _ a => a.kind.isQuote = false) (fun _ _ => True) st ev () :=
    fun hne => ⟨fun _ _ => trivial, fun _ => trivial, fun _ _ => trivial, fun _ _ => trivial,
      fun _ _ => trivial, fun _ _ => trivial, fun e he => absurd he (hne e),
      fun _ _ _ _ => ⟨trivial, fun _ _ => trivial⟩⟩
  cases hr : V33.beforeConverge p st ev with
  | none =>
    have hne : ∀ e, ev ≠ .orderCancelled e := by
      rintro e rfl
      simp [V33.beforeConverge] at hr
    have hstill := (stillLaw p).law.decide (J := fun _ _ => True) (hinputs hne)
      (fun _ _ _ => trivial) fun r hr' => by rw [hr] at hr'; exact absurd hr' (by simp)
    have := forall_of_allAlong hstill.1 a ha
    simp [this] at hquote
  | some r =>
    rw [decideV33_of_beforeConverge hr] at ha
    rw [andThen_acts, List.mem_append] at ha
    rcases ha with ha | ha
    · by_cases hne : ∀ e, ev ≠ .orderCancelled e
      · have := forall_of_allAlong ((stillLaw p).law.beforeConverge (hinputs hne) hr).1 a ha
        simp [this] at hquote
      · simp only [ne_eq, not_forall, not_not] at hne
        obtain ⟨e, rfl⟩ := hne
        obtain rfl := Option.some.inj hr
        exact emits_cancelPart e hquote ha
    · obtain ⟨pre, s, acts, t, post, hpre, hstep, hpost, hmem, hwhole⟩ :=
        (hcoids.via_converge hr).exists_step ha
      exact ⟨s, EmittedAt.converge r hr pre acts post t hpre hstep hmem hpost hwhole⟩

/-- What is bid for where it is emitted. -/
theorem QuoteSound.bids (h : QuoteSound st) (hcoids : CoidsOk st) {ev : Event} {s : V33State}
    {a : V33Action} (hat : EmittedAt p st ev s a) (hquote : a.kind.isQuote = true) :
    MayQuote p ev.serverTs s ∧ InRange p s a := by
  cases hat with
  | converge r before pre acts post t reached step mem =>
    have hr := ((quoteLaw p).law.beforeConverge (quote_event h hcoids ev) before).2
    exact (Run.preserves (fun _ _ _ hop h => QuoteSound.op hop h) reached hr).emits step mem hquote
  | fallback e event rp reported roll mem =>
    subst event
    subst reported
    exact (h.reportCancel e).emits_fallback (mem_of_rollOfCancel roll) mem

/-! ### Latches -/

/-- The law of the latches: they only close. -/
theorem latchLaw (p : V33Params) (s : V33State) :
    LadderLaw p (fun (_ : Unit) _ => ()) (fun _ _ => True)
      (fun t _ => s.toLatches.le t.toLatches) :=
  LadderLaw.ofState
    (fun hframe h => by rw [hframe.latches]; exact h)
    (fun hop h => h.trans hop.latches_le)
    (fun _ _ h => h)
    (fun _ _ h => h)

/-- The fallback of a roll sets no latch. -/
theorem rollFallback_latches (rp : RollPending) :
    (V33.rollFallback p st rp now).st.toLatches = st.toLatches := by
  unfold V33.rollFallback
  dsimp only
  split
  · rfl
  · split_ifs <;> rfl

/-- The inputs of every event leave the latches closed. -/
theorem latch_event (s : V33State) (ev : Event) :
    EventLaw p (fun _ => True) (fun (_ : Unit) _ => ()) (fun _ _ => True)
      (fun t _ => s.toLatches.le t.toLatches) s ev () where
  booked _ _ := trivial
  stay _ := Latches.le_refl _
  book e _ := by
    obtain ⟨b, hb⟩ := foldBook_eq s e
    obtain ⟨q, x, heq, -⟩ := recomputeContext_eq p (stampStrikeFeed (foldBook s e) e) e.serverTs
    rw [heq, hb]
    exact Latches.le_refl _
  tick now _ := by
    obtain ⟨q, x, heq, -⟩ := recomputeContext_eq p s now
    rw [heq]
    exact Latches.le_refl _
  ack e _ := by
    unfold V33.applyAck
    split_ifs <;> exact Latches.le_refl _
  filled e _ := by
    obtain ⟨d, hd⟩ := clearCancelPending_eq s e.orderId
    rw [hd]
    exact Latches.le_refl _
  amended _ _ _ _ := ⟨Latches.le_refl _, fun _ _ => Latches.le_refl _⟩
  cancelled e _ := (latchLaw p s).law.cancelPart e (fun _ _ => trivial)
    (by
      obtain ⟨d, hd⟩ := clearCancelPending_eq s e.orderId
      rw [hd]
      exact Latches.le_refl _)
    fun _ hs => by
      unfold finishCancel
      split
      · refine ⟨allAlong_of_forall fun _ _ _ => trivial, ?_⟩
        show s.toLatches.le (V33.rollFallback p _ _ _).st.toLatches
        rwa [rollFallback_latches]
      · refine (latchLaw p s).law.keeps_op (via_ptOnCancelConfirmed _) ?_
        obtain ⟨l, n, heq, -⟩ := dropCancelled_eq (V33.reportCancel p s e e.serverTs).st e
          (cancelledOrder (V33.clearCancelPending s e.orderId) e)
        rw [heq]
        exact hs

/-- The latches at an action are at least those before the event. -/
theorem latches_emittedAt {ev : Event} {s : V33State} {a : V33Action}
    (hat : EmittedAt p st ev s a) : st.toLatches.le s.toLatches := by
  cases hat with
  | converge r before pre acts post t reached =>
    have hr := ((latchLaw p st).law.beforeConverge (latch_event st ev) before).2
    exact Run.preserves (I := fun t => st.toLatches.le t.toLatches)
      (fun _ _ _ hop h => h.trans (LadderOp.latches_le hop)) reached hr
  | fallback e event rp reported =>
    rw [reported]
    exact (leaves_reportCancel e).latches

/-- A decision opens no latch. -/
theorem latches_decide (hcoids : CoidsOk st) (ev : Event) :
    st.toLatches.le (decideV33 p st ev).st.toLatches :=
  ((latchLaw p st).law.decide (J := fun t _ => st.toLatches.le t.toLatches) (latch_event st ev)
    (fun _ _ hs => hs) fun _ hr _ hs => ⟨allAlong_of_forall fun _ _ _ => trivial,
      Run.preserves (I := fun t => st.toLatches.le t.toLatches)
        (fun _ _ _ hop h => h.trans (LadderOp.latches_le hop)) (hcoids.via_converge hr) hs⟩).2

/-- Any events keep the ids and the quote in order and leave a latch closed. -/
theorem QuoteSound.after (h : QuoteSound st) (hcoids : CoidsOk st) (evs : List Event) :
    CoidsOk (after p st evs) ∧ QuoteSound (V33.after p st evs) ∧
      st.toLatches.le (V33.after p st evs).toLatches := by
  induction evs generalizing st with
  | nil => exact ⟨hcoids, h, Latches.le_refl _⟩
  | cons ev evs ih =>
    obtain ⟨hcoids', h', hle⟩ := ih (h.decide hcoids ev) (hcoids.decide ev)
    exact ⟨hcoids', h', (latches_decide hcoids ev).trans hle⟩

end Quote

/-! ### Runs -/

/-- A new window quotes nothing. -/
theorem QuoteSound.new {p : V33Params} {st : V33State} (h : IsNew p st) : QuoteSound st := by
  obtain ⟨_, _, _, _, _, _, rfl⟩ := h
  constructor <;> simp [V33State.new, Dict.getD, OnGrid]
  exact ⟨0, by norm_num⟩

/-- Every create and every amend of a decision is emitted in a state from which lots may be
bid for, and is in range there. -/
def QuotesSafely (p : V33Params) (st : V33State) (ev : Event) : Prop :=
  ∀ a ∈ (decideV33 p st ev).acts, a.kind.isQuote = true →
    ∃ s, EmittedAt p st ev s a ∧ MayQuote p ev.serverTs s ∧ InRange p s a

/-- In every run every bid is emitted safely, and once the hour is stood down or its allotment
is done no later decision bids. -/
theorem quoting_safety (p : V33Params) (evs : List Event) (st : V33State)
    (h : Reached p (fun _ _ => True) evs st) (ev : Event) :
    QuotesSafely p st ev ∧
      (st.stoodDown = true ∨ st.restAllotmentDone = true →
        ∀ later, ∀ a ∈ (decideV33 p (after p st later) ev).acts, a.kind.isQuote = false) := by
  obtain ⟨hcoids, hok⟩ : CoidsOk st ∧ QuoteSound st := h.preserves
    (I := fun st => CoidsOk st ∧ QuoteSound st)
    (fun st hst => ⟨CoidsOk.new hst, QuoteSound.new hst⟩)
    (fun st ev hst _ => ⟨hst.1.decide ev, hst.2.decide hst.1 ev⟩)
  constructor
  · intro a ha hquote
    obtain ⟨s, hat⟩ := exists_emittedAt hcoids ha hquote
    exact ⟨s, hat, hok.bids hcoids hat hquote⟩
  · intro hdone later a ha
    obtain ⟨hcoids', hok', hle⟩ := hok.after hcoids later (p := p)
    by_contra hquote
    simp only [Bool.not_eq_false] at hquote
    obtain ⟨s, hat⟩ := exists_emittedAt hcoids' ha hquote
    obtain ⟨hmay, -⟩ := hok'.bids hcoids' hat hquote
    have hs := hle.trans (latches_emittedAt hat)
    rcases hdone with hd | hd
    · exact absurd (hs.2.2.2 hd) (by simp [hmay.running])
    · exact absurd (hs.2.1 hd) (by simp [hmay.open_])

/-- The last book of the sample opening places the ladder, safely. -/
theorem quoting_safety_sample :
    (∃ a ∈ (decideV33 samplePolicy (after samplePolicy (sampleWindow samplePolicy)
        (sampleOpening.take 3)) (centBook "S100" 68 70 1000)).acts, a.kind.isQuote = true) ∧
      QuotesSafely samplePolicy (after samplePolicy (sampleWindow samplePolicy)
        (sampleOpening.take 3)) (centBook "S100" 68 70 1000) :=
  ⟨by decide +kernel, (quoting_safety samplePolicy _ _ (reached_sample (by decide +kernel)) _).1⟩

end Pilot.V33
