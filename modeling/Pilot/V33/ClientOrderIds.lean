import Pilot.V33.Events

/-!
# Client order ids

Every client order id is minted once. The orders on the ladder carry different ids, and
the amends in flight promise ids that no order carries yet.
-/

namespace Pilot.V33

/-- The client order id of sequence number `k` in a window. -/
def coidAt (w : Window) (k : ℕ) : String := w.coidPrefix ++ w.closeTime ++ "-" ++ Nat.repr k

/-- Different numbers have different numerals. -/
theorem natRepr_injective : Function.Injective Nat.repr := by
  intro m n h
  have hdigits : Nat.toDigits 10 m = Nat.toDigits 10 n := by
    rw [← Nat.toList_repr, ← Nat.toList_repr, h]
  rw [← Nat.ofDigitChars_toDigits (b := 10) (n := m) (by norm_num) (by norm_num), hdigits,
    Nat.ofDigitChars_toDigits (by norm_num) (by norm_num)]

/-- Different numbers give different ids. -/
theorem coidAt_injective (w : Window) : Function.Injective (coidAt w) := by
  intro m n h
  exact natRepr_injective ((String.append_right_inj _).mp h)

/-- No id is the empty text. -/
theorem coidAt_ne_empty (w : Window) (k : ℕ) : coidAt w k ≠ "" := by
  intro h
  have hlength := congrArg String.length h
  simp [coidAt] at hlength

/-- The minted id is that of the next number. -/
theorem mintCoid_fst (st : V33State) : (mintCoid st).1 = coidAt st.toWindow (st.coidSeq + 1) := rfl

/-- The id was minted in the window before sequence number `n` was passed. -/
def MintedBy (w : Window) (n : ℕ) (coid : String) : Prop := ∃ k ≤ n, coid = coidAt w k

/-- A minted id stays minted as the counter grows. -/
theorem MintedBy.mono {w : Window} {m n : ℕ} {coid : String} (h : MintedBy w m coid)
    (hmn : m ≤ n) : MintedBy w n coid := by
  obtain ⟨k, hk, rfl⟩ := h
  exact ⟨k, hk.trans hmn, rfl⟩

/-- The id of the current number was minted. -/
theorem mintedBy_self (w : Window) (n : ℕ) : MintedBy w n (coidAt w n) := ⟨n, le_rfl, rfl⟩

/-- The next id is new. -/
theorem MintedBy.ne_next {w : Window} {n : ℕ} {coid : String} (h : MintedBy w n coid) :
    coid ≠ coidAt w (n + 1) := by
  obtain ⟨k, hk, rfl⟩ := h
  intro he
  have := coidAt_injective w he
  omega

/-- The ids of the ladder and of the amends in flight. -/
structure CoidsOk (st : V33State) : Prop where
  nodup : (st.ladder.map RestOrder.clientOrderId).Nodup
  minted : ∀ o ∈ st.ladder, MintedBy st.toWindow st.coidSeq o.clientOrderId
  promised : ∀ r ∈ st.rollsInFlight, MintedBy st.toWindow st.coidSeq r.newCoid
  unused : ∀ r ∈ st.rollsInFlight, r.newCoid ∉ st.ladder.map RestOrder.clientOrderId
  newNodup : (st.rollsInFlight.map RollPending.newCoid).Nodup
  oldNodup : (st.rollsInFlight.map RollPending.oldCoid).Nodup

section Coids

variable {p : V33Params} {now : ℚ} {P : Permit} {st st' : V33State} {acts : List V33Action}

/-- The ids stay in order when orders and amends only leave. -/
theorem CoidsOk.shrink (h : CoidsOk st) (hwindow : st'.toWindow = st.toWindow)
    (hseq : st.coidSeq ≤ st'.coidSeq)
    (hladder : (st'.ladder.map RestOrder.clientOrderId).Sublist
      (st.ladder.map RestOrder.clientOrderId))
    (hrolls : st'.rollsInFlight.Sublist st.rollsInFlight) : CoidsOk st' := by
  have hmem : ∀ o ∈ st'.ladder, ∃ o' ∈ st.ladder, o'.clientOrderId = o.clientOrderId := by
    intro o ho
    have := hladder.subset (List.mem_map_of_mem (f := RestOrder.clientOrderId) ho)
    simpa using this
  refine ⟨h.nodup.sublist hladder, fun o ho => ?_, fun r hr => ?_, fun r hr hin => ?_,
    h.newNodup.sublist (hrolls.map _), h.oldNodup.sublist (hrolls.map _)⟩
  · obtain ⟨o', ho', he⟩ := hmem o ho
    rw [hwindow, ← he]
    exact (h.minted o' ho').mono hseq
  · rw [hwindow]
    exact (h.promised r (hrolls.subset hr)).mono hseq
  · exact h.unused r (hrolls.subset hr) (hladder.subset hin)

/-- A fresh order keeps the ids in order. -/
theorem CoidsOk.placeOne (h : CoidsOk st) (price : ℚ) (rung : ℤ) (eRung count : ℚ) :
    CoidsOk (placeOne p st price rung eRung now count).st := by
  have hnew : ∀ c, MintedBy st.toWindow st.coidSeq c → c ≠ (mintCoid st).1 := fun c hc =>
    hc.ne_next
  refine ⟨?_, ?_, fun r hr => ?_, fun r hr => ?_, h.newNodup, h.oldNodup⟩
  · simp only [V33.placeOne, List.map_append, List.map_cons, List.map_nil]
    refine List.nodup_append.mpr ⟨h.nodup, List.nodup_singleton _, fun a ha b hb => ?_⟩
    obtain ⟨o, ho, rfl⟩ := List.mem_map.mp ha
    rw [List.mem_singleton] at hb
    subst hb
    exact hnew _ (h.minted o ho)
  · intro o ho
    simp only [V33.placeOne, List.mem_append, List.mem_singleton] at ho
    rcases ho with ho | rfl
    · exact (h.minted o ho).mono (Nat.le_succ _)
    · exact mintedBy_self _ _
  · exact (h.promised r hr).mono (Nat.le_succ _)
  · simp only [V33.placeOne, List.map_append, List.map_cons, List.map_nil, List.mem_append,
      List.mem_singleton, not_or]
    exact ⟨h.unused r hr, hnew _ (h.promised r hr)⟩

/-- A roll of an order that has none in flight keeps the ids in order. -/
theorem CoidsOk.emitRoll (h : CoidsOk st) {o : RestOrder} (price : ℚ) (m : ℤ)
    (hfree : o.clientOrderId ∉ st.rollsInFlight.map RollPending.oldCoid) :
    CoidsOk (emitRoll p st o price m now).st := by
  have hnew : ∀ c, MintedBy st.toWindow st.coidSeq c → c ≠ (mintCoid st).1 := fun c hc =>
    hc.ne_next
  refine ⟨h.nodup, fun o ho => (h.minted o ho).mono (Nat.le_succ _), ?_, ?_, ?_, ?_⟩
  · intro r hr
    simp only [V33.emitRoll, List.mem_append, List.mem_singleton] at hr
    rcases hr with hr | rfl
    · exact (h.promised r hr).mono (Nat.le_succ _)
    · exact mintedBy_self _ _
  · intro r hr
    simp only [V33.emitRoll, List.mem_append, List.mem_singleton] at hr
    rcases hr with hr | rfl
    · exact h.unused r hr
    · intro hin
      obtain ⟨o', ho', he⟩ := List.mem_map.mp hin
      exact hnew _ (h.minted o' ho') he
  · simp only [V33.emitRoll, List.map_append, List.map_cons, List.map_nil]
    refine List.nodup_append.mpr ⟨h.newNodup, List.nodup_singleton _, fun a ha b hb => ?_⟩
    obtain ⟨r, hr, rfl⟩ := List.mem_map.mp ha
    rw [List.mem_singleton] at hb
    subst hb
    exact hnew _ (h.promised r hr)
  · simp only [V33.emitRoll, List.map_append, List.map_cons, List.map_nil]
    refine List.nodup_append.mpr ⟨h.oldNodup, List.nodup_singleton _, fun a ha b hb => ?_⟩
    rw [List.mem_singleton] at hb
    subst hb
    exact fun he => hfree (he ▸ ha)

/-- Every small ladder operation keeps the ids in order. -/
theorem CoidsOk.op (hop : LadderOp p now P st acts st') (h : CoidsOk st) : CoidsOk st' := by
  have hframe := hop.frame
  cases hop with
  | drop =>
    rw [cancelAll_st] at hframe ⊢
    exact h.shrink hframe.window hframe.seq (List.nil_sublist _) (List.nil_sublist _)
  | clear =>
    rw [cancelAllThenReplace_st, cancelAll_st] at hframe ⊢
    exact h.shrink hframe.window hframe.seq (List.nil_sublist _) (List.nil_sublist _)
  | create nTop m price => exact h.placeOne _ _ _ _
  | roll o nTop m price guard movable => exact h.emitRoll price m movable.free
  | shrink o =>
    refine h.shrink hframe.window hframe.seq ?_ ?_
    · unfold shrinkOne
      dsimp only
      rw [retainCancelled_eq]
      exact (dropOrder_sublist _ _).map _
    · unfold shrinkOne
      dsimp only
      rw [retainCancelled_eq]
  | stallCancel coid =>
    unfold ptCancelRung at hframe ⊢
    split at hframe
    · exact h
    · dsimp only at hframe ⊢
      rw [retainCancelled_eq] at hframe ⊢
      exact h.shrink hframe.window hframe.seq ((dropOrder_sublist _ _).map _) (List.Sublist.refl _)
  | _ => exact h.shrink rfl le_rfl (List.Sublist.refl _) (List.Sublist.refl _)

/-- The law of the client order ids. -/
theorem coidsLaw (p : V33Params) :
    LadderLaw p (fun (_ : Unit) _ => ()) (fun _ _ => True) (fun st _ => CoidsOk st) :=
  LadderLaw.ofState
    (fun hframe h => h.shrink hframe.window hframe.seq
      (by rw [congrArg Ladder.ladder hframe.ladder])
      (by rw [congrArg Ladder.rollsInFlight hframe.ladder]))
    (fun hop h => CoidsOk.op hop h)
    (fun r _ h => h.shrink rfl le_rfl
      (map_reduceOrder_sublist _ _ _ _ fun _ _ => rfl) (List.Sublist.refl _))
    (fun _ _ h => h.shrink rfl le_rfl (List.Sublist.refl _) (List.Sublist.refl _))

/-! ### Events -/

/-- An acknowledgement changes no id. -/
theorem applyAck_coids (ev : OrderAck) :
    (applyAck st ev).ladder.map RestOrder.clientOrderId =
      st.ladder.map RestOrder.clientOrderId := by
  unfold applyAck
  split_ifs
  · dsimp only [replaceOrder]
    rw [map_replaceFirst_of_eq]
    intro o _
    rfl
  · rfl

/-- An acknowledgement keeps the ids in order. -/
theorem CoidsOk.applyAck (h : CoidsOk st) (ev : OrderAck) : CoidsOk (applyAck st ev) := by
  have hrest : (V33.applyAck st ev).toWindow = st.toWindow ∧
      (V33.applyAck st ev).coidSeq = st.coidSeq ∧
      (V33.applyAck st ev).rollsInFlight = st.rollsInFlight := by
    unfold V33.applyAck
    split_ifs <;> exact ⟨rfl, rfl, rfl⟩
  exact h.shrink hrest.1 (le_of_eq hrest.2.1.symm) (by rw [applyAck_coids]) (by rw [hrest.2.2])

/-- The recomputed context touches no id. -/
theorem CoidsOk.recompute (h : CoidsOk st) : CoidsOk (recomputeContext p st now) := by
  obtain ⟨q, x, heq, -⟩ := recomputeContext_eq p st now
  rw [heq]
  refine h.shrink rfl le_rfl ?_ (List.Sublist.refl _)
  rw [List.map_map]
  exact (List.map_congr_left fun o _ => refresh_clientOrderId _ o) ▸ List.Sublist.refl _

/-- A dropped roll keeps the ids in order. -/
theorem CoidsOk.dropRoll (h : CoidsOk st) (coid : String) : CoidsOk (dropRoll st coid) :=
  h.shrink rfl le_rfl (List.Sublist.refl _) List.filter_sublist

/-- A cleared cancel changes the pending prices only. -/
theorem clearCancelPending_eq (st : V33State) (oid : Option String) :
    ∃ d, clearCancelPending st oid = { st with cancelPendingPx := d } := by
  unfold clearCancelPending
  split
  · exact ⟨st.cancelPendingPx, rfl⟩
  · exact ⟨_, rfl⟩

/-- A cleared cancel keeps the ids in order. -/
theorem CoidsOk.clearCancelPending (h : CoidsOk st) (oid : Option String) :
    CoidsOk (clearCancelPending st oid) := by
  obtain ⟨d, hd⟩ := clearCancelPending_eq st oid
  rw [hd]
  exact h.shrink rfl le_rfl (List.Sublist.refl _) (List.Sublist.refl _)

/-- A confirmed amend gives its order the promised id. -/
theorem CoidsOk.confirmRoll (h : CoidsOk st) {rp : RollPending} (hrp : rp ∈ st.rollsInFlight)
    (newPrice : ℚ) :
    CoidsOk (confirmRoll p (V33.dropRoll st rp.oldCoid) rp newPrice now) := by
  have hdropped := h.dropRoll rp.oldCoid
  cases hfind : orderOf st rp.oldCoid with
  | none =>
    refine hdropped.shrink rfl le_rfl ?_ (List.Sublist.refl _)
    simp only [V33.confirmRoll, V33.dropRoll, replaceOrder]
    rw [replaceFirst_of_find?_none hfind]
  | some o =>
    have hmem : ∀ x ∈ (V33.confirmRoll p (V33.dropRoll st rp.oldCoid) rp newPrice now).ladder,
        x ∈ st.ladder ∨ x.clientOrderId = rp.newCoid := by
      intro x hx
      rcases mem_replaceFirst hx with hx | ⟨y, -, -, rfl⟩
      · exact Or.inl hx
      · exact Or.inr rfl
    have hother : ∀ r ∈ (V33.dropRoll st rp.oldCoid).rollsInFlight, r.newCoid ≠ rp.newCoid := by
      intro r hr he
      obtain ⟨hr, hne⟩ := List.mem_filter.mp hr
      have : r = rp := List.inj_on_of_nodup_map h.newNodup hr hrp he
      simp [this] at hne
    refine ⟨?_, fun x hx => ?_, hdropped.promised, fun r hr hin => ?_, hdropped.newNodup,
      hdropped.oldNodup⟩
    · exact nodup_map_replaceFirst hfind h.nodup (h.unused rp hrp)
    · rcases hmem x hx with hx | hx
      · exact h.minted x hx
      · rw [hx]
        exact h.promised rp hrp
    · obtain ⟨x, hx, he⟩ := List.mem_map.mp hin
      rcases hmem x hx with hx | hx
      · exact hdropped.unused r hr (he ▸ List.mem_map_of_mem hx)
      · exact hother r hr (he.symm.trans hx)

/-- The fallback of a roll keeps the ids in order. -/
theorem CoidsOk.rollFallback (h : CoidsOk st) (rp : RollPending) :
    CoidsOk (rollFallback p st rp now).st := by
  have hdropped : CoidsOk
      { V33.dropRoll st rp.oldCoid with
        ladder := dropOrder (V33.dropRoll st rp.oldCoid).ladder rp.oldCoid } :=
    (h.dropRoll _).shrink rfl le_rfl ((dropOrder_sublist _ _).map _) (List.Sublist.refl _)
  unfold V33.rollFallback
  dsimp only
  split
  · exact hdropped
  · split_ifs
    · exact hdropped.placeOne _ _ _ _
    · exact hdropped

/-- A dropped cancel only takes orders off the ladder and counts. -/
theorem dropCancelled_eq (st : V33State) (ev : OrderCancelled) (live : Option RestOrder) :
    ∃ l n, dropCancelled st ev live = { st with ladder := l, outstandingCancels := n } ∧
      l.Sublist st.ladder := by
  unfold dropCancelled
  cases live with
  | none =>
    dsimp only
    split
    · exact ⟨st.ladder, st.outstandingCancels, rfl, List.Sublist.refl _⟩
    · split_ifs
      · exact ⟨st.ladder, _, rfl, List.Sublist.refl _⟩
      · exact ⟨st.ladder, st.outstandingCancels, rfl, List.Sublist.refl _⟩
  | some o =>
    dsimp only
    split
    · exact ⟨_, st.outstandingCancels, rfl, dropOrder_sublist _ _⟩
    · split_ifs
      · exact ⟨_, _, rfl, dropOrder_sublist _ _⟩
      · exact ⟨_, st.outstandingCancels, rfl, dropOrder_sublist _ _⟩

/-- A cancelled order leaves the ids in order. -/
theorem CoidsOk.dropCancelled (h : CoidsOk st) (ev : OrderCancelled) (live : Option RestOrder) :
    CoidsOk (dropCancelled st ev live) := by
  obtain ⟨l, n, heq, hl⟩ := dropCancelled_eq st ev live
  rw [heq]
  exact h.shrink rfl le_rfl (hl.map _) (List.Sublist.refl _)

/-- A book update keeps the ids in order. -/
theorem CoidsOk.fold (h : CoidsOk st) (ev : BookUpdate) :
    CoidsOk (stampStrikeFeed (foldBook st ev) ev) := by
  have hfold : CoidsOk (foldBook st ev) := by
    unfold foldBook
    dsimp only
    split <;> exact h.shrink rfl le_rfl (List.Sublist.refl _) (List.Sublist.refl _)
  unfold stampStrikeFeed
  dsimp only
  split
  · split
    · split_ifs
      · exact hfold
      · exact hfold.shrink rfl le_rfl (List.Sublist.refl _) (List.Sublist.refl _)
    · exact hfold.shrink rfl le_rfl (List.Sublist.refl _) (List.Sublist.refl _)
  · exact hfold

/-- The amend confirm names a roll in flight. -/
theorem mem_of_rollOfAmend {ev : OrderAmended} {rp : RollPending}
    (h : rollOfAmend st ev = some rp) : rp ∈ st.rollsInFlight := List.mem_of_find?_eq_some h

/-- The roll a cancel confirm names is in flight. -/
theorem mem_of_rollOfCancel {ev : OrderCancelled} {rp : RollPending}
    (h : rollOfCancel st ev = some rp) : rp ∈ st.rollsInFlight := by
  unfold rollOfCancel at h
  split at h
  · exact List.mem_of_find?_eq_some h
  · exact List.mem_of_find?_eq_some h
  · simp at h

/-- The inputs of every event keep the ids in order. -/
theorem coids_event (h : CoidsOk st) (ev : Event) :
    EventLaw p (fun _ => True) (fun (_ : Unit) _ => ()) (fun _ _ => True)
      (fun st _ => CoidsOk st) st ev () where
  booked _ _ := trivial
  stay _ := h
  book e _ := (h.fold e).recompute
  tick _ _ := h.recompute
  ack e _ := h.applyAck e
  filled _ _ := h.clearCancelPending _
  amended e rp _ hrp :=
    ⟨h.dropRoll _, fun _ _ => h.confirmRoll (mem_of_rollOfAmend hrp) _⟩
  cancelled e _ := (coidsLaw p).law.cancelPart e (fun _ _ => trivial)
    (h.clearCancelPending _) fun _ hs => by
    unfold finishCancel
    split
    · exact ⟨allAlong_of_forall fun _ _ _ => trivial, hs.rollFallback _⟩
    · exact (coidsLaw p).law.keeps_op (via_ptOnCancelConfirmed _) (hs.dropCancelled e _)

/-- What an event does before the ladder converges keeps the ids in order. -/
theorem CoidsOk.beforeConverge (h : CoidsOk st) {ev : Event} {r : Outcome}
    (hr : beforeConverge p st ev = some r) : CoidsOk r.st :=
  ((coidsLaw p).law.beforeConverge (coids_event h ev) hr).2

/-- The convergence of an event is a run of small operations. -/
theorem CoidsOk.via_converge (h : CoidsOk st) {ev : Event} {r : Outcome}
    (hr : V33.beforeConverge p st ev = some r) :
    (converge p r.st ev.serverTs).Via (LadderOp p ev.serverTs Permit.converge) r.st :=
  V33.via_converge (h.beforeConverge hr).nodup (fun _ _ _ => trivial) trivial (fun _ _ => trivial)
    (fun _ _ _ => trivial)

/-- Every decision keeps the ids in order. -/
theorem CoidsOk.decide (h : CoidsOk st) (ev : Event) : CoidsOk (decideV33 p st ev).st :=
  ((coidsLaw p).law.decide (J := fun st _ => CoidsOk st) (coids_event h ev) (fun _ _ hs => hs)
    fun _ hr _ hs => ⟨allAlong_of_forall fun _ _ _ => trivial,
      Run.preserves (fun _ _ _ hop h => CoidsOk.op hop h) (h.via_converge hr) hs⟩).2

end Coids

end Pilot.V33
