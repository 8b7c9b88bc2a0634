import Pilot.V33.Runs

/-!
# Whose id a fill names

The client order ids of the ladder and those of the wings are different, so a fill that names
an order of the ladder is a fill of that order. Every such order rests whole hundredths of a
lot on a known bucket.
-/

namespace Pilot.V33

/-- The id names a wing leg or an awaited taker completion. -/
def WingId (st : V33State) (c : String) : Prop :=
  c ∈ st.wingLegs.map WingLeg.clientOrderId ∨
    some c ∈ st.printThroughTriggers.map PrintThroughTrigger.completeCoid

/-- The id names an order of the ladder or is promised to an amend. -/
def LadderId (st : V33State) (c : String) : Prop :=
  c ∈ st.ladder.map RestOrder.clientOrderId ∨ c ∈ st.rollsInFlight.map RollPending.newCoid

/-- The id was minted between two states. -/
def NewId (s t : V33State) (c : String) : Prop :=
  ∃ k, s.coidSeq < k ∧ k ≤ t.coidSeq ∧ c = coidAt s.toWindow k

/-- The ids of the wings: minted, apart from a deferred leg's, and no id of the ladder. -/
structure IdsApart (st : V33State) : Prop where
  minted : ∀ c, WingId st c → c = "" ∨ MintedBy st.toWindow st.coidSeq c
  apart : ∀ c, WingId st c → ¬LadderId st c

/-- The orders of the ladder: whole hundredths of a lot on a known bucket. -/
structure RestsOk (st : V33State) : Prop where
  grid : ∀ o ∈ st.ladder, OnGrid 100 o.count
  bucket : ∀ o ∈ st.ladder, o.bucketSd.isSome
  spot : st.nTop.isSome → st.spotSd.isSome

/-- The orders and their ids. -/
structure OrdersOk (st : V33State) : Prop where
  coids : CoidsOk st
  ids : IdsApart st
  rests : RestsOk st

section Ids

variable {p : V33Params} {now : ℚ} {P : Permit} {s t : V33State} {acts : List V33Action}

/-- A minted id is not the empty text. -/
theorem MintedBy.ne_empty {w : Window} {n : ℕ} {c : String} (h : MintedBy w n c) : c ≠ "" := by
  obtain ⟨k, -, rfl⟩ := h
  exact coidAt_ne_empty w k

/-- A new id was not minted before. -/
theorem NewId.not_minted {c : String} (h : NewId s t c) : ¬MintedBy s.toWindow s.coidSeq c := by
  obtain ⟨k, hk, -, rfl⟩ := h
  rintro ⟨j, hj, heq⟩
  have := coidAt_injective _ heq
  omega

/-- A new id is not the empty text. -/
theorem NewId.ne_empty {c : String} (h : NewId s t c) : c ≠ "" := by
  obtain ⟨k, -, -, rfl⟩ := h
  exact coidAt_ne_empty _ k

/-- The ids of the ladder were minted. -/
theorem CoidsOk.ladderId (h : CoidsOk s) {c : String} (hc : LadderId s c) :
    MintedBy s.toWindow s.coidSeq c := by
  rcases hc with hc | hc
  · obtain ⟨o, ho, rfl⟩ := List.mem_map.mp hc
    exact h.minted o ho
  · obtain ⟨r, hr, rfl⟩ := List.mem_map.mp hc
    exact h.promised r hr

/-- An order with the id of one on the ladder has an id of the ladder. -/
theorem ladderId_of_mem {o o' : RestOrder} (ho : o' ∈ s.ladder)
    (h : o.clientOrderId = o'.clientOrderId) : LadderId s o.clientOrderId := by
  rw [h]
  exact Or.inl (List.mem_map_of_mem ho)

/-- The ids stay apart while the wings and the ladder mint theirs one side at a time. -/
theorem IdsApart.grow (h : IdsApart s) (hcoids : CoidsOk s) (hwindow : t.toWindow = s.toWindow)
    (hseq : s.coidSeq ≤ t.coidSeq)
    (hwings : ∀ c, WingId t c → WingId s c ∨ c = "" ∨ NewId s t c)
    (hladder : ∀ c, LadderId t c → LadderId s c ∨ NewId s t c)
    (hside : (∀ c, WingId t c → WingId s c) ∨ ∀ c, LadderId t c → LadderId s c) :
    IdsApart t := by
  have hold : ∀ c, WingId s c ∨ c = "" → LadderId t c → False := by
    intro c hc hl
    rcases hladder c hl with hl | hl
    · rcases hc with hc | rfl
      · exact h.apart c hc hl
      · exact (hcoids.ladderId hl).ne_empty rfl
    · rcases hc with hc | rfl
      · rcases h.minted c hc with rfl | hm
        · exact hl.ne_empty rfl
        · exact hl.not_minted hm
      · exact hl.ne_empty rfl
  refine ⟨fun c hc => ?_, fun c hc hl => ?_⟩
  · rw [hwindow]
    rcases hwings c hc with hc | hc | ⟨k, -, hk, rfl⟩
    · exact (h.minted c hc).imp_right fun hm => hm.mono hseq
    · exact Or.inl hc
    · exact Or.inr ⟨k, hk, rfl⟩
  · rcases hside with hside | hside
    · exact hold c (Or.inl (hside c hc)) hl
    · rcases hwings c hc with hw | hw | hw
      · exact hold c (Or.inl hw) hl
      · exact hold c (Or.inr hw) hl
      · exact hw.not_minted (hcoids.ladderId (hside c hl))

/-! ### The ladder -/

/-- The orders stay in order when orders and amends only leave. -/
theorem OrdersOk.shrink (h : OrdersOk s) (hcoids : CoidsOk t) (hwindow : t.toWindow = s.toWindow)
    (hquote : t.nTop.isSome → t.spotSd.isSome) (hseq : s.coidSeq ≤ t.coidSeq)
    (hwings : ∀ c, WingId t c → WingId s c)
    (hladder : ∀ o ∈ t.ladder, OnGrid 100 o.count ∧ ∃ o' ∈ s.ladder,
      o'.bucketSd = o.bucketSd ∧ LadderId s o.clientOrderId)
    (hrolls : t.rollsInFlight ⊆ s.rollsInFlight) : OrdersOk t := by
  refine ⟨hcoids, h.ids.grow h.coids hwindow hseq (fun c hc => Or.inl (hwings c hc)) ?_
    (Or.inl hwings), fun o ho => (hladder o ho).1, fun o ho => ?_, hquote⟩
  · rintro c (hc | hc)
    · obtain ⟨o, ho, rfl⟩ := List.mem_map.mp hc
      obtain ⟨-, o', -, -, hid⟩ := hladder o ho
      exact Or.inl hid
    · exact Or.inl (Or.inr (List.map_subset _ hrolls hc))
  · obtain ⟨-, o', ho', hbucket, -⟩ := hladder o ho
    rw [← hbucket]
    exact h.rests.bucket o' ho'

/-- What the other parts of a state leave alone. -/
theorem OrdersOk.frame (h : OrdersOk s) (hcoids : CoidsOk t) (hwindow : t.toWindow = s.toWindow)
    (hquote : t.toQuote = s.toQuote) (hseq : s.coidSeq ≤ t.coidSeq)
    (hwings : ∀ c, WingId t c → WingId s c) (hladder : t.ladder ⊆ s.ladder)
    (hrolls : t.rollsInFlight ⊆ s.rollsInFlight) : OrdersOk t := by
  refine h.shrink hcoids hwindow ?_ hseq hwings (fun o ho => ?_) hrolls
  · rw [congrArg Quote.nTop hquote, congrArg Quote.spotSd hquote]
    exact h.rests.spot
  · exact ⟨h.rests.grid o (hladder ho), o, hladder ho, rfl, ladderId_of_mem (hladder ho) rfl⟩

/-- A fresh order on a known spot. -/
theorem OrdersOk.placeOne (h : OrdersOk s) (hspot : s.spotSd.isSome) (price : ℚ) (rung : ℤ)
    (eRung count : ℚ) : OrdersOk (placeOne p s price rung eRung now count).st := by
  have hmem : ∀ o ∈ (V33.placeOne p s price rung eRung now count).st.ladder, o ∈ s.ladder ∨
      o.count = qCount count ∧ o.bucketSd = s.spotSd ∧
        o.clientOrderId = coidAt s.toWindow (s.coidSeq + 1) := by
    intro o ho
    simp only [V33.placeOne, List.mem_append, List.mem_singleton] at ho
    rcases ho with ho | rfl
    · exact Or.inl ho
    · exact Or.inr ⟨rfl, rfl, rfl⟩
  refine ⟨h.coids.placeOne _ _ _ _, h.ids.grow h.coids rfl (Nat.le_succ _)
    (fun c hc => Or.inl hc) ?_ (Or.inl fun c hc => hc), fun o ho => ?_, fun o ho => ?_,
    h.rests.spot⟩
  · rintro c (hc | hc)
    · obtain ⟨o, ho, rfl⟩ := List.mem_map.mp hc
      rcases hmem o ho with ho | ⟨-, -, hid⟩
      · exact Or.inl (Or.inl (List.mem_map_of_mem ho))
      · exact Or.inr ⟨s.coidSeq + 1, Nat.lt_succ_self _, le_rfl, hid⟩
    · exact Or.inl (Or.inr hc)
  · rcases hmem o ho with ho | ⟨hcount, -, -⟩
    · exact h.rests.grid o ho
    · rw [hcount]
      exact onGrid_qCount count
  · rcases hmem o ho with ho | ⟨-, hbucket, -⟩
    · exact h.rests.bucket o ho
    · rw [hbucket]
      exact hspot

/-- Every small ladder operation keeps the orders in order. -/
theorem OrdersOk.op (hop : LadderOp p now P s acts t) (h : OrdersOk s) : OrdersOk t := by
  have hframe := hop.frame
  have hcoids := CoidsOk.op hop h.coids
  have hwings : ∀ c, WingId t c → WingId s c := by
    intro c hc
    unfold WingId at hc ⊢
    rwa [hframe.wings] at hc
  cases hop with
  | drop =>
    rw [cancelAll_st] at hframe hcoids hwings ⊢
    exact h.frame hcoids rfl rfl hframe.seq hwings (by simp) (by simp)
  | clear =>
    rw [cancelAllThenReplace_st, cancelAll_st] at hframe hcoids hwings ⊢
    exact h.frame hcoids rfl rfl hframe.seq hwings (by simp) (by simp)
  | create nTop m price guard => exact h.placeOne (quoting_of_gate guard.gate).spot _ _ _ _
  | roll o nTop m price =>
    refine ⟨hcoids, h.ids.grow h.coids rfl hframe.seq (fun c hc => Or.inl hc) ?_
      (Or.inl fun c hc => hc), h.rests.grid, h.rests.bucket, h.rests.spot⟩
    rintro c (hc | hc)
    · exact Or.inl (Or.inl hc)
    · simp only [emitRoll, List.map_append, List.map_cons, List.map_nil, List.mem_append,
        List.mem_singleton] at hc
      rcases hc with hc | rfl
      · exact Or.inl (Or.inr hc)
      · exact Or.inr ⟨s.coidSeq + 1, Nat.lt_succ_self _, le_rfl, rfl⟩
  | shrink o =>
    unfold shrinkOne at hframe hcoids hwings ⊢
    dsimp only at hframe hcoids hwings ⊢
    rw [retainCancelled_eq] at hframe hcoids hwings ⊢
    exact h.frame hcoids rfl rfl hframe.seq hwings (dropOrder_sublist _ _).subset
      (List.Subset.refl _)
  | stallCancel coid =>
    revert hframe hcoids hwings
    unfold ptCancelRung
    split
    · exact fun _ _ _ => h
    · dsimp only
      rw [retainCancelled_eq]
      exact fun hframe hcoids hwings => h.frame hcoids rfl rfl hframe.seq hwings
        (dropOrder_sublist _ _).subset (List.Subset.refl _)
  | _ =>
    exact h.frame hcoids rfl rfl hframe.seq hwings (List.Subset.refl _) (List.Subset.refl _)

/-! ### The wings -/

/-- The legs and the triggers bring no new id. -/
theorem wingId_of (hlegs : ∀ l' ∈ t.wingLegs, ∃ l ∈ s.wingLegs,
      l'.clientOrderId = l.clientOrderId)
    (htriggers : ∀ x' ∈ t.printThroughTriggers, ∀ c, x'.completeCoid = some c →
      ∃ x ∈ s.printThroughTriggers, x.completeCoid = some c) :
    ∀ c, WingId t c → WingId s c := by
  rintro c (hc | hc)
  · obtain ⟨l', hl', rfl⟩ := List.mem_map.mp hc
    obtain ⟨l, hl, heq⟩ := hlegs l' hl'
    rw [heq]
    exact Or.inl (List.mem_map_of_mem hl)
  · obtain ⟨x', hx', heq⟩ := List.mem_map.mp hc
    obtain ⟨x, hx, heq⟩ := htriggers x' hx' c heq
    exact Or.inr (List.mem_map.mpr ⟨x, hx, heq⟩)

/-- The ids of the wings are those of the legs and the triggers. -/
theorem wingId_congr (hlegs : t.wingLegs = s.wingLegs)
    (htriggers : t.printThroughTriggers.map PrintThroughTrigger.completeCoid =
      s.printThroughTriggers.map PrintThroughTrigger.completeCoid) {c : String} :
    WingId t c ↔ WingId s c := by
  unfold WingId
  rw [hlegs, htriggers]

/-- Closing a set brings no id. -/
theorem wingId_maybeCloseSet (index : ℕ) {c : String} :
    WingId (maybeCloseSet s index) c ↔ WingId s c := by
  unfold maybeCloseSet
  split
  · rfl
  · split_ifs
    · rfl
    · rfl
    · refine wingId_congr ?_ ?_
      · rfl
      · dsimp only [syncWingMirrors, ptMarkResolution]
        rw [map_replaceFirst_of_eq]
        exact fun _ _ => rfl
    · rfl

/-- Resolving the trigger at a position without a new id. -/
theorem wingId_replacePt {idx : ℕ} {f : PrintThroughTrigger → PrintThroughTrigger}
    (hf : ∀ x, s.printThroughTriggers[idx]? = some x → (f x).completeCoid = x.completeCoid)
    {c : String} : WingId (replacePt s idx f) c ↔ WingId s c := by
  have hgoes := forall₂_modify (R := fun x y : PrintThroughTrigger =>
    y.completeCoid = x.completeCoid) (fun _ => rfl) s.printThroughTriggers idx hf
  refine wingId_congr ?_ (map_eq_of_forall₂ (fun _ _ h => h) hgoes)
  rfl

/-- The legs that are sent again take new ids. -/
theorem retryLegs_ids (index : ℕ) (ya na : ℚ) (legs : List WingLeg) (s : V33State) :
    ∀ l' ∈ (retryLegs p index ya na now legs s).1,
      l'.clientOrderId ∈ legs.map WingLeg.clientOrderId ∨
        NewId s (retryLegs p index ya na now legs s).2.st l'.clientOrderId := by
  induction legs generalizing s with
  | nil => simp [retryLegs]
  | cons l legs ih =>
    intro l' hl'
    unfold retryLegs at hl' ⊢
    split_ifs at hl' ⊢ with hdue
    · rcases List.mem_cons.mp hl' with rfl | hl'
      · refine Or.inr ⟨s.coidSeq + 1, Nat.lt_succ_self _, ?_, rfl⟩
        obtain ⟨n, hn, hle⟩ := @retryLegs_st p now index ya na legs (mintCoid s).2
        dsimp only
        rw [hn]
        exact hle
      · rcases ih (mintCoid s).2 l' hl' with h | ⟨k, hk, hle, heq⟩
        · exact Or.inl (List.mem_cons_of_mem _ h)
        · exact Or.inr ⟨k, (Nat.lt_succ_self _).trans hk, hle, heq⟩
    · rcases List.mem_cons.mp hl' with rfl | hl'
      · exact Or.inl (by simp)
      · exact (ih s l' hl').imp_left (List.mem_cons_of_mem _)

/-- The legs that a take adds: each minted or deferred. -/
theorem wingId_take {legs : List WingLeg} (hlegs : t.wingLegs = s.wingLegs ++ legs)
    (htriggers : t.printThroughTriggers.map PrintThroughTrigger.completeCoid =
      s.printThroughTriggers.map PrintThroughTrigger.completeCoid)
    (hnew : ∀ l ∈ legs, l.clientOrderId = "" ∨ NewId s t l.clientOrderId) :
    ∀ c, WingId t c → WingId s c ∨ c = "" ∨ NewId s t c := by
  rintro c (hc | hc)
  · rw [hlegs, List.map_append, List.mem_append] at hc
    rcases hc with hc | hc
    · exact Or.inl (Or.inl hc)
    · obtain ⟨l, hl, rfl⟩ := List.mem_map.mp hc
      exact Or.inr (hnew l hl)
  · rw [htriggers] at hc
    exact Or.inl (Or.inr hc)

/-- The fill of a taker leg changes no id of the wings. -/
theorem wingId_takerFill (x : PrintThroughTrigger) (price count : ℚ) {c : String} :
    WingId (ptBookTakerComplete p s x price count now) c ↔ WingId s c := by
  unfold ptBookTakerComplete
  dsimp only
  split_ifs
  · rfl
  · split <;> rfl

/-- Shrunk legs keep their ids. -/
theorem shrinkLegs_ids (index : ℕ) (count : ℚ) (legs : List WingLeg) :
    (shrinkLegs index count legs).map WingLeg.clientOrderId =
      legs.map WingLeg.clientOrderId := by
  unfold shrinkLegs
  rw [List.map_map]
  refine List.map_congr_left fun l _ => ?_
  dsimp only [Function.comp]
  split_ifs <;> rfl

/-- A resized batch changes no id of the wings. -/
theorem wingId_resizeBatch (index : ℕ) (count : ℚ) {c : String} :
    WingId (resizeBatch s index count) c ↔ WingId s c := by
  unfold WingId resizeBatch
  dsimp only
  rw [shrinkLegs_ids]

/-- Resolving an unresolved trigger by selling brings no id. -/
theorem wingId_ptUnwind (idx : ℕ) (x : PrintThroughTrigger) (b : WingBatch)
    (resolution : Resolution) {c : String} (hc : WingId (ptUnwind s idx x b now resolution).st c) :
    WingId s c := by
  unfold ptUnwind at hc
  dsimp only at hc
  split_ifs at hc
  · unfold keepHedged at hc
    rw [wingId_maybeCloseSet, wingId_replacePt, wingId_resizeBatch] at hc
    · exact hc
    · exact fun _ _ => rfl
  · dsimp only [dropUnhedged] at hc
    rw [wingId_replacePt] at hc
    · rcases hc with hc | hc
      · exact Or.inl (List.map_subset _ List.filter_sublist.subset hc)
      · exact Or.inr hc
    · exact fun _ _ => rfl

/-- What a wing operation adds to the ids of the wings: minted ones, and that of a deferred
leg. -/
theorem WingOp.ids (hop : WingOp p now s acts t) :
    ∀ c, WingId t c → WingId s c ∨ c = "" ∨ NewId s t c := by
  cases hop with
  | flush =>
    unfold coalesceFlush
    split
    · exact fun c hc => Or.inl hc
    · split_ifs <;> exact fun c hc => Or.inl hc
  | mirror => exact fun c hc => Or.inl hc
  | flag => exact fun c hc => Or.inl hc
  | settle ts steps =>
    refine fun c hc => Or.inl (wingId_of ?_ ?_ c hc)
    · exact fun l hl => ⟨l, hl, rfl⟩
    · intro x' hx' c hc
      obtain ⟨x, hx, hstep⟩ := exists_of_forall₂ steps hx'
      exact ⟨x, hx, hstep.awaited c hc⟩
  | take b sd ya na =>
    refine wingId_take rfl rfl fun l hl => Or.inr ?_
    simp only [List.mem_cons, List.not_mem_nil, or_false] at hl
    rcases hl with rfl | rfl
    · exact ⟨s.coidSeq + 1, Nat.lt_succ_self _, Nat.le_succ _, rfl⟩
    · exact ⟨s.coidSeq + 2, by omega, le_rfl, rfl⟩
  | takePartial b sd =>
    unfold takeBatchPartial
    dsimp only
    have hsent : NewId s (mintCoid s).2 (mintCoid s).1 :=
      ⟨s.coidSeq + 1, Nat.lt_succ_self _, le_rfl, rfl⟩
    split_ifs
    · split
      · refine wingId_take rfl rfl fun l hl => ?_
        simp only [List.mem_cons, List.not_mem_nil, or_false] at hl
        rcases hl with rfl | rfl
        · exact Or.inr hsent
        · exact Or.inl rfl
      · refine wingId_take rfl rfl fun l hl => ?_
        simp only [List.mem_cons, List.not_mem_nil, or_false] at hl
        rcases hl with rfl | rfl
        · exact Or.inr hsent
        · exact Or.inl rfl
      · exact fun c hc => Or.inl hc
    · exact fun c hc => Or.inl hc
  | retry b sd ya na =>
    have hids := @retryLegs_ids p now b.index ya na s.wingLegs s
    have hst := @retryLegs_st p now b.index ya na s.wingLegs s
    unfold retryBatch
    dsimp only
    split_ifs
    · exact fun c hc => Or.inl hc
    · exact fun c hc => Or.inl hc
    · obtain ⟨n, hn, -⟩ := hst
      rintro c (hc | hc)
      · obtain ⟨l', hl', rfl⟩ := List.mem_map.mp hc
        exact (hids l' hl').imp Or.inl Or.inr
      · rw [hn] at hc
        exact Or.inl (Or.inr hc)
  | net l m lPrice mPrice q =>
    unfold netPair
    refine fun c hc => Or.inl (wingId_of (fun x' hx' => ?_) ?_ c hc)
    · have hmap : x' ∈ s.wingLegs.map fun x =>
          if x.clientOrderId = l.clientOrderId ∨ x.clientOrderId = m.clientOrderId then
            { x with netted := qCount (x.netted + q) }
          else x := by
        cases hside : l.side <;> simpa only [hside] using hx'
      obtain ⟨x, hx, rfl⟩ := List.mem_map.mp hmap
      refine ⟨x, hx, ?_⟩
      split_ifs <;> rfl
    · cases l.side <;> exact fun x hx c hc => ⟨x, hx, hc⟩
  | fire sd ya na yesPrint =>
    rintro c (hc | hc)
    · change c ∈ (s.wingLegs ++ [_, _]).map WingLeg.clientOrderId at hc
      rw [List.map_append, List.mem_append] at hc
      rcases hc with hc | hc
      · exact Or.inl (Or.inl hc)
      · simp only [List.map_cons, List.map_nil, List.mem_cons, List.not_mem_nil, or_false] at hc
        rcases hc with rfl | rfl
        · exact Or.inr (Or.inr ⟨s.coidSeq + 1, Nat.lt_succ_self _, Nat.le_succ _, rfl⟩)
        · exact Or.inr (Or.inr ⟨s.coidSeq + 2, by omega, le_rfl, rfl⟩)
    · change some c ∈ (s.printThroughTriggers ++ [_]).map PrintThroughTrigger.completeCoid at hc
      simp only [List.map_append, List.map_cons, List.map_nil, List.mem_append, List.mem_cons,
        List.not_mem_nil, or_false, reduceCtorEq] at hc
      exact Or.inl (Or.inr hc)
  | unwind idx x x' b resolution => exact fun c hc => Or.inl (wingId_ptUnwind idx x b _ hc)
  | complete idx x x' b shortfall noAsk lockPer hx hres hsame hb hask hcoid =>
    cases hs : s.shakedown with
    | true =>
      obtain ⟨y, hy, -⟩ := latchIfDone_eq p
        (bookedCompletion p s idx x b shortfall noAsk lockPer now)
      rw [ptComplete_of_shakedown _ _ _ _ _ _ hs, hy]
      intro c hc
      change WingId (bookedCompletion p s idx x b shortfall noAsk lockPer now) c at hc
      unfold bookedCompletion at hc
      rw [wingId_maybeCloseSet, wingId_replacePt, wingId_takerFill] at hc
      · exact Or.inl hc
      · intro z hz
        rw [ptBookTakerComplete_triggers, hx] at hz
        obtain rfl := Option.some.inj hz
        exact hcoid.symm
    | false =>
      rw [ptComplete_of_armed _ _ _ _ _ _ hs]
      rintro c (hc | hc)
      · exact Or.inl (Or.inl hc)
      · obtain ⟨z, hz, heq⟩ := List.mem_map.mp hc
        obtain ⟨i, hi⟩ := List.mem_iff_getElem?.mp hz
        simp only [replacePt, List.getElem?_modify, mintCoid] at hi
        split_ifs at hi with hidx
        · obtain ⟨z', -, rfl⟩ := Option.map_eq_some_iff.mp hi
          obtain rfl := Option.some.inj heq
          exact Or.inr (Or.inr ⟨s.coidSeq + 1, Nat.lt_succ_self _, le_rfl, rfl⟩)
        · rw [id_map'] at hi
          exact Or.inl (Or.inr (heq ▸ List.mem_map_of_mem (List.mem_of_getElem? hi)))
  | short idx x' b short roundtrip =>
    refine fun c hc => Or.inl ?_
    rw [wingId_replacePt, wingId_resizeBatch] at hc
    · exact hc
    · exact fun _ _ => rfl
  | takerFill x price count _ => exact fun c hc => Or.inl ((wingId_takerFill x price count).mp hc)

/-- Every wing operation keeps the orders in order. -/
theorem OrdersOk.wing (hop : WingOp p now s acts t) (h : OrdersOk s) : OrdersOk t := by
  have hframe := hop.frame
  have hladder : ∀ c, LadderId t c → LadderId s c := by
    intro c hc
    unfold LadderId at hc ⊢
    rwa [hframe.ladder] at hc
  have hrests : RestsOk t := by
    refine ⟨?_, ?_, ?_⟩
    · rw [congrArg Ladder.ladder hframe.ladder]
      exact h.rests.grid
    · rw [congrArg Ladder.ladder hframe.ladder]
      exact h.rests.bucket
    · rw [congrArg Quote.nTop hframe.quote, congrArg Quote.spotSd hframe.quote]
      exact h.rests.spot
  exact ⟨(coidsLaw p).frame (g := ()) hframe h.coids,
    h.ids.grow h.coids hframe.window hframe.seq hop.ids
    (fun c hc => Or.inl (hladder c hc)) (Or.inr hladder), hrests⟩

/-- An order left after a fill rests whole hundredths of a lot on its bucket. -/
theorem rests_reduceOrder {coid : String} {delta : ℚ} (h : OrdersOk s) {o : RestOrder}
    (ho : o ∈ reduceOrder s.ladder coid delta) : OnGrid 100 o.count ∧ ∃ o' ∈ s.ladder,
      o'.bucketSd = o.bucketSd ∧ LadderId s o.clientOrderId := by
  rcases mem_reduceOrder ho with ho | ⟨o', ho', -, -, rfl⟩
  · exact ⟨h.rests.grid o ho, o, ho, rfl, ladderId_of_mem ho rfl⟩
  · exact ⟨onGrid_qCount _, o', ho', rfl, ladderId_of_mem ho' rfl⟩

/-- A booked fill keeps the orders in order. -/
theorem OrdersOk.book (h : OrdersOk s) (r : FillReport) (hd : 0 < r.delta) :
    OrdersOk (bookedState p s r now) := by
  have hrecord : OrdersOk (recordFill p s r now) :=
    h.shrink ((coidsLaw p).record (g := ()) r hd h.coids) rfl h.rests.spot le_rfl (fun _ hc => hc)
      (fun o ho => rests_reduceOrder h ho) (List.Subset.refl _)
  have hframe := @bookedState_frame p now s r
  have hwings : ∀ c, WingId (bookedState p s r now) c → WingId s c := by
    intro c hc
    unfold bookedState at hc
    split at hc
    · exact hc
    · unfold hedgeFill at hc
      split at hc
      · unfold attachFill at hc
        rw [wingId_maybeCloseSet] at hc
        rcases hc with hc | hc
        · exact Or.inl hc
        · rw [map_replaceFirst_of_eq fun _ _ => by rfl] at hc
          exact Or.inr hc
      · unfold coalesceAdd coalesceFlush at hc
        dsimp only at hc
        repeat' split at hc
        all_goals exact hc
  refine hrecord.frame ((coidsLaw p).frame (g := ()) hframe hrecord.coids)
    hframe.window hframe.quote
    hframe.seq hwings ?_ ?_
  · rw [congrArg Ladder.ladder hframe.ladder]
    exact List.Subset.refl _
  · rw [congrArg Ladder.rollsInFlight hframe.ladder]
    exact List.Subset.refl _

/-- The law of the orders and their ids. -/
theorem ordersLaw (p : V33Params) :
    Law p (fun _ => True) (fun (_ : Unit) _ => ()) (fun _ _ => True) (fun st _ => OrdersOk st) where
  report _ _ _ := ⟨trivial, rfl⟩
  op hop h := ⟨allAlong_of_forall fun _ _ _ => trivial, OrdersOk.op hop h⟩
  wing hop h := ⟨allAlong_of_forall fun _ _ _ => trivial, OrdersOk.wing hop h⟩
  book r _ hd h := h.book r hd
  seen _ _ h := h.frame ((coidsLaw p).seen (g := ()) _ _ h.coids) rfl rfl le_rfl (fun _ hc => hc)
    (List.Subset.refl _) (List.Subset.refl _)
  legs {st _} coid f hf h := by
    refine h.frame ⟨h.coids.nodup, h.coids.minted, h.coids.promised, h.coids.unused,
      h.coids.newNodup, h.coids.oldNodup⟩ rfl rfl le_rfl (fun c hc => ?_) (List.Subset.refl _)
      (List.Subset.refl _)
    refine hc.imp_left fun hl => ?_
    rwa [map_replaceFirst_of_eq fun l _ => hf.coid l] at hl

end Ids

/-! ### Events -/

section Events

variable {p : V33Params} {now : ℚ} {st : V33State}

/-- The recomputed context touches no order and no id. -/
theorem OrdersOk.recompute (h : OrdersOk st) : OrdersOk (recomputeContext p st now) := by
  have hcoids := @CoidsOk.recompute p now _ h.coids
  obtain ⟨q, x, heq, hspot, htop, -⟩ := recomputeContext_eq p st now
  rw [heq] at hcoids ⊢
  refine h.shrink hcoids rfl ?_ le_rfl (fun _ hc => hc) (fun o ho => ?_) (List.Subset.refl _)
  · intro hn
    obtain ⟨n, hn⟩ := Option.isSome_iff_exists.mp hn
    obtain ⟨sd, hsd, -⟩ := recomputedTop_eq_some (htop.symm.trans hn)
    exact Option.isSome_of_eq_some (hspot.trans hsd)
  · obtain ⟨o', ho', rfl⟩ := List.mem_map.mp ho
    refine ⟨?_, o', ho', (refresh_bucketSd _ o').symm,
      ladderId_of_mem ho' (refresh_clientOrderId _ o')⟩
    rw [refresh_count]
    exact h.rests.grid o' ho'

/-- A book changes neither the orders nor the ids. -/
theorem OrdersOk.fold (h : OrdersOk st) (ev : BookUpdate) :
    OrdersOk (stampStrikeFeed (foldBook st ev) ev) := by
  have hcoids := h.coids.fold ev
  obtain ⟨b, hb⟩ := foldBook_eq st ev
  rw [hb] at hcoids ⊢
  exact h.frame hcoids rfl rfl le_rfl (fun _ hc => hc) (List.Subset.refl _) (List.Subset.refl _)

/-- An acknowledgement keeps the orders in order. -/
theorem OrdersOk.applyAck (h : OrdersOk st) (ev : OrderAck) : OrdersOk (applyAck st ev) := by
  have hcoids := h.coids.applyAck ev
  unfold V33.applyAck at hcoids ⊢
  split_ifs at hcoids ⊢
  · refine h.shrink hcoids rfl h.rests.spot le_rfl (fun _ hc => hc) (fun o ho => ?_)
      (List.Subset.refl _)
    rcases mem_replaceFirst ho with ho | ⟨o', ho', -, rfl⟩
    · exact ⟨h.rests.grid o ho, o, ho, rfl, ladderId_of_mem ho rfl⟩
    · exact ⟨h.rests.grid o' ho', o', ho', rfl, ladderId_of_mem ho' rfl⟩
  · exact h

/-- A cleared cancel keeps the orders in order. -/
theorem OrdersOk.clearCancelPending (h : OrdersOk st) (oid : Option String) :
    OrdersOk (clearCancelPending st oid) := by
  have hcoids := h.coids.clearCancelPending oid
  obtain ⟨d, hd⟩ := clearCancelPending_eq st oid
  rw [hd] at hcoids ⊢
  exact h.frame hcoids rfl rfl le_rfl (fun _ hc => hc) (List.Subset.refl _) (List.Subset.refl _)

/-- A dropped roll keeps the orders in order. -/
theorem OrdersOk.dropRoll (h : OrdersOk st) (coid : String) : OrdersOk (dropRoll st coid) :=
  h.frame (h.coids.dropRoll coid) rfl rfl le_rfl (fun _ hc => hc) (List.Subset.refl _)
    List.filter_sublist.subset

/-- A confirmed amend keeps the lots and the bucket of its order, under the promised id. -/
theorem OrdersOk.confirmRoll (h : OrdersOk st) {rp : RollPending} (hrp : rp ∈ st.rollsInFlight)
    (newPrice : ℚ) :
    OrdersOk (confirmRoll p (V33.dropRoll st rp.oldCoid) rp newPrice now) := by
  refine h.shrink (h.coids.confirmRoll hrp newPrice) rfl h.rests.spot le_rfl (fun _ hc => hc)
    (fun o ho => ?_) List.filter_sublist.subset
  rcases mem_replaceFirst ho with ho | ⟨o', ho', -, rfl⟩
  · exact ⟨h.rests.grid o ho, o, ho, rfl, ladderId_of_mem ho rfl⟩
  · exact ⟨h.rests.grid o' ho', o', ho', rfl, Or.inr (List.mem_map_of_mem hrp)⟩

/-- The fallback of a roll keeps the orders in order. -/
theorem OrdersOk.rollFallback (h : OrdersOk st) (rp : RollPending) :
    OrdersOk (rollFallback p st rp now).st := by
  have hcoids : CoidsOk
      { V33.dropRoll st rp.oldCoid with
        ladder := dropOrder (V33.dropRoll st rp.oldCoid).ladder rp.oldCoid } :=
    (h.coids.dropRoll _).shrink rfl le_rfl ((dropOrder_sublist _ _).map _) (List.Sublist.refl _)
  have hdropped : OrdersOk
      { V33.dropRoll st rp.oldCoid with
        ladder := dropOrder (V33.dropRoll st rp.oldCoid).ladder rp.oldCoid } :=
    h.frame hcoids rfl rfl le_rfl (fun _ hc => hc) (dropOrder_sublist _ _).subset
      List.filter_sublist.subset
  unfold V33.rollFallback
  dsimp only
  split
  · exact hdropped
  · next nTop htop =>
    split_ifs
    · exact hdropped.placeOne (h.rests.spot (Option.isSome_of_eq_some htop)) _ _ _ _
    · exact hdropped

/-- A cancelled order leaves the others in order. -/
theorem OrdersOk.dropCancelled (h : OrdersOk st) (ev : OrderCancelled) (live : Option RestOrder) :
    OrdersOk (dropCancelled st ev live) := by
  have hcoids := h.coids.dropCancelled ev live
  obtain ⟨l, n, heq, hl⟩ := dropCancelled_eq st ev live
  rw [heq] at hcoids ⊢
  exact h.frame hcoids rfl rfl le_rfl (fun _ hc => hc) hl.subset (List.Subset.refl _)

/-- The inputs of every event keep the orders in order. -/
theorem orders_event (h : OrdersOk st) (ev : Event) :
    EventLaw p (fun _ => True) (fun (_ : Unit) _ => ()) (fun _ _ => True)
      (fun st _ => OrdersOk st) st ev () where
  booked _ _ := trivial
  stay _ := h
  book e _ := (h.fold e).recompute
  tick _ _ := h.recompute
  ack e _ := h.applyAck e
  filled _ _ := h.clearCancelPending _
  amended e rp _ hrp :=
    ⟨h.dropRoll _, fun _ _ => h.confirmRoll (mem_of_rollOfAmend hrp) _⟩
  cancelled e _ :=
    (ordersLaw p).cancelPart e (fun _ _ => trivial) (h.clearCancelPending _) fun _ hs => by
      unfold finishCancel
      split
      · exact ⟨allAlong_of_forall fun _ _ _ => trivial, hs.rollFallback _⟩
      · exact (ordersLaw p).keeps_op (via_ptOnCancelConfirmed _) (hs.dropCancelled e _)

/-- Every decision keeps the orders in order. -/
theorem OrdersOk.decide (h : OrdersOk st) (ev : Event) : OrdersOk (decideV33 p st ev).st :=
  ((ordersLaw p).decide (J := fun st _ => OrdersOk st) (orders_event h ev) (fun _ _ hs => hs)
    fun _ hr _ hs => ⟨allAlong_of_forall fun _ _ _ => trivial,
      Run.preserves (fun _ _ _ hop h => OrdersOk.op hop h) (h.coids.via_converge hr) hs⟩).2

/-- A new window has no order. -/
theorem OrdersOk.new (h : IsNew p st) : OrdersOk st := by
  refine ⟨CoidsOk.new h, ?_, ?_⟩ <;> obtain ⟨_, _, _, _, _, _, rfl⟩ := h
  · constructor <;> simp [WingId, V33State.new]
  · constructor <;> simp [V33State.new]

/-- The orders of every state reached are in order. -/
theorem OrdersOk.reached {ok : V33State → Event → Prop} {evs : List Event}
    (hrun : Reached p ok evs st) : OrdersOk st :=
  hrun.preserves (fun _ hst => OrdersOk.new hst) fun _ ev hst _ => hst.decide ev

end Events

end Pilot.V33
