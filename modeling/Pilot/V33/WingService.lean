import Pilot.V33.WingPairs

/-!
# Serving the batches

The wing step serves one batch after the other. Serving a batch looks at that batch, at its
legs and at the books, and changes only that batch and its legs, so every batch is served as
if it were alone.
-/

namespace Pilot.V33

/-- What serving the batch of an index looks at is the same. -/
structure AgreeOn (index : ℕ) (s t : V33State) : Prop where
  window : t.toWindow = s.toWindow
  books : t.toBooks = s.toBooks
  batch : batchOf t index = batchOf s index
  legs : batchLegs t index = batchLegs s index

/-- The asks at which the missed legs of a batch are sent again: its bucket's, if both legs price
and the projected lock is at the floor. -/
def retryAsks (p : V33Params) (st : V33State) (now : ℚ) (b : WingBatch) : Option (ℚ × ℚ) :=
  if b.completed ∨ b.printThrough ∨ b.taken = false then none
  else
    (batchBucket b).bind fun sd =>
      (wingPricesForBucket p st sd (sd + p.bucketWidth) now).filter fun asks =>
        decide (p.lockFloor * qCount b.totalCount ≤
          projectedLock b (batchLegs st b.index) asks.1 asks.2)

/-- The order that sends a leg again at a limit. -/
def resendOrder (shakedown : Bool) (l : WingLeg) (limit : ℚ) : V33Action :=
  mk shakedown
    { kind := .retryWing, count := l.count,
      legs := [⟨l.ticker, l.side, .buy, l.count, some limit⟩] }

/-- A leg after it was sent again. -/
def WingLeg.resent (l : WingLeg) (limit now : ℚ) (coid : String) : WingLeg :=
  { l with status := .pending, limit := limit, clientOrderId := coid, lastRetryTs := some now }

/-- The limit of a retry at the asks. -/
def retryLimit (p : V33Params) (asks : ℚ × ℚ) (l : WingLeg) : ℚ :=
  takerLimit (askOf l.side asks.1 asks.2) p.wingMargin

/-- The order that sends a leg again at the asks. -/
def retryOrder (p : V33Params) (shakedown : Bool) (asks : ℚ × ℚ) (l : WingLeg) : V33Action :=
  resendOrder shakedown l (retryLimit p asks l)

/-- A leg that was sent again at the asks, under the next client order id. -/
structure SentAgain (p : V33Params) (now : ℚ) (asks : ℚ × ℚ) (w : Window) (n : ℕ)
    (l l' : WingLeg) : Prop where
  fresh : ∃ k, n < k ∧ l'.clientOrderId = coidAt w k
  leg : l' = l.resent (retryLimit p asks l) now l'.clientOrderId

/-- A leg of the batch that is due is sent again, any other one stays. -/
def RetriedLeg (p : V33Params) (now : ℚ) (asks : ℚ × ℚ) (w : Window) (n index : ℕ)
    (l l' : WingLeg) : Prop :=
  if retryDue index now l then SentAgain p now asks w n l l' else l' = l

/-- What serving the batch of an index does. -/
inductive ServedBatch (p : V33Params) (now : ℚ) (index : ℕ) (s : V33State) : Outcome → Prop
  | quiet (idle : ∀ b, batchOf s index = some b → retryAsks p s now b = none) :
      ServedBatch p now index s s.quiet
  | take (b : WingBatch) (sd : ℤ) (ya na : ℚ) (batch : batchOf s index = some b)
      (untaken : b.taken = false)
      (prices : wingPricesForBucket p s sd (sd + p.bucketWidth) now = some (ya, na)) :
      ServedBatch p now index s (takeBatch p s b sd (sd + p.bucketWidth) ya na)
  | takePartial (b : WingBatch) (sd : ℤ) (batch : batchOf s index = some b)
      (untaken : b.taken = false) :
      ServedBatch p now index s (takeBatchPartial p s b sd (sd + p.bucketWidth) now)
  | retry (b : WingBatch) (asks : ℚ × ℚ) (batch : batchOf s index = some b)
      (allowed : retryAsks p s now b = some asks) :
      ServedBatch p now index s (retryBatch p s b asks.1 asks.2 now)

section Service

variable {p : V33Params} {now : ℚ} {s t u : V33State} {index : ℕ}

/-- A state agrees with itself. -/
theorem AgreeOn.refl (index : ℕ) (s : V33State) : AgreeOn index s s := ⟨rfl, rfl, rfl, rfl⟩

/-- Agreement on a batch is transitive. -/
theorem AgreeOn.trans (h : AgreeOn index s t) (k : AgreeOn index t u) : AgreeOn index s u :=
  ⟨k.window.trans h.window, k.books.trans h.books, k.batch.trans h.batch, k.legs.trans h.legs⟩

/-- Serving a batch meets its description. -/
theorem servedBatch_serveBatch (s : V33State) :
    ServedBatch p now index s (serveBatch p now index s) := by
  unfold serveBatch
  cases hb : batchOf s index with
  | none => exact .quiet (by simp [hb])
  | some b =>
    dsimp only
    by_cases hended : b.completed ∨ b.printThrough
    · rw [if_pos hended]
      refine .quiet fun b' hb' => ?_
      obtain rfl := Option.some.inj (hb.symm.trans hb')
      exact if_pos (hended.imp_right Or.inl)
    · rw [if_neg hended]
      cases hbucket : batchBucket b with
      | none =>
        refine .quiet fun b' hb' => ?_
        obtain rfl := Option.some.inj (hb.symm.trans hb')
        unfold retryAsks
        rw [hbucket]
        split_ifs <;> rfl
      | some sd =>
        dsimp only
        cases hprices : wingPricesForBucket p s sd (sd + p.bucketWidth) now with
        | none =>
          by_cases htaken : b.taken = true
          · rw [if_pos htaken]
            refine .quiet fun b' hb' => ?_
            obtain rfl := Option.some.inj (hb.symm.trans hb')
            unfold retryAsks
            rw [hbucket, Option.bind_some, hprices]
            split_ifs <;> rfl
          · rw [if_neg htaken]
            exact .takePartial b sd hb (by simpa using htaken)
        | some asks =>
          obtain ⟨ya, na⟩ := asks
          by_cases htaken : b.taken = true
          · dsimp only
            rw [if_pos htaken]
            have hgate : ¬(b.completed = true ∨ b.printThrough = true ∨ b.taken = false) := by
              rw [← or_assoc, htaken]
              simpa using hended
            have hasks : retryAsks p s now b = if p.lockFloor * qCount b.totalCount ≤
                projectedLock b (batchLegs s b.index) ya na then some (ya, na) else none := by
              unfold retryAsks
              rw [if_neg hgate, hbucket, Option.bind_some, hprices]
              simp only [Option.filter, decide_eq_true_eq]
            by_cases hfloor : p.lockFloor * qCount b.totalCount ≤
                projectedLock b (batchLegs s b.index) ya na
            · rw [if_pos hfloor] at hasks
              exact .retry b (ya, na) hb hasks
            · have hquiet : retryBatch p s b ya na now = s.quiet := by
                unfold retryBatch
                rw [if_pos (not_le.mp hfloor)]
              rw [hquiet]
              refine .quiet fun b' hb' => ?_
              obtain rfl := Option.some.inj (hb.symm.trans hb')
              rw [hasks, if_neg hfloor]
          · dsimp only
            rw [if_neg htaken]
            exact .take b sd ya na hb (by simpa using htaken) hprices

/-! ### Sending legs again -/

/-- A leg due for a retry is of the batch. -/
theorem retryDue_batch {l : WingLeg} (h : retryDue index now l = true) : l.batch = index := by
  simp only [retryDue, Bool.and_eq_true, beq_iff_eq] at h
  exact h.1.1

/-- The legs due for a retry are found among the batch's own. -/
theorem filter_retryDue (legs : List WingLeg) :
    (legs.filter fun l => l.batch = index).filter (retryDue index now) =
      legs.filter (retryDue index now) := by
  rw [List.filter_filter]
  refine List.filter_congr fun l _ => ?_
  cases hdue : retryDue index now l with
  | false => simp
  | true => simp [retryDue_batch hdue]

/-- The due legs are sent again in order. -/
theorem retryLegs_acts (asks : ℚ × ℚ) (legs : List WingLeg) (s : V33State) :
    (retryLegs p index asks.1 asks.2 now legs s).2.acts =
      (legs.filter (retryDue index now)).map (retryOrder p s.shakedown asks) := by
  induction legs generalizing s with
  | nil => rfl
  | cons l legs ih =>
    unfold retryLegs
    split_ifs with hdue
    · rw [List.filter_cons_of_pos hdue, List.map_cons]
      dsimp only
      rw [ih]
      rfl
    · rw [List.filter_cons_of_neg hdue]
      exact ih s

/-- Every leg that is due goes on under a new id. -/
theorem retryLegs_legs (asks : ℚ × ℚ) (legs : List WingLeg) (s : V33State) :
    List.Forall₂ (RetriedLeg p now asks s.toWindow s.coidSeq index) legs
      (retryLegs p index asks.1 asks.2 now legs s).1 := by
  induction legs generalizing s with
  | nil => exact List.Forall₂.nil
  | cons l legs ih =>
    unfold retryLegs
    split_ifs with hdue
    · refine List.Forall₂.cons ?_ ((ih (mintCoid s).2).imp fun l l' hl => ?_)
      · rw [RetriedLeg, if_pos hdue]
        exact ⟨⟨s.coidSeq + 1, Nat.lt_succ_self _, rfl⟩, rfl⟩
      · unfold RetriedLeg at hl ⊢
        split_ifs at hl ⊢
        · obtain ⟨⟨k, hk, hcoid⟩, hleg⟩ := hl
          exact ⟨⟨k, (Nat.lt_succ_self _).trans hk, hcoid⟩, hleg⟩
        · exact hl
    · refine List.Forall₂.cons ?_ (ih s)
      rw [RetriedLeg, if_neg hdue]

/-- The orders and the legs of a retry. -/
theorem retryBatch_spec (b : WingBatch) (asks : ℚ × ℚ)
    (hfloor : p.lockFloor * qCount b.totalCount ≤
      projectedLock b (batchLegs s b.index) asks.1 asks.2) :
    (retryBatch p s b asks.1 asks.2 now).acts =
        ((batchLegs s b.index).filter (retryDue b.index now)).map (retryOrder p s.shakedown asks) ∧
      List.Forall₂ (RetriedLeg p now asks s.toWindow s.coidSeq b.index) s.wingLegs
        (retryBatch p s b asks.1 asks.2 now).st.wingLegs := by
  have hacts := @retryLegs_acts p now b.index asks s.wingLegs s
  have hlegs := @retryLegs_legs p now b.index asks s.wingLegs s
  rw [batchLegs, filter_retryDue, ← hacts]
  unfold retryBatch
  rw [if_neg (not_lt.mpr hfloor)]
  dsimp only
  split_ifs with hnone
  · rw [List.isEmpty_iff] at hnone
    rw [hnone]
    refine ⟨rfl, ?_⟩
    rw [hnone, eq_comm, List.map_eq_nil_iff, List.filter_eq_nil_iff] at hacts
    refine List.forall₂_same.mpr fun l hl => ?_
    rw [RetriedLeg, if_neg (hacts l hl)]
  · exact ⟨rfl, hlegs⟩

/-! ### One batch does not see the others -/

/-- The prices of the wings are the same where the states agree. -/
theorem AgreeOn.prices (h : AgreeOn index s t) (sd su : ℤ) :
    wingPricesForBucket p t sd su now = wingPricesForBucket p s sd su now := by
  unfold wingPricesForBucket strikeFeedAlive wingPrices
  rw [h.books]

/-- The ask of a leg is the same where the states agree. -/
theorem AgreeOn.legAsk (h : AgreeOn index s t) (strike : ℤ) (side : Side) :
    wingLegAsk p t strike side now = wingLegAsk p s strike side now := by
  unfold wingLegAsk
  rw [h.books]

/-- The strike feed is alive in both states or in none. -/
theorem AgreeOn.alive (h : AgreeOn index s t) :
    strikeFeedAlive p t now = strikeFeedAlive p s now := by
  unfold strikeFeedAlive
  rw [h.books]

/-- A take emits the same where the states agree. -/
theorem AgreeOn.takeBatch (h : AgreeOn index s t) (b : WingBatch) (sd su : ℤ) (ya na : ℚ) :
    (takeBatch p t b sd su ya na).acts = (takeBatch p s b sd su ya na).acts := by
  simp only [V33.takeBatch, mintCoid, strikeTicker, h.books, h.window]

/-- A partial take emits the same where the states agree. -/
theorem AgreeOn.takePartial (h : AgreeOn index s t) (b : WingBatch) (sd su : ℤ) :
    (takeBatchPartial p t b sd su now).acts = (takeBatchPartial p s b sd su now).acts := by
  unfold takeBatchPartial
  dsimp only
  rw [h.alive, h.legAsk, h.legAsk]
  split_ifs
  · split <;> simp only [mintCoid, strikeTicker, h.books, h.window, quiet_acts]
  · rfl

/-- The orders of a retry: none below the floor, else one for each due leg. -/
theorem retryBatch_acts (b : WingBatch) (asks : ℚ × ℚ) :
    (retryBatch p s b asks.1 asks.2 now).acts =
      if projectedLock b (batchLegs s b.index) asks.1 asks.2 <
        p.lockFloor * qCount b.totalCount then []
      else ((batchLegs s b.index).filter (retryDue b.index now)).map
        (retryOrder p s.shakedown asks) := by
  split_ifs with hfloor
  · unfold retryBatch
    rw [if_pos hfloor]
    rfl
  · exact (retryBatch_spec b asks (not_lt.mp hfloor)).1

/-- A retry emits the same where the states agree. -/
theorem AgreeOn.retry (h : AgreeOn index s t) {b : WingBatch} (hindex : b.index = index)
    (asks : ℚ × ℚ) :
    (retryBatch p t b asks.1 asks.2 now).acts = (retryBatch p s b asks.1 asks.2 now).acts := by
  rw [retryBatch_acts, retryBatch_acts, hindex, h.legs, h.window]

/-- Where two states agree on a batch it is served by the same orders. -/
theorem AgreeOn.acts (h : AgreeOn index s t) :
    (serveBatch p now index t).acts = (serveBatch p now index s).acts := by
  unfold serveBatch
  rw [h.batch]
  cases hb : batchOf s index with
  | none => rfl
  | some b =>
    dsimp only
    by_cases hended : b.completed ∨ b.printThrough
    · rw [if_pos hended, if_pos hended]
      rfl
    · rw [if_neg hended, if_neg hended]
      cases batchBucket b with
      | none => rfl
      | some sd =>
        dsimp only
        rw [h.prices]
        cases wingPricesForBucket p s sd (sd + p.bucketWidth) now with
        | none =>
          by_cases htaken : b.taken = true
          · simp only [if_pos htaken, quiet_acts]
          · simp only [if_neg htaken]
            exact h.takePartial b _ _
        | some asks =>
          by_cases htaken : b.taken = true
          · simp only [if_pos htaken]
            exact h.retry (batchOf_index hb) asks
          · simp only [if_neg htaken]
            exact h.takeBatch b _ _ _ _

/-- An update leaves the other batches alone. -/
theorem batchOf_replaceBatch_ne {j : ℕ} (hne : j ≠ index) {f : WingBatch → WingBatch}
    (hf : ∀ b, (f b).index = b.index) (batches : List WingBatch) :
    (replaceBatch batches index f).find? (fun b => b.index == j) =
      batches.find? fun b => b.index == j := by
  refine find?_replaceFirst_of_ne (fun b hb => ?_) (fun b hb => ?_) batches
  · simp only [beq_iff_eq] at hb
    simpa [hb] using hne.symm
  · simp only [beq_iff_eq] at hb
    simpa [hf, hb] using hne.symm

/-- The legs of another batch when all legs of this one may have changed. -/
theorem batchLegs_of_forall₂ {legs legs' : List WingLeg} {j : ℕ}
    (h : List.Forall₂ (fun l l' => l'.batch = l.batch ∧ (l.batch = j → l' = l)) legs legs') :
    legs'.filter (fun l => l.batch = j) = legs.filter fun l => l.batch = j := by
  induction h with
  | nil => rfl
  | @cons l l' legs legs' hl _ ih =>
    rw [List.filter_cons, List.filter_cons, ih, hl.1]
    split_ifs with hbatch
    · rw [hl.2 (by simpa using hbatch)]
    · rfl

/-- A retried leg keeps its batch, and a leg of another batch is left alone. -/
theorem RetriedLeg.others {asks : ℚ × ℚ} {w : Window} {n : ℕ} {l l' : WingLeg} {j : ℕ}
    (hne : j ≠ index) (h : RetriedLeg p now asks w n index l l') :
    l'.batch = l.batch ∧ (l.batch = j → l' = l) := by
  unfold RetriedLeg at h
  split_ifs at h with hdue
  · rw [h.leg]
    exact ⟨rfl, fun heq => absurd (heq.symm.trans (retryDue_batch hdue)) hne⟩
  · rw [h]
    exact ⟨rfl, fun _ => rfl⟩

/-- The legs of a take are not those of another batch. -/
theorem batchLegs_take {j : ℕ} (hne : j ≠ index) {legs : List WingLeg} {l m : WingLeg}
    (hl : l.batch = index) (hm : m.batch = index) :
    (legs ++ [l, m]).filter (fun x => x.batch = j) = legs.filter fun x => x.batch = j := by
  rw [batchLegs_append]
  simp [hl, hm, hne.symm]

/-- Serving a batch leaves what the others look at alone. -/
theorem serveBatch_others {j : ℕ} (hne : j ≠ index) (s : V33State) :
    AgreeOn j s (serveBatch p now index s).st := by
  have htaken (b : WingBatch) : ({ b with taken := true } : WingBatch).index = b.index := rfl
  have hserved := @servedBatch_serveBatch p now index s
  revert hserved
  generalize serveBatch p now index s = r
  intro hserved
  cases hserved with
  | quiet => exact AgreeOn.refl j s
  | take b sd ya na hb =>
    have hindex : b.index = index := batchOf_index hb
    exact ⟨rfl, rfl, batchOf_replaceBatch_ne (hindex ▸ hne) htaken _,
      batchLegs_take hne hindex hindex⟩
  | takePartial b sd hb =>
    have hindex : b.index = index := batchOf_index hb
    unfold takeBatchPartial
    dsimp only
    split_ifs
    · split
      · exact ⟨rfl, rfl, batchOf_replaceBatch_ne (hindex ▸ hne) htaken _,
          batchLegs_take hne hindex hindex⟩
      · exact ⟨rfl, rfl, batchOf_replaceBatch_ne (hindex ▸ hne) htaken _,
          batchLegs_take hne hindex hindex⟩
      · exact AgreeOn.refl j s
    · exact AgreeOn.refl j s
  | retry b asks hb =>
    have hindex : b.index = index := batchOf_index hb
    obtain ⟨n, hn, -⟩ := @retryLegs_st p now b.index asks.1 asks.2 s.wingLegs s
    unfold retryBatch
    dsimp only
    split_ifs
    · exact AgreeOn.refl j s
    · exact AgreeOn.refl j s
    · rw [hn]
      refine ⟨rfl, rfl, batchOf_replaceBatch_ne (f := fun x => { x with retries := b.retries +
        (retryLegs p b.index asks.1 asks.2 now s.wingLegs s).2.acts.length })
        (hindex ▸ hne) (fun _ => rfl) _, ?_⟩
      refine batchLegs_of_forall₂ ((retryLegs_legs asks s.wingLegs s).imp fun l l' hl => ?_)
      exact hl.others (hindex ▸ hne)

/-- A loop over different batches serves each one as if it were alone. -/
theorem forEach_serveBatch (ks : List ℕ) (hks : ks.Nodup) (s : V33State) :
    (forEach ks (serveBatch p now) s).acts = ks.flatMap (fun k => (serveBatch p now k s).acts) ∧
      (∀ k ∈ ks, ∃ t, AgreeOn k s t ∧
        AgreeOn k (serveBatch p now k t).st (forEach ks (serveBatch p now) s).st) ∧
      ∀ k, k ∉ ks → AgreeOn k s (forEach ks (serveBatch p now) s).st := by
  induction ks generalizing s with
  | nil => exact ⟨rfl, by simp, fun k _ => AgreeOn.refl k s⟩
  | cons k ks ih =>
    rw [List.nodup_cons] at hks
    obtain ⟨hacts, hserved, hothers⟩ := ih hks.2 (serveBatch p now k s).st
    have hagree (j : ℕ) (hj : j ≠ k) : AgreeOn j s (serveBatch p now k s).st :=
      serveBatch_others hj s
    refine ⟨?_, fun j hj => ?_, fun j hj => ?_⟩
    · rw [forEach, andThen_acts, hacts, List.flatMap_cons]
      congr 1
      refine List.flatMap_congr fun j hj => ?_
      exact (hagree j fun heq => hks.1 (heq ▸ hj)).acts
    · rcases List.mem_cons.mp hj with rfl | hj
      · exact ⟨s, AgreeOn.refl j s, hothers j hks.1⟩
      · obtain ⟨t, ht, hend⟩ := hserved j hj
        exact ⟨t, (hagree j fun heq => hks.1 (heq ▸ hj)).trans ht, hend⟩
    · rw [List.mem_cons, not_or] at hj
      exact (hagree j hj.1).trans (hothers j hj.2)

/-! ### The wing step -/

/-- Closing the group leaves the batches there are alone. -/
theorem flush_agreeOn {b : WingBatch} (hb : b ∈ s.wingBatches) :
    AgreeOn b.index s (coalesceFlush p s now) := by
  unfold coalesceFlush
  split
  · exact AgreeOn.refl _ _
  · split_ifs
    · refine ⟨rfl, rfl, ?_, rfl⟩
      have hfound : (s.wingBatches.find? fun x => x.index == b.index).isSome := by
        rw [List.find?_isSome]
        exact ⟨b, hb, beq_self_eq_true _⟩
      show (s.wingBatches ++ [_]).find? _ = s.wingBatches.find? _
      rw [List.find?_append, Option.or_of_isSome hfound]
    · exact AgreeOn.refl _ _

/-- A batch is found under its index. -/
theorem batchOf_of_mem (hbatches : BatchesOk s) {b : WingBatch} (hb : b ∈ s.wingBatches) :
    batchOf s b.index = some b := by
  have hfound : (s.wingBatches.find? fun x => x.index == b.index).isSome := by
    rw [List.find?_isSome]
    exact ⟨b, hb, beq_self_eq_true _⟩
  obtain ⟨c, hc⟩ := Option.isSome_iff_exists.mp hfound
  have hindex : c.index = b.index := by simpa using List.find?_some hc
  have hsame := List.inj_on_of_nodup_map hbatches.batchIndex_nodup
    (List.mem_of_find?_eq_some hc) hb hindex
  rw [batchOf, hc, hsame]

/-- Before the cutoff the wing step serves every batch of the flushed state as if it were
alone. -/
theorem wingStep_served (hbatches : BatchesOk s)
    (htime : (p.noOrdersAfterSToSettle : ℚ) ≤ s.closeEpoch - now) :
    (wingStep p s now).acts = ((coalesceFlush p s now).wingBatches.map WingBatch.index).flatMap
        (fun k => (serveBatch p now k (coalesceFlush p s now)).acts) ∧
      ∀ b ∈ (coalesceFlush p s now).wingBatches,
        ∃ t, AgreeOn b.index (coalesceFlush p s now) t ∧
          AgreeOn b.index (serveBatch p now b.index t).st (wingStep p s now).st := by
  have hflush : BatchesOk (coalesceFlush p s now) := hbatches.flush
  have hwindow : (coalesceFlush p s now).toWindow = s.toWindow :=
    (WingOp.frame (@WingOp.flush p now s)).window
  have hclose : (coalesceFlush p s now).closeEpoch = s.closeEpoch :=
    congrArg Window.closeEpoch hwindow
  unfold wingStep
  dsimp only
  rw [hclose]
  split_ifs with hempty hlate
  · rw [List.isEmpty_iff] at hempty
    rw [hempty]
    exact ⟨rfl, by simp⟩
  · exact absurd htime (not_le.mpr hlate)
  · obtain ⟨hacts, hserved, -⟩ := @forEach_serveBatch p now
      ((coalesceFlush p s now).wingBatches.map WingBatch.index) hflush.batchIndex_nodup
      (coalesceFlush p s now)
    refine ⟨hacts, fun b hb => ?_⟩
    obtain ⟨t, ht, hend⟩ := hserved b.index (List.mem_map_of_mem hb)
    exact ⟨t, ht, hend.trans ⟨rfl, rfl, rfl, rfl⟩⟩

/-- A batch that was taken is retried at its asks or left alone. -/
theorem serveBatch_taken {b : WingBatch} (hb : batchOf s index = some b) (htaken : b.taken = true) :
    (∃ asks, retryAsks p s now b = some asks ∧
        serveBatch p now index s = retryBatch p s b asks.1 asks.2 now) ∨
      retryAsks p s now b = none ∧ serveBatch p now index s = s.quiet := by
  have hserved := @servedBatch_serveBatch p now index s
  revert hserved
  generalize serveBatch p now index s = r
  intro hserved
  cases hserved with
  | quiet idle => exact Or.inr ⟨idle b hb, rfl⟩
  | take c sd ya na hc huntaken =>
    obtain rfl := Option.some.inj (hb.symm.trans hc)
    simp [htaken] at huntaken
  | takePartial c sd hc huntaken =>
    obtain rfl := Option.some.inj (hb.symm.trans hc)
    simp [htaken] at huntaken
  | retry c asks hc hasks =>
    obtain rfl := Option.some.inj (hb.symm.trans hc)
    exact Or.inl ⟨asks, hasks, rfl⟩

/-- The asks for a retry are the same where the states agree. -/
theorem AgreeOn.retryAsks (h : AgreeOn index s t) {b : WingBatch} (hindex : b.index = index) :
    retryAsks p t now b = retryAsks p s now b := by
  unfold V33.retryAsks
  simp only [h.prices, hindex, h.legs]

/-- Asks at which a batch is retried are at the floor. -/
theorem floor_of_retryAsks {b : WingBatch} {asks : ℚ × ℚ} (h : retryAsks p s now b = some asks) :
    p.lockFloor * qCount b.totalCount ≤ projectedLock b (batchLegs s b.index) asks.1 asks.2 := by
  unfold retryAsks at h
  split_ifs at h
  obtain ⟨sd, -, hasks⟩ := Option.bind_eq_some_iff.mp h
  simpa using (Option.filter_eq_some_iff.mp hasks).2

end Service

end Pilot.V33
