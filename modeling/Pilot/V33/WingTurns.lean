import Pilot.V33.WingPhase

/-!
# The turns of the batches

Without early takes every batch has its turn in a decision: its legs stay, or they are taken, or
those that are due are sent again. A leg is named by its batch and its side.
-/

namespace Pilot.V33

/-! ### Legs and orders -/

/-- A leg is named by its batch and its side. -/
def legKey (l : WingLeg) : ℕ × Side := (l.batch, l.side)

/-- The legs that a step sends again, as they were before. -/
def resentOf (legs legs' : List WingLeg) : List WingLeg :=
  ((legs.zip legs').filter fun q => q.1.status != .pending && q.2.status == .pending).map Prod.fst

/-- The batch of an index is taken. -/
def takenIn (st : V33State) (index : ℕ) : Bool := (batchOf st index).any WingBatch.taken

/-- The event answers the order of an id. -/
def Answers (ev : Event) (coid : String) : Prop :=
  match ev with
  | .fill e => e.clientOrderId = coid
  | _ => False

instance (ev : Event) (coid : String) : Decidable (Answers ev coid) :=
  match ev with
  | .fill e => inferInstanceAs (Decidable (e.clientOrderId = coid))
  | .bookUpdate _ | .trade _ | .orderAck _ | .orderAmended _ | .orderCancelled _ | .clockTick _ =>
    inferInstanceAs (Decidable False)

/-- An action that sends a leg again, at some limit. -/
def Resends (shakedown : Bool) (a : V33Action) (l : WingLeg) : Prop :=
  ∃ limit, a = resendOrder shakedown l limit

/-- An action whose orders are those of some legs. -/
def TakesLegs (a : V33Action) (legs : List WingLeg) : Prop :=
  List.Forall₂ (fun o l => o.ticker = l.ticker ∧ o.side = l.side ∧ o.count = l.count) a.legs legs

/-- The projected lock of a batch at the current asks of its bucket is at the floor. -/
def LockAtFloor (p : V33Params) (st : V33State) (now : ℚ) (index : ℕ) : Prop :=
  ∃ b sd ya na, batchOf st index = some b ∧ batchBucket b = some sd ∧
    wingPricesForBucket p st sd (sd + p.bucketWidth) now = some (ya, na) ∧
      p.lockFloor * b.totalCount ≤ projectedLock b (batchLegs st index) ya na

/-! ### The turn of a batch -/

/-- A leg that is not sent: at most it is answered. -/
structure StaysLeg (ev : Event) (l l' : WingLeg) : Prop where
  key : legKey l' = legKey l
  coid : l'.clientOrderId = l.clientOrderId
  retry : l'.lastRetryTs = l.lastRetryTs
  pending : l'.status = .pending → l.status = .pending
  answered : l.status = .pending → l'.status = .pending ∨ Answers ev l.clientOrderId

/-- What an event does to the batch of an index: its legs stay, or they are the legs of a take,
or those that are due are sent again. -/
inductive BatchTurn (p : V33Params) (s : V33State) (ev : Event) (k : ℕ) (legs : List WingLeg)
    (taken : Bool) : List V33Action → Prop
  | idle (stay : List.Forall₂ (StaysLeg ev) (batchLegs s k) legs) (flag : taken = takenIn s k) :
      BatchTurn p s ev k legs taken []
  | take (a : V33Action) (action : a.takes = true ∧ a.retries = false)
      (empty : batchLegs s k = []) (fresh : takenIn s k = false) (flag : taken = true)
      (orders : TakesLegs a legs) (sent : ∀ l ∈ legs, l.status = .pending ∨ l.clientOrderId = "") :
      BatchTurn p s ev k legs taken [a]
  | retry (asks : ℚ × ℚ) (w : Window) (n : ℕ) (floor : LockAtFloor p s ev.serverTs k)
      (sent : List.Forall₂ (RetriedLeg p ev.serverTs asks w n k) (batchLegs s k) legs)
      (before : takenIn s k = true) (flag : taken = true) :
      BatchTurn p s ev k legs taken
        (((batchLegs s k).filter (retryDue k ev.serverTs)).map (retryOrder p s.shakedown asks))

/-- What an event does to the batches: each has its turn, and there is time for what is sent. -/
structure StepTurns (p : V33Params) (s : V33State) (ev : Event) (r : Outcome) : Prop where
  turns : ∃ acts : ℕ → List V33Action,
    serviceActs r.acts = (r.st.wingBatches.map WingBatch.index).flatMap acts ∧
      ∀ k ∈ r.st.wingBatches.map WingBatch.index,
        BatchTurn p s ev k (batchLegs r.st k) (takenIn r.st k) (acts k)
  indices : ∀ k ∈ s.wingBatches.map WingBatch.index, k ∈ r.st.wingBatches.map WingBatch.index
  inTime : serviceActs r.acts ≠ [] → (p.noOrdersAfterSToSettle : ℚ) ≤ s.closeEpoch - ev.serverTs

section Turns

variable {p : V33Params} {s t : V33State} {ev : Event} {k : ℕ} {legs : List WingLeg}
  {taken : Bool} {acts : List V33Action}

/-- A leg stays as it is. -/
theorem StaysLeg.refl (ev : Event) (l : WingLeg) : StaysLeg ev l l := ⟨rfl, rfl, rfl, id, Or.inl⟩

/-- A batch is taken in both states or in none. -/
theorem AgreeOn.takenIn (h : AgreeOn k s t) : takenIn t k = takenIn s k := by
  rw [V33.takenIn, V33.takenIn, h.batch]

/-- The lock of a batch is at the floor in both states or in none. -/
theorem AgreeOn.lockAtFloor (h : AgreeOn k s t) {now : ℚ} (hfloor : LockAtFloor p t now k) :
    LockAtFloor p s now k := by
  obtain ⟨b, sd, ya, na, hb, hsd, hprices, hlock⟩ := hfloor
  rw [h.batch] at hb
  rw [h.prices] at hprices
  rw [h.legs] at hlock
  exact ⟨b, sd, ya, na, hb, hsd, hprices, hlock⟩

/-- A turn looks at its batch, at the legs and at the books. -/
theorem AgreeOn.turn (h : AgreeOn k s t) (hturn : BatchTurn p t ev k legs taken acts) :
    BatchTurn p s ev k legs taken acts := by
  have hmode : t.shakedown = s.shakedown := congrArg Window.shakedown h.window
  cases hturn with
  | idle stay flag => exact .idle (h.legs ▸ stay) (flag.trans h.takenIn)
  | take a action empty fresh flag orders sent =>
    exact .take a action (h.legs ▸ empty) (h.takenIn ▸ fresh) flag orders sent
  | retry asks w n floor sent before flag =>
    rw [h.legs, hmode]
    exact .retry asks w n (h.lockAtFloor floor) (h.legs ▸ sent) (h.takenIn ▸ before) flag

/-- Whether a batch is taken after an update is what the update says. -/
theorem takenIn_replaceBatch (f : WingBatch → WingBatch) (hindex : ∀ b, (f b).index = b.index)
    {b : WingBatch} (hb : batchOf s k = some b)
    (hst : t.wingBatches = replaceBatch s.wingBatches k f) : V33.takenIn t k = (f b).taken := by
  have hsame (c : WingBatch) (hc : (c.index == k) = true) : ((f c).index == k) = true := by
    rw [hindex]
    exact hc
  rw [V33.takenIn, batchOf, hst, replaceBatch, find?_replaceFirst_self hsame, show
    s.wingBatches.find? (fun c => c.index == k) = some b from hb]
  rfl

/-- The two legs of a take are the legs of its batch, which had none. -/
theorem batchLegs_taken {l m : WingLeg} (hempty : batchLegs s k = []) (hl : l.batch = k)
    (hm : m.batch = k) (hst : t.wingLegs = s.wingLegs ++ [l, m]) : batchLegs t k = [l, m] := by
  rw [batchLegs, hst, batchLegs_append, show s.wingLegs.filter (fun x => x.batch = k) =
    [] from hempty]
  simp [hl, hm]

/-- The turn of a batch that is served. -/
theorem turn_serveBatch
    (hempty : ∀ b, batchOf s k = some b → b.taken = false → batchLegs s k = [])
    (hgrid : ∀ b, batchOf s k = some b → qCount b.totalCount = b.totalCount) :
    BatchTurn p s ev k (batchLegs (serveBatch p ev.serverTs k s).st k)
      (V33.takenIn (serveBatch p ev.serverTs k s).st k) (serveBatch p ev.serverTs k s).acts := by
  have hidle : BatchTurn p s ev k (batchLegs s k) (V33.takenIn s k) [] :=
    .idle (List.forall₂_same.mpr fun l _ => StaysLeg.refl ev l) rfl
  have hserved := @servedBatch_serveBatch p ev.serverTs k s
  revert hserved
  generalize serveBatch p ev.serverTs k s = r
  intro hserved
  cases hserved with
  | quiet => exact hidle
  | take b sd ya na hb huntaken =>
    obtain rfl : b.index = k := batchOf_index hb
    have hlegs := @batchLegs_taken s (takeBatch p s b sd (sd + p.bucketWidth) ya na).st b.index _ _
      (hempty b hb huntaken) rfl rfl rfl
    rw [hlegs]
    refine .take _ ⟨takes_mk rfl rfl, retries_mk rfl rfl⟩ (hempty b hb huntaken) ?_ ?_ ?_ ?_
    · rw [V33.takenIn, hb]
      exact huntaken
    · exact takenIn_replaceBatch (fun b => { b with taken := true }) (fun _ => rfl) hb rfl
    · exact .cons ⟨rfl, rfl, rfl⟩ (.cons ⟨rfl, rfl, rfl⟩ .nil)
    · simp [sentLeg]
  | takePartial b sd hb huntaken =>
    obtain rfl : b.index = k := batchOf_index hb
    have hbefore : V33.takenIn s b.index = false := by
      rw [V33.takenIn, hb]
      exact huntaken
    have htake (acts : List V33Action) (n : ℕ) (sent missed : String) (side miss : Side)
        (limit : ℚ) (coid : String)
        (hacts : acts = [mk s.shakedown
          { kind := .takeWings, count := qCount b.totalCount,
            legs := [⟨sent, side, .buy, qCount b.totalCount, some limit⟩,
              ⟨missed, miss, .buy, qCount b.totalCount, none⟩] }])
        (u : V33State) (hu : u = { s with
          coidSeq := n
          wingLegs := s.wingLegs ++ [sentLeg sent side (qCount b.totalCount) limit coid b.index,
            deferredLeg missed miss (qCount b.totalCount) b.index]
          wingBatches := replaceBatch s.wingBatches b.index fun b => { b with taken := true } }) :
        BatchTurn p s ev b.index (batchLegs u b.index) (V33.takenIn u b.index) acts := by
      subst hu hacts
      rw [@batchLegs_taken s _ b.index _ _ (hempty b hb huntaken) rfl rfl rfl]
      refine .take _ ⟨takes_mk rfl rfl, retries_mk rfl rfl⟩ (hempty b hb huntaken) hbefore ?_ ?_ ?_
      · exact takenIn_replaceBatch (fun b => { b with taken := true }) (fun _ => rfl) hb rfl
      · exact .cons ⟨rfl, rfl, rfl⟩ (.cons ⟨rfl, rfl, rfl⟩ .nil)
      · simp [sentLeg, deferredLeg]
    unfold takeBatchPartial
    dsimp only
    split_ifs
    · split
      · exact htake _ _ _ _ _ _ _ _ rfl _ rfl
      · exact htake _ _ _ _ _ _ _ _ rfl _ rfl
      · exact hidle
    · exact hidle
  | retry b asks hb hasks =>
    obtain rfl : b.index = k := batchOf_index hb
    have hlock := floor_of_retryAsks hasks
    have htaken : b.taken = true := by
      unfold retryAsks at hasks
      split_ifs at hasks with hgate
      rw [not_or, not_or] at hgate
      simpa using hgate.2.2
    obtain ⟨hacts, hlegs⟩ := @retryBatch_spec p ev.serverTs s b asks hlock
    rw [hacts]
    refine .retry asks s.toWindow s.coidSeq ?_ ?_ ?_ ?_
    · unfold retryAsks at hasks
      split_ifs at hasks
      obtain ⟨sd, hsd, hasks⟩ := Option.bind_eq_some_iff.mp hasks
      rw [hgrid b hb] at hlock
      exact ⟨b, sd, asks.1, asks.2, hb, hsd, (Option.filter_eq_some_iff.mp hasks).1, hlock⟩
    · refine forall₂_batchLegs (fun l l' hl => ?_) hlegs b.index
      unfold RetriedLeg at hl
      split_ifs at hl
      · rw [hl.leg]
        rfl
      · rw [hl]
    · rw [V33.takenIn, hb]
      exact htaken
    · unfold retryBatch
      dsimp only
      split_ifs
      · rw [quiet_st, V33.takenIn, hb]
        exact htaken
      · rw [quiet_st, V33.takenIn, hb]
        exact htaken
      · obtain ⟨n, hn, -⟩ := @retryLegs_st p ev.serverTs b.index asks.1 asks.2 s.wingLegs s
        rw [hn]
        exact (takenIn_replaceBatch (fun x => { x with retries := b.retries +
          (retryLegs p b.index asks.1 asks.2 ev.serverTs s.wingLegs s).2.acts.length })
          (fun _ => rfl) hb rfl).trans htaken

/-- Batches that are not taken yet do not matter to a turn. -/
theorem Grown.takenIn (h : Grown s t) (k : ℕ) : V33.takenIn t k = V33.takenIn s k := by
  obtain ⟨more, hmore, huntaken⟩ := h.batches
  rw [V33.takenIn, V33.takenIn, batchOf, hmore, List.find?_append]
  unfold batchOf
  cases hs : s.wingBatches.find? fun b => b.index == k with
  | some b => rfl
  | none =>
    cases hm : more.find? fun b => b.index == k with
    | none => rfl
    | some b => exact huntaken b (List.mem_of_find?_eq_some hm)

/-- A taken batch stays as the batches grow. -/
theorem Grown.batchOf (h : Grown s t) (htaken : V33.takenIn s k = true) :
    batchOf t k = batchOf s k := by
  obtain ⟨more, hmore, -⟩ := h.batches
  rw [V33.batchOf, hmore, List.find?_append]
  unfold V33.takenIn V33.batchOf at htaken
  unfold V33.batchOf
  cases hs : s.wingBatches.find? fun b => b.index == k with
  | some b => rfl
  | none => simp [hs] at htaken

/-- The turn of a batch is the same before the batches grew. -/
theorem Grown.turn (h : Grown s t) (hturn : BatchTurn p t ev k legs taken acts) :
    BatchTurn p s ev k legs taken acts := by
  have hlegs : batchLegs t k = batchLegs s k := by rw [batchLegs, h.legs]; rfl
  have hmode : t.shakedown = s.shakedown := congrArg Window.shakedown h.window
  cases hturn with
  | idle stay flag => exact .idle (hlegs ▸ stay) (flag.trans (h.takenIn k))
  | take a action empty fresh flag orders sent =>
    exact .take a action (hlegs ▸ empty) (h.takenIn k ▸ fresh) flag orders sent
  | retry asks w n floor sent before flag =>
    rw [h.takenIn] at before
    have hagree : AgreeOn k s t := ⟨h.window, h.books, h.batchOf before, hlegs⟩
    rw [hlegs, hmode]
    exact .retry asks w n (hagree.lockAtFloor floor) (hlegs ▸ sent) before flag

/-- An update that keeps the index and the flag of a batch. -/
theorem takenIn_keep {f : WingBatch → WingBatch} (hindex : ∀ b, (f b).index = b.index)
    (htaken : ∀ b, (f b).taken = b.taken) {i : ℕ}
    (hst : t.wingBatches = replaceBatch s.wingBatches i f) (k : ℕ) :
    V33.takenIn t k = V33.takenIn s k := by
  by_cases hk : k = i
  · subst hk
    cases hb : V33.batchOf s k with
    | some b => rw [takenIn_replaceBatch f hindex hb hst, htaken, V33.takenIn, hb]; rfl
    | none =>
      have hsame : t.wingBatches = s.wingBatches :=
        hst.trans (replaceFirst_of_find?_none hb)
      rw [V33.takenIn, V33.takenIn, V33.batchOf, hsame]
      rfl
  · rw [V33.takenIn, V33.takenIn, V33.batchOf, hst, batchOf_replaceBatch_ne hk hindex]
    rfl

/-- What the cutoff leaves alone. -/
structure SameTaken (s t : V33State) : Prop where
  legs : t.wingLegs = s.wingLegs
  indices : t.wingBatches.map WingBatch.index = s.wingBatches.map WingBatch.index
  taken : ∀ k, V33.takenIn t k = V33.takenIn s k

/-- Two steps that take no batch take none together. -/
theorem SameTaken.trans {u : V33State} (h : SameTaken s t) (k : SameTaken t u) : SameTaken s u :=
  ⟨k.legs.trans h.legs, k.indices.trans h.indices, fun i => (k.taken i).trans (h.taken i)⟩

/-- The cutoff takes no batch. -/
theorem sameTaken_cutoffBatch {now : ℚ} (b : WingBatch) (s : V33State) :
    SameTaken s (cutoffBatch now b s).st := by
  have hmark (f : WingBatch → WingBatch) (hindex : ∀ b, (f b).index = b.index)
      (htaken : ∀ b, (f b).taken = b.taken) (u : V33State) (hlegs : u.wingLegs = s.wingLegs)
      (hu : u.wingBatches = replaceBatch s.wingBatches b.index f) : SameTaken s u := by
    refine ⟨hlegs, ?_, takenIn_keep hindex htaken hu⟩
    rw [hu]
    exact map_index_replaceBatch hindex s.wingBatches b.index
  unfold cutoffBatch
  split_ifs
  · exact ⟨rfl, rfl, fun _ => rfl⟩
  · exact hmark (fun b => { b with oneLegged := true, resolved := true }) (fun _ => rfl)
      (fun _ => rfl) _ rfl rfl
  · exact ⟨rfl, rfl, fun _ => rfl⟩
  · exact hmark (fun b => { b with oneLegged := true }) (fun _ => rfl) (fun _ => rfl) _ rfl rfl

/-- Serving batches keeps their indices. -/
theorem map_index_serveBatch {now : ℚ} (k : ℕ) (s : V33State) :
    (serveBatch p now k s).st.wingBatches.map WingBatch.index =
      s.wingBatches.map WingBatch.index := by
  have htaken (b : WingBatch) : ({ b with taken := true } : WingBatch).index = b.index := rfl
  have hserved := @servedBatch_serveBatch p now k s
  revert hserved
  generalize serveBatch p now k s = r
  intro hserved
  cases hserved with
  | quiet => rfl
  | take b sd ya na => exact map_index_replaceBatch htaken s.wingBatches b.index
  | takePartial b sd =>
    unfold takeBatchPartial
    dsimp only
    split_ifs
    · split
      · exact map_index_replaceBatch htaken s.wingBatches b.index
      · exact map_index_replaceBatch htaken s.wingBatches b.index
      · rfl
    · rfl
  | retry b asks =>
    obtain ⟨n, hn, -⟩ := @retryLegs_st p now b.index asks.1 asks.2 s.wingLegs s
    unfold retryBatch
    dsimp only
    split_ifs
    · rfl
    · rfl
    · rw [hn]
      exact map_index_replaceBatch (f := fun x => { x with retries := b.retries +
        (retryLegs p b.index asks.1 asks.2 now s.wingLegs s).2.acts.length })
        (fun _ => rfl) s.wingBatches b.index

/-- The wing step keeps the batches of the flushed state, and too late it sends nothing. -/
theorem wingStep_indices (s : V33State) (now : ℚ) :
    (wingStep p s now).st.wingBatches.map WingBatch.index =
      (coalesceFlush p s now).wingBatches.map WingBatch.index := by
  unfold wingStep
  dsimp only
  split_ifs
  · rfl
  · exact forEach_keeps (I := fun t => t.wingBatches.map WingBatch.index =
      (coalesceFlush p s now).wingBatches.map WingBatch.index)
      (fun b t ht => (sameTaken_cutoffBatch b t).indices.trans ht) _ rfl
  · exact forEach_keeps (I := fun t => t.wingBatches.map WingBatch.index =
      (coalesceFlush p s now).wingBatches.map WingBatch.index)
      (fun k t ht => (map_index_serveBatch k t).trans ht) _ rfl

/-- Past the cutoff the wings are not served. -/
theorem wingStep_late {now : ℚ} (s : V33State)
    (hlate : (s.closeEpoch : ℚ) - now < p.noOrdersAfterSToSettle) :
    (wingStep p s now).acts = [] ∧ SameTaken (coalesceFlush p s now) (wingStep p s now).st := by
  have hclose : (coalesceFlush p s now).closeEpoch = s.closeEpoch :=
    congrArg Window.closeEpoch (@grown_flush p now s).window
  unfold wingStep
  dsimp only
  rw [hclose]
  split_ifs
  · exact ⟨rfl, rfl, rfl, fun _ => rfl⟩
  · refine ⟨?_, ?_⟩
    · refine forEach_acts (Q := fun acts => acts = []) rfl ?_ quiet_cutoffBatch _ _
      rintro a b rfl rfl
      rfl
    · have hloop : SameTaken (coalesceFlush p s now) (forEach (coalesceFlush p s now).wingBatches
          (cutoffBatch now) (coalesceFlush p s now)).st :=
        forEach_keeps (fun b t ht => ht.trans (sameTaken_cutoffBatch b t)) _
          ⟨rfl, rfl, fun _ => rfl⟩
      exact hloop.trans ⟨rfl, rfl, fun _ => rfl⟩

/-! ### The turns of a phase -/

/-- A batch is found under each index in use. -/
theorem batchOf_of_index (hbatches : BatchesOk s) (hk : k ∈ s.wingBatches.map WingBatch.index) :
    ∃ b ∈ s.wingBatches, b.index = k ∧ V33.batchOf s k = some b := by
  obtain ⟨b, hb, rfl⟩ := List.mem_map.mp hk
  exact ⟨b, hb, rfl, batchOf_of_mem hbatches hb⟩

/-- Batches that are left alone. -/
theorem stepTurns_idle {r : Outcome} (hacts : serviceActs r.acts = [])
    (hlegs : ∀ k, List.Forall₂ (StaysLeg ev) (batchLegs s k) (batchLegs r.st k))
    (htaken : ∀ k, V33.takenIn r.st k = V33.takenIn s k)
    (hindices : ∀ k ∈ s.wingBatches.map WingBatch.index,
      k ∈ r.st.wingBatches.map WingBatch.index) : StepTurns p s ev r where
  turns := by
    refine ⟨fun _ => [], ?_, fun k _ => .idle (hlegs k) (htaken k)⟩
    rw [hacts]
    simp
  indices := hindices
  inTime h := absurd hacts h

/-- In a phase every batch has its turn. -/
theorem stepTurns_phase {r : Outcome} (h : WingPhase p ev.serverTs s r)
    (hbatches : BatchesOk s) (hpairs : PairsOk s) : StepTurns p s ev r := by
  have hstay (legs : List WingLeg) : List.Forall₂ (StaysLeg ev) legs legs :=
    List.forall₂_same.mpr fun l _ => StaysLeg.refl ev l
  cases h with
  | still silent =>
    refine stepTurns_idle silent.acts (fun k => ?_) (fun k => ?_) fun k hk => ?_
    · rw [batchLegs, batchLegs, silent.same.legs]
      exact hstay _
    · rw [V33.takenIn, V33.takenIn, V33.batchOf, silent.same.batches]
      rfl
    · rw [silent.same.batches]
      exact hk
  | served u handed same hacts =>
    obtain ⟨hubatches, hupairs⟩ := handed.inOrder ⟨hbatches, hpairs⟩
    have hgrown : Grown s (coalesceFlush p u ev.serverTs) :=
      handed.toGrown.trans (grown_flush u)
    have hflush : BatchesOk (coalesceFlush p u ev.serverTs) := hubatches.flush
    have hflushPairs : PairsOk (coalesceFlush p u ev.serverTs) := hupairs.flush hubatches
    have hclose : u.closeEpoch = s.closeEpoch := congrArg Window.closeEpoch handed.window
    have hindices : r.st.wingBatches.map WingBatch.index =
        (coalesceFlush p u ev.serverTs).wingBatches.map WingBatch.index := by
      rw [same.batches]
      exact wingStep_indices u ev.serverTs
    have hkept : ∀ k ∈ s.wingBatches.map WingBatch.index,
        k ∈ r.st.wingBatches.map WingBatch.index := by
      intro k hk
      obtain ⟨more, hmore, -⟩ := hgrown.batches
      rw [hindices, hmore, List.map_append]
      exact List.mem_append_left _ hk
    have hlegs (k : ℕ) : batchLegs r.st k = batchLegs (wingStep p u ev.serverTs).st k := by
      rw [batchLegs, same.legs]
      rfl
    have htaken (k : ℕ) : V33.takenIn r.st k = V33.takenIn (wingStep p u ev.serverTs).st k := by
      rw [V33.takenIn, V33.batchOf, same.batches]
      rfl
    by_cases htime : (p.noOrdersAfterSToSettle : ℚ) ≤ u.closeEpoch - ev.serverTs
    · obtain ⟨hserved, hturns⟩ := wingStep_served hubatches htime
      refine ⟨⟨fun k => (serveBatch p ev.serverTs k (coalesceFlush p u ev.serverTs)).acts, ?_,
        fun k hk => ?_⟩, hkept, fun _ => hclose ▸ htime⟩
      · rw [hacts, hserved, hindices]
      · rw [hindices] at hk
        obtain ⟨b, hb, rfl, hfound⟩ := batchOf_of_index hflush hk
        obtain ⟨t, ht, hend⟩ := hturns b hb
        rw [hlegs, htaken, hend.legs, hend.takenIn]
        refine hgrown.turn (ht.turn ?_)
        dsimp only
        rw [← ht.acts]
        refine turn_serveBatch (fun c hc huntaken => ?_) fun c hc => ?_
        · obtain rfl : b = c := Option.some.inj (hfound.symm.trans (ht.batch.symm.trans hc))
          rw [ht.legs]
          exact hflushPairs.untaken b hb huntaken
        · obtain rfl : b = c := Option.some.inj (hfound.symm.trans (ht.batch.symm.trans hc))
          exact qCount_of_onGrid (hflush.totalCount_onGrid hb)
    · obtain ⟨hnone, hsame⟩ := wingStep_late (p := p) u (not_le.mp htime)
      refine stepTurns_idle (hacts.trans hnone) (fun k => ?_) (fun k => ?_) hkept
      · rw [hlegs, show batchLegs (wingStep p u ev.serverTs).st k = batchLegs s k by
          rw [batchLegs, hsame.legs, hgrown.legs]; rfl]
        exact hstay _
      · rw [htaken, hsame.taken, hgrown.takenIn]

/-! ### Answers of the legs -/

/-- The legs are at most answered, and no batch is taken. -/
structure LegsStay (ev : Event) (s t : V33State) : Prop where
  legs : List.Forall₂ (StaysLeg ev) s.wingLegs t.wingLegs
  indices : t.wingBatches.map WingBatch.index = s.wingBatches.map WingBatch.index
  taken : ∀ k, V33.takenIn t k = V33.takenIn s k
  triggers : s.printThroughTriggers = [] → t.printThroughTriggers = []

/-- A leg stays from step to step. -/
theorem StaysLeg.trans {l m n : WingLeg} (h : StaysLeg ev l m) (k : StaysLeg ev m n) :
    StaysLeg ev l n := by
  refine ⟨k.key.trans h.key, k.coid.trans h.coid, k.retry.trans h.retry,
    fun hn => h.pending (k.pending hn), fun hl => ?_⟩
  rcases h.answered hl with hm | hanswers
  · exact (k.answered hm).imp id fun hanswers => h.coid ▸ hanswers
  · exact Or.inr hanswers

/-- Legs stay as they are. -/
theorem LegsStay.refl (ev : Event) (s : V33State) : LegsStay ev s s :=
  ⟨List.forall₂_same.mpr fun l _ => StaysLeg.refl ev l, rfl, fun _ => rfl, id⟩

/-- Legs stay from step to step. -/
theorem LegsStay.trans {u : V33State} (h : LegsStay ev s t) (k : LegsStay ev t u) :
    LegsStay ev s u :=
  ⟨forall₂_trans (R := StaysLeg ev) (fun _ _ _ => StaysLeg.trans) h.legs k.legs,
    k.indices.trans h.indices,
    fun i => (k.taken i).trans (h.taken i), fun hs => k.triggers (h.triggers hs)⟩

/-- Legs stay when the wings are left alone. -/
theorem legsStay_ofWings (h : t.toWings = s.toWings) : LegsStay ev s t := by
  have hlegs : t.wingLegs = s.wingLegs := congrArg Wings.wingLegs h
  have hbatches : t.wingBatches = s.wingBatches := congrArg Wings.wingBatches h
  refine ⟨?_, ?_, fun k => ?_, fun hs => ?_⟩
  · rw [hlegs]
    exact (LegsStay.refl ev s).legs
  · rw [hbatches]
  · rw [V33.takenIn, V33.batchOf, hbatches]
    rfl
  · exact (congrArg Wings.printThroughTriggers h).trans hs

/-- Closing a set flags its batch. -/
theorem legsStay_closeSet (index : ℕ) (s : V33State) : LegsStay ev s (maybeCloseSet s index) := by
  have hlegs : List.Forall₂ (StaysLeg ev) s.wingLegs s.wingLegs := (LegsStay.refl ev s).legs
  have hflag (f : WingBatch → WingBatch) (hindex : ∀ b, (f b).index = b.index)
      (htaken : ∀ b, (f b).taken = b.taken) (u : V33State) (hu : u.wingLegs = s.wingLegs)
      (htriggers : s.printThroughTriggers = [] → u.printThroughTriggers = [])
      (hbatches : u.wingBatches = replaceBatch s.wingBatches index f) : LegsStay ev s u := by
    refine ⟨hu ▸ hlegs, ?_, takenIn_keep hindex htaken hbatches, htriggers⟩
    rw [hbatches]
    exact map_index_replaceBatch hindex s.wingBatches index
  have hsync : LegsStay ev s (syncWingMirrors s) := ⟨hlegs, rfl, fun _ => rfl, id⟩
  unfold maybeCloseSet
  split
  · exact hsync
  · split_ifs
    · exact hsync
    · exact hsync
    · refine hflag (fun b => { b with completed := true, oneLegged := false, resolved := true })
        (fun _ => rfl) (fun _ => rfl) _ rfl (fun hs => ?_) rfl
      show replaceFirst _ _ s.printThroughTriggers = []
      rw [hs]
      rfl
    · exact hflag (fun b => { b with completed := true, oneLegged := false })
        (fun _ => rfl) (fun _ => rfl) _ rfl id rfl

/-- Netting a leg answers nothing and sends nothing. -/
theorem legsStay_netLoop (coid : String) (now : ℚ) (fuel : ℕ) (s : V33State) :
    LegsStay ev s (netLoop coid now fuel s).st ∧
      serviceActs (netLoop coid now fuel s).acts = [] := by
  have hpair (l m : WingLeg) (lPrice mPrice q : ℚ) (u : V33State) :
      LegsStay ev u (netPair u l m lPrice mPrice q now).st ∧
        serviceActs (netPair u l m lPrice mPrice q now).acts = [] := by
    refine ⟨⟨?_, rfl, fun _ => rfl, id⟩, ?_⟩
    · refine List.forall₂_map_right_iff.mpr (List.forall₂_same.mpr fun x _ => ?_)
      split_ifs
      · exact ⟨rfl, rfl, rfl, id, Or.inl⟩
      · exact StaysLeg.refl ev x
    · unfold netPair serviceActs
      cases u.shakedown <;> simp [V33Action.takes, V33Action.retries, mk, twinKind]
  induction fuel generalizing s with
  | zero => exact ⟨LegsStay.refl ev s, rfl⟩
  | succ fuel ih =>
    have hquiet : LegsStay ev s s.quiet.st ∧ serviceActs s.quiet.acts = [] :=
      ⟨LegsStay.refl ev s, rfl⟩
    unfold netLoop
    split
    · exact hquiet
    · split_ifs
      · split
        · dsimp only
          split
          · exact hquiet
          · split_ifs
            · exact hquiet
            · obtain ⟨hstay, hacts⟩ := hpair _ _ _ _ _ s
              obtain ⟨hrest, hmore⟩ := ih (netPair s _ _ _ _ _ now).st
              refine ⟨hstay.trans hrest, ?_⟩
              rw [andThen_acts, serviceActs_append, hacts, hmore]
              rfl
        · exact hquiet
      · exact hquiet

/-- An answered leg. -/
theorem legsStay_answered {e : Fill} (f : WingLeg → WingLeg) (hkey : ∀ l, legKey (f l) = legKey l)
    (hcoid : ∀ l, (f l).clientOrderId = l.clientOrderId)
    (hretry : ∀ l, (f l).lastRetryTs = l.lastRetryTs) (hdone : ∀ l, (f l).status ≠ .pending)
    (s : V33State) : LegsStay (.fill e) s { s with
      wingLegs := replaceFirst (fun l => l.clientOrderId == e.clientOrderId) f s.wingLegs } := by
  refine ⟨forall₂_replaceFirst (StaysLeg.refl _) (fun l hl => ?_) _, rfl, fun _ => rfl, id⟩
  exact ⟨hkey l, hcoid l, hretry l, fun hpending => absurd hpending (hdone l),
    fun _ => Or.inr (beq_iff_eq.mp hl).symm⟩

/-- Without triggers the answer of a leg answers it and sends nothing. -/
theorem legsStay_applyWingFill (htriggers : s.printThroughTriggers = []) {leg : WingLeg} {e : Fill}
    {now : ℚ} {r : Outcome} (hr : applyWingFill p s leg e now = some r) :
    LegsStay (.fill e) s r.st ∧ serviceActs r.acts = [] := by
  unfold applyWingFill at hr
  dsimp only at hr
  split_ifs at hr
  · rw [Option.map_eq_some_iff] at hr
    obtain ⟨price, -, rfl⟩ := hr
    have hanswered := @legsStay_answered e (fun l => { l with
      status := .filled, fillPrice := some price, fillFee := some (fee price) })
      (fun _ => rfl) (fun _ => rfl) (fun _ => rfl) (by simp) s
    obtain ⟨hnetted, hacts⟩ := @legsStay_netLoop (.fill e) e.clientOrderId now 64 { s with
      wingLegs := replaceFirst (fun l => l.clientOrderId == e.clientOrderId) (fun l => { l with
        status := .filled, fillPrice := some price, fillFee := some (fee price) }) s.wingLegs }
    exact ⟨(hanswered.trans hnetted).trans (legsStay_closeSet leg.batch _), hacts⟩
  · have hmissed := @legsStay_answered e (fun l => { l with status := .unfilled })
      (fun _ => rfl) (fun _ => rfl) (fun _ => rfl) (by simp) s
    simp only [Option.some.injEq] at hr
    subst hr
    split
    · split_ifs
      · rw [ptFailClosed_of_no_triggers (hmissed.triggers htriggers)]
        exact ⟨hmissed, rfl⟩
      · exact ⟨hmissed.trans (legsStay_closeSet leg.batch _), rfl⟩
    · exact ⟨hmissed.trans (legsStay_closeSet leg.batch _), rfl⟩

/-- A step without service in which the legs stay is a step without turns. -/
theorem LegsStay.turns {r : Outcome} (h : LegsStay ev s r.st) (hacts : serviceActs r.acts = []) :
    StepTurns p s ev r := by
  refine stepTurns_idle hacts (fun k => ?_) h.taken fun k hk => h.indices ▸ hk
  exact forall₂_batchLegs (fun _ _ hl => congrArg Prod.fst hl.key) h.legs k

/-! ### The turns of a decision -/

/-- Without early takes every batch has its turn in a decision, on the state with its book. -/
theorem stepTurns_decide {st : V33State} (hcoids : CoidsOk st) (hbatches : BatchesOk st)
    (hpairs : PairsOk st) (htriggers : st.printThroughTriggers = []) (hpt : p.printThrough = false)
    (ev : Event) : StepTurns p (withBook st ev) ev (decideV33 p st ev) ∧
      (decideV33 p st ev).st.printThroughTriggers = [] := by
  obtain ⟨hwings, hfills⟩ : (withBook st ev).toWings = st.toWings ∧
      (withBook st ev).restFills = st.restFills := by
    unfold withBook
    split
    · next e =>
      obtain ⟨b, hb⟩ := foldBook_eq st e
      rw [hb]
      exact ⟨rfl, rfl⟩
    · exact ⟨rfl, rfl⟩
  cases hleg : answeredBy st ev with
  | none =>
    have hphase := wingPhase_decide hcoids htriggers hpt hleg
    refine ⟨stepTurns_phase hphase ?_ (hpairs.frame hwings), hphase.triggers ?_⟩
    · exact hbatches.frame hwings (hfills ▸ hbatches.fills)
    · exact (congrArg Wings.printThroughTriggers hwings).trans htriggers
  | some leg =>
    cases ev with
    | fill e =>
      have hclear : HandsOn st (clearCancelPending st e.orderId) :=
        (clearCancelPending_tidy st e.orderId).handsOn
      have hnone := hclear.grown.triggers.trans htriggers
      have hcompletes : ptApplyCompleteFill p (clearCancelPending st e.orderId) e e.serverTs =
          none := by
        unfold ptApplyCompleteFill
        rw [hnone]
        rfl
      have hdecided : decideV33 p st (.fill e) = (applyWingFill p (clearCancelPending st e.orderId)
          leg e e.serverTs).getD st.quiet := by
        show applyFill p st e e.serverTs = _
        unfold applyFill
        simp only [hcompletes]
        rw [show legOf (clearCancelPending st e.orderId) e.clientOrderId = some leg from hleg]
      rw [hdecided]
      cases hr : applyWingFill p (clearCancelPending st e.orderId) leg e e.serverTs with
      | none => exact ⟨(LegsStay.refl _ st).turns rfl, htriggers⟩
      | some r =>
        obtain ⟨hstay, hacts⟩ := legsStay_applyWingFill hnone hr
        exact ⟨((legsStay_ofWings hclear.wings).trans hstay).turns hacts, hstay.triggers hnone⟩
    | bookUpdate | trade | orderAck | orderAmended | orderCancelled | clockTick =>
      simp [answeredBy] at hleg

/-! ### The orders of a turn -/

/-- The resent legs are found pair by pair. -/
theorem resentOf_cons (l l' : WingLeg) (legs legs' : List WingLeg) :
    resentOf (l :: legs) (l' :: legs') =
      if l.status ≠ .pending ∧ l'.status = .pending then l :: resentOf legs legs'
      else resentOf legs legs' := by
  unfold resentOf
  rw [List.zip_cons_cons, List.filter_cons]
  split_ifs <;> simp_all

/-- Legs that stay are not sent again. -/
theorem resentOf_stay {legs' : List WingLeg} (h : List.Forall₂ (StaysLeg ev) legs legs') :
    resentOf legs legs' = [] := by
  induction h with
  | nil => rfl
  | cons hl _ ih => rw [resentOf_cons, ih, if_neg fun hq => hq.1 (hl.pending hq.2)]

/-- A leg due for a retry is unfilled. -/
theorem retryDue_status {now : ℚ} {l : WingLeg} (h : retryDue k now l = true) :
    l.status = .unfilled := by
  simp only [retryDue, Bool.and_eq_true, beq_iff_eq] at h
  exact h.1.2

/-- A leg due for a retry was last retried at least the interval ago. -/
theorem retryDue_spaced {now t : ℚ} {l : WingLeg} (h : retryDue k now l = true)
    (hlast : l.lastRetryTs = some t) : wingRetryMinIntervalMs ≤ (now - t) * 1000 := by
  simp only [retryDue, Bool.and_eq_true, hlast, decide_eq_true_eq] at h
  exact h.2

/-- A retry sends the legs that are due. -/
theorem resentOf_retried {now : ℚ} {asks : ℚ × ℚ} {w : Window} {n : ℕ} {legs' : List WingLeg}
    (h : List.Forall₂ (RetriedLeg p now asks w n k) legs legs') :
    resentOf legs legs' = legs.filter (retryDue k now) := by
  induction h with
  | nil => rfl
  | cons hl _ ih =>
    rw [resentOf_cons, ih]
    unfold RetriedLeg at hl
    split_ifs at hl with hdue
    · have hpending : (_ : WingLeg).status = .pending := congrArg WingLeg.status hl.leg
      rw [List.filter_cons_of_pos hdue, if_pos ⟨by rw [retryDue_status hdue]; decide, hpending⟩]
    · rw [List.filter_cons_of_neg hdue, hl, if_neg fun hq => hq.1 hq.2]

/-- The legs a turn sends again are due, and the projected lock is at the floor. -/
theorem BatchTurn.due (h : BatchTurn p s ev k legs taken acts) :
    ∀ l ∈ resentOf (batchLegs s k) legs, l ∈ batchLegs s k ∧
      retryDue k ev.serverTs l = true ∧ LockAtFloor p s ev.serverTs k := by
  intro l hl
  cases h with
  | idle stay =>
    rw [resentOf_stay stay] at hl
    simp at hl
  | take a action empty =>
    rw [empty] at hl
    simp [resentOf] at hl
  | retry asks w n floor sent =>
    rw [resentOf_retried sent, List.mem_filter] at hl
    exact ⟨hl.1, hl.2, floor⟩

/-- The retries of a turn are those of the legs it sends again. -/
theorem BatchTurn.retries (h : BatchTurn p s ev k legs taken acts) :
    List.Forall₂ (Resends s.shakedown) (acts.filter V33Action.retries)
      (resentOf (batchLegs s k) legs) := by
  cases h with
  | idle stay =>
    rw [resentOf_stay stay]
    exact List.Forall₂.nil
  | take a action empty =>
    rw [empty, List.filter_cons_of_neg (by simp [action.2])]
    exact List.Forall₂.nil
  | retry asks w n floor sent =>
    rw [resentOf_retried sent, List.filter_eq_self.mpr]
    · refine List.forall₂_map_left_iff.mpr (List.forall₂_same.mpr fun l _ => ?_)
      exact ⟨retryLimit p asks l, rfl⟩
    · intro a ha
      obtain ⟨l, -, rfl⟩ := List.mem_map.mp ha
      exact retries_resendOrder _ _ _

/-- The takes of a turn: one if it takes the batch, else none. -/
theorem BatchTurn.took (h : BatchTurn p s ev k legs taken acts) :
    ((taken && !V33.takenIn s k) = true →
        ∃ a, acts.filter V33Action.takes = [a] ∧ TakesLegs a legs) ∧
      ((taken && !V33.takenIn s k) = false → acts.filter V33Action.takes = []) := by
  cases h with
  | idle stay flag =>
    refine ⟨fun hnow => ?_, fun _ => rfl⟩
    rw [flag] at hnow
    simp at hnow
  | take a action empty fresh flag orders =>
    refine ⟨fun _ => ⟨a, List.filter_cons_of_pos action.1, orders⟩, fun hnow => ?_⟩
    rw [flag, fresh] at hnow
    simp at hnow
  | retry asks w n floor sent before flag =>
    refine ⟨fun hnow => ?_, fun _ => List.filter_eq_nil_iff.mpr fun a ha => ?_⟩
    · rw [before] at hnow
      simp at hnow
    · obtain ⟨l, -, rfl⟩ := List.mem_map.mp ha
      rw [show retryOrder p s.shakedown asks l = resendOrder _ l _ from rfl, takes_resendOrder]
      exact Bool.false_ne_true

/-- What becomes of a leg in the turn of its batch. -/
theorem BatchTurn.goesOn (h : BatchTurn p s ev k legs taken acts) {l : WingLeg}
    (hl : l ∈ batchLegs s k) : ∃ l' ∈ legs, legKey l' = legKey l ∧ (l.status = .pending →
      Answers ev l.clientOrderId ∨ l'.status = .pending ∧ l'.clientOrderId = l.clientOrderId) := by
  cases h with
  | idle stay =>
    obtain ⟨l', hl', hstay⟩ := exists_of_forall₂ stay.flip hl
    exact ⟨l', hl', StaysLeg.key hstay, fun hpending =>
      ((StaysLeg.answered hstay hpending).imp (fun hp => ⟨hp, StaysLeg.coid hstay⟩) id).symm⟩
  | take a action empty => simp [empty] at hl
  | retry asks w n floor sent =>
    obtain ⟨l', hl', hsent⟩ := exists_of_forall₂ sent.flip hl
    have hretried : RetriedLeg p ev.serverTs asks w n k l l' := hsent
    unfold RetriedLeg at hretried
    split_ifs at hretried with hdue
    · refine ⟨l', hl', ?_, fun hpending => ?_⟩
      · rw [hretried.leg]
        rfl
      · rw [retryDue_status hdue] at hpending
        cases hpending
    · subst hretried
      exact ⟨l', hl', rfl, fun hpending => Or.inr ⟨hpending, rfl⟩⟩

/-- Where a leg of a turn comes from: its batch had no legs, or it was the leg of that name. -/
theorem BatchTurn.comesFrom (h : BatchTurn p s ev k legs taken acts) {l' : WingLeg}
    (hl' : l' ∈ legs) :
    batchLegs s k = [] ∧ (l'.status = .pending ∨ l'.clientOrderId = "") ∨
      ∃ l ∈ batchLegs s k, legKey l = legKey l' ∧
        (l'.clientOrderId = l.clientOrderId ∧ l'.lastRetryTs = l.lastRetryTs ∧
            l ∉ resentOf (batchLegs s k) legs ∨
          l'.status = .pending ∧ l'.lastRetryTs = some ev.serverTs ∧
            retryDue k ev.serverTs l = true) := by
  cases h with
  | idle stay =>
    obtain ⟨l, hl, hstay⟩ := exists_of_forall₂ stay hl'
    refine Or.inr ⟨l, hl, hstay.key.symm, Or.inl ⟨hstay.coid, hstay.retry, ?_⟩⟩
    rw [resentOf_stay stay]
    simp
  | take a action empty fresh flag orders sent => exact Or.inl ⟨empty, sent l' hl'⟩
  | retry asks w n floor sent =>
    obtain ⟨l, hl, hretried⟩ := exists_of_forall₂ sent hl'
    refine Or.inr ⟨l, hl, ?_⟩
    rw [resentOf_retried sent]
    unfold RetriedLeg at hretried
    split_ifs at hretried with hdue
    · rw [hretried.leg]
      exact ⟨rfl, Or.inr ⟨rfl, rfl, hdue⟩⟩
    · subst hretried
      exact ⟨rfl, Or.inl ⟨rfl, rfl, fun hmem => hdue (List.mem_filter.mp hmem).2⟩⟩

end Turns

end Pilot.V33
