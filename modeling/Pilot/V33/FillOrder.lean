import Pilot.V33.WingSteps
import Pilot.V33.Runs

/-!
# The order of the fills in a group

The fills of one group become one batch, and the wings are sized and priced on the batch. So
the order in which those fills were booked changes no order of the wings: states that differ
only in it stay so, and send the same actions, in every run of the wings.
-/

namespace Pilot.V33

/-! ### States that differ in the order of fills -/

/-- The marks of a service on a batch: whether it is taken, and its retries. -/
def WingBatch.mark (g : Bool → ℕ → Bool × ℕ) (b : WingBatch) : WingBatch :=
  { b with taken := (g b.taken b.retries).1, retries := (g b.taken b.retries).2 }

/-- The state after the batch of an index was served. -/
def servedState (s : V33State) (k : ℕ) (legs : List WingLeg) (g : Bool → ℕ → Bool × ℕ) (n : ℕ) :
    V33State :=
  { s with
    wingLegs := legs
    wingBatches := replaceBatch s.wingBatches k (WingBatch.mark g)
    coidSeq := n }

/-- Batches that are the same but for the order of their fills. -/
def BatchAlike (b c : WingBatch) : Prop :=
  ∃ fills : List RungFill, c = { b with fills := fills } ∧ fills.Perm b.fills ∧
    fillsBucket fills = fillsBucket b.fills

/-- Open groups that are the same but for the order of their fills. -/
def GroupAlike (g k : CoalesceGroup) : Prop :=
  ∃ fills : List RungFill, k = { g with fills := fills } ∧ fills.Perm g.fills ∧
    fillsBucket fills = fillsBucket g.fills

/-- States in which the wings are served alike: what a service reads is the same, but for the
order of the fills in a batch or in the open group. -/
structure ServedAlike (s t : V33State) : Prop where
  window : t.toWindow = s.toWindow
  books : t.toBooks = s.toBooks
  legs : t.wingLegs = s.wingLegs
  seq : t.coidSeq = s.coidSeq
  next : t.nextBatchIndex = s.nextBatchIndex
  group : Option.Rel GroupAlike s.coalesceOpen t.coalesceOpen
  batches : List.Forall₂ BatchAlike s.wingBatches t.wingBatches

/-- Outcomes with the same actions, in states in which the wings are served alike. -/
structure ActsAlike (r q : Outcome) : Prop where
  acts : q.acts = r.acts
  st : ServedAlike r.st q.st

/-- Related options are both empty, or hold related values. -/
theorem optionRel_cases {α β : Type} {R : α → β → Prop} {x : Option α} {y : Option β}
    (h : Option.Rel R x y) :
    (x = none ∧ y = none) ∨ ∃ a b, x = some a ∧ y = some b ∧ R a b := by
  cases h with
  | some hab => exact Or.inr ⟨_, _, rfl, rfl, hab⟩
  | none => exact Or.inl ⟨rfl, rfl⟩

/-- The bucket of two lists of fills is the first one known. -/
theorem fillsBucket_append (fills more : List RungFill) :
    fillsBucket (fills ++ more) = (fillsBucket fills).or (fillsBucket more) :=
  List.findSome?_append

section Service

variable {p : V33Params} {now : ℚ} {s t : V33State}

/-- A batch is like itself. -/
theorem BatchAlike.refl (b : WingBatch) : BatchAlike b b :=
  ⟨b.fills, rfl, List.Perm.refl _, rfl⟩

/-- Batches that are alike have one index. -/
theorem BatchAlike.index {b c : WingBatch} (h : BatchAlike b c) : c.index = b.index := by
  obtain ⟨fills, rfl, -⟩ := h
  rfl

/-- An update that neither reads nor changes the fills keeps batches alike. -/
theorem BatchAlike.map {b c : WingBatch} (h : BatchAlike b c) {f : WingBatch → WingBatch}
    (hf : ∀ b fills, f { b with fills := fills } = { f b with fills := fills })
    (hfills : ∀ b, (f b).fills = b.fills) : BatchAlike (f b) (f c) := by
  obtain ⟨fills, rfl, hperm, hbucket⟩ := h
  refine ⟨fills, hf b fills, ?_, ?_⟩
  · rw [hfills]
    exact hperm
  · rw [hfills]
    exact hbucket

/-- A group is like itself. -/
theorem GroupAlike.refl (g : CoalesceGroup) : GroupAlike g g :=
  ⟨g.fills, rfl, List.Perm.refl _, rfl⟩

/-- A state serves its wings like itself. -/
theorem ServedAlike.refl (s : V33State) : ServedAlike s s := by
  have hgroup : Option.Rel GroupAlike s.coalesceOpen s.coalesceOpen := by
    cases s.coalesceOpen with
    | none => exact Option.Rel.none
    | some g => exact Option.Rel.some (GroupAlike.refl g)
  exact ⟨rfl, rfl, rfl, rfl, rfl, hgroup, List.forall₂_same.mpr fun b _ => BatchAlike.refl b⟩

/-- Doing nothing acts alike. -/
theorem ServedAlike.quiet (h : ServedAlike s t) : ActsAlike s.quiet t.quiet := ⟨rfl, h⟩

/-- Two parts that act alike act alike one after the other. -/
theorem ActsAlike.andThen {r q : Outcome} {f g : V33State → Outcome} (h : ActsAlike r q)
    (hnext : ∀ {s t}, ServedAlike s t → ActsAlike (f s) (g t)) :
    ActsAlike (r.andThen f) (q.andThen g) := by
  have hrest : ActsAlike (f r.st) (g q.st) := hnext h.st
  refine ⟨?_, hrest.st⟩
  rw [Outcome.andThen, Outcome.andThen, h.acts, hrest.acts]

/-- Re-deriving the mirrors keeps the states alike. -/
theorem ServedAlike.sync (h : ServedAlike s t) :
    ServedAlike (syncWingMirrors s) (syncWingMirrors t) :=
  ⟨h.window, h.books, h.legs, h.seq, h.next, h.group, h.batches⟩

/-- Marking a trigger resolved keeps the states alike. -/
theorem ServedAlike.marked (h : ServedAlike s t) (k : ℕ) (resolution : Resolution)
    (ts : Option ℚ) :
    ServedAlike (ptMarkResolution s k resolution ts) (ptMarkResolution t k resolution ts) :=
  ⟨h.window, h.books, h.legs, h.seq, h.next, h.group, h.batches⟩

/-- An update at one index of lists that pair entry by entry. -/
theorem replaceBatch_alike {f : WingBatch → WingBatch}
    (hf : ∀ b fills, f { b with fills := fills } = { f b with fills := fills })
    (hfills : ∀ b, (f b).fills = b.fills) {bs cs : List WingBatch}
    (h : List.Forall₂ BatchAlike bs cs) (k : ℕ) :
    List.Forall₂ BatchAlike (replaceBatch bs k f) (replaceBatch cs k f) := by
  unfold replaceBatch
  induction h with
  | nil => exact List.Forall₂.nil
  | @cons b c bs cs hbc hrest ih =>
    unfold replaceFirst
    rw [hbc.index]
    split_ifs
    · exact List.Forall₂.cons (hbc.map hf hfills) hrest
    · exact List.Forall₂.cons hbc ih

/-- Writing the served batch back keeps the states alike. -/
theorem ServedAlike.served (h : ServedAlike s t) (k : ℕ) (legs : List WingLeg)
    (g : Bool → ℕ → Bool × ℕ) (n : ℕ) :
    ServedAlike (servedState s k legs g n) (servedState t k legs g n) :=
  ⟨h.window, h.books, rfl, rfl, h.next, h.group,
    replaceBatch_alike (f := WingBatch.mark g) (fun _ _ => rfl) (fun _ => rfl) h.batches k⟩

/-- Re-deriving the mirrors keeps the outcomes alike. -/
theorem ActsAlike.sync {r q : Outcome} (h : ActsAlike r q) :
    ActsAlike (r.mapSt syncWingMirrors) (q.mapSt syncWingMirrors) :=
  ⟨h.acts, h.st.sync⟩

/-- Outcomes that changed the legs, marks and ids alike. -/
theorem ServedAlike.actsAlike (h : ServedAlike s t) {k : ℕ} {r q : Outcome}
    (hrq : ∃ legs g n acts, r = ⟨servedState s k legs g n, acts⟩ ∧
      q = ⟨servedState t k legs g n, acts⟩) : ActsAlike r q := by
  obtain ⟨legs, g, n, acts, rfl, rfl⟩ := hrq
  exact ⟨rfl, h.served k legs g n⟩

/-- Batches that pair entry by entry are found together. -/
theorem find?_alike {bs cs : List WingBatch} (h : List.Forall₂ BatchAlike bs cs) (k : ℕ) :
    Option.Rel BatchAlike (bs.find? fun b => b.index == k) (cs.find? fun c => c.index == k) := by
  induction h with
  | nil => exact Option.Rel.none
  | @cons b c bs cs hbc _ ih =>
    rw [List.find?_cons, List.find?_cons, hbc.index]
    split
    · exact Option.Rel.some hbc
    · exact ih

/-- The batches found under an index are alike. -/
theorem ServedAlike.batchOf (h : ServedAlike s t) (k : ℕ) :
    Option.Rel BatchAlike (V33.batchOf s k) (V33.batchOf t k) := find?_alike h.batches k

/-- Lists of batches that are alike have the same indices. -/
theorem indices_alike {bs cs : List WingBatch} (h : List.Forall₂ BatchAlike bs cs) :
    cs.map WingBatch.index = bs.map WingBatch.index := by
  induction h with
  | nil => rfl
  | cons hbc _ ih => rw [List.map_cons, List.map_cons, hbc.index, ih]

/-! ### Booking the fills of a group -/

/-- Closing the open group keeps the states alike. -/
theorem ServedAlike.flush (h : ServedAlike s t) (now : ℚ) :
    ServedAlike (coalesceFlush p s now) (coalesceFlush p t now) := by
  unfold coalesceFlush
  obtain ⟨hs, ht⟩ | ⟨g, k, hs, ht, fills, rfl, hperm, hbucket⟩ := optionRel_cases h.group
  · rw [hs, ht]
    exact h
  · have hnew : BatchAlike (batchOfGroup g) (batchOfGroup { g with fills := fills }) := by
      refine ⟨fills, ?_, hperm, hbucket⟩
      unfold batchOfGroup
      rw [← hbucket]
    have hexpired : groupExpired p { g with fills := fills } now = groupExpired p g now := rfl
    rw [hs, ht]
    dsimp only
    rw [hexpired]
    split_ifs
    · exact ⟨h.window, h.books, h.legs, h.seq, h.next, Option.Rel.none,
        List.rel_append h.batches (List.Forall₂.cons hnew List.Forall₂.nil)⟩
    · exact h

/-- Adding one fill to both open groups keeps the states alike. -/
theorem ServedAlike.add (h : ServedAlike s t) (rf : RungFill) (now : ℚ) :
    ServedAlike (coalesceAdd p s rf now) (coalesceAdd p t rf now) := by
  have hflush : ServedAlike (coalesceFlush p s now) (coalesceFlush p t now) := h.flush now
  unfold coalesceAdd
  dsimp only
  generalize coalesceFlush p s now = s' at hflush ⊢
  generalize coalesceFlush p t now = t' at hflush ⊢
  obtain ⟨hs, ht⟩ | ⟨g, k, hs, ht, fills, rfl, hperm, hbucket⟩ := optionRel_cases hflush.group
  · rw [hs, ht]
    dsimp only
    rw [hflush.next]
    exact ⟨hflush.window, hflush.books, hflush.legs, hflush.seq, rfl,
      Option.Rel.some (GroupAlike.refl _), hflush.batches⟩
  · have hmore : fillsBucket (fills ++ [rf]) = fillsBucket (g.fills ++ [rf]) := by
      rw [fillsBucket_append, fillsBucket_append, hbucket]
    rw [hs, ht]
    exact ⟨hflush.window, hflush.books, hflush.legs, hflush.seq, hflush.next,
      Option.Rel.some ⟨fills ++ [rf], rfl, hperm.append_right [rf], hmore⟩, hflush.batches⟩

/-- Book fills one after the other at one time. -/
def bookFills (p : V33Params) (st : V33State) (now : ℚ) (fills : List RungFill) : V33State :=
  fills.foldl (fun st rf => coalesceAdd p st rf now) st

/-- The open group of a flushed state has not expired. -/
theorem groupExpired_flush {g : CoalesceGroup}
    (h : (coalesceFlush p s now).coalesceOpen = some g) : groupExpired p g now = false := by
  unfold coalesceFlush at h
  cases hopen : s.coalesceOpen with
  | none =>
    rw [hopen] at h
    dsimp only at h
    rw [hopen] at h
    cases h
  | some k =>
    rw [hopen] at h
    dsimp only at h
    split_ifs at h with hexpired
    rw [hopen] at h
    cases h
    simpa using hexpired

/-- A group opened now has not expired, unless the window is negative. -/
theorem groupExpired_opened (hwindow : 0 ≤ p.wingCoalesceMs) (k : ℕ) (fills : List RungFill)
    (now : ℚ) : groupExpired p ⟨k, now, fills⟩ now = false := by
  have hwindow' : (0 : ℚ) ≤ p.wingCoalesceMs := by exact_mod_cast hwindow
  have hms : (0 : ℚ) ≤ (p.wingCoalesceMs : ℚ) / 1000 := by positivity
  simpa [groupExpired] using hms

/-- Fills booked into a group that has not expired are appended to it. -/
theorem bookFills_open {g : CoalesceGroup} (hopen : s.coalesceOpen = some g)
    (hlive : groupExpired p g now = false) (fills : List RungFill) :
    bookFills p s now fills =
      { s with coalesceOpen := some { g with fills := g.fills ++ fills } } := by
  induction fills generalizing s g with
  | nil =>
    rw [List.append_nil, ← hopen]
    rfl
  | cons rf fills ih =>
    have hflush : coalesceFlush p s now = s := by
      unfold coalesceFlush
      rw [hopen]
      simp [hlive]
    have hadd : coalesceAdd p s rf now =
        { s with coalesceOpen := some { g with fills := g.fills ++ [rf] } } := by
      unfold coalesceAdd
      rw [hflush]
      dsimp only
      rw [hopen]
    have hopened : (coalesceAdd p s rf now).coalesceOpen =
        some { g with fills := g.fills ++ [rf] } := by rw [hadd]
    have hrest := ih hopened hlive
    rw [List.append_assoc, List.singleton_append] at hrest
    refine hrest.trans ?_
    rw [hadd]

/-- Fills booked where no group is open make a new one. -/
theorem bookFills_new (hwindow : 0 ≤ p.wingCoalesceMs)
    (hopen : (coalesceFlush p s now).coalesceOpen = none) (rf : RungFill) (fills : List RungFill) :
    bookFills p s now (rf :: fills) =
      { coalesceFlush p s now with
        coalesceOpen := some ⟨(coalesceFlush p s now).nextBatchIndex, now, rf :: fills⟩
        nextBatchIndex := (coalesceFlush p s now).nextBatchIndex + 1 } := by
  have hadd : coalesceAdd p s rf now =
      { coalesceFlush p s now with
        coalesceOpen := some ⟨(coalesceFlush p s now).nextBatchIndex, now, [rf]⟩
        nextBatchIndex := (coalesceFlush p s now).nextBatchIndex + 1 } := by
    unfold coalesceAdd
    dsimp only
    rw [hopen]
  have hopened : (coalesceAdd p s rf now).coalesceOpen =
      some ⟨(coalesceFlush p s now).nextBatchIndex, now, [rf]⟩ := by rw [hadd]
  refine (bookFills_open hopened (groupExpired_opened hwindow _ _ now) fills).trans ?_
  rw [hadd]
  rfl

/-- Fills booked into the group a flush leaves open are appended to it. -/
theorem bookFills_more {g : CoalesceGroup} (hopen : (coalesceFlush p s now).coalesceOpen = some g)
    (rf : RungFill) (fills : List RungFill) :
    bookFills p s now (rf :: fills) =
      { coalesceFlush p s now with
        coalesceOpen := some { g with fills := g.fills ++ rf :: fills } } := by
  have hadd : coalesceAdd p s rf now =
      { coalesceFlush p s now with
        coalesceOpen := some { g with fills := g.fills ++ [rf] } } := by
    unfold coalesceAdd
    dsimp only
    rw [hopen]
  have hopened : (coalesceAdd p s rf now).coalesceOpen =
      some { g with fills := g.fills ++ [rf] } := by rw [hadd]
  have hlive : groupExpired p g now = false := groupExpired_flush hopen
  refine (bookFills_open hopened hlive fills).trans ?_
  rw [hadd, List.append_assoc, List.singleton_append]

/-- Fills booked at one time make alike groups in every order that names the same bucket. -/
theorem bookFills_alike (hwindow : 0 ≤ p.wingCoalesceMs) {xs ys : List RungFill}
    (hperm : ys.Perm xs) (hbucket : fillsBucket ys = fillsBucket xs) :
    ServedAlike (bookFills p s now xs) (bookFills p s now ys) := by
  cases xs with
  | nil =>
    rw [List.perm_nil.mp hperm]
    exact ServedAlike.refl _
  | cons x xs =>
    cases ys with
    | nil => exact absurd (List.nil_perm.mp hperm) (by simp)
    | cons y ys =>
      have hflush : ServedAlike (coalesceFlush p s now) (coalesceFlush p s now) :=
        ServedAlike.refl _
      cases hopen : (coalesceFlush p s now).coalesceOpen with
      | none =>
        rw [bookFills_new hwindow hopen, bookFills_new hwindow hopen]
        exact ⟨rfl, rfl, rfl, rfl, rfl, Option.Rel.some ⟨y :: ys, rfl, hperm, hbucket⟩,
          hflush.batches⟩
      | some g =>
        have hmore : fillsBucket (g.fills ++ y :: ys) = fillsBucket (g.fills ++ x :: xs) := by
          rw [fillsBucket_append, fillsBucket_append, hbucket]
        rw [bookFills_more hopen, bookFills_more hopen]
        exact ⟨rfl, rfl, rfl, rfl, rfl,
          Option.Rel.some ⟨g.fills ++ y :: ys, rfl, hperm.append_left g.fills, hmore⟩,
          hflush.batches⟩

/-! ### Taking and retrying -/

/-- The size of a batch does not depend on the order of its fills. -/
theorem totalCount_perm {b : WingBatch} {fills : List RungFill} (h : fills.Perm b.fills) :
    ({ b with fills := fills } : WingBatch).totalCount = b.totalCount :=
  (h.map RungFill.count).sum_eq

/-- The lock of a batch does not depend on the order of its fills. -/
theorem batchLock_perm {b : WingBatch} {fills : List RungFill} (h : fills.Perm b.fills)
    (wPaid : ℚ) : batchLock { b with fills := fills } wPaid = batchLock b wPaid :=
  (h.map fun f : RungFill => f.count * lockValue f.price wPaid).sum_eq

/-- The projected lock does not depend on the order of the fills. -/
theorem projectedLock_perm {b : WingBatch} {fills : List RungFill} (h : fills.Perm b.fills)
    (legs : List WingLeg) (ya na : ℚ) :
    projectedLock { b with fills := fills } legs ya na = projectedLock b legs ya na := by
  unfold projectedLock
  rw [totalCount_perm h]
  dsimp only
  rw [(h.map fun f : RungFill => (f.price + fee f.price) * f.count).sum_eq]

/-- Legs are sent again alike where the window and the minted ids agree. -/
theorem retryLegs_alike (index : ℕ) (ya na : ℚ) (legs : List WingLeg)
    (hwindow : t.toWindow = s.toWindow) (hseq : t.coidSeq = s.coidSeq) :
    (retryLegs p index ya na now legs t).1 = (retryLegs p index ya na now legs s).1 ∧
      (retryLegs p index ya na now legs t).2.acts = (retryLegs p index ya na now legs s).2.acts ∧
      ∃ n, (retryLegs p index ya na now legs s).2.st = { s with coidSeq := n } ∧
        (retryLegs p index ya na now legs t).2.st = { t with coidSeq := n } := by
  induction legs generalizing s t with
  | nil =>
    refine ⟨rfl, rfl, s.coidSeq, rfl, ?_⟩
    rw [← hseq]
    rfl
  | cons l legs ih =>
    unfold retryLegs
    split_ifs
    · obtain ⟨hlegs, hacts, n, hs, ht⟩ := @ih (mintCoid s).2 (mintCoid t).2 hwindow
        (congrArg (· + 1) hseq)
      have hcoid : (mintCoid t).1 = (mintCoid s).1 := by
        rw [mintCoid_fst, mintCoid_fst, hwindow, hseq]
      refine ⟨?_, ?_, n, ?_, ?_⟩
      · dsimp only
        rw [hlegs, hcoid]
      · dsimp only
        rw [hacts]
        simp only [mintCoid, hwindow]
      · dsimp only
        rw [hs]
        rfl
      · dsimp only
        rw [ht]
        rfl
    · obtain ⟨hlegs, hacts, n, hs, ht⟩ := @ih s t hwindow hseq
      refine ⟨?_, hacts, n, hs, ht⟩
      dsimp only
      rw [hlegs]

/-- A take is alike in states served alike. -/
theorem takeBatch_alike (h : ServedAlike s t) {b : WingBatch} {fills : List RungFill}
    (hperm : fills.Perm b.fills) (sd su : ℤ) (ya na : ℚ) :
    ActsAlike (takeBatch p s b sd su ya na)
      (takeBatch p t { b with fills := fills } sd su ya na) := by
  apply h.actsAlike
  refine ⟨_, fun _ retries => (true, retries), _, _, rfl, ?_⟩
  unfold takeBatch servedState
  simp only [totalCount_perm hperm, batchLock_perm hperm, strikeTicker, mintCoid, h.window,
    h.books, h.legs, h.seq]
  rfl

/-- The ask of a leg is the same in states that are alike. -/
theorem wingLegAsk_alike (h : ServedAlike s t) (strike : ℤ) (side : Side) :
    wingLegAsk p t strike side now = wingLegAsk p s strike side now := by
  unfold wingLegAsk
  rw [h.books]

/-- The prices of the wings are the same in states that are alike. -/
theorem wingPrices_alike (h : ServedAlike s t) (sd su : ℤ) :
    wingPricesForBucket p t sd su now = wingPricesForBucket p s sd su now := by
  unfold wingPricesForBucket strikeFeedAlive wingPrices
  rw [h.books]

/-- A partial take is alike in states served alike. -/
theorem takeBatchPartial_alike (h : ServedAlike s t) {b : WingBatch} {fills : List RungFill}
    (hperm : fills.Perm b.fills) (sd su : ℤ) :
    ActsAlike (takeBatchPartial p s b sd su now)
      (takeBatchPartial p t { b with fills := fills } sd su now) := by
  have halive : strikeFeedAlive p t now = strikeFeedAlive p s now := by
    unfold strikeFeedAlive
    rw [h.books]
  unfold takeBatchPartial
  dsimp only
  rw [halive, wingLegAsk_alike h, wingLegAsk_alike h]
  split_ifs
  · split
    · apply h.actsAlike
      refine ⟨_, fun _ retries => (true, retries), _, _, rfl, ?_⟩
      unfold servedState
      simp only [totalCount_perm hperm, strikeTicker, mintCoid, h.window, h.books, h.legs, h.seq]
      rfl
    · apply h.actsAlike
      refine ⟨_, fun _ retries => (true, retries), _, _, rfl, ?_⟩
      unfold servedState
      simp only [totalCount_perm hperm, strikeTicker, mintCoid, h.window, h.books, h.legs, h.seq]
      rfl
    · exact h.quiet
  · exact h.quiet

/-- A retry is alike in states served alike. -/
theorem retryBatch_alike (h : ServedAlike s t) {b : WingBatch} {fills : List RungFill}
    (hperm : fills.Perm b.fills) (ya na : ℚ) :
    ActsAlike (retryBatch p s b ya na now)
      (retryBatch p t { b with fills := fills } ya na now) := by
  obtain ⟨hlegs, hacts, n, hs, ht⟩ :=
    @retryLegs_alike p now s t b.index ya na s.wingLegs h.window h.seq
  have hbatch : batchLegs t b.index = batchLegs s b.index := by
    unfold batchLegs
    rw [h.legs]
  unfold retryBatch
  dsimp only
  rw [totalCount_perm hperm, hbatch, projectedLock_perm hperm, h.legs, hlegs, hacts, hs, ht]
  split_ifs
  · exact h.quiet
  · exact h.quiet
  · exact h.actsAlike ⟨_, fun taken _ => (taken, b.retries +
      (retryLegs p b.index ya na now s.wingLegs s).2.acts.length), n, _, rfl, rfl⟩

/-- A batch takes the same legs, marks and ids in states served alike. -/
theorem serveBatch_alike (h : ServedAlike s t) (k : ℕ) :
    ActsAlike (serveBatch p now k s) (serveBatch p now k t) := by
  unfold serveBatch
  obtain ⟨hs, ht⟩ | ⟨b, c, hs, ht, fills, rfl, hperm, hbucket⟩ := optionRel_cases (h.batchOf k)
  · rw [hs, ht]
    exact h.quiet
  · have hsame : batchBucket { b with fills := fills } = batchBucket b := by
      unfold batchBucket
      rw [hbucket]
    rw [hs, ht]
    dsimp only
    rw [hsame]
    by_cases hended : b.completed = true ∨ b.printThrough = true
    · rw [if_pos hended, if_pos hended]
      exact h.quiet
    · rw [if_neg hended, if_neg hended]
      cases batchBucket b with
      | none => exact h.quiet
      | some sd =>
        dsimp only
        rw [wingPrices_alike h]
        cases wingPricesForBucket p s sd (sd + p.bucketWidth) now with
        | none =>
          dsimp only
          split_ifs
          · exact h.quiet
          · exact takeBatchPartial_alike h hperm _ _
        | some asks =>
          dsimp only
          split_ifs
          · exact retryBatch_alike h hperm _ _
          · exact takeBatch_alike h hperm _ _ _ _

/-! ### Closing and netting -/

/-- The filled wings of a batch are the same in states that are alike. -/
theorem wingsFilled_alike (h : ServedAlike s t) (k : ℕ) : wingsFilled t k = wingsFilled s k := by
  unfold wingsFilled batchLegs
  rw [h.legs]

/-- Batches flagged alike at one index keep the states alike. -/
theorem ServedAlike.flagged (h : ServedAlike s t) (f : WingBatch → WingBatch)
    (hf : ∀ b fills, f { b with fills := fills } = { f b with fills := fills })
    (hfills : ∀ b, (f b).fills = b.fills) (k : ℕ) (sets sets' : ℚ) :
    ServedAlike { s with setsDone := sets, wingBatches := replaceBatch s.wingBatches k f }
      { t with setsDone := sets', wingBatches := replaceBatch t.wingBatches k f } :=
  ⟨h.window, h.books, h.legs, h.seq, h.next, h.group, replaceBatch_alike hf hfills h.batches k⟩

/-- The cutoff acts alike. -/
theorem cutoffBatch_alike {b c : WingBatch} (hbc : BatchAlike b c) (h : ServedAlike s t) :
    ActsAlike (cutoffBatch now b s) (cutoffBatch now c t) := by
  obtain ⟨fills, rfl, -, -⟩ := hbc
  unfold cutoffBatch
  dsimp only
  rw [wingsFilled_alike h]
  split_ifs
  · exact h.quiet
  · exact ((h.flagged (fun b => { b with oneLegged := true, resolved := true })
      (fun _ _ => rfl) (fun _ => rfl) b.index s.setsDone t.setsDone).marked b.index .partialFill
        (some now)).quiet
  · exact h.quiet
  · exact (h.flagged (fun b => { b with oneLegged := true }) (fun _ _ => rfl) (fun _ => rfl)
      b.index s.setsDone t.setsDone).quiet

/-- Counting a completed set keeps the states alike. -/
theorem maybeCloseSet_alike (h : ServedAlike s t) (k : ℕ) :
    ServedAlike (maybeCloseSet s k) (maybeCloseSet t k) := by
  unfold maybeCloseSet
  obtain ⟨hs, ht⟩ | ⟨b, c, hs, ht, fills, rfl, hperm, -⟩ := optionRel_cases (h.batchOf k)
  · rw [hs, ht]
    exact h.sync
  · rw [hs, ht]
    dsimp only
    rw [wingsFilled_alike h, totalCount_perm hperm]
    split_ifs
    · exact h.sync
    · exact h.sync
    · exact ((h.flagged (fun b =>
        { b with completed := true, oneLegged := false, resolved := true }) (fun _ _ => rfl)
          (fun _ => rfl) k _ _).marked k .filled none).sync
    · exact (h.flagged (fun b => { b with completed := true, oneLegged := false })
        (fun _ _ => rfl) (fun _ => rfl) k _ _).sync

/-- Netting a pair acts alike. -/
theorem netPair_alike (h : ServedAlike s t) (l m : WingLeg) (lPrice mPrice q now : ℚ) :
    ActsAlike (netPair s l m lPrice mPrice q now) (netPair t l m lPrice mPrice q now) := by
  have hshakedown : t.shakedown = s.shakedown := congrArg Window.shakedown h.window
  unfold netPair
  constructor
  · dsimp only
    rw [hshakedown]
  · exact ⟨h.window, h.books, by dsimp only; rw [h.legs], h.seq, h.next, h.group, h.batches⟩

/-- The netting of a leg reads the legs only. -/
theorem netLoop_alike (coid : String) (now : ℚ) (fuel : ℕ) (h : ServedAlike s t) :
    ActsAlike (netLoop coid now fuel s) (netLoop coid now fuel t) := by
  induction fuel generalizing s t with
  | zero => exact h.quiet
  | succ fuel ih =>
    have hleg : legOf t coid = legOf s coid := by
      unfold legOf
      rw [h.legs]
    have hopposite (l : WingLeg) : oppositeLeg t l = oppositeLeg s l := by
      unfold oppositeLeg
      rw [h.legs]
    unfold netLoop
    rw [hleg]
    cases legOf s coid with
    | none => exact h.quiet
    | some l =>
      dsimp only
      rw [hopposite]
      split_ifs
      · cases l.fillPrice with
        | none => exact h.quiet
        | some lPrice =>
          cases oppositeLeg s l with
          | none => exact h.quiet
          | some m =>
            dsimp only
            cases m.fillPrice with
            | none => exact h.quiet
            | some mPrice =>
              dsimp only
              split_ifs
              · exact h.quiet
              · exact (netPair_alike h l m lPrice mPrice _ now).andThen fun h => ih h
      · exact h.quiet

/-! ### Runs of the wings -/

/-- A loop over lists that pair entry by entry, with a body that keeps states alike. -/
theorem forEach_alike {α : Type} {R : α → α → Prop} {body : α → V33State → Outcome}
    (hbody : ∀ {x y s t}, R x y → ServedAlike s t → ActsAlike (body x s) (body y t))
    {xs ys : List α} (hxy : List.Forall₂ R xs ys) (h : ServedAlike s t) :
    ActsAlike (forEach xs body s) (forEach ys body t) := by
  induction hxy generalizing s t with
  | nil => exact h.quiet
  | cons hx _ ih => exact (hbody hx h).andThen fun h => ih h

/-- The step of the wings acts alike. -/
theorem wingStep_alike (h : ServedAlike s t) (now : ℚ) :
    ActsAlike (wingStep p s now) (wingStep p t now) := by
  have hflush : ServedAlike (coalesceFlush p s now) (coalesceFlush p t now) := h.flush now
  unfold wingStep
  dsimp only
  generalize coalesceFlush p s now = s' at hflush ⊢
  generalize coalesceFlush p t now = t' at hflush ⊢
  have hempty : t'.wingBatches.isEmpty = s'.wingBatches.isEmpty := by
    rw [Bool.eq_iff_iff, List.isEmpty_iff_length_eq_zero, List.isEmpty_iff_length_eq_zero,
      hflush.batches.length_eq]
  have hclose : t'.closeEpoch = s'.closeEpoch := congrArg Window.closeEpoch hflush.window
  rw [hempty, hclose, indices_alike hflush.batches]
  split_ifs
  · exact hflush.sync.quiet
  · exact (forEach_alike (R := BatchAlike) cutoffBatch_alike hflush.batches hflush).sync
  · refine (forEach_alike ?_ (List.forall₂_same.mpr fun _ _ => rfl) hflush).sync
    rintro k _ s t rfl h
    exact serveBatch_alike h k

/-- What happens to the wings in a run: a fill is booked into the open group, the wing step
runs, a leg is netted, a set is closed, or the channels change the books and the legs. -/
inductive WingMove where
  | book (rf : RungFill) (now : ℚ)
  | step (now : ℚ)
  | net (coid : String) (now : ℚ)
  | close (index : ℕ)
  | hear (books : Books) (answer : List WingLeg → List WingLeg)

/-- One move of the wings. -/
def WingMove.run (p : V33Params) : WingMove → V33State → Outcome
  | book rf now, st => (coalesceAdd p st rf now).quiet
  | step now, st => wingStep p st now
  | net coid now, st => netWings st coid now
  | close index, st => (maybeCloseSet st index).quiet
  | hear books answer, st =>
    { st with toBooks := books, wingLegs := answer st.wingLegs }.quiet

/-- One move keeps states alike and sends the same. -/
theorem WingMove.alike (move : WingMove) (h : ServedAlike s t) :
    ActsAlike (move.run p s) (move.run p t) := by
  cases move with
  | book rf now => exact (h.add rf now).quiet
  | step now => exact wingStep_alike h now
  | net coid now => exact netLoop_alike coid now 64 h
  | close index => exact (maybeCloseSet_alike h index).quiet
  | hear books answer =>
    exact ⟨rfl, h.window, rfl, congrArg answer h.legs, h.seq, h.next, h.group, h.batches⟩

/-- The order in which the fills of a group were booked changes no order of the wings: whatever
happens to the wings later, the same actions are sent in the same order and the same legs are
held. -/
theorem wings_alike_of_perm (p : V33Params) (s : V33State) (now : ℚ) (xs ys : List RungFill)
    (hwindow : 0 ≤ p.wingCoalesceMs) (hperm : ys.Perm xs)
    (hbucket : fillsBucket ys = fillsBucket xs) (moves : List WingMove) :
    (forEach moves (WingMove.run p) (bookFills p s now ys)).acts =
        (forEach moves (WingMove.run p) (bookFills p s now xs)).acts ∧
      (forEach moves (WingMove.run p) (bookFills p s now ys)).st.wingLegs =
        (forEach moves (WingMove.run p) (bookFills p s now xs)).st.wingLegs := by
  have hbooked : ServedAlike (bookFills p s now xs) (bookFills p s now ys) :=
    bookFills_alike hwindow hperm hbucket
  have hrun : ActsAlike (forEach moves (WingMove.run p) (bookFills p s now xs))
      (forEach moves (WingMove.run p) (bookFills p s now ys)) := by
    refine forEach_alike ?_ (List.forall₂_same.mpr fun _ _ => rfl) hbooked
    rintro move _ s t rfl h
    exact move.alike h
  exact ⟨hrun.acts, hrun.st.legs⟩

end Service

/-- A fill of one lot on the bucket at 100. -/
def sampleRungFill (rung : ℤ) (price : ℚ) : RungFill :=
  ⟨rung, 5 / 100, price, 1, 1002, none, none, none, none, some "B100", some 100, some 200, false,
    some 1, false⟩

/-- Two fills booked in either order are hedged by the same actions. -/
theorem wings_alike_of_perm_sample :
    (forEach [.step 1003] (WingMove.run samplePolicy) (bookFills samplePolicy
        (after samplePolicy (sampleWindow samplePolicy) sampleOpening) 1002
        [sampleRungFill 1 (58 / 100), sampleRungFill 0 (59 / 100)])).acts =
      (forEach [.step 1003] (WingMove.run samplePolicy) (bookFills samplePolicy
        (after samplePolicy (sampleWindow samplePolicy) sampleOpening) 1002
        [sampleRungFill 0 (59 / 100), sampleRungFill 1 (58 / 100)])).acts :=
  (wings_alike_of_perm samplePolicy (after samplePolicy (sampleWindow samplePolicy) sampleOpening)
    1002 [sampleRungFill 0 (59 / 100), sampleRungFill 1 (58 / 100)]
    [sampleRungFill 1 (58 / 100), sampleRungFill 0 (59 / 100)] (by decide)
    (List.Perm.swap _ _ _) rfl [.step 1003]).1

end Pilot.V33
