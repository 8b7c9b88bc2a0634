import Pilot.V33.NettingRuns
import Pilot.V33.WingService

/-!
# The leg that is still missing

A batch with one leg filled and the other one missed goes on to pursue the missing leg. The
wing step asks for the books of both strikes before it retries, so the missing leg waits while
the book of the filled one does not price.
-/

namespace Pilot.V33

/-- The strike of the leg on a side, for a batch on the bucket `sd`. -/
def legStrike (p : V33Params) (sd : ℤ) (side : Side) : ℤ :=
  match side with
  | .yes => sd
  | .no => sd + p.bucketWidth

/-- The lock of the set a batch becomes once its missing leg fills at `ask`, fees included. -/
def completedLock (b : WingBatch) (filled missing : WingLeg) (ask : ℚ) : ℚ :=
  2 * b.totalCount - (b.fills.map fun f => (f.price + fee f.price) * f.count).sum -
    ((filled.paid + fee filled.paid) * filled.count + (ask + fee ask) * missing.count)

/-- A batch with one leg filled and the other one missed, where the missing leg's own book prices
on a live feed, the completed set is at the lock floor, the retry interval has passed and there
is time left. -/
structure Deferred (p : V33Params) (st : V33State) (now : ℚ) (b : WingBatch)
    (filled missing : WingLeg) (sd : ℤ) (ask : ℚ) : Prop where
  batch : b ∈ st.wingBatches
  taken : b.taken = true
  regular : b.printThrough = false
  held : filled ∈ batchLegs st b.index
  missed : missing ∈ batchLegs st b.index
  fill : filled.status = .filled
  miss : missing.status = .unfilled
  bucket : batchBucket b = some sd
  quoted : wingLegAsk p st (legStrike p sd missing.side) missing.side now = some ask
  alive : strikeFeedAlive p st now = true
  lock : p.lockFloor * b.totalCount ≤ completedLock b filled missing ask
  spaced : ∀ l ∈ batchLegs st b.index, ∀ t ∈ l.lastRetryTs,
    wingRetryMinIntervalMs ≤ (now - t) * 1000
  inTime : (p.noOrdersAfterSToSettle : ℚ) ≤ st.closeEpoch - now

/-- The wing step sends the leg again: it emits the order, and the leg waits under a new id. -/
def SendsAgain (p : V33Params) (st : V33State) (now : ℚ) (leg : WingLeg) : Prop :=
  ∃ limit coid, resendOrder st.shakedown leg limit ∈ (wingStep p st now).acts ∧
    leg.resent limit now coid ∈ (wingStep p st now).st.wingLegs

section Deferred

variable {p : V33Params} {st : V33State} {now : ℚ} {b : WingBatch} {filled missing : WingLeg}
  {sd : ℤ} {ask : ℚ}

/-- Both legs price together exactly if each prices on its own. -/
theorem wingPricesForBucket_eq_some (halive : strikeFeedAlive p st now = true) (su : ℤ)
    (ya na : ℚ) : wingPricesForBucket p st sd su now = some (ya, na) ↔
      wingLegAsk p st sd .yes now = some ya ∧ wingLegAsk p st su .no now = some na := by
  unfold wingPricesForBucket wingLegAsk wingPrices
  rw [if_pos halive]
  cases hsd : st.strikeTops.get? sd with
  | none => simp
  | some sdTop =>
    cases hsu : st.strikeTops.get? su with
    | none => simp
    | some suTop =>
      dsimp only
      cases hs : sdTop.suspect with
      | true => simp
      | false =>
        cases hs' : suTop.suspect with
        | true => simp
        | false =>
          cases hf : fresh now (st.strikeTs.get? sd) p.wingBookMaxAgeS with
          | false => simp
          | true =>
            cases hf' : fresh now (st.strikeTs.get? su) p.wingBookMaxAgeS with
            | false => simp
            | true =>
              cases hya : sdTop.yesAsk with
              | none => simp
              | some y =>
                cases hna : suTop.noAsk with
                | none => simp
                | some n =>
                  by_cases hy : 0 < y ∧ y ≤ 1 <;> by_cases hn : 0 < n ∧ n ≤ 1 <;>
                    simp [Option.filter, hy, hn]

/-- The pair of legs of the batch, in one order or the other. -/
theorem Deferred.pair (h : Deferred p st now b filled missing sd ask) (hpairs : PairsOk st) :
    filled.side ≠ missing.side ∧
      (batchLegs st b.index = [filled, missing] ∨ batchLegs st b.index = [missing, filled]) := by
  obtain ⟨l, m, heq, hside⟩ := hpairs.paired b h.batch h.taken
  have hne : filled ≠ missing := by
    rintro rfl
    have := h.fill.symm.trans h.miss
    cases this
  have hfilled := h.held
  have hmissing := h.missed
  rw [heq] at hfilled hmissing ⊢
  simp only [List.mem_cons, List.not_mem_nil, or_false] at hfilled hmissing
  rcases hfilled with rfl | rfl
  · rcases hmissing with rfl | rfl
    · exact absurd rfl hne
    · exact ⟨hside, Or.inl rfl⟩
  · rcases hmissing with rfl | rfl
    · exact ⟨hside.symm, Or.inr rfl⟩
    · exact absurd rfl hne

/-- The projected lock of the batch is that of the completed set, whatever the filled leg's
side asks. -/
theorem Deferred.projectedLock (h : Deferred p st now b filled missing sd ask)
    (hpairs : PairsOk st) (hbatches : BatchesOk st) {ya na : ℚ}
    (hask : askOf missing.side ya na = ask) :
    projectedLock b (batchLegs st b.index) ya na = completedLock b filled missing ask := by
  have hmem : filled ∈ st.wingLegs := List.mem_of_mem_filter h.held
  obtain ⟨paid, hpaid⟩ := Option.isSome_iff_exists.mp (hpairs.priced filled hmem h.fill)
  have hcount : qCount b.totalCount = b.totalCount :=
    qCount_of_onGrid (hbatches.totalCount_onGrid h.batch)
  unfold V33.projectedLock completedLock WingLeg.paid
  rw [hcount, hpaid, Option.getD_some]
  rcases (h.pair hpairs).2 with hlegs | hlegs
  · simp [hlegs, h.fill, h.miss, hpaid, hask]
  · simp only [hlegs, h.fill, h.miss, hpaid, hask, List.map_cons, List.map_nil, List.sum_cons,
      List.sum_nil, add_zero]
    rw [add_comm ((ask + fee ask) * missing.count)]

/-- The batch is retried at some asks exactly if it is not counted as complete and the filled
leg's book prices too. -/
theorem Deferred.retryAsks_isSome (h : Deferred p st now b filled missing sd ask)
    (hpairs : PairsOk st) (hbatches : BatchesOk st) :
    (retryAsks p st now b).isSome ↔ b.completed = false ∧
      (wingLegAsk p st (legStrike p sd filled.side) filled.side now).isSome := by
  obtain ⟨hside, -⟩ := h.pair hpairs
  have hboth (ya na : ℚ) := @wingPricesForBucket_eq_some p st now sd h.alive
      (sd + p.bucketWidth) ya na
  have hquoted := h.quoted
  have hprices : (∃ ya na, wingPricesForBucket p st sd (sd + p.bucketWidth) now = some (ya, na) ∧
      askOf missing.side ya na = ask) ↔
        (wingLegAsk p st (legStrike p sd filled.side) filled.side now).isSome := by
    rw [Option.isSome_iff_exists]
    cases hm : missing.side with
    | yes =>
      have hf : filled.side = .no := by
        cases hf : filled.side with
        | yes => exact absurd (hf.trans hm.symm) hside
        | no => rfl
      rw [hm] at hquoted
      simp only [hf, legStrike, askOf] at hquoted ⊢
      constructor
      · rintro ⟨ya, na, hpair, -⟩
        exact ⟨na, ((hboth ya na).mp hpair).2⟩
      · rintro ⟨na, hna⟩
        exact ⟨ask, na, (hboth ask na).mpr ⟨hquoted, hna⟩, rfl⟩
    | no =>
      have hf : filled.side = .yes := by
        cases hf : filled.side with
        | yes => rfl
        | no => exact absurd (hf.trans hm.symm) hside
      rw [hm] at hquoted
      simp only [hf, legStrike, askOf] at hquoted ⊢
      constructor
      · rintro ⟨ya, na, hpair, -⟩
        exact ⟨ya, ((hboth ya na).mp hpair).1⟩
      · rintro ⟨ya, hya⟩
        exact ⟨ya, ask, (hboth ya ask).mpr ⟨hya, hquoted⟩, rfl⟩
  rw [← hprices]
  unfold retryAsks
  cases hdone : b.completed with
  | true => simp
  | false =>
    rw [if_neg (by simp [h.regular, h.taken]), h.bucket, Option.bind_some]
    constructor
    · intro hsome
      obtain ⟨⟨ya, na⟩, hasks⟩ := Option.isSome_iff_exists.mp hsome
      obtain ⟨hpair, -⟩ := Option.filter_eq_some_iff.mp hasks
      refine ⟨rfl, ya, na, hpair, ?_⟩
      obtain ⟨hy, hn⟩ := (hboth ya na).mp hpair
      cases hm : missing.side with
      | yes =>
        rw [hm] at hquoted
        exact Option.some.inj (hy.symm.trans hquoted)
      | no =>
        rw [hm] at hquoted
        exact Option.some.inj (hn.symm.trans hquoted)
    · rintro ⟨-, ya, na, hpair, hask⟩
      rw [hpair]
      have hcount : qCount b.totalCount = b.totalCount :=
        qCount_of_onGrid (hbatches.totalCount_onGrid h.batch)
      simp [Option.filter, hcount, h.projectedLock hpairs hbatches hask, h.lock]

/-- A batch that stays as it was is retried or left alone by the wing step. -/
theorem Deferred.wingStep_legs (h : Deferred p st now b filled missing sd ask)
    (hbatches : BatchesOk st) :
    (∃ asks, retryAsks p st now b = some asks ∧
        (∀ l ∈ batchLegs st b.index, retryDue b.index now l = true →
          retryOrder p st.shakedown asks l ∈ (wingStep p st now).acts) ∧
        ∃ w n, List.Forall₂ (RetriedLeg p now asks w n b.index) (batchLegs st b.index)
          (batchLegs (wingStep p st now).st b.index)) ∨
      retryAsks p st now b = none ∧
        batchLegs (wingStep p st now).st b.index = batchLegs st b.index := by
  have hflush : AgreeOn b.index st (coalesceFlush p st now) := flush_agreeOn h.batch
  have hfound := batchOf_of_mem hbatches h.batch
  have hmem : b ∈ (coalesceFlush p st now).wingBatches :=
    List.mem_of_find?_eq_some (hflush.batch.trans hfound)
  obtain ⟨hacts, hserved⟩ := wingStep_served hbatches h.inTime
  obtain ⟨t, ht, hend⟩ := hserved b hmem
  have hagree : AgreeOn b.index st t := hflush.trans ht
  have hlegs := hend.legs
  rcases @serveBatch_taken p now t b.index b (hagree.batch.trans hfound) h.taken with
    ⟨asks, hasks, hretry⟩ | ⟨hnone, hquiet⟩
  · rw [hagree.retryAsks rfl] at hasks
    rw [hretry] at hlegs
    have hfloor := floor_of_retryAsks hasks
    rw [← hagree.legs] at hfloor
    obtain ⟨-, hforall⟩ := @retryBatch_spec p now t b asks hfloor
    refine Or.inl ⟨asks, hasks, fun l hl hdue => ?_, t.toWindow, t.coidSeq, ?_⟩
    · rw [hacts, List.mem_flatMap]
      refine ⟨b.index, List.mem_map_of_mem hmem, ?_⟩
      rw [← ht.acts, hretry, (retryBatch_spec b asks hfloor).1, hagree.legs, hagree.window]
      exact List.mem_map_of_mem (List.mem_filter.mpr ⟨hl, hdue⟩)
    · rw [hlegs, ← hagree.legs]
      refine forall₂_batchLegs (fun l l' hl => ?_) hforall b.index
      unfold RetriedLeg at hl
      split_ifs at hl
      · rw [hl.leg]
        rfl
      · rw [hl]
  · rw [hagree.retryAsks rfl] at hnone
    rw [hquiet] at hlegs
    exact Or.inr ⟨hnone, hlegs.trans hagree.legs⟩

/-- Neither leg of the batch waits for an answer. -/
theorem Deferred.not_pending (h : Deferred p st now b filled missing sd ask) (hpairs : PairsOk st)
    {l : WingLeg} (hl : l ∈ batchLegs st b.index) : l.status ≠ .pending := by
  have hboth : l = filled ∨ l = missing := by
    rcases (h.pair hpairs).2 with hpair | hpair
    · simpa [hpair] using hl
    · simpa [hpair, or_comm] using hl
  rcases hboth with rfl | rfl
  · rw [h.fill]
    exact fun heq => by cases heq
  · rw [h.miss]
    exact fun heq => by cases heq

theorem Deferred.due (h : Deferred p st now b filled missing sd ask) :
    retryDue b.index now missing = true := by
  have hbatch : missing.batch = b.index := by simpa using (List.mem_filter.mp h.missed).2
  unfold retryDue
  rw [hbatch, h.miss]
  cases hlast : missing.lastRetryTs with
  | none => simp
  | some t => simpa using h.spaced missing h.missed t hlast

/-- In every state reached the wing step sends the missing leg again exactly if the batch is
not counted as complete and the book of the filled leg prices as well. -/
theorem deferred_leg_pursued_iff {evs : List Event} (hrun : Reached p (fun _ _ => True) evs st)
    (h : Deferred p st now b filled missing sd ask) :
    SendsAgain p st now missing ↔ b.completed = false ∧
      (wingLegAsk p st (legStrike p sd filled.side) filled.side now).isSome := by
  obtain ⟨hbatches, hpairs⟩ := PairsOk.reached hrun
  rw [← h.retryAsks_isSome hpairs hbatches]
  rcases h.wingStep_legs hbatches with ⟨asks, hasks, hacts, w, n, hlegs⟩ | ⟨hnone, hlegs⟩
  · rw [hasks]
    refine iff_of_true ?_ rfl
    obtain ⟨l', hl', hretried⟩ := exists_of_forall₂ hlegs.flip h.missed
    have hsent : RetriedLeg p now asks w n b.index missing l' := hretried
    rw [RetriedLeg, if_pos h.due] at hsent
    refine ⟨retryLimit p asks missing, l'.clientOrderId, hacts missing h.missed h.due, ?_⟩
    rw [← hsent.leg]
    exact List.mem_of_mem_filter hl'
  · rw [hnone]
    refine iff_of_false ?_ (by simp)
    rintro ⟨limit, coid, -, hmem⟩
    have hin : missing.resent limit now coid ∈ batchLegs (wingStep p st now).st b.index :=
      List.mem_filter.mpr ⟨hmem, (List.mem_filter.mp h.missed).2⟩
    rw [hlegs] at hin
    exact h.not_pending hpairs hin rfl

end Deferred

/-! ### A missing leg -/

/-- A strike whose YES side nobody offers and nobody bids for. -/
def noOffer (ticker : String) (ts : ℚ) : Event :=
  .bookUpdate ⟨ticker, ⟨some (36 / 100), none, none, none, false⟩, ts, none⟩

/-- A rung fills while the upper strike has no offer: the lower wing is sent and fills, and the
upper one waits for its book. -/
def waitingRun : List Event :=
  sampleOpening ++
    [reportedFill "c-1" 1 (59 / 100) .no 1002 "B100", noOffer "S200" 1002, .clockTick 1003,
      reportedFill "c-3" 1 (70 / 100) .yes 1003 "S100"]

/-- The upper strike is offered again, and the order for the missing leg misses. -/
def missedRun : List Event :=
  waitingRun ++ [centBook "S200" 50 52 1004, reportedFill "c-4" 0 (50 / 100) .no 1004 "S200"]

/-- The lower strike is no longer offered, then the upper one is offered again. -/
def hiddenRun : List Event := waitingRun ++ [noOffer "S100" 1004, centBook "S200" 50 52 1004]

/-- The missing leg of the sample is sent again once its order has missed. -/
theorem deferred_leg_pursued_sample :
    ∃ leg ∈ (after plainPolicy (sampleWindow plainPolicy) missedRun).wingLegs,
      SendsAgain plainPolicy (after plainPolicy (sampleWindow plainPolicy) missedRun) 1005 leg := by
  have hdeferred : Deferred plainPolicy
      (after plainPolicy (sampleWindow plainPolicy) missedRun) 1005
      ((after plainPolicy (sampleWindow plainPolicy) missedRun).wingBatches.head
      (by decide +kernel))
      ((after plainPolicy (sampleWindow plainPolicy) missedRun).wingLegs.head (by decide +kernel))
      ((after plainPolicy (sampleWindow plainPolicy) missedRun).wingLegs.getLast
      (by decide +kernel))
      100 (50 / 100) :=
    ⟨by decide +kernel, by decide +kernel, by decide +kernel, by decide +kernel,
      by decide +kernel, by decide +kernel, by decide +kernel, by decide +kernel,
      by decide +kernel, by decide +kernel, by decide +kernel, by decide +kernel,
      by decide +kernel⟩
  exact ⟨_, List.getLast_mem _, (deferred_leg_pursued_iff (reached_sample
    (allAlong_of_forall fun _ _ _ => trivial)) hdeferred).mpr ⟨by decide +kernel,
      by decide +kernel⟩⟩

/-- The leg of the upper strike could be bought, but nobody offers the lower strike: the wing
step sends nothing. -/
theorem waits_for_filled_leg :
    ¬∀ (p : V33Params) (evs : List Event) (st : V33State) (now : ℚ) (b : WingBatch)
      (filled missing : WingLeg) (sd : ℤ) (ask : ℚ), Reached p (fun _ _ => True) evs st →
        Deferred p st now b filled missing sd ask → SendsAgain p st now missing := by
  intro hall
  obtain ⟨limit, coid, hsent, -⟩ := hall plainPolicy hiddenRun _ 1005
    ((after plainPolicy (sampleWindow plainPolicy) hiddenRun).wingBatches.head (by decide +kernel))
    ((after plainPolicy (sampleWindow plainPolicy) hiddenRun).wingLegs.head (by decide +kernel))
    ((after plainPolicy (sampleWindow plainPolicy) hiddenRun).wingLegs.getLast (by decide +kernel))
    100 (50 / 100) (reached_sample (allAlong_of_forall fun _ _ _ => trivial))
    ⟨by decide +kernel, by decide +kernel, by decide +kernel, by decide +kernel,
      by decide +kernel, by decide +kernel, by decide +kernel, by decide +kernel,
      by decide +kernel, by decide +kernel, by decide +kernel, by decide +kernel,
      by decide +kernel⟩
  have hnone : (wingStep plainPolicy (after plainPolicy (sampleWindow plainPolicy) hiddenRun)
      1005).acts = [] := by decide +kernel
  rw [hnone] at hsent
  simp at hsent

end Pilot.V33
