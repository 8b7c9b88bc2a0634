import Pilot.V33.DeferredLegs
import Pilot.V33.WingTurns

/-!
# The takes and the retries of a run

A run keeps a history of its wing orders: when each leg was sent again, which batches were taken
and which orders wait for an answer. Without early takes every decision keeps to the law of the
wing orders over that history, whatever the events.
-/

namespace Pilot.V33

/-! ### What a step does to the legs -/

/-- The legs of the batches that a step sends again, as they were before. -/
def resentLegs (st st' : V33State) : List WingLeg :=
  (st'.wingBatches.map WingBatch.index).flatMap fun k =>
    resentOf (batchLegs st k) (batchLegs st' k)

/-- The batches that a step takes. -/
def takenNow (st st' : V33State) : List ℕ :=
  (st'.wingBatches.map WingBatch.index).filter fun k => takenIn st' k && !takenIn st k

/-- The orders that a step sends for legs, each with its leg. -/
def sentOrders (st st' : V33State) : List ((ℕ × Side) × String) :=
  (st'.wingLegs.filter fun l =>
    decide (l.clientOrderId ≠ "" ∧
      l.clientOrderId ∉ st.wingLegs.map WingLeg.clientOrderId)).map fun l =>
    (legKey l, l.clientOrderId)

/-! ### The history of a run -/

/-- What the past of a run says about its wing orders. -/
structure WingHistory where
  /-- The legs sent again, each with its time. -/
  retries : List ((ℕ × Side) × ℚ)
  /-- The batches taken. -/
  takes : List ℕ
  /-- The orders sent for legs that no fill has answered yet. -/
  waiting : List ((ℕ × Side) × String)

/-- The history of a new window. -/
def WingHistory.empty : WingHistory := ⟨[], [], []⟩

/-- The history after a step at an event. -/
def WingHistory.next (h : WingHistory) (st st' : V33State) (ev : Event) : WingHistory where
  retries := h.retries ++ (resentLegs st st').map fun l => (legKey l, ev.serverTs)
  takes := h.takes ++ takenNow st st'
  waiting := (h.waiting.filter fun o => decide (¬Answers ev o.2)) ++ sentOrders st st'

/-- A run with its history. -/
def nextServed (p : V33Params) (w : V33State × WingHistory) (ev : Event) :
    V33State × WingHistory :=
  (next p w.1 ev, w.2.next w.1 (next p w.1 ev) ev)

/-! ### The law -/

/-- The law of the wing orders of one decision: its retries are those of the legs it sends again
and its takes those of the batches it takes; no leg is sent again within the interval, unless it
is missed, while an order for it is out, or below the floor; no batch is taken twice; and nothing
is sent too late. -/
structure WingServiceLaw (p : V33Params) (h : WingHistory) (st : V33State) (ev : Event)
    (r : Outcome) : Prop where
  retries : List.Forall₂ (Resends st.shakedown) (r.acts.filter V33Action.retries)
    (resentLegs st r.st)
  takes : List.Forall₂ (fun a k => TakesLegs a (batchLegs r.st k))
    (r.acts.filter V33Action.takes) (takenNow st r.st)
  spaced : ∀ l ∈ resentLegs st r.st, ∀ t, (legKey l, t) ∈ h.retries →
    wingRetryMinIntervalMs ≤ (ev.serverTs - t) * 1000
  once : ((resentLegs st r.st).map legKey).Nodup
  missed : ∀ l ∈ resentLegs st r.st, l.status = .unfilled ∧ ∀ coid, (legKey l, coid) ∉ h.waiting
  takenOnce : (h.takes ++ takenNow st r.st).Nodup
  inTime : serviceActs r.acts ≠ [] →
    (p.noOrdersAfterSToSettle : ℚ) ≤ st.closeEpoch - ev.serverTs
  floor : ∀ l ∈ resentLegs st r.st, LockAtFloor p (withBook st ev) ev.serverTs l.batch
  priced : ∀ l ∈ st.wingLegs, l.status = .filled → l.fillPrice.isSome

/-- What the history says of the legs and the batches. -/
structure HistoryOk (st : V33State) (h : WingHistory) : Prop where
  named : ∀ q ∈ h.retries, ∃ l ∈ st.wingLegs, legKey l = q.1
  retried : ∀ q ∈ h.retries, ∀ l ∈ st.wingLegs, legKey l = q.1 →
    ∃ t, l.lastRetryTs = some t ∧ q.2 ≤ t
  taken : ∀ k ∈ h.takes, takenIn st k = true
  once : h.takes.Nodup
  waiting : ∀ o ∈ h.waiting, ∃ l ∈ st.wingLegs, legKey l = o.1 ∧ l.status = .pending ∧
    l.clientOrderId = o.2

section Law

variable {p : V33Params} {st : V33State} {ev : Event} {r : Outcome} {h : WingHistory}

/-! ### Legs by name -/

/-- A leg is among those of its batch. -/
theorem mem_batchLegs {l : WingLeg} (hl : l ∈ st.wingLegs) : l ∈ batchLegs st l.batch :=
  List.mem_filter.mpr ⟨hl, by simp⟩

/-- The legs of a batch belong to it. -/
theorem batch_of_mem {k : ℕ} {l : WingLeg} (hl : l ∈ batchLegs st k) : l.batch = k := by
  simpa using (List.mem_filter.mp hl).2

/-- The legs of one batch have different names. -/
theorem nodup_legKey (hbatches : BatchesOk st) (hpairs : PairsOk st) (k : ℕ) :
    ((batchLegs st k).map legKey).Nodup := by
  by_cases hk : k ∈ st.wingBatches.map WingBatch.index
  · obtain ⟨b, hb, rfl⟩ := List.mem_map.mp hk
    cases htaken : b.taken with
    | false =>
      rw [hpairs.untaken b hb htaken]
      exact List.nodup_nil
    | true =>
      obtain ⟨l, m, heq, hside⟩ := hpairs.paired b hb htaken
      rw [heq]
      simp [legKey, hside]
  · have hnone : batchLegs st k = [] := by
      refine List.filter_eq_nil_iff.mpr fun l hl hbatch => hk ?_
      have hl' := hbatches.owned l hl
      rwa [show l.batch = k by simpa using hbatch] at hl'
    rw [hnone]
    exact List.nodup_nil

/-- Legs of one name are one leg. -/
theorem eq_of_legKey (hbatches : BatchesOk st) (hpairs : PairsOk st) {l m : WingLeg}
    (hl : l ∈ st.wingLegs) (hm : m ∈ st.wingLegs) (heq : legKey l = legKey m) : l = m := by
  have hbatch : l.batch = m.batch := congrArg Prod.fst heq
  refine List.inj_on_of_nodup_map (nodup_legKey hbatches hpairs m.batch) ?_ (mem_batchLegs hm) heq
  rw [← hbatch]
  exact mem_batchLegs hl

/-! ### One decision -/

/-- Takes and retries are all among the service of the wings. -/
theorem filter_serviceActs {q : V33Action → Bool}
    (hq : ∀ a, q a = true → (a.takes || a.retries) = true) (acts : List V33Action) :
    (serviceActs acts).filter q = acts.filter q := by
  rw [serviceActs, List.filter_filter]
  refine List.filter_congr fun a _ => ?_
  cases ha : q a with
  | false => rfl
  | true => simpa using hq a ha

/-- A resent leg is one of some batch. -/
theorem mem_resentLegs {st' : V33State} {l : WingLeg} (hl : l ∈ resentLegs st st') :
    ∃ k ∈ st'.wingBatches.map WingBatch.index,
      l ∈ resentOf (batchLegs st k) (batchLegs st' k) := List.mem_flatMap.mp hl

/-- A leg that is sent again is a missed leg that is due. -/
theorem StepTurns.due (hturns : StepTurns p st ev r) {l : WingLeg}
    (hl : l ∈ resentLegs st r.st) : l ∈ st.wingLegs ∧ retryDue l.batch ev.serverTs l = true ∧
      LockAtFloor p st ev.serverTs l.batch := by
  obtain ⟨acts, -, heach⟩ := hturns.turns
  obtain ⟨k, hk, hmem⟩ := mem_resentLegs hl
  obtain ⟨hlegs, hdue, hfloor⟩ := (heach k hk).due l hmem
  obtain rfl := batch_of_mem hlegs
  exact ⟨List.mem_of_mem_filter hlegs, hdue, hfloor⟩

/-- The resent legs are among the legs. -/
theorem resentOf_sublist (legs legs' : List WingLeg) : (resentOf legs legs').Sublist legs := by
  induction legs generalizing legs' with
  | nil => simp [resentOf]
  | cons l legs ih =>
    cases legs' with
    | nil => simp [resentOf]
    | cons l' legs' =>
      rw [resentOf_cons]
      split_ifs
      · exact (ih legs').cons_cons l
      · exact (ih legs').cons l

/-- A step sends every leg again at most once. -/
theorem nodup_resentLegs (hbatches : BatchesOk st) (hpairs : PairsOk st) {st' : V33State}
    (hindices : (st'.wingBatches.map WingBatch.index).Nodup) :
    ((resentLegs st st').map legKey).Nodup := by
  rw [resentLegs, List.map_flatMap, List.nodup_flatMap]
  refine ⟨fun k _ => ?_, hindices.imp fun {j k} hne => ?_⟩
  · exact (nodup_legKey hbatches hpairs k).sublist ((resentOf_sublist _ _).map legKey)
  · intro x hx hx'
    obtain ⟨l, hl, rfl⟩ := List.mem_map.mp hx
    obtain ⟨m, hm, heq⟩ := List.mem_map.mp hx'
    have hlk := batch_of_mem ((resentOf_sublist _ _).mem hl)
    have hmk := batch_of_mem ((resentOf_sublist _ _).mem hm)
    have hbatch : m.batch = l.batch := congrArg Prod.fst heq
    exact hne (hlk.symm.trans (hbatch.symm.trans hmk))

/-- Every leg goes on under its name. -/
theorem StepTurns.goesOn (hturns : StepTurns p st ev r) (hbatches : BatchesOk st) {l : WingLeg}
    (hl : l ∈ st.wingLegs) : ∃ l' ∈ r.st.wingLegs, legKey l' = legKey l ∧ (l.status = .pending →
      Answers ev l.clientOrderId ∨ l'.status = .pending ∧ l'.clientOrderId = l.clientOrderId) := by
  obtain ⟨acts, -, heach⟩ := hturns.turns
  have hk := hturns.indices l.batch (hbatches.owned l hl)
  obtain ⟨l', hl', hgoes⟩ := (heach l.batch hk).goesOn (mem_batchLegs hl)
  exact ⟨l', List.mem_of_mem_filter hl', hgoes⟩

/-- Where a leg after the step comes from. -/
theorem StepTurns.comesFrom (hturns : StepTurns p st ev r) (hbatches : BatchesOk r.st)
    {l' : WingLeg} (hl' : l' ∈ r.st.wingLegs) :
    batchLegs st l'.batch = [] ∧ (l'.status = .pending ∨ l'.clientOrderId = "") ∨
      ∃ l ∈ st.wingLegs, legKey l = legKey l' ∧
        (l'.clientOrderId = l.clientOrderId ∧ l'.lastRetryTs = l.lastRetryTs ∧
            l ∉ resentOf (batchLegs st l'.batch) (batchLegs r.st l'.batch) ∨
          l'.status = .pending ∧ l'.lastRetryTs = some ev.serverTs ∧
            retryDue l'.batch ev.serverTs l = true) := by
  obtain ⟨acts, -, heach⟩ := hturns.turns
  have hturn := heach l'.batch (hbatches.owned l' hl')
  refine (hturn.comesFrom (mem_batchLegs hl')).imp id ?_
  rintro ⟨l, hl, hfrom⟩
  exact ⟨l, List.mem_of_mem_filter hl, hfrom⟩

/-- A batch stays taken. -/
theorem StepTurns.staysTaken (hturns : StepTurns p st ev r) {k : ℕ} (hk : takenIn st k = true) :
    takenIn r.st k = true := by
  obtain ⟨acts, -, heach⟩ := hturns.turns
  have hindex : k ∈ st.wingBatches.map WingBatch.index := by
    rw [takenIn, Option.any_eq_true_iff_get] at hk
    obtain ⟨hsome, -⟩ := hk
    obtain ⟨b, hb⟩ := Option.isSome_iff_exists.mp hsome
    exact List.mem_map.mpr ⟨b, List.mem_of_find?_eq_some hb, batchOf_index hb⟩
  have hturn := heach k (hturns.indices k hindex)
  revert hturn
  generalize acts k = out
  intro hturn
  cases hturn with
  | idle stay flag => exact flag.trans hk
  | take a action empty fresh =>
    rw [hk] at fresh
    cases fresh
  | retry asks w n floor sent before flag => exact flag

/-- The history stays true of the legs and the batches. -/
theorem HistoryOk.step (hok : HistoryOk st h) (hbatches : BatchesOk st) (hpairs : PairsOk st)
    (hafter : BatchesOk r.st) (hturns : StepTurns p st ev r) :
    HistoryOk r.st (h.next st r.st ev) where
  named := by
    refine List.forall_mem_append.mpr ⟨fun q hq => ?_, fun q hq => ?_⟩
    · obtain ⟨l, hl, hname⟩ := hok.named q hq
      obtain ⟨l', hl', hkey, -⟩ := hturns.goesOn hbatches hl
      exact ⟨l', hl', hkey.trans hname⟩
    · obtain ⟨l, hl, rfl⟩ := List.mem_map.mp hq
      obtain ⟨l', hl', hkey, -⟩ := hturns.goesOn hbatches (hturns.due hl).1
      exact ⟨l', hl', hkey⟩
  retried := by
    refine List.forall_mem_append.mpr ⟨fun q hq l' hl' hname => ?_, fun q hq l' hl' hname => ?_⟩
    · obtain ⟨m, hm, hmname⟩ := hok.named q hq
      rcases hturns.comesFrom hafter hl' with ⟨hempty, -⟩ | ⟨l, hl, hkey, hfrom⟩
      · have hbatch : m.batch = l'.batch := congrArg Prod.fst (hmname.trans hname.symm)
        have hmem := mem_batchLegs hm
        rw [hbatch, hempty] at hmem
        simp at hmem
      · obtain ⟨t, ht, hle⟩ := hok.retried q hq l hl (hkey.trans hname)
        rcases hfrom with ⟨-, hlast, -⟩ | ⟨-, hlast, hdue⟩
        · exact ⟨t, hlast.trans ht, hle⟩
        · have hspaced := retryDue_spaced hdue ht
          refine ⟨_, hlast, hle.trans ?_⟩
          rw [wingRetryMinIntervalMs] at hspaced
          linarith
    · obtain ⟨l, hl, rfl⟩ := List.mem_map.mp hq
      have hmem := (hturns.due hl).1
      rcases hturns.comesFrom hafter hl' with ⟨hempty, -⟩ | ⟨m, hm, hkey, hfrom⟩
      · have hin := mem_batchLegs hmem
        rw [show l.batch = l'.batch from (congrArg Prod.fst hname).symm, hempty] at hin
        simp at hin
      · obtain rfl : m = l := eq_of_legKey hbatches hpairs hm hmem (hkey.trans hname)
        rcases hfrom with ⟨-, -, hnot⟩ | ⟨-, hlast, -⟩
        · obtain ⟨k, -, hresent⟩ := mem_resentLegs hl
          have hk : m.batch = k := batch_of_mem ((resentOf_sublist _ _).mem hresent)
          rw [← show m.batch = l'.batch from congrArg Prod.fst hkey, hk] at hnot
          exact absurd hresent hnot
        · exact ⟨_, hlast, le_rfl⟩
  taken := by
    refine List.forall_mem_append.mpr
      ⟨fun k hk => hturns.staysTaken (hok.taken k hk), fun k hk => ?_⟩
    obtain ⟨-, hnow⟩ := List.mem_filter.mp hk
    rw [Bool.and_eq_true] at hnow
    exact hnow.1
  once := by
    refine List.nodup_append.mpr ⟨hok.once, hafter.batchIndex_nodup.filter _, ?_⟩
    rintro k hk j hj rfl
    obtain ⟨-, hnow⟩ := List.mem_filter.mp hj
    simp [hok.taken k hk] at hnow
  waiting := by
    refine List.forall_mem_append.mpr ⟨fun o ho => ?_, fun o ho => ?_⟩
    · obtain ⟨hold, hopen⟩ := List.mem_filter.mp ho
      obtain ⟨l, hl, hname, hpending, hcoid⟩ := hok.waiting o hold
      obtain ⟨l', hl', hkey, hgoes⟩ := hturns.goesOn hbatches hl
      rcases hgoes hpending with hanswers | ⟨hstill, hsame⟩
      · rw [hcoid] at hanswers
        exact absurd hanswers (of_decide_eq_true hopen)
      · exact ⟨l', hl', hkey.trans hname, hstill, hsame.trans hcoid⟩
    · obtain ⟨l', hl', rfl⟩ := List.mem_map.mp ho
      obtain ⟨hmem, hnew⟩ := List.mem_filter.mp hl'
      obtain ⟨hne, hfresh⟩ := of_decide_eq_true hnew
      refine ⟨l', hmem, rfl, ?_, rfl⟩
      rcases hturns.comesFrom hafter hmem with ⟨-, hpending | hempty⟩ | ⟨l, hl, -, hfrom⟩
      · exact hpending
      · exact absurd hempty hne
      · rcases hfrom with ⟨hcoid, -⟩ | ⟨hpending, -⟩
        · exact absurd (hcoid ▸ List.mem_map_of_mem hl) hfresh
        · exact hpending

/-- A decision in which every batch has its turn keeps to the law. -/
theorem HistoryOk.law (hok : HistoryOk st h) (hbatches : BatchesOk st) (hpairs : PairsOk st)
    (hafter : BatchesOk r.st) {b : Books} {s : V33State} (hs : s = { st with toBooks := b })
    (hbook : withBook st ev = s) (hturns : StepTurns p s ev r) : WingServiceLaw p h st ev r := by
  have hnext : HistoryOk r.st (h.next s r.st ev) := by
    refine HistoryOk.step ?_ ?_ ?_ hafter hturns
    · subst hs
      exact ⟨hok.named, hok.retried, hok.taken, hok.once, hok.waiting⟩
    · subst hs
      exact hbatches.frame rfl hbatches.fills
    · subst hs
      exact hpairs.frame rfl
  have hresent : resentLegs s r.st = resentLegs st r.st := by rw [hs]; rfl
  have htakenNow : takenNow s r.st = takenNow st r.st := by rw [hs]; rfl
  obtain ⟨acts, hacts, heach⟩ := hturns.turns
  refine ⟨?_, ?_, fun l hl t ht => ?_, nodup_resentLegs hbatches hpairs hafter.batchIndex_nodup,
    fun l hl => ?_, ?_, fun hne => ?_, fun l hl => ?_, hpairs.priced⟩
  · rw [← filter_serviceActs (fun a ha => by simp [ha]), hacts, List.filter_flatMap, ← hresent,
      show st.shakedown = s.shakedown by rw [hs]]
    exact forall₂_flatMap fun k hk => (heach k hk).retries
  · rw [← filter_serviceActs (fun a ha => by simp [ha]), hacts, List.filter_flatMap, ← htakenNow]
    exact forall₂_flatMap_filter (fun k hk => (heach k hk).took.1) fun k hk => (heach k hk).took.2
  · rw [← hresent] at hl
    obtain ⟨hmem, hdue, -⟩ := hturns.due hl
    obtain ⟨t', hlast, hle⟩ := hok.retried _ ht l (by rw [hs] at hmem; exact hmem) rfl
    have hspaced := retryDue_spaced hdue hlast
    linarith
  · rw [← hresent] at hl
    obtain ⟨hmem, hdue, -⟩ := hturns.due hl
    refine ⟨retryDue_status hdue, fun coid hwaits => ?_⟩
    obtain ⟨m, hm, hname, hpending, -⟩ := hok.waiting _ hwaits
    obtain rfl : m = l := eq_of_legKey hbatches hpairs hm (by rw [hs] at hmem; exact hmem) hname
    rw [retryDue_status hdue] at hpending
    cases hpending
  · rw [← htakenNow]
    exact hnext.once
  · have hclose : s.closeEpoch = st.closeEpoch := by rw [hs]
    exact hclose ▸ hturns.inTime hne
  · rw [← hresent] at hl
    rw [hbook]
    exact (hturns.due hl).2.2

/-- Everything the law needs: the ids, the batches and the pairs are in order, there are no
triggers, and the history is true. -/
structure ServiceOk (w : V33State × WingHistory) : Prop where
  coids : CoidsOk w.1
  batches : BatchesOk w.1
  pairs : PairsOk w.1
  triggers : w.1.printThroughTriggers = []
  history : HistoryOk w.1 w.2

/-- One decision keeps to the law and leaves everything in order. -/
theorem ServiceOk.step {w : V33State × WingHistory} (hok : ServiceOk w)
    (hpt : p.printThrough = false) (ev : Event) :
    WingServiceLaw p w.2 w.1 ev (decideV33 p w.1 ev) ∧ ServiceOk (nextServed p w ev) := by
  obtain ⟨st, h⟩ := w
  obtain ⟨hcoids, hbatches, hpairs, htriggers, hhistory⟩ := hok
  obtain ⟨hturns, hnone⟩ := stepTurns_decide hcoids hbatches hpairs htriggers hpt ev
  obtain ⟨hafter, hafterPairs⟩ := (pairsOk_invariant p).decide hcoids ⟨hbatches, hpairs⟩ ev
  obtain ⟨b, hb⟩ : ∃ b : Books, withBook st ev = { st with toBooks := b } := by
    unfold withBook
    split
    · exact foldBook_eq st _
    · exact ⟨st.toBooks, rfl⟩
  refine ⟨hhistory.law hbatches hpairs hafter rfl hb (hb ▸ hturns), hcoids.decide ev, hafter,
    hafterPairs, hnone, ?_⟩
  have hstep : HistoryOk (decideV33 p st ev).st
      (h.next { st with toBooks := b } (decideV33 p st ev).st ev) := by
    refine HistoryOk.step ?_ (hbatches.frame rfl hbatches.fills) (hpairs.frame rfl) hafter
      (hb ▸ hturns)
    exact ⟨hhistory.named, hhistory.retried, hhistory.taken, hhistory.once, hhistory.waiting⟩
  exact hstep

/-- A new window has been served nothing. -/
theorem ServiceOk.new {start : V33State} (hnew : IsNew p start) :
    ServiceOk (start, WingHistory.empty) := by
  have htriggers : start.printThroughTriggers = [] := by
    obtain ⟨_, _, _, _, _, _, rfl⟩ := hnew
    rfl
  refine ⟨CoidsOk.new hnew, BatchesOk.new hnew, PairsOk.new hnew, htriggers, ?_⟩
  constructor <;> simp [WingHistory.empty]

/-- Without early takes every decision of every run keeps to the law of the wing orders. -/
theorem wing_service_law (hpt : p.printThrough = false) {start : V33State} (hnew : IsNew p start)
    (evs : List Event) :
    AllAlong (nextServed p) (fun w ev => WingServiceLaw p w.2 w.1 ev (decideV33 p w.1 ev))
      (start, WingHistory.empty) evs :=
  allAlong_of_invariant (I := ServiceOk) (fun _ ev hok => hok.step hpt ev) (ServiceOk.new hnew)

end Law

/-- The law in the sample window, where a leg is sent again once its order has missed. -/
theorem wing_service_law_sample :
    AllAlong (nextServed plainPolicy)
        (fun w ev => WingServiceLaw plainPolicy w.2 w.1 ev (decideV33 plainPolicy w.1 ev))
        (sampleWindow plainPolicy, WingHistory.empty) (missedRun ++ [.clockTick 1005]) ∧
      ((missedRun ++ [Event.clockTick 1005]).foldl (nextServed plainPolicy)
        (sampleWindow plainPolicy, WingHistory.empty)).2.retries =
          [((0, Side.no), 1004), ((0, Side.no), 1005)] :=
  ⟨wing_service_law rfl (isNew_sampleWindow plainPolicy) _, by decide +kernel⟩

end Pilot.V33
