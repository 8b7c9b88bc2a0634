import Pilot.V33.OrderWriterCalls

/-!
# What moves a call

A request goes into its pool, to a worker and back to the loop, and the shutdown empties the
pools. Each of these moves keeps every call where the history says it is, and what is seen of it
is what the writer promises.
-/

namespace Pilot.V33.Writer

variable {β γ : Type*}

section Moves

variable {m m' : List (Call β × Outcome γ)} {w w' : OrderWriter β γ} {h h' : List (Trace β γ)}
  {c : Call β} {outcome : Outcome γ}

/-- A request that moves between the pools keeps its slot. -/
theorem Served.moved (hs : Served m w h) (hmoving : Moving m' w' h') (hcalls : w'.calls = w.calls)
    (hlocks : w'.slotLocks = w.slotLocks) (hseen : callsOf h' = callsOf h)
    (hanswers : answersOf h' = answersOf h)
    (hheld : (m'.map Prod.fst ++ w'.admitted).Perm (m.map Prod.fst ++ w.admitted)) :
    Served m' w' h' := by
  have hanswered : answeredOf h' = answeredOf h := by rw [answeredOf, hanswers, answeredOf]
  constructor
  · exact hmoving
  · rw [hseen, hcalls]
    exact hs.fresh
  · rw [hseen]
    exact hs.nodup
  · intro s
    apply (hs.slots s).transfer
    · rw [OrderWriter.slotLock, hlocks, OrderWriter.slotLock]
    · exact hheld.filter _
    · rw [hseen]
    · rw [hanswered]
  · rw [hseen, hanswered]
    exact hs.free.trans ((hheld.symm.append_left _).filter _)

/-- A pool changes, and with it what the loop has to resume. -/
theorem Served.repool (hs : Served m w h) {lane : Lane} {pool : WorkerPool (Call β)}
    (resuming : List (Call β × Outcome γ)) (hpool : PoolOk lane pool)
    (hdrained : (w.pools lane).queue = [] → pool.queue = [])
    (hsent : (sentOf h').Perm ((w.setPool lane pool).airborne ++ (backOf h').map Prod.fst))
    (hbacks : (backOf h').Perm ((m' ++ resuming ++ answersOf h).filter fun e => e.2.made))
    (hclosed : .closed ∈ h' ↔ .closed ∈ h) (hresuming : ∀ e ∈ resuming, e.2.made = false →
      e ∈ w.resuming) (hseen : callsOf h' = callsOf h) (hanswers : answersOf h' = answersOf h)
    (hheld : (m'.map Prod.fst ++ ((w.setPool lane pool).overLanes WorkerPool.items ++
      resuming.map Prod.fst)).Perm (m.map Prod.fst ++ w.admitted)) :
    Served m' { w.setPool lane pool with resuming := resuming } h' := by
  have hmoving : Moving m' { w.setPool lane pool with resuming := resuming } h' := by
    constructor
    · exact forall_setPool (P := PoolOk) hpool hs.poolOk
    · exact hsent
    · rw [hanswers]
      exact hbacks
    · rw [hclosed]
      exact hs.shut
    · intro e he hunmade
      rw [hclosed]
      rw [hanswers] at he
      rcases List.mem_append.mp he with he | he
      · exact hs.unmade e (List.mem_append_left _ (hresuming e he hunmade)) hunmade
      · exact hs.unmade e (List.mem_append_right _ he) hunmade
    · intro hshut
      exact forall_setPool (P := fun _ p => p.queue = []) (hdrained (hs.drained hshut lane))
        (hs.drained hshut)
  exact hs.moved hmoving rfl rfl hseen hanswers hheld

/-- A submission admits its call. -/
theorem admitted_submit (w : OrderWriter β γ) (c : Call β) :
    (w.setPool c.lane ((w.pools c.lane).submit c)).admitted.Perm (c :: w.admitted) := by
  have hpools := overLanes_setPool w c.lane ((w.pools c.lane).submit c) WorkerPool.items [] [c]
    WorkerPool.items_submit
  exact hpools.append_right _

/-- A start moves an admitted call. -/
theorem admitted_start {lane : Lane} {pool : WorkerPool (Call β)}
    (hstart : (w.pools lane).start = some (c, pool)) :
    (w.setPool lane pool).admitted.Perm w.admitted := by
  have hpools := overLanes_setPool w lane pool WorkerPool.items [] []
    (WorkerPool.items_start hstart)
  exact hpools.append_right _

/-- A finished call waits to be resumed. -/
theorem admitted_finish {lane : Lane} {pool : WorkerPool (Call β)} {q : Call β → Bool}
    (hfinish : (w.pools lane).finish q = some (c, pool)) (outcome : Outcome γ) :
    ((w.setPool lane pool).overLanes WorkerPool.items ++
      (w.resuming ++ [(c, outcome)]).map Prod.fst).Perm w.admitted := by
  have hpools := overLanes_setPool w lane pool WorkerPool.items [c] []
    (WorkerPool.items_finish hfinish).symm
  have hturn : ((w.setPool lane pool).overLanes WorkerPool.items ++
      (w.resuming.map Prod.fst ++ [c])).Perm
      ([c] ++ ((w.setPool lane pool).overLanes WorkerPool.items ++ w.resuming.map Prod.fst)) := by
    rw [← List.append_assoc]
    exact List.perm_append_comm
  rw [← List.append_assoc [c]] at hturn
  rw [List.map_append]
  exact hturn.trans (hpools.append_right _)

/-- The writer after its pools are shut down. -/
def OrderWriter.shut (w : OrderWriter β γ) : OrderWriter β γ :=
  { w with
    closed := true
    pools := fun lane => (w.pools lane).dropQueue
    resuming := w.resuming ++ w.queued.map fun c => (c, .cancelled) }

/-- A shutdown loses no admitted call. -/
theorem admitted_shut (w : OrderWriter β γ) : w.shut.admitted.Perm w.admitted := by
  classical
  have hgiven : (w.queued.map fun c => (c, (Outcome.cancelled : Outcome γ))).map Prod.fst =
      w.queued := by simp [Function.comp_def]
  rw [List.perm_iff_count]
  intro a
  simp only [OrderWriter.admitted, OrderWriter.shut, List.map_append, hgiven]
  simp only [OrderWriter.overLanes, OrderWriter.queued, WorkerPool.items,
    WorkerPool.dropQueue_queue, WorkerPool.dropQueue_running, List.count_append, List.nil_append]
  omega

/-- A resumed call is no longer admitted. -/
theorem admitted_resume {q : Call β × Outcome γ → Bool} {e : Call β × Outcome γ}
    {rest : List (Call β × Outcome γ)} (htake : takeFirst q w.resuming = some (e, rest)) :
    (e.1 :: { w with resuming := rest }.admitted).Perm w.admitted := by
  have hfirst : (w.overLanes WorkerPool.items ++ w.resuming.map Prod.fst).Perm
      (w.overLanes WorkerPool.items ++ e.1 :: rest.map Prod.fst) :=
    ((takeFirst_perm htake).map Prod.fst).append_left _
  exact (hfirst.trans List.perm_middle).symm

/-- A request past its slot is queued in its pool. -/
theorem Served.enqueue (hs : Served [(c, .refused)] w h) (hopen : w.closed = false) :
    Served [] (w.setPool c.lane ((w.pools c.lane).submit c)) h := by
  have hitems : ((w.pools c.lane).submit c).items.Perm (c :: (w.pools c.lane).items) :=
    WorkerPool.items_submit
  have hok := hs.poolOk c.lane
  have hmoving : Moving [] (w.setPool c.lane ((w.pools c.lane).submit c)) h := by
    constructor
    · apply forall_setPool (P := PoolOk) _ hs.poolOk
      constructor
      · intro d hd
        rcases List.mem_cons.mp (hitems.mem_iff.mp hd) with rfl | hd
        · rfl
        · exact hok.lanes d hd
      · exact hok.bound
      · exact hok.staffed
    · have hair := overLanes_setPool w c.lane ((w.pools c.lane).submit c) WorkerPool.running [] []
        (List.Perm.refl _)
      exact hs.sent.trans (hair.symm.append_right _)
    · have hbacks := hs.backs
      rw [List.append_assoc, List.filter_append] at hbacks
      exact hbacks
    · exact hs.shut
    · exact hs.unmade
    · intro hclosed
      have hshut : w.closed = true := hclosed
      rw [hopen] at hshut
      cases hshut
  exact hs.moved hmoving rfl rfl rfl rfl (admitted_submit w c)

/-- A worker takes the oldest request of its lane. -/
theorem Served.sentOff (hs : Served [] w h) {lane : Lane} {pool : WorkerPool (Call β)}
    (hstart : (w.pools lane).start = some (c, pool)) :
    Served [] (w.setPool lane pool) (h ++ [.sent c]) := by
  obtain ⟨hseen, hsent, hback, hanswers⟩ := seen_sent h c
  obtain ⟨hqueue, hrunning, hworkers, hfree⟩ := WorkerPool.start_eq_some hstart
  have hitems := WorkerPool.items_start hstart
  have hok := hs.poolOk lane
  apply hs.repool w.resuming
  · constructor
    · exact fun d hd => hok.lanes d (hitems.mem_iff.mp hd)
    · rw [hrunning, hworkers, List.length_append, List.length_singleton]
      omega
    · rw [hworkers]
      exact hok.staffed
  · intro hempty
    rw [hqueue] at hempty
    cases hempty
  · rw [hsent, hback]
    have hair := overLanes_setPool w lane pool WorkerPool.running [] [c] (by
      rw [hrunning]
      exact List.perm_append_singleton c _)
    have hgain : (sentOf h ++ [c]).Perm (c :: sentOf h) := List.perm_append_singleton c _
    exact (hgain.trans (hs.sent.cons c)).trans (hair.symm.append_right _)
  · rw [hback]
    exact hs.backs
  · simp
  · exact fun e he _ => he
  · exact hseen
  · exact hanswers
  · exact admitted_start hstart

/-- A round trip ends on its worker. -/
theorem Served.landed (hs : Served [] w h) {lane : Lane} {pool : WorkerPool (Call β)}
    {q : Call β → Bool} {reply : Option γ} (hfinish : (w.pools lane).finish q = some (c, pool)) :
    Served [] { w.setPool lane pool with resuming := w.resuming ++ [(c, outcomeOf reply)] }
      (h ++ [.back c reply]) := by
  obtain ⟨hseen, hsent, hback, hanswers⟩ := seen_back h c reply
  obtain ⟨htake, hqueue, hworkers⟩ := WorkerPool.finish_eq_some hfinish
  have hitems := WorkerPool.items_finish hfinish
  have hrunning := takeFirst_perm htake
  have hok := hs.poolOk lane
  apply hs.repool _
  · constructor
    · exact fun d hd => hok.lanes d (hitems.symm.subset (by simp [hd]))
    · have hlen := hrunning.length_eq
      have hbound := hok.bound
      rw [List.length_cons] at hlen
      omega
    · rw [hworkers]
      exact hok.staffed
  · rw [hqueue]
    exact id
  · have hair := overLanes_setPool w lane pool WorkerPool.running [c] [] hrunning.symm
    have hturn : ([c] ++ ((w.setPool lane pool).airborne ++ (backOf h).map Prod.fst)).Perm
        ((w.setPool lane pool).airborne ++ (backOf h).map Prod.fst ++ [c]) :=
      List.perm_append_comm
    rw [hsent, hback, List.map_append, ← List.append_assoc]
    rw [← List.append_assoc] at hturn
    exact (hs.sent.trans (hair.symm.append_right _)).trans hturn
  · rw [hback]
    have hturn : ((w.resuming ++ answersOf h) ++ [(c, outcomeOf reply)]).Perm
        (w.resuming ++ [(c, outcomeOf reply)] ++ answersOf h) := by
      rw [List.append_assoc, List.append_assoc]
      exact List.perm_append_comm.append_left _
    have hadd := hs.backs.append_right [(c, outcomeOf reply)]
    have hfilter := hturn.filter fun e => e.2.made
    rw [List.filter_append] at hfilter
    simpa using hadd.trans (by simpa using hfilter)
  · simp
  · intro e he hunmade
    rcases List.mem_append.mp he with he | he
    · exact he
    · rw [List.mem_singleton.mp he, made_outcomeOf] at hunmade
      cases hunmade
  · exact hseen
  · exact hanswers
  · exact admitted_finish hfinish _

/-- The pools are shut down. -/
theorem Served.shutDown (hs : Served [] w h) : Served [] w.shut (h ++ [.closed]) := by
  obtain ⟨hseen, hsent, hback, hanswers⟩ := seen_closed h
  have hmoving : Moving [] w.shut (h ++ [.closed]) := by
    constructor
    · intro lane
      have hok := hs.poolOk lane
      constructor
      · intro d hd
        exact hok.lanes d (List.mem_append_right _ hd)
      · exact hok.bound
      · exact hok.staffed
    · rw [hsent, hback]
      exact hs.sent
    · have hnone : (w.queued.map fun c => (c, (Outcome.cancelled : Outcome γ))).filter
          (fun e => e.2.made) = [] := by
        apply List.filter_eq_nil_iff.mpr
        intro e he
        obtain ⟨d, -, rfl⟩ := List.mem_map.mp he
        simp [Outcome.made]
      have hbacks := hs.backs
      rw [hback, hanswers, OrderWriter.shut]
      simp only [List.nil_append, List.filter_append, hnone, List.append_nil] at hbacks ⊢
      exact hbacks
    · simp [OrderWriter.shut]
    · simp
    · intro _ _
      rfl
  exact hs.moved hmoving rfl rfl hseen hanswers (admitted_shut w)

/-- A coroutine whose future is done is on its way to its answer. -/
theorem Served.pickUp (hs : Served [] w h) {q : Call β × Outcome γ → Bool}
    {e : Call β × Outcome γ} {rest : List (Call β × Outcome γ)}
    (htake : takeFirst q w.resuming = some (e, rest)) :
    Served [e] { w with resuming := rest } h := by
  have hperm := takeFirst_perm htake
  have hmoving : Moving [e] { w with resuming := rest } h := by
    constructor
    · exact hs.poolOk
    · exact hs.sent
    · exact hs.backs.trans ((hperm.append_right _).filter _)
    · exact hs.shut
    · intro d hd
      apply hs.unmade d
      rcases List.mem_append.mp hd with hd | hd
      · exact List.mem_append_left _ (hperm.symm.subset (by simp [hd]))
      · exact List.mem_append_right _ hd
    · exact hs.drained
  exact hs.moved hmoving rfl rfl rfl rfl (admitted_resume htake)

/-- A release unlocks the slot. -/
@[simp] theorem release_some (s : String) :
    w.release (some s) = w.setLock s { w.slotLock s with locked := false } := rfl

/-- Where the answered call stood between its pool and its answer, the answers gain it. -/
theorem Moving.settle (hs : Moving [(c, outcome)] w h)
    (hunmade : outcome.made = false → w.closed = true) :
    Moving [] w (h ++ [.answered c outcome]) := by
  obtain ⟨-, hsent, hback, hanswers⟩ := seen_answered h c outcome
  constructor
  · exact hs.poolOk
  · rw [hsent, hback]
    exact hs.sent
  · have hturn : ([(c, outcome)] ++ (w.resuming ++ answersOf h)).Perm
        (w.resuming ++ (answersOf h ++ [(c, outcome)])) := by
      rw [← List.append_assoc w.resuming]
      exact List.perm_append_comm
    have hbacks := hs.backs
    rw [List.append_assoc] at hbacks
    rw [hback, hanswers]
    exact hbacks.trans (hturn.filter _)
  · simpa using hs.shut
  · intro e he hmade
    rw [hanswers, ← List.append_assoc, List.mem_append, List.mem_singleton] at he
    rcases he with he | rfl
    · exact List.mem_append_left _ (hs.unmade e he hmade)
    · exact List.mem_append_left _ (hs.shut.mp (hunmade hmade))
  · exact hs.drained

/-- The slot of an answered call is free for the next. -/
theorem SlotInOrder.settle {s : String} (hs : SlotInOrder [(c, outcome)] w h s)
    (hslot : c.slot = some s) :
    SlotInOrder [] (w.setLock s { w.slotLock s with locked := false })
      (h ++ [.answered c outcome]) s := by
  obtain ⟨hseen, -, -, hanswers⟩ := seen_answered h c outcome
  obtain ⟨holder, hlocked, hheld, hlist⟩ := hs
  have hsplit : c :: (w.admitted.filter fun d => d.slot = some s) = holder.toList := by
    rw [← hheld]
    simp [hslot]
  cases holder with
  | none => cases hsplit
  | some d =>
    obtain ⟨rfl, hnone⟩ := List.cons.inj hsplit
    have hanswered : answeredOf (h ++ [.answered c outcome]) = answeredOf h ++ [c] := by
      simp [answeredOf, hanswers]
    refine ⟨none, by simp, by simpa using hnone, ?_⟩
    rw [hseen, hlist, hanswered, List.filter_append, slotLock_setLock, if_pos rfl]
    simp [hslot]

/-- A call gets its answer and leaves its slot. -/
theorem Served.settle (hs : Served [(c, outcome)] w h)
    (hunmade : outcome.made = false → w.closed = true) :
    Served [] (w.release c.slot) (h ++ [.answered c outcome]) := by
  obtain ⟨hseen, -, -, hanswers⟩ := seen_answered h c outcome
  have hmoving := hs.toMoving.settle hunmade
  have hanswered : answeredOf (h ++ [.answered c outcome]) = answeredOf h ++ [c] := by
    simp [answeredOf, hanswers]
  have hturn : (answeredOf h ++ ([c] ++ w.admitted)).Perm
      (answeredOf h ++ [c] ++ ([] ++ w.admitted)) := by simp
  have hfree := (hs.free.trans (hturn.filter _))
  have hothers : ∀ s, ¬c.slot = some s → SlotInOrder [] w (h ++ [.answered c outcome]) s := by
    intro s hs'
    apply (hs.slots s).transfer rfl
    · simp [hs']
    · rw [hseen]
    · simp [hanswered, hs']
  cases hslot : c.slot with
  | none =>
    constructor
    · exact hmoving
    · rw [hseen]
      exact hs.fresh
    · rw [hseen]
      exact hs.nodup
    · exact fun s => hothers s (by simp [hslot])
    · rw [hseen, hanswered]
      exact hfree
  | some s =>
    constructor
    · exact ⟨hmoving.poolOk, hmoving.sent, hmoving.backs, hmoving.shut, hmoving.unmade,
        hmoving.drained⟩
    · rw [hseen]
      exact hs.fresh
    · rw [hseen]
      exact hs.nodup
    · intro s'
      by_cases hne : s' = s
      · subst hne
        exact (hs.slots s').settle hslot
      · apply (hothers s' (by simpa [hslot] using Ne.symm hne)).transfer _ _ rfl rfl
        · rw [release_some, slotLock_setLock, if_neg hne]
        · exact List.Perm.refl _
    · rw [hseen, hanswered]
      exact hfree

/-- The places a call can be in past the lock of its slot, and the calls answered, share
nothing. -/
theorem Served.apart (hs : Served m w h) :
    (w.queued ++ (w.airborne ++ ((m ++ w.resuming).map Prod.fst ++ answeredOf h))).Nodup := by
  classical
  have hperm : (answeredOf h ++ (m.map Prod.fst ++ w.admitted)).Perm
      (w.queued ++ (w.airborne ++ ((m ++ w.resuming).map Prod.fst ++ answeredOf h))) := by
    rw [List.perm_iff_count]
    intro a
    simp only [OrderWriter.admitted, OrderWriter.airborne, OrderWriter.overLanes,
      OrderWriter.queued, WorkerPool.items, List.map_append, List.count_append]
    omega
  exact hperm.nodup_iff.mp hs.nodup_held

/-- The round trips that ended. -/
theorem Served.mem_back (hs : Served m w h) {e : Call β × Outcome γ} :
    e ∈ backOf h ↔ e ∈ m ++ w.resuming ++ answersOf h ∧ e.2.made = true := by
  rw [hs.backs.mem_iff, List.mem_filter]

/-- A request that was sent is with the proxy, or its round trip has ended. -/
theorem Served.of_sent (hs : Served m w h) (hc : c ∈ sentOf h) :
    c ∈ w.airborne ∨ ∃ o : Outcome γ, o.made = true ∧ (c, o) ∈ m ++ w.resuming ++ answersOf h := by
  rcases List.mem_append.mp (hs.sent.mem_iff.mp hc) with hair | hback
  · exact Or.inl hair
  · obtain ⟨⟨d, o⟩, he, rfl⟩ := List.mem_map.mp hback
    obtain ⟨hplace, hmade⟩ := hs.mem_back.mp he
    exact Or.inr ⟨o, hmade, hplace⟩

/-- Of two calls of one slot, the later one is past the lock only when the earlier one has its
answer. -/
theorem Served.earlier_answered (hs : Served [] w h) {s : String} {c' : Call β}
    (hc : c ∈ w.admitted) (hslot : c.slot = some s) (hslot' : c'.slot = some s)
    (hbefore : [c', c].Sublist (callsOf h)) : c' ∈ answeredOf h := by
  obtain ⟨holder, -, hheld, hlist⟩ := hs.slots s
  have hin : c ∈ holder.toList := by
    rw [← hheld]
    exact List.mem_filter.mpr ⟨hc, by simp [hslot]⟩
  cases holder with
  | none => cases hin
  | some d =>
    obtain rfl : c = d := by simpa using hin
    have hnodup := hs.nodup.filter fun d => d.slot = some s
    rw [hlist] at hnodup
    have hpair : [c', c].Sublist (((answeredOf h).filter fun d => d.slot = some s) ++
        ((some c).toList ++ (w.slotLock s).waiters)) := by
      rw [← List.append_assoc, ← hlist]
      simpa [hslot, hslot'] using hbefore.filter fun d => decide (d.slot = some s)
    obtain ⟨front, back, hcut, hfront, hback⟩ := List.sublist_append_iff.mp hpair
    cases front with
    | nil =>
      -- both calls would stand at or behind the one that holds the slot
      exfalso
      rw [List.nil_append] at hcut
      subst hcut
      rw [List.append_assoc] at hnodup
      have hrest := (List.nodup_append.mp hnodup).2.1
      have htwice : c ∈ (w.slotLock s).waiters := by
        rcases List.sublist_cons_iff.mp hback with hskip | ⟨r, hr, hskip⟩
        · exact hskip.subset (by simp)
        · obtain ⟨-, rfl⟩ := List.cons.inj hr
          exact hskip.subset (by simp)
      exact (List.nodup_cons.mp hrest).1 htwice
    | cons a front =>
      obtain ⟨rfl, -⟩ := List.cons.inj hcut
      exact (List.mem_filter.mp (hfront.subset (by simp))).1

/-- A started call was made and not sent before. -/
theorem Served.orderly_sent (hs : Served [] w h) {lane : Lane} {pool : WorkerPool (Call β)}
    (hstart : (w.pools lane).start = some (c, pool)) : Orderly h (.sent c) := by
  obtain ⟨hqueue, -, -, -⟩ := WorkerPool.start_eq_some hstart
  have hqueued : c ∈ w.queued := by
    have hc : c ∈ (w.pools lane).queue := by simp [hqueue]
    cases lane <;> simp [OrderWriter.queued, hc]
  have hadmitted : c ∈ w.admitted := by
    have hc : c ∈ (w.pools lane).items := List.mem_append_left _ (by simp [hqueue])
    cases lane <;> simp [OrderWriter.admitted, OrderWriter.overLanes, hc]
  have hapart := (List.nodup_append.mp hs.apart).2.2 c hqueued
  refine ⟨hs.called_of_admitted hadmitted, ?_, ?_, ?_⟩
  · intro hsent
    rcases hs.of_sent hsent with hair | ⟨o, -, hplace⟩
    · exact hapart c (List.mem_append_left _ hair) rfl
    · apply hapart c (List.mem_append_right _ _) rfl
      rw [answeredOf, ← List.map_append]
      exact List.mem_map.mpr ⟨_, hplace, rfl⟩
  · intro hclosed
    have hempty := hs.drained (hs.shut.mpr hclosed) lane
    rw [hqueue] at hempty
    cases hempty
  · exact fun s c' hslot hslot' hbefore => hs.earlier_answered hadmitted hslot hslot' hbefore

/-- A finished call was sent and is not back yet. -/
theorem Served.orderly_back (hs : Served [] w h) {lane : Lane} {pool : WorkerPool (Call β)}
    {q : Call β → Bool} {reply : Option γ} (hfinish : (w.pools lane).finish q = some (c, pool)) :
    Orderly h (.back c reply) := by
  obtain ⟨htake, -, -⟩ := WorkerPool.finish_eq_some hfinish
  have hair : c ∈ w.airborne := by
    have hc : c ∈ (w.pools lane).running := (takeFirst_perm htake).symm.subset (by simp)
    cases lane <;> simp [OrderWriter.airborne, OrderWriter.overLanes, hc]
  refine ⟨hs.sent.symm.subset (List.mem_append_left _ hair), ?_⟩
  intro hback
  obtain ⟨⟨d, o⟩, he, rfl⟩ := List.mem_map.mp hback
  have hapart := (List.nodup_append.mp (List.nodup_append.mp hs.apart).2.1).2.2 d hair
  apply hapart d _ rfl
  rw [answeredOf, ← List.map_append]
  exact List.mem_map.mpr ⟨_, (hs.mem_back.mp he).1, rfl⟩

/-- A resumed call was not answered before, and is unmade only after the shutdown. -/
theorem Served.orderly_answered (hs : Served [(c, outcome)] w h)
    (hunmade : outcome.made = false → w.closed = true) : Orderly h (.answered c outcome) := by
  have hbehind := (List.nodup_append.mp (List.nodup_append.mp hs.apart).2.1)
  have hdone : c ∉ w.resuming.map Prod.fst ++ answeredOf h := by
    have hnodup := hbehind.2.1
    rw [List.map_append, List.append_assoc] at hnodup
    exact (List.nodup_cons.mp hnodup).1
  refine ⟨hs.called_of_admitted (by simp), fun hc => hdone (List.mem_append_right _ hc), ?_, ?_⟩
  · exact fun hmade => hs.mem_back.mpr ⟨by simp, hmade⟩
  · intro hmade
    refine ⟨?_, hs.shut.mp (hunmade hmade)⟩
    intro hsent
    rcases hs.of_sent hsent with hair | ⟨o, ho, hplace⟩
    · exact hbehind.2.2 c hair c (by simp) rfl
    · rw [List.append_assoc, List.mem_append, List.mem_singleton] at hplace
      rcases hplace with heq | hplace
      · rw [(Prod.mk.inj heq).2, hmade] at ho
        cases ho
      · apply hdone
        rw [answeredOf, ← List.map_append]
        exact List.mem_map.mpr ⟨_, hplace, rfl⟩

end Moves

end Pilot.V33.Writer
