import Pilot.V33.OrderWriterMoves

/-!
# Each request once, a slot in order

Whatever the calls, the workers, the loop and the shutdown do, the round trip of a request is
started at most once and answered at most once, with its own reply. The round trips of one slot are
started in the order of their calls, each only when the one before it has been answered.
-/

namespace Pilot.V33.Writer

variable {β γ : Type*}

section Runs

variable {m m' : List (Call β × Outcome γ)} {w w' : OrderWriter β γ} {h h' : List (Trace β γ)}
  {c : Call β} {outcome : Outcome γ}

/-! ### Steps and runs -/

/-- A state reached with what was seen of the step, all of it as promised. -/
def Keeps (h : List (Trace β γ)) (r : OrderWriter β γ × List (Trace β γ)) : Prop :=
  Served [] r.1 (h ++ r.2) ∧ AllAlong (fun h o => h ++ [o]) Orderly h r.2

/-- A step that does nothing keeps the order. -/
theorem Served.keeps (hs : Served [] w h) : Keeps h (w, []) := by
  refine ⟨?_, trivial⟩
  rw [List.append_nil]
  exact hs

/-- So does an answer, if only a shutdown leaves a round trip unmade. -/
theorem keeps_answer (hs : Served [(c, outcome)] w h)
    (hunmade : outcome.made = false → w.closed = true) : Keeps h (w.answer c outcome) := by
  have hs' := hs.of_eq { w with
    inflight := w.inflight - 1
    stats := { w.stats with completed := w.stats.completed + 1 } } rfl rfl rfl rfl rfl
  exact ⟨hs'.settle hunmade, hs.orderly_answered hunmade, trivial⟩

/-- So does a round trip handed to its pool, or refused by a pool that is shut down. -/
theorem keeps_runOffLoop (hs : Served [(c, .refused)] w h) : Keeps h (w.runOffLoop c) := by
  have hs' := hs.of_eq (w.countIn c) rfl rfl rfl rfl rfl
  unfold OrderWriter.runOffLoop
  split_ifs with hclosed
  · exact keeps_answer hs' fun _ => hclosed
  · have hopen : w.closed = false := by simpa using hclosed
    exact (hs'.enqueue hopen).keeps

/-- The outputs of a step after one output that is as promised. -/
theorem keeps_cons {o : Trace β γ} {r : OrderWriter β γ × List (Trace β γ)} (ho : Orderly h o)
    (hr : Keeps (h ++ [o]) r) : Keeps h (r.1, o :: r.2) := by
  refine ⟨?_, ho, hr.2⟩
  have hserved := hr.1
  rw [List.append_assoc] at hserved
  exact hserved

/-- So does a call, whether its slot is free or it has to wait. -/
theorem keeps_call (hs : Served [] w h) (request : Request β) (klass : WriteClass)
    (slot : Option String) (headers : List (String × String)) :
    Keeps h (w.call request klass slot headers) := by
  let c : Call β := ⟨w.calls (classToLane klass), request, klass, slot, headers⟩
  have hid : c.id = w.calls c.lane := rfl
  have hnew : Orderly h (.called c) := by
    intro hc
    have hlt := hs.fresh c hc
    omega
  apply keeps_cons hnew
  show Keeps _ ((w.numbered c.lane).withSlot c)
  unfold OrderWriter.withSlot
  cases hslot : slot with
  | none =>
    have hc : c.slot = none := hslot
    rw [hc]
    exact keeps_runOffLoop (hs.enterFree hc hid)
  | some s =>
    have hc : c.slot = some s := hslot
    rw [hc]
    dsimp only
    split_ifs with hfree
    · exact keeps_runOffLoop (hs.enterSlot hc hid hfree.1 hfree.2)
    · exact (hs.enterWait hc hid).keeps

/-- Every step keeps the order. -/
theorem keeps_step (hs : Served [] w h) (e : Event β γ) : Keeps h (w.step e) := by
  cases e with
  | post rel body klass slot token => exact keeps_call hs _ _ _ _
  | delete path klass slot token => exact keeps_call hs _ _ _ _
  | get path params klass => exact keeps_call hs _ _ _ _
  | wake slot =>
    show Keeps h (w.wake slot)
    cases hlock : w.slotLock slot with
    | mk locked waiters =>
      unfold OrderWriter.wake
      rw [hlock]
      cases locked with
      | true => exact hs.keeps
      | false =>
        cases waiters with
        | nil => exact hs.keeps
        | cons c rest => exact keeps_runOffLoop (hs.wakeUp hlock)
  | start lane =>
    show Keeps h (w.start lane)
    unfold OrderWriter.start
    cases hstart : (w.pools lane).start with
    | none => exact hs.keeps
    | some r => exact ⟨hs.sentOff hstart, hs.orderly_sent hstart, trivial⟩
  | finish lane id reply =>
    show Keeps h (w.finish lane id reply)
    unfold OrderWriter.finish
    cases hfinish : (w.pools lane).finish fun c => c.id = id with
    | none => exact hs.keeps
    | some r => exact ⟨hs.landed hfinish, hs.orderly_back hfinish, trivial⟩
  | resume lane id =>
    show Keeps h (w.resume lane id)
    unfold OrderWriter.resume
    cases htake : takeFirst (fun e : Call β × Outcome γ => e.1.lane = lane ∧ e.1.id = id)
        w.resuming with
    | none => exact hs.keeps
    | some r =>
      apply keeps_answer (hs.pickUp htake)
      intro hmade
      have hmem : r.1 ∈ w.resuming := (takeFirst_perm htake).symm.subset (by simp)
      exact hs.shut.mpr (hs.unmade r.1 (List.mem_append_left _ hmem) hmade)
  | close =>
    show Keeps h w.close
    unfold OrderWriter.close
    split_ifs with hclosed
    · exact hs.keeps
    · refine ⟨hs.shutDown, ?_, trivial⟩
      intro hin
      exact hclosed (hs.shut.mpr hin)

/-- The history after more was seen. -/
theorem foldl_seen (h out : List (Trace β γ)) : out.foldl (fun h o => h ++ [o]) h = h ++ out := by
  induction out generalizing h with
  | nil => simp
  | cons o out ih => simp [ih]

/-- Every run keeps the order. -/
theorem keeps_run (hs : Served [] w h) (es : List (Event β γ)) : Keeps h (w.run es) := by
  induction es generalizing w h with
  | nil => exact hs.keeps
  | cons e es ih =>
    obtain ⟨hserved, hall⟩ := keeps_step hs e
    obtain ⟨hserved', hall'⟩ := ih hserved
    rw [List.append_assoc] at hserved'
    refine ⟨hserved', ?_⟩
    show AllAlong _ Orderly h ((w.step e).2 ++ ((w.step e).1.run es).2)
    rw [allAlong_append, foldl_seen]
    exact ⟨hall, hall'⟩

/-- A new writer has nothing to serve. -/
theorem served_new (wing cancel normal : ℕ) :
    Served [] (OrderWriter.new wing cancel normal : OrderWriter β γ) [] := by
  constructor
  · constructor
    · intro lane
      cases lane <;> exact ⟨by simp [OrderWriter.new, newPools], Nat.zero_le _, le_max_left _ _⟩
    · exact List.Perm.refl _
    · exact List.Perm.refl _
    · simp [OrderWriter.new]
    · simp [OrderWriter.new, answersOf]
    · intro hclosed
      cases hclosed
  · simp [callsOf]
  · exact List.nodup_nil
  · exact fun s => ⟨none, rfl, rfl, rfl⟩
  · exact List.Perm.refl _

/-! ### The counters -/

/-- The calls past the lock of their slot: `m` on their way, those in a pool or back on the loop,
and those that have their answer. -/
def counted (m : List (Call β)) (w : OrderWriter β γ) (h : List (Trace β γ)) : List (Call β) :=
  m ++ w.admitted ++ answeredOf h

/-- The counters count the calls past the lock of their slot and the answers, each class its own
calls; the calls `m` are counted in and on their way. -/
structure Counted (m : List (Call β)) (w : OrderWriter β γ) (h : List (Trace β γ)) : Prop where
  completed : w.stats.completed = (answersOf h).length
  submitted : w.stats.submitted = (counted m w h).length
  byClass : ∀ klass,
    w.stats.byClass.getD klass 0 = (counted m w h).countP fun c => c.klass = klass
  inflight : w.inflight = (m ++ w.admitted).length
  maxInflight : w.inflight ≤ w.stats.maxInflight

/-- A step of the pools or the loop counts nothing. -/
theorem Counted.of_eq {m m' : List (Call β)} (hs : Counted m w h)
    (hinflight : w'.inflight = w.inflight) (hstats : w'.stats = w.stats)
    (hanswers : answersOf h' = answersOf h)
    (hheld : (m' ++ w'.admitted).Perm (m ++ w.admitted)) : Counted m' w' h' := by
  have hperm : (counted m' w' h').Perm (counted m w h) := by
    unfold counted answeredOf
    rw [hanswers]
    exact hheld.append_right _
  constructor
  · rw [hstats, hanswers]
    exact hs.completed
  · rw [hstats, hperm.length_eq]
    exact hs.submitted
  · intro klass
    rw [hstats, hperm.countP_eq]
    exact hs.byClass klass
  · rw [hinflight, hheld.length_eq]
    exact hs.inflight
  · rw [hstats, hinflight]
    exact hs.maxInflight

/-- A call counted in is counted under its class. -/
theorem Counted.countIn (hs : Counted [] w h) (c : Call β) : Counted [c] (w.countIn c) h := by
  have hmore : counted [c] (w.countIn c) h = c :: counted [] w h := rfl
  constructor
  · exact hs.completed
  · show w.stats.submitted + 1 = _
    rw [hmore, List.length_cons, hs.submitted]
  · intro klass
    show (w.stats.byClass.set c.klass (w.stats.byClass.getD c.klass 0 + 1)).getD klass 0 = _
    rw [hmore, Dict.getD_set, List.countP_cons, ← hs.byClass klass]
    by_cases hklass : klass = c.klass
    · rw [if_pos hklass, if_pos (by simp [hklass]), hklass]
    · rw [if_neg hklass, if_neg (by simp [Ne.symm hklass]), add_zero]
  · have hin : w.inflight = (([] ++ w.admitted).length : ℤ) := hs.inflight
    show w.inflight + 1 = ((c :: w.admitted).length : ℤ)
    rw [hin]
    simp
  · show w.inflight + 1 ≤ max w.stats.maxInflight (w.inflight + 1)
    omega

/-- An answer is counted, and its call is in flight no more. -/
theorem Counted.answer (hs : Counted [c] w h) :
    Counted [] (w.answer c outcome).1 (h ++ (w.answer c outcome).2) := by
  have hseen : answersOf (h ++ [.answered c outcome]) = answersOf h ++ [(c, outcome)] :=
    (seen_answered h c outcome).2.2.2
  have hin : w.inflight = ((c :: w.admitted).length : ℤ) := hs.inflight
  have hcounted : Counted [] { w with
      inflight := w.inflight - 1
      stats := { w.stats with completed := w.stats.completed + 1 } }
      (h ++ [.answered c outcome]) := by
    have hperm : (counted [] { w with
        inflight := w.inflight - 1
        stats := { w.stats with completed := w.stats.completed + 1 } }
        (h ++ [.answered c outcome])).Perm (counted [c] w h) := by
      have hturn : (w.admitted ++ answeredOf h ++ [c]).Perm ([c] ++ (w.admitted ++ answeredOf h)) :=
        List.perm_append_comm
      unfold counted answeredOf
      rw [hseen, List.map_append, ← List.append_assoc, List.append_assoc [c]]
      exact hturn
    constructor
    · show w.stats.completed + 1 = _
      rw [hseen, hs.completed, List.length_append, List.length_singleton]
    · exact hs.submitted.trans hperm.length_eq.symm
    · exact fun klass => (hs.byClass klass).trans (hperm.countP_eq _).symm
    · show w.inflight - 1 = (w.admitted.length : ℤ)
      rw [hin]
      simp
    · have hmax := hs.maxInflight
      show w.inflight - 1 ≤ w.stats.maxInflight
      omega
  unfold OrderWriter.answer
  cases hslot : c.slot with
  | none => exact hcounted
  | some s => exact hcounted.of_eq rfl rfl rfl (.refl _)

/-- A round trip handed to its pool or refused is counted once. -/
theorem Counted.runOffLoop (hs : Counted [] w h) (c : Call β) :
    Counted [] (w.runOffLoop c).1 (h ++ (w.runOffLoop c).2) := by
  unfold OrderWriter.runOffLoop
  split_ifs with hclosed
  · exact (hs.countIn c).answer
  · rw [List.append_nil]
    exact (hs.countIn c).of_eq rfl rfl rfl (admitted_submit (w.countIn c) c)

/-- A call that waits for its slot is not counted yet. -/
theorem Counted.withSlot (hs : Counted [] w h) (c : Call β) :
    Counted [] (w.withSlot c).1 (h ++ (w.withSlot c).2) := by
  unfold OrderWriter.withSlot
  cases hslot : c.slot with
  | none => exact hs.runOffLoop c
  | some s =>
    dsimp only
    split_ifs with hfree
    · have htaken : Counted [] (w.setLock s { w.slotLock s with locked := true }) h :=
        hs.of_eq rfl rfl rfl (.refl _)
      exact htaken.runOffLoop c
    · exact hs.of_eq rfl rfl (by rw [List.append_nil]) (.refl _)

/-- A call keeps the counters. -/
theorem Counted.call (hs : Counted [] w h) (request : Request β) (klass : WriteClass)
    (slot : Option String) (headers : List (String × String)) :
    Counted [] (w.call request klass slot headers).1
      (h ++ (w.call request klass slot headers).2) := by
  let c : Call β := ⟨w.calls (classToLane klass), request, klass, slot, headers⟩
  have hnumbered : Counted [] (w.numbered c.lane) (h ++ [.called c]) :=
    hs.of_eq rfl rfl (seen_called h c).2.2.2 (.refl _)
  have hslot := hnumbered.withSlot c
  rw [List.append_assoc] at hslot
  exact hslot

/-- Every step keeps the counters. -/
theorem Counted.step (hs : Counted [] w h) (e : Event β γ) :
    Counted [] (w.step e).1 (h ++ (w.step e).2) := by
  have hsame : Counted [] w (h ++ []) := by
    rw [List.append_nil]
    exact hs
  cases e with
  | post rel body klass slot token => exact hs.call _ _ _ _
  | delete path klass slot token => exact hs.call _ _ _ _
  | get path params klass => exact hs.call _ _ _ _
  | wake slot =>
    show Counted [] (w.wake slot).1 (h ++ (w.wake slot).2)
    unfold OrderWriter.wake
    cases hlock : w.slotLock slot with
    | mk locked waiters =>
      cases locked with
      | true => exact hsame
      | false =>
        cases waiters with
        | nil => exact hsame
        | cons c rest =>
          have htaken : Counted [] (w.setLock slot ⟨true, rest⟩) h :=
            hs.of_eq rfl rfl rfl (.refl _)
          exact htaken.runOffLoop c
  | start lane =>
    show Counted [] (w.start lane).1 (h ++ (w.start lane).2)
    unfold OrderWriter.start
    cases hstart : (w.pools lane).start with
    | none => exact hsame
    | some r =>
      show Counted [] (w.setPool lane r.2) (h ++ [.sent r.1])
      exact hs.of_eq rfl rfl (seen_sent h r.1).2.2.2 (admitted_start hstart)
  | finish lane id reply =>
    show Counted [] (w.finish lane id reply).1 (h ++ (w.finish lane id reply).2)
    unfold OrderWriter.finish
    cases hfinish : (w.pools lane).finish fun c => c.id = id with
    | none => exact hsame
    | some r =>
      exact hs.of_eq rfl rfl (seen_back h r.1 reply).2.2.2
        (admitted_finish hfinish (outcomeOf reply))
  | resume lane id =>
    show Counted [] (w.resume lane id).1 (h ++ (w.resume lane id).2)
    unfold OrderWriter.resume
    cases htake : takeFirst (fun e : Call β × Outcome γ => e.1.lane = lane ∧ e.1.id = id)
        w.resuming with
    | none => exact hsame
    | some r =>
      exact Counted.answer (hs.of_eq rfl rfl rfl (admitted_resume htake))
  | close =>
    show Counted [] w.close.1 (h ++ w.close.2)
    unfold OrderWriter.close
    split_ifs with hclosed
    · exact hsame
    · exact hs.of_eq rfl rfl (seen_closed h).2.2.2 (admitted_shut w)

/-- Every run keeps the counters. -/
theorem Counted.run (hs : Counted [] w h) (es : List (Event β γ)) :
    Counted [] (w.run es).1 (h ++ (w.run es).2) := by
  induction es generalizing w h with
  | nil =>
    show Counted [] w (h ++ [])
    rw [List.append_nil]
    exact hs
  | cons e es ih =>
    have hrest := ih (hs.step e)
    rw [List.append_assoc] at hrest
    exact hrest

end Runs

end Pilot.V33.Writer
