import Pilot.V33.OrderWriterLaw

/-!
# A lane for itself

The executor names a slot with the requests that belong to one order. Its wing takes name none.
A lane whose requests name no slot is not touched by anything that happens in the other lanes.
-/

namespace Pilot.V33.Writer

variable {β γ : Type*}

/-- The events of a lane. The shutdown belongs to every lane, the release of a slot to none. -/
def Event.touches (lane : Lane) : Event β γ → Bool
  | .post _ _ klass _ _ => classToLane klass = lane
  | .delete _ klass _ _ => classToLane klass = lane
  | .get _ _ klass => classToLane klass = lane
  | .wake _ => false
  | .start l => l = lane
  | .finish l _ _ => l = lane
  | .resume l _ => l = lane
  | .close => true

/-- A call of the lane names no slot. -/
def Event.slotless (lane : Lane) : Event β γ → Prop
  | .post _ _ klass slot _ => classToLane klass = lane → slot = none
  | .delete _ klass slot _ => classToLane klass = lane → slot = none
  | _ => True

/-- What is seen of a lane. -/
def Trace.ofLane (lane : Lane) : Trace β γ → Bool
  | .called c => c.lane = lane
  | .sent c => c.lane = lane
  | .back c _ => c.lane = lane
  | .answered c _ => c.lane = lane
  | .closed => true

/-- Two writers with the same lane. -/
structure SameLane (lane : Lane) (w w' : OrderWriter β γ) : Prop where
  calls : w'.calls lane = w.calls lane
  pool : w'.pools lane = w.pools lane
  resuming : (w'.resuming.filter fun e => e.1.lane = lane) =
    w.resuming.filter fun e => e.1.lane = lane
  closed : w'.closed = w.closed

/-- No call of the lane waits for a slot. -/
def NoneWaits (lane : Lane) (w : OrderWriter β γ) : Prop :=
  ∀ s, ∀ c ∈ (w.slotLock s).waiters, c.lane ≠ lane

/-- Taking the first item of a kind out, before or after the other kinds are left out. -/
theorem takeFirst_filter {α : Type*} {p q : α → Bool} (hqp : ∀ a, q a = true → p a = true)
    (l : List α) :
    takeFirst q (l.filter p) = (takeFirst q l).map fun r => (r.1, r.2.filter p) := by
  induction l with
  | nil => rfl
  | cons a l ih =>
    by_cases hq : q a = true
    · simp [takeFirst, hq, hqp a hq]
    · by_cases hp : p a = true
      · simp [takeFirst, hq, hp, ih, Function.comp_def]
      · simp [takeFirst, hq, hp, ih, Function.comp_def]

section Step

variable {lane : Lane} {w w' : OrderWriter β γ} {c : Call β} {outcome : Outcome γ}

/-- Writers that are the same on a lane are so transitively. -/
theorem sameLane_trans {v : OrderWriter β γ} (h : SameLane lane v w) (h' : SameLane lane w w') :
    SameLane lane v w' :=
  ⟨h'.calls.trans h.calls, h'.pool.trans h.pool, h'.resuming.trans h.resuming,
    h'.closed.trans h.closed⟩

/-- The lock of a slot is no part of a lane. -/
theorem sameLane_setLock (w : OrderWriter β γ) (s : String) (lock : SlotLock β) :
    SameLane lane w (w.setLock s lock) :=
  ⟨rfl, rfl, rfl, rfl⟩

/-- Another lane's pool is no part of this lane. -/
theorem sameLane_setPool {l : Lane} (hl : l ≠ lane) (pool : WorkerPool (Call β)) :
    SameLane lane w (w.setPool l pool) :=
  ⟨rfl, if_neg (Ne.symm hl), rfl, rfl⟩

/-- An answer is no part of a lane. -/
theorem sameLane_answer (lane : Lane) (w : OrderWriter β γ) (c : Call β) (outcome : Outcome γ) :
    SameLane lane w (w.answer c outcome).1 := by
  unfold OrderWriter.answer
  cases c.slot <;> exact ⟨rfl, rfl, rfl, rfl⟩

/-- An answer lets no call of the lane wait. -/
theorem noneWaits_answer (h : NoneWaits lane w) (c : Call β) (outcome : Outcome γ) :
    NoneWaits lane (w.answer c outcome).1 := by
  unfold OrderWriter.answer
  cases hslot : c.slot with
  | none => exact h
  | some s =>
    intro s' d hd
    rw [release_some, slotLock_setLock] at hd
    split_ifs at hd with hs
    · exact h s d hd
    · exact h s' d hd

/-- A call of another lane changes nothing of this one. -/
theorem runOffLoop_other (hc : c.lane ≠ lane) :
    SameLane lane w (w.runOffLoop c).1 ∧
      ((w.runOffLoop c).2.filter fun o => o.ofLane lane) = [] := by
  unfold OrderWriter.runOffLoop
  split_ifs with hclosed
  · have hcount : SameLane lane w (w.countIn c) := ⟨rfl, rfl, rfl, rfl⟩
    exact ⟨sameLane_trans hcount (sameLane_answer lane _ c _),
      by simp [OrderWriter.answer, Trace.ofLane, hc]⟩
  · have hcount : SameLane lane w (w.countIn c) := ⟨rfl, rfl, rfl, rfl⟩
    exact ⟨sameLane_trans hcount (sameLane_setPool hc _), rfl⟩

/-- A submission lets no call of the lane wait. -/
theorem noneWaits_runOffLoop (h : NoneWaits lane w) (c : Call β) :
    NoneWaits lane (w.runOffLoop c).1 := by
  unfold OrderWriter.runOffLoop
  split_ifs with hclosed
  · exact noneWaits_answer (w := w.countIn c) h c _
  · exact h

/-- A call of the lane does the same to two writers with the same lane. -/
theorem runOffLoop_same (h : SameLane lane w w') (hc : c.lane = lane) :
    SameLane lane (w.runOffLoop c).1 (w'.runOffLoop c).1 ∧
      (w'.runOffLoop c).2 = (w.runOffLoop c).2.filter fun o => o.ofLane lane := by
  subst hc
  unfold OrderWriter.runOffLoop
  rw [h.closed]
  split_ifs with hclosed
  · have hcount : SameLane c.lane (w.countIn c) (w'.countIn c) :=
      ⟨h.calls, h.pool, h.resuming, h.closed⟩
    refine ⟨?_, by simp [OrderWriter.answer, Trace.ofLane]⟩
    have hleft := sameLane_answer c.lane (w.countIn c) c .refused
    have hright := sameLane_answer c.lane (w'.countIn c) c .refused
    exact ⟨(hright.calls.trans hcount.calls).trans hleft.calls.symm,
      (hright.pool.trans hcount.pool).trans hleft.pool.symm,
      (hright.resuming.trans hcount.resuming).trans hleft.resuming.symm,
      (hright.closed.trans hcount.closed).trans hleft.closed.symm⟩
  · refine ⟨⟨h.calls, ?_, h.resuming, h.closed⟩, rfl⟩
    show (if c.lane = c.lane then _ else _) = if c.lane = c.lane then _ else _
    rw [if_pos rfl, if_pos rfl, h.pool]

/-- Of what waits for a worker, a lane has the queue of its pool. -/
theorem filter_queued {m : List (Call β × Outcome γ)} {h : List (Trace β γ)} (hs : Served m w h)
    (lane : Lane) : (w.queued.filter fun c => c.lane = lane) = (w.pools lane).queue := by
  have hkeep : ((w.pools lane).queue.filter fun c => c.lane = lane) = (w.pools lane).queue := by
    apply List.filter_eq_self.mpr
    intro c hc
    simpa using (hs.poolOk lane).lanes c (List.mem_append_left _ hc)
  have hdrop : ∀ l, l ≠ lane → ((w.pools l).queue.filter fun c => c.lane = lane) = [] := by
    intro l hl
    apply List.filter_eq_nil_iff.mpr
    intro c hc
    have hlane := (hs.poolOk l).lanes c (List.mem_append_left _ hc)
    simpa [hlane] using hl
  unfold OrderWriter.queued
  rw [List.filter_append, List.filter_append]
  cases lane with
  | wing => rw [hkeep, hdrop .cancel (by decide), hdrop .normal (by decide)]; simp
  | cancel => rw [hkeep, hdrop .wing (by decide), hdrop .normal (by decide)]; simp
  | normal => rw [hkeep, hdrop .wing (by decide), hdrop .cancel (by decide)]; simp

/-- No call of the lane waits at a lock whose waiters are of others. -/
theorem noneWaits_setLock (hwaits : NoneWaits lane w) (s : String) (lock : SlotLock β)
    (hlock : ∀ c ∈ lock.waiters, c.lane ≠ lane) : NoneWaits lane (w.setLock s lock) := by
  intro s' c hc
  rw [slotLock_setLock] at hc
  split_ifs at hc with hs
  · exact hlock c hc
  · exact hwaits s' c hc

/-- A call of another lane may wait for its slot. -/
theorem withSlot_other (hwaits : NoneWaits lane w) (hc : c.lane ≠ lane) :
    SameLane lane w (w.withSlot c).1 ∧
      ((w.withSlot c).2.filter fun o => o.ofLane lane) = [] ∧ NoneWaits lane (w.withSlot c).1 := by
  unfold OrderWriter.withSlot
  cases hslot : c.slot with
  | none =>
    obtain ⟨hsame, hout⟩ := runOffLoop_other (w := w) hc
    exact ⟨hsame, hout, noneWaits_runOffLoop hwaits c⟩
  | some s =>
    dsimp only
    split_ifs with hfree
    · obtain ⟨hsame, hout⟩ := runOffLoop_other
        (w := w.setLock s { w.slotLock s with locked := true }) hc
      have hlock := noneWaits_setLock hwaits s { w.slotLock s with locked := true }
        (hwaits s)
      exact ⟨sameLane_trans (sameLane_setLock _ _ _) hsame, hout, noneWaits_runOffLoop hlock c⟩
    · refine ⟨sameLane_setLock _ _ _, rfl, noneWaits_setLock hwaits s _ ?_⟩
      intro d hd
      rcases List.mem_append.mp hd with hd | hd
      · exact hwaits s d hd
      · rw [List.mem_singleton.mp hd]
        exact hc

/-- A call of a verb in another lane. -/
theorem call_other (hwaits : NoneWaits lane w) (request : Request β) {klass : WriteClass}
    (hk : classToLane klass ≠ lane) (slot : Option String) (headers : List (String × String)) :
    SameLane lane w (w.call request klass slot headers).1 ∧
      ((w.call request klass slot headers).2.filter fun o => o.ofLane lane) = [] ∧
      NoneWaits lane (w.call request klass slot headers).1 := by
  let c : Call β := ⟨w.calls (classToLane klass), request, klass, slot, headers⟩
  have hc : c.lane ≠ lane := hk
  have hnumbered : SameLane lane w (w.numbered c.lane) := ⟨if_neg (Ne.symm hc), rfl, rfl, rfl⟩
  obtain ⟨hsame, hout, hnone⟩ := withSlot_other (w := w.numbered c.lane) hwaits hc
  refine ⟨sameLane_trans hnumbered hsame, ?_, hnone⟩
  show ((Trace.called c :: ((w.numbered c.lane).withSlot c).2).filter _) = []
  rw [List.filter_cons_of_neg (by simpa [Trace.ofLane] using hc)]
  exact hout

/-- What happens elsewhere changes nothing of the lane. -/
theorem step_other {h : List (Trace β γ)} (hs : Served [] w h) (hwaits : NoneWaits lane w)
    {e : Event β γ} (he : e.touches lane = false) :
    SameLane lane w (w.step e).1 ∧ ((w.step e).2.filter fun o => o.ofLane lane) = [] ∧
      NoneWaits lane (w.step e).1 := by
  have hsame : SameLane lane w w := ⟨rfl, rfl, rfl, rfl⟩
  cases e with
  | post rel body klass slot token =>
    exact call_other hwaits _ (by simpa [Event.touches] using he) _ _
  | delete path klass slot token =>
    exact call_other hwaits _ (by simpa [Event.touches] using he) _ _
  | get path params klass => exact call_other hwaits _ (by simpa [Event.touches] using he) _ _
  | wake slot =>
    show SameLane lane w (w.wake slot).1 ∧ ((w.wake slot).2.filter _) = [] ∧
      NoneWaits lane (w.wake slot).1
    cases hlock : w.slotLock slot with
    | mk locked waiters =>
      unfold OrderWriter.wake
      rw [hlock]
      cases locked with
      | true => exact ⟨hsame, rfl, hwaits⟩
      | false =>
        cases waiters with
        | nil => exact ⟨hsame, rfl, hwaits⟩
        | cons c rest =>
          have hc : c.lane ≠ lane := hwaits slot c (by rw [hlock]; simp)
          obtain ⟨hstep, hout⟩ := runOffLoop_other (w := w.setLock slot ⟨true, rest⟩) hc
          have hrest : NoneWaits lane (w.setLock slot ⟨true, rest⟩) := by
            apply noneWaits_setLock hwaits
            intro d hd
            exact hwaits slot d (by rw [hlock]; exact List.mem_cons_of_mem _ hd)
          exact ⟨sameLane_trans (sameLane_setLock _ _ _) hstep, hout,
            noneWaits_runOffLoop hrest c⟩
  | start l =>
    have hl : l ≠ lane := by simpa [Event.touches] using he
    show SameLane lane w (w.start l).1 ∧ ((w.start l).2.filter _) = [] ∧
      NoneWaits lane (w.start l).1
    unfold OrderWriter.start
    cases hstart : (w.pools l).start with
    | none => exact ⟨hsame, rfl, hwaits⟩
    | some r =>
      obtain ⟨hqueue, -, -, -⟩ := WorkerPool.start_eq_some hstart
      have hlane := (hs.poolOk l).lanes r.1 (List.mem_append_left _ (by simp [hqueue]))
      exact ⟨sameLane_setPool hl _, by simp [Trace.ofLane, hlane, hl], hwaits⟩
  | finish l id reply =>
    have hl : l ≠ lane := by simpa [Event.touches] using he
    show SameLane lane w (w.finish l id reply).1 ∧ ((w.finish l id reply).2.filter _) = [] ∧
      NoneWaits lane (w.finish l id reply).1
    unfold OrderWriter.finish
    cases hfinish : (w.pools l).finish fun c => c.id = id with
    | none => exact ⟨hsame, rfl, hwaits⟩
    | some r =>
      obtain ⟨htake, -, -⟩ := WorkerPool.finish_eq_some hfinish
      have hlane := (hs.poolOk l).lanes r.1
        (List.mem_append_right _ ((takeFirst_perm htake).symm.subset (by simp)))
      refine ⟨⟨rfl, if_neg (Ne.symm hl), ?_, rfl⟩, by simp [Trace.ofLane, hlane, hl], hwaits⟩
      simp [hlane, hl]
  | resume l id =>
    have hl : l ≠ lane := by simpa [Event.touches] using he
    show SameLane lane w (w.resume l id).1 ∧ ((w.resume l id).2.filter _) = [] ∧
      NoneWaits lane (w.resume l id).1
    unfold OrderWriter.resume
    cases htake : takeFirst (fun e : Call β × Outcome γ => e.1.lane = l ∧ e.1.id = id)
        w.resuming with
    | none => exact ⟨hsame, rfl, hwaits⟩
    | some r =>
      obtain ⟨hq, before, after, hsplit, hrest⟩ := takeFirst_split htake
      have hlane : r.1.1.lane = l := (of_decide_eq_true hq).1
      have hleft : SameLane lane w { w with resuming := r.2 } := by
        refine ⟨rfl, rfl, ?_, rfl⟩
        simp [hsplit, hrest, hlane, hl]
      have hnone : NoneWaits lane { w with resuming := r.2 } := hwaits
      refine ⟨sameLane_trans hleft (sameLane_answer lane _ _ _), ?_,
        noneWaits_answer hnone r.1.1 r.1.2⟩
      simp [OrderWriter.answer, Trace.ofLane, hlane, hl]
  | close => cases he

/-- A call of a verb in the lane. -/
theorem call_same (h : SameLane lane w w') (hwaits : NoneWaits lane w) (request : Request β)
    {klass : WriteClass} (hk : classToLane klass = lane) (headers : List (String × String)) :
    SameLane lane (w.call request klass none headers).1 (w'.call request klass none headers).1 ∧
      (w'.call request klass none headers).2 =
        (w.call request klass none headers).2.filter (fun o => o.ofLane lane) ∧
      NoneWaits lane (w.call request klass none headers).1 := by
  subst hk
  let c : Call β := ⟨w.calls (classToLane klass), request, klass, none, headers⟩
  have hid : (⟨w'.calls (classToLane klass), request, klass, none, headers⟩ : Call β) = c := by
    rw [h.calls]
  have hnumbered : SameLane c.lane (w.numbered c.lane) (w'.numbered c.lane) := by
    refine ⟨?_, h.pool, h.resuming, h.closed⟩
    show (if c.lane = c.lane then _ else _) = if c.lane = c.lane then _ else _
    rw [if_pos rfl, if_pos rfl]
    exact congrArg (· + 1) h.calls
  obtain ⟨hsame, hout⟩ := runOffLoop_same hnumbered (c := c) rfl
  have hnone : NoneWaits c.lane (w.numbered c.lane) := hwaits
  unfold OrderWriter.call OrderWriter.withSlot
  dsimp only
  rw [hid]
  refine ⟨hsame, ?_, noneWaits_runOffLoop hnone c⟩
  show Trace.called c :: ((w'.numbered c.lane).runOffLoop c).2 =
    (Trace.called c :: ((w.numbered c.lane).runOffLoop c).2).filter _
  rw [List.filter_cons_of_pos (by simp [Trace.ofLane, Call.lane, c]), hout]
  rfl

/-- What happens in the lane happens alike in two writers with the same lane. -/
theorem step_same {h h' : List (Trace β γ)} (hsame : SameLane lane w w') (hs : Served [] w h)
    (hs' : Served [] w' h') (hwaits : NoneWaits lane w) {e : Event β γ}
    (he : e.touches lane = true) (hslot : e.slotless lane) :
    SameLane lane (w.step e).1 (w'.step e).1 ∧
      (w'.step e).2 = (w.step e).2.filter (fun o => o.ofLane lane) ∧
      NoneWaits lane (w.step e).1 := by
  cases e with
  | post rel body klass slot token =>
    have hk : classToLane klass = lane := by simpa [Event.touches] using he
    obtain rfl : slot = none := hslot hk
    exact call_same hsame hwaits _ hk _
  | delete path klass slot token =>
    have hk : classToLane klass = lane := by simpa [Event.touches] using he
    obtain rfl : slot = none := hslot hk
    exact call_same hsame hwaits _ hk _
  | get path params klass =>
    exact call_same hsame hwaits _ (by simpa [Event.touches] using he) _
  | wake slot => cases he
  | start l =>
    obtain rfl : l = lane := by simpa [Event.touches] using he
    show SameLane l (w.start l).1 (w'.start l).1 ∧ (w'.start l).2 = (w.start l).2.filter _ ∧
      NoneWaits l (w.start l).1
    unfold OrderWriter.start
    rw [hsame.pool]
    cases hstart : (w.pools l).start with
    | none => exact ⟨hsame, rfl, hwaits⟩
    | some r =>
      obtain ⟨hqueue, -, -, -⟩ := WorkerPool.start_eq_some hstart
      have hlane := (hs.poolOk l).lanes r.1 (List.mem_append_left _ (by simp [hqueue]))
      refine ⟨⟨hsame.calls, ?_, hsame.resuming, hsame.closed⟩, by simp [Trace.ofLane, hlane],
        hwaits⟩
      simp [OrderWriter.setPool]
  | finish l id reply =>
    obtain rfl : l = lane := by simpa [Event.touches] using he
    show SameLane l (w.finish l id reply).1 (w'.finish l id reply).1 ∧
      (w'.finish l id reply).2 = (w.finish l id reply).2.filter _ ∧
      NoneWaits l (w.finish l id reply).1
    unfold OrderWriter.finish
    rw [hsame.pool]
    cases hfinish : (w.pools l).finish fun c => c.id = id with
    | none => exact ⟨hsame, rfl, hwaits⟩
    | some r =>
      obtain ⟨htake, -, -⟩ := WorkerPool.finish_eq_some hfinish
      have hlane := (hs.poolOk l).lanes r.1
        (List.mem_append_right _ ((takeFirst_perm htake).symm.subset (by simp)))
      refine ⟨⟨hsame.calls, ?_, ?_, hsame.closed⟩, by simp [Trace.ofLane, hlane], hwaits⟩
      · simp [OrderWriter.setPool]
      · have hresuming := hsame.resuming
        simp only [List.filter_append, hresuming]
  | resume l id =>
    obtain rfl : l = lane := by simpa [Event.touches] using he
    show SameLane l (w.resume l id).1 (w'.resume l id).1 ∧
      (w'.resume l id).2 = (w.resume l id).2.filter _ ∧ NoneWaits l (w.resume l id).1
    have hkind : ∀ e : Call β × Outcome γ, decide (e.1.lane = l ∧ e.1.id = id) = true →
        decide (e.1.lane = l) = true := by
      intro e he'
      simpa using (of_decide_eq_true he').1
    have htakes := takeFirst_filter hkind w.resuming
    rw [← hsame.resuming, takeFirst_filter hkind] at htakes
    unfold OrderWriter.resume
    cases htake : takeFirst (fun e : Call β × Outcome γ => e.1.lane = l ∧ e.1.id = id)
        w.resuming with
    | none =>
      rw [htake] at htakes
      rw [Option.map_eq_none_iff.mp htakes]
      exact ⟨hsame, rfl, hwaits⟩
    | some r =>
      obtain ⟨e, rest⟩ := r
      rw [htake] at htakes
      obtain ⟨⟨e', rest'⟩, htake', heq⟩ := Option.map_eq_some_iff.mp htakes
      obtain ⟨rfl, hrest⟩ := Prod.mk.inj heq
      rw [htake']
      have hlane : e'.1.lane = l := (of_decide_eq_true (takeFirst_split htake).1).1
      have hleft := sameLane_answer l { w with resuming := rest } e'.1 e'.2
      have hright := sameLane_answer l { w' with resuming := rest' } e'.1 e'.2
      have hnone : NoneWaits l { w with resuming := rest } := hwaits
      refine ⟨⟨(hright.calls.trans hsame.calls).trans hleft.calls.symm,
        (hright.pool.trans hsame.pool).trans hleft.pool.symm,
        (hright.resuming.trans hrest).trans hleft.resuming.symm,
        (hright.closed.trans hsame.closed).trans hleft.closed.symm⟩, ?_,
        noneWaits_answer hnone e'.1 e'.2⟩
      simp [OrderWriter.answer, Trace.ofLane, hlane]
  | close =>
    show SameLane lane w.close.1 w'.close.1 ∧ w'.close.2 = w.close.2.filter _ ∧
      NoneWaits lane w.close.1
    unfold OrderWriter.close
    rw [hsame.closed]
    split_ifs with hclosed
    · exact ⟨hsame, rfl, hwaits⟩
    · refine ⟨⟨hsame.calls, ?_, ?_, rfl⟩, rfl, hwaits⟩
      · show (w'.pools lane).dropQueue = (w.pools lane).dropQueue
        rw [hsame.pool]
      · have hresuming := hsame.resuming
        have hpool := hsame.pool
        have hqueue := filter_queued hs lane
        have hqueue' := filter_queued hs' lane
        have hgiven (v : OrderWriter β γ) :
            ((v.queued.map fun c => (c, (Outcome.cancelled : Outcome γ))).filter
              fun e => e.1.lane = lane) =
            (v.queued.filter fun c => c.lane = lane).map fun c => (c, Outcome.cancelled) := by
          rw [List.filter_map]
          rfl
        simp only [List.filter_append, hresuming, hgiven, hqueue, hqueue', hpool]

/-- In a run, the events of the lane alone do to the lane what all the events do. -/
theorem run_same {h h' : List (Trace β γ)} (hsame : SameLane lane w w') (hs : Served [] w h)
    (hs' : Served [] w' h') (hwaits : NoneWaits lane w) {es : List (Event β γ)}
    (hslots : ∀ e ∈ es, e.slotless lane) :
    SameLane lane (w.run es).1 (w'.run (es.filter fun e => e.touches lane)).1 ∧
      (w'.run (es.filter fun e => e.touches lane)).2 =
        (w.run es).2.filter fun o => o.ofLane lane := by
  induction es generalizing w w' h h' with
  | nil => exact ⟨hsame, rfl⟩
  | cons e es ih =>
    have hrest : ∀ e ∈ es, e.slotless lane := fun e he => hslots e (List.mem_cons_of_mem _ he)
    have hkeeps := (keeps_step hs e).1
    cases he : e.touches lane with
    | true =>
      obtain ⟨hstep, hout, hnone⟩ := step_same hsame hs hs' hwaits he (hslots e (by simp))
      obtain ⟨hlane, htrace⟩ := ih hstep hkeeps (keeps_step hs' e).1 hnone hrest
      rw [List.filter_cons_of_pos he]
      refine ⟨hlane, ?_⟩
      show (w'.step e).2 ++ ((w'.step e).1.run _).2 =
        (((w.step e).2 ++ ((w.step e).1.run es).2).filter _)
      rw [List.filter_append, hout, htrace]
    | false =>
      obtain ⟨hstep, hout, hnone⟩ := step_other hs hwaits he
      have hsame' : SameLane lane (w.step e).1 w' :=
        ⟨hsame.calls.trans hstep.calls.symm, hsame.pool.trans hstep.pool.symm,
          hsame.resuming.trans hstep.resuming.symm, hsame.closed.trans hstep.closed.symm⟩
      obtain ⟨hlane, htrace⟩ := ih hsame' hkeeps hs' hnone hrest
      rw [List.filter_cons_of_neg (by simp [he])]
      refine ⟨hlane, ?_⟩
      show (w'.run _).2 = (((w.step e).2 ++ ((w.step e).1.run es).2).filter _)
      rw [List.filter_append, hout, List.nil_append, htrace]

/-! ### The order of a lane -/

/-- The requests of the lane are sent in the order of their calls, and those not sent wait for a
worker until the pools are shut down. -/
structure InLine (lane : Lane) (w : OrderWriter β γ) (h : List (Trace β γ)) : Prop where
  line : w.closed = false → ((callsOf h).filter fun c => c.lane = lane) =
    ((sentOf h).filter fun c => c.lane = lane) ++ (w.pools lane).queue
  order : ((sentOf h).filter fun c => c.lane = lane) <+:
    (callsOf h).filter fun c => c.lane = lane

/-- The calls of two histories are those of each. -/
theorem callsOf_append (h out : List (Trace β γ)) : callsOf (h ++ out) = callsOf h ++ callsOf out :=
  List.filterMap_append

/-- The sends of two histories are those of each. -/
theorem sentOf_append (h out : List (Trace β γ)) : sentOf (h ++ out) = sentOf h ++ sentOf out :=
  List.filterMap_append

/-- Where nothing of the lane is seen, none of its calls and requests are. -/
theorem filter_silent {out : List (Trace β γ)}
    (hout : (out.filter fun o => o.ofLane lane) = []) :
    ((callsOf out).filter fun c => c.lane = lane) = [] ∧
      ((sentOf out).filter fun c => c.lane = lane) = [] := by
  induction out with
  | nil => exact ⟨rfl, rfl⟩
  | cons o out ih =>
    have ho : o.ofLane lane = false := by
      by_contra hne
      rw [List.filter_cons_of_pos (by simpa using hne)] at hout
      cases hout
    rw [List.filter_cons_of_neg (by simp [ho])] at hout
    obtain ⟨hcalls, hsent⟩ := ih hout
    cases o with
    | called c =>
      have hc : ¬c.lane = lane := by simpa [Trace.ofLane] using ho
      refine ⟨?_, hsent⟩
      show ((c :: callsOf out).filter _) = []
      rw [List.filter_cons_of_neg (by simpa using hc), hcalls]
    | sent c =>
      have hc : ¬c.lane = lane := by simpa [Trace.ofLane] using ho
      refine ⟨hcalls, ?_⟩
      show ((c :: sentOf out).filter _) = []
      rw [List.filter_cons_of_neg (by simpa using hc), hsent]
    | back c reply => exact ⟨hcalls, hsent⟩
    | answered c outcome => exact ⟨hcalls, hsent⟩
    | closed => cases ho

/-- What leaves the queue of the lane, its calls and its requests alone keeps the order. -/
theorem InLine.of_silent {h out : List (Trace β γ)} (hs : InLine lane w h)
    (hqueue : (w'.pools lane).queue = (w.pools lane).queue) (hclosed : w'.closed = w.closed)
    (hcalls : ((callsOf out).filter fun c => c.lane = lane) = [])
    (hsent : ((sentOf out).filter fun c => c.lane = lane) = []) : InLine lane w' (h ++ out) := by
  constructor
  · rw [hclosed, hqueue, callsOf_append, sentOf_append, List.filter_append, List.filter_append,
      hcalls, hsent, List.append_nil, List.append_nil]
    exact hs.line
  · rw [callsOf_append, sentOf_append, List.filter_append, List.filter_append, hcalls, hsent,
      List.append_nil, List.append_nil]
    exact hs.order

/-- A call without a slot joins the line of its lane. -/
theorem inLine_call {h : List (Trace β γ)} (hs : InLine lane w h) (request : Request β)
    {klass : WriteClass} (hk : classToLane klass = lane) (headers : List (String × String)) :
    InLine lane (w.call request klass none headers).1
      (h ++ (w.call request klass none headers).2) := by
  subst hk
  let c : Call β := ⟨w.calls (classToLane klass), request, klass, none, headers⟩
  have hc : c.lane = classToLane klass := rfl
  show InLine c.lane ((w.numbered c.lane).runOffLoop c).1
    (h ++ Trace.called c :: ((w.numbered c.lane).runOffLoop c).2)
  have hline := hs.line
  have horder := hs.order
  rw [← hc] at hline horder
  cases hclosed : w.closed with
  | true =>
    have hrun : (w.numbered c.lane).runOffLoop c =
        ((w.numbered c.lane).countIn c).answer c .refused := if_pos hclosed
    rw [hrun]
    have hshut : (((w.numbered c.lane).countIn c).answer c (.refused : Outcome γ)).1.closed =
        true := hclosed
    constructor
    · intro hopen
      rw [hshut] at hopen
      cases hopen
    · rw [callsOf_append, sentOf_append, List.filter_append, List.filter_append]
      simpa [OrderWriter.answer, callsOf, sentOf] using horder.trans (List.prefix_append _ _)
  | false =>
    have hrun : (w.numbered c.lane).runOffLoop c =
        (((w.numbered c.lane).countIn c).setPool c.lane ((w.pools c.lane).submit c), []) :=
      if_neg (by simp [OrderWriter.numbered, hclosed])
    rw [hrun]
    have hcalls : callsOf (h ++ [Trace.called c]) = callsOf h ++ [c] := (seen_called h c).1
    have hsent : sentOf (h ++ [Trace.called c]) = sentOf h := (seen_called h c).2.1
    have hgrown : ((callsOf (h ++ [Trace.called c])).filter fun d => d.lane = c.lane) =
        ((sentOf (h ++ [Trace.called c])).filter fun d => d.lane = c.lane) ++
          ((w.pools c.lane).queue ++ [c]) := by
      rw [hcalls, hsent, List.filter_append, hline hclosed, List.append_assoc]
      simp
    constructor
    · intro _
      simpa [OrderWriter.setPool] using hgrown
    · rw [hgrown]
      exact List.prefix_append _ _

/-- A start sends the first of the line. -/
theorem inLine_start {h : List (Trace β γ)} (hserved : Served [] w h) (hs : InLine lane w h) :
    InLine lane (w.start lane).1 (h ++ (w.start lane).2) := by
  unfold OrderWriter.start
  cases hstart : (w.pools lane).start with
  | none => exact hs.of_silent rfl rfl rfl rfl
  | some r =>
    obtain ⟨hqueue, -, -, -⟩ := WorkerPool.start_eq_some hstart
    have hlane := (hserved.poolOk lane).lanes r.1 (List.mem_append_left _ (by simp [hqueue]))
    have hopen : w.closed = false := by
      by_contra hclosed
      have hempty := hserved.drained (by simpa using hclosed) lane
      rw [hqueue] at hempty
      cases hempty
    have hline : ((callsOf (h ++ [Trace.sent r.1])).filter fun c => c.lane = lane) =
        ((sentOf (h ++ [Trace.sent r.1])).filter fun c => c.lane = lane) ++ r.2.queue := by
      rw [(seen_sent h r.1).1, (seen_sent h r.1).2.1, hs.line hopen, hqueue]
      simp [hlane]
    constructor
    · intro _
      simpa [OrderWriter.setPool] using hline
    · show ((sentOf (h ++ [Trace.sent r.1])).filter _) <+: _
      rw [hline]
      exact List.prefix_append _ _

/-- Every step keeps the order of the lane. -/
theorem inLine_step {h : List (Trace β γ)} (hserved : Served [] w h) (hwaits : NoneWaits lane w)
    (hs : InLine lane w h) {e : Event β γ} (hslot : e.slotless lane) :
    InLine lane (w.step e).1 (h ++ (w.step e).2) := by
  cases he : e.touches lane with
  | false =>
    obtain ⟨hsame, hout, -⟩ := step_other hserved hwaits he
    obtain ⟨hcalls, hsent⟩ := filter_silent hout
    exact hs.of_silent (by rw [hsame.pool]) hsame.closed hcalls hsent
  | true =>
    cases e with
    | post rel body klass slot token =>
      have hk : classToLane klass = lane := by simpa [Event.touches] using he
      obtain rfl : slot = none := hslot hk
      exact inLine_call hs _ hk _
    | delete path klass slot token =>
      have hk : classToLane klass = lane := by simpa [Event.touches] using he
      obtain rfl : slot = none := hslot hk
      exact inLine_call hs _ hk _
    | get path params klass =>
      exact inLine_call hs _ (by simpa [Event.touches] using he) _
    | wake slot => cases he
    | start l =>
      obtain rfl : l = lane := by simpa [Event.touches] using he
      exact inLine_start hserved hs
    | finish l id reply =>
      obtain rfl : l = lane := by simpa [Event.touches] using he
      show InLine l (w.finish l id reply).1 (h ++ (w.finish l id reply).2)
      unfold OrderWriter.finish
      cases hfinish : (w.pools l).finish fun c => c.id = id with
      | none => exact hs.of_silent rfl rfl rfl rfl
      | some r =>
        obtain ⟨-, hqueue, -⟩ := WorkerPool.finish_eq_some hfinish
        exact hs.of_silent (by simpa [OrderWriter.setPool] using hqueue) rfl rfl rfl
    | resume l id =>
      show InLine lane (w.resume l id).1 (h ++ (w.resume l id).2)
      unfold OrderWriter.resume
      cases htake : takeFirst (fun e : Call β × Outcome γ => e.1.lane = l ∧ e.1.id = id)
          w.resuming with
      | none => exact hs.of_silent rfl rfl rfl rfl
      | some r =>
        have hsame := sameLane_answer lane { w with resuming := r.2 } r.1.1 r.1.2
        exact hs.of_silent (by rw [hsame.pool]) hsame.closed rfl rfl
    | close =>
      show InLine lane w.close.1 (h ++ w.close.2)
      unfold OrderWriter.close
      split_ifs with hclosed
      · exact hs.of_silent rfl rfl rfl rfl
      · constructor
        · intro hopen
          cases hopen
        · rw [callsOf_append, sentOf_append, List.filter_append, List.filter_append]
          simpa [callsOf, sentOf] using hs.order

/-- A run without slots on the lane keeps the line. -/
theorem inLine_run {h : List (Trace β γ)} (hserved : Served [] w h) (hwaits : NoneWaits lane w)
    (hs : InLine lane w h) {es : List (Event β γ)} (hslots : ∀ e ∈ es, e.slotless lane) :
    InLine lane (w.run es).1 (h ++ (w.run es).2) := by
  induction es generalizing w h with
  | nil => exact hs.of_silent rfl rfl rfl rfl
  | cons e es ih =>
    have hsame : SameLane lane w w := ⟨rfl, rfl, rfl, rfl⟩
    have hnone : NoneWaits lane (w.step e).1 := by
      cases he : e.touches lane with
      | false => exact (step_other hserved hwaits he).2.2
      | true => exact (step_same hsame hserved hserved hwaits he (hslots e (by simp))).2.2
    have hstep := inLine_step hserved hwaits hs (hslots e (by simp))
    have hrest := ih (keeps_step hserved e).1 hnone hstep
      fun e he => hslots e (List.mem_cons_of_mem _ he)
    rw [List.append_assoc] at hrest
    exact hrest

end Step

/-- **A lane for itself.** In every run in which the calls of a lane name no slot, as the wing takes
of the executor name none, what is seen of the lane and the state of its pool are those of the run
that has the lane's own events alone: nothing queued, sent, delayed or lost in another lane is
felt. The lane's requests are sent in the order of their calls. -/
theorem lane_stands_alone (wing cancel normal : ℕ) (lane : Lane) (es : List (Event β γ))
    (hslots : ∀ e ∈ es, e.slotless lane) :
    SameLane lane ((OrderWriter.new wing cancel normal).run es).1
        ((OrderWriter.new wing cancel normal).run (es.filter fun e => e.touches lane)).1 ∧
      ((OrderWriter.new wing cancel normal).run (es.filter fun e => e.touches lane)).2 =
        ((OrderWriter.new wing cancel normal).run es).2.filter (fun o => o.ofLane lane) ∧
      ((sentOf ((OrderWriter.new wing cancel normal).run es).2).filter fun c => c.lane = lane) <+:
        (callsOf ((OrderWriter.new wing cancel normal).run es).2).filter
          fun c => c.lane = lane := by
  have hsame : SameLane lane (OrderWriter.new wing cancel normal : OrderWriter β γ)
      (OrderWriter.new wing cancel normal) := ⟨rfl, rfl, rfl, rfl⟩
  have hserved := served_new (β := β) (γ := γ) wing cancel normal
  have hnone : NoneWaits lane (OrderWriter.new wing cancel normal : OrderWriter β γ) :=
    fun s c hc => by cases hc
  have hline : InLine lane (OrderWriter.new wing cancel normal : OrderWriter β γ) [] := by
    constructor
    · intro _
      cases lane <;> rfl
    · exact List.prefix_refl _
  obtain ⟨hlane, htrace⟩ := run_same hsame hserved hserved hnone hslots
  exact ⟨hlane, htrace, (inLine_run hserved hnone hline hslots).order⟩

/-- A cancel waits for the amend of its order while a wing take goes out and is answered. -/
def sampleWrites : List (Event ℕ ℕ) :=
  [.post "/amend" 1 .roll (some "7") "", .delete "/orders/7" .cancel (some "7") "",
    .post "/batched" 2 .wing none "", .start .wing, .start .normal, .finish .wing 0 (some 3),
    .resume .wing 0]

/-- The wing lane of the sample writes runs as it would without the others. -/
theorem lane_stands_alone_sample :
    SameLane .wing ((OrderWriter.new 6 12 12).run sampleWrites).1
        ((OrderWriter.new 6 12 12).run (sampleWrites.filter fun e => e.touches .wing)).1 ∧
      ((OrderWriter.new 6 12 12).run (sampleWrites.filter fun e => e.touches .wing)).2 =
        ((OrderWriter.new 6 12 12).run sampleWrites).2.filter (fun o => o.ofLane .wing) ∧
      ((sentOf ((OrderWriter.new 6 12 12).run sampleWrites).2).filter
          fun c => c.lane = .wing) <+:
        (callsOf ((OrderWriter.new 6 12 12).run sampleWrites).2).filter
          fun c => c.lane = .wing :=
  lane_stands_alone 6 12 12 .wing sampleWrites
    (by simp [sampleWrites, Event.slotless, classToLane])

end Pilot.V33.Writer
