import Pilot.V33.OrderWriterLaw

/-!
# The writer works off what it was asked

No order of the steps of the workers and the loop gets stuck: as long as a call has no answer, some
step is due, and every step that is due brings the last answer closer.
-/

namespace Pilot.V33.Writer

variable {β γ : Type*}

/-- A step of the workers or the loop that has something to do. -/
def OrderWriter.Due (w : OrderWriter β γ) : Event β γ → Prop
  | .wake slot => (w.slotLock slot).locked = false ∧ (w.slotLock slot).waiters ≠ []
  | .start lane => (w.pools lane).start ≠ none
  | .finish lane id _ => (w.pools lane).finish (fun c => c.id = id) ≠ none
  | .resume lane id =>
    takeFirst (fun e : Call β × Outcome γ => e.1.lane = lane ∧ e.1.id = id) w.resuming ≠ none
  | _ => False

/-- How many calls wait for a slot. -/
def OrderWriter.waiting (w : OrderWriter β γ) : ℕ :=
  (w.slotLocks.values.map fun lock => lock.waiters.length).sum

/-- How many calls have no answer. -/
def OrderWriter.outstanding (w : OrderWriter β γ) : ℕ := w.waiting + w.admitted.length

/-- The steps that the calls without an answer still need. -/
def OrderWriter.work (w : OrderWriter β γ) : ℕ :=
  4 * w.waiting + 3 * (w.overLanes WorkerPool.queue).length +
    2 * (w.overLanes WorkerPool.running).length + w.resuming.length

section Work

variable {w : OrderWriter β γ} {h : List (Trace β γ)}

theorem work_le (w : OrderWriter β γ) : w.work ≤ 4 * w.outstanding := by
  simp only [OrderWriter.work, OrderWriter.outstanding, OrderWriter.admitted,
    OrderWriter.overLanes, WorkerPool.items, List.length_append, List.length_map]
  omega

/-- Replacing a lock changes the number of waiters by those of the slot. -/
theorem waiting_setLock (w : OrderWriter β γ) (s : String) (lock : SlotLock β) :
    (w.setLock s lock).waiting + (w.slotLock s).waiters.length =
      w.waiting + lock.waiters.length := by
  have hset := Dict.sum_map_values_set (fun lock => lock.waiters.length) w.slotLocks s lock
  have hold : ((w.slotLocks.get? s).map fun lock => lock.waiters.length).getD 0 =
      (w.slotLock s).waiters.length := by
    unfold OrderWriter.slotLock Dict.getD
    cases w.slotLocks.get? s <;> rfl
  rw [hold] at hset
  exact hset

theorem work_answer (w : OrderWriter β γ) (c : Call β) (outcome : Outcome γ) :
    (w.answer c outcome).1.work = w.work := by
  unfold OrderWriter.answer
  cases hslot : c.slot with
  | none => rfl
  | some s =>
    have hwaiting := waiting_setLock w s { w.slotLock s with locked := false }
    have hsame : (w.setLock s { w.slotLock s with locked := false }).waiting = w.waiting := by
      simpa using hwaiting
    show 4 * (w.setLock s { w.slotLock s with locked := false }).waiting + _ + _ + _ = _
    rw [hsame]
    rfl

/-- A pool changes the work by what it changes itself. -/
theorem work_setPool (w : OrderWriter β γ) (lane : Lane) (pool : WorkerPool (Call β)) :
    (w.setPool lane pool).work + 3 * (w.pools lane).queue.length +
        2 * (w.pools lane).running.length =
      w.work + 3 * pool.queue.length + 2 * pool.running.length := by
  have hwaiting : (w.setPool lane pool).waiting = w.waiting := rfl
  have hresuming : (w.setPool lane pool).resuming = w.resuming := rfl
  unfold OrderWriter.work
  rw [hwaiting, hresuming]
  cases lane <;>
    simp only [OrderWriter.overLanes, OrderWriter.setPool, List.length_append] <;>
    simp <;> omega

theorem work_runOffLoop (w : OrderWriter β γ) (c : Call β) :
    (w.runOffLoop c).1.work ≤ w.work + 3 := by
  unfold OrderWriter.runOffLoop
  split_ifs with hclosed
  · rw [work_answer]
    exact Nat.le_add_right w.work 3
  · have hpool := work_setPool (w.countIn c) c.lane ((w.pools c.lane).submit c)
    have hcount : (w.countIn c).work = w.work := rfl
    have hpools : (w.countIn c).pools = w.pools := rfl
    rw [hcount, hpools] at hpool
    simp only [WorkerPool.submit_queue, WorkerPool.submit_running, List.length_append,
      List.length_singleton] at hpool
    show ((w.countIn c).setPool c.lane ((w.pools c.lane).submit c)).work ≤ _
    omega

/-- A step that is due leaves less to do. -/
theorem work_step {e : Event β γ} (hdue : w.Due e) : (w.step e).1.work < w.work := by
  cases e with
  | post rel body klass slot token => exact hdue.elim
  | delete path klass slot token => exact hdue.elim
  | get path params klass => exact hdue.elim
  | close => exact hdue.elim
  | wake slot =>
    obtain ⟨hlocked, hwaiters⟩ := hdue
    show (w.wake slot).1.work < w.work
    cases hlock : w.slotLock slot with
    | mk locked waiters =>
      rw [hlock] at hlocked hwaiters
      cases waiters with
      | nil => exact absurd rfl hwaiters
      | cons c rest =>
        obtain rfl : locked = false := hlocked
        have hset : (w.setLock slot ⟨true, rest⟩).waiting + (rest.length + 1) =
            w.waiting + rest.length := by
          have hlocks := waiting_setLock w slot ⟨true, rest⟩
          rw [hlock] at hlocks
          exact hlocks
        have hrun := work_runOffLoop (w.setLock slot ⟨true, rest⟩) c
        have hwork : (w.setLock slot ⟨true, rest⟩).work + 4 = w.work := by
          show 4 * (w.setLock slot ⟨true, rest⟩).waiting +
            3 * (w.overLanes WorkerPool.queue).length +
            2 * (w.overLanes WorkerPool.running).length + w.resuming.length + 4 = w.work
          unfold OrderWriter.work
          omega
        unfold OrderWriter.wake
        rw [hlock]
        show ((w.setLock slot ⟨true, rest⟩).runOffLoop c).1.work < w.work
        omega
  | start lane =>
    show (w.start lane).1.work < w.work
    unfold OrderWriter.start
    cases hstart : (w.pools lane).start with
    | none => exact absurd hstart hdue
    | some r =>
      obtain ⟨hqueue, hrunning, -, -⟩ := WorkerPool.start_eq_some hstart
      have hpool := work_setPool w lane r.2
      rw [hqueue, hrunning, List.length_cons, List.length_append, List.length_singleton] at hpool
      show (w.setPool lane r.2).work < w.work
      omega
  | finish lane id reply =>
    show (w.finish lane id reply).1.work < w.work
    unfold OrderWriter.finish
    cases hfinish : (w.pools lane).finish fun c => c.id = id with
    | none => exact absurd hfinish hdue
    | some r =>
      obtain ⟨htake, hqueue, -⟩ := WorkerPool.finish_eq_some hfinish
      have hlen := (takeFirst_perm htake).length_eq
      rw [List.length_cons] at hlen
      have hpool := work_setPool w lane r.2
      rw [hqueue] at hpool
      have hresumed : ({ w.setPool lane r.2 with
          resuming := w.resuming ++ [(r.1, outcomeOf reply)] } : OrderWriter β γ).work =
          (w.setPool lane r.2).work + 1 := by
        have hone : (w.resuming ++ [(r.1, outcomeOf reply)]).length = w.resuming.length + 1 := by
          simp
        show _ + _ + _ + (w.resuming ++ [(r.1, outcomeOf reply)]).length =
          _ + _ + _ + w.resuming.length + 1
        rw [hone]
        rfl
      show ({ w.setPool lane r.2 with
        resuming := w.resuming ++ [(r.1, outcomeOf reply)] } : OrderWriter β γ).work < w.work
      omega
  | resume lane id =>
    show (w.resume lane id).1.work < w.work
    unfold OrderWriter.resume
    cases htake : takeFirst (fun e : Call β × Outcome γ => e.1.lane = lane ∧ e.1.id = id)
        w.resuming with
    | none => exact absurd htake hdue
    | some r =>
      have hlen := (takeFirst_perm htake).length_eq
      rw [List.length_cons] at hlen
      show ({ w with resuming := r.2 }.answer r.1.1 r.1.2).1.work < w.work
      rw [work_answer]
      show 4 * w.waiting + 3 * (w.overLanes WorkerPool.queue).length +
        2 * (w.overLanes WorkerPool.running).length + r.2.length < w.work
      unfold OrderWriter.work
      omega

/-- Steps that are due one after the other use the work up. -/
theorem work_run {es : List (Event β γ)}
    (hdue : AllAlong (fun (w : OrderWriter β γ) e => (w.step e).1) OrderWriter.Due w es) :
    es.length + (w.run es).1.work ≤ w.work := by
  induction es generalizing w with
  | nil => simp [OrderWriter.run]
  | cons e es ih =>
    have hstep := work_step hdue.1
    have hrest : es.length + ((w.step e).1.run es).1.work ≤ (w.step e).1.work := ih hdue.2
    show es.length + 1 + ((w.step e).1.run es).1.work ≤ w.work
    omega

/-! ### Nothing gets stuck -/

/-- Where no step is due, nothing is past the lock of its slot. -/
theorem admitted_of_idle (hs : Served [] w h) (hidle : ∀ e, ¬w.Due e) : w.admitted = [] := by
  have hresuming : w.resuming = [] := by
    cases hr : w.resuming with
    | nil => rfl
    | cons e rest =>
      exfalso
      apply hidle (.resume e.1.lane e.1.id)
      intro hnone
      have htest := takeFirst_eq_none.mp hnone e (by rw [hr]; simp)
      simp at htest
  have hrunning (lane : Lane) : (w.pools lane).running = [] := by
    cases hr : (w.pools lane).running with
    | nil => rfl
    | cons c rest =>
      exfalso
      apply hidle (.finish lane c.id none)
      intro hnone
      have htake : takeFirst (fun d : Call β => d.id = c.id) (w.pools lane).running = none :=
        Option.map_eq_none_iff.mp hnone
      have htest := takeFirst_eq_none.mp htake c (by rw [hr]; simp)
      simp at htest
  have hqueue (lane : Lane) : (w.pools lane).queue = [] := by
    by_contra hne
    apply hidle (.start lane)
    intro hnone
    rcases WorkerPool.start_eq_none.mp hnone with hempty | hfull
    · exact hne hempty
    · have hstaffed := (hs.poolOk lane).staffed
      rw [hrunning lane, List.length_nil] at hfull
      omega
  simp [OrderWriter.admitted, OrderWriter.overLanes, WorkerPool.items, hresuming, hrunning,
    hqueue]

/-- Where no step is due, every call has its answer. -/
theorem answered_of_idle (hs : Served [] w h) (hidle : ∀ e, ¬w.Due e) {c : Call β}
    (hc : c ∈ callsOf h) : c ∈ answeredOf h := by
  have hnone := admitted_of_idle hs hidle
  cases hslot : c.slot with
  | none =>
    have hin : c ∈ (callsOf h).filter fun d => d.slot = none :=
      List.mem_filter.mpr ⟨hc, by simp [hslot]⟩
    have hmem := hs.free.mem_iff.mp hin
    rw [hnone, List.map_nil, List.append_nil, List.append_nil] at hmem
    exact (List.mem_filter.mp hmem).1
  | some s =>
    obtain ⟨holder, hlocked, hheld, hlist⟩ := hs.slots s
    rw [hnone] at hheld
    cases holder with
    | some d => cases hheld
    | none =>
      have hwaiters : (w.slotLock s).waiters = [] := by
        by_contra hne
        exact hidle (.wake s) ⟨hlocked, hne⟩
      have hin : c ∈ (callsOf h).filter fun d => d.slot = some s :=
        List.mem_filter.mpr ⟨hc, by simp [hslot]⟩
      rw [hlist, hwaiters] at hin
      simp only [Option.toList_none, List.append_nil] at hin
      exact (List.mem_filter.mp hin).1

/-- Some order of steps brings the writer to rest. -/
theorem exists_rest (w : OrderWriter β γ) :
    ∃ es, AllAlong (fun (w : OrderWriter β γ) e => (w.step e).1) OrderWriter.Due w es ∧
      ∀ e, ¬(w.run es).1.Due e := by
  induction hwork : w.work using Nat.strong_induction_on generalizing w with
  | _ n ih =>
    by_cases hidle : ∀ e, ¬w.Due e
    · exact ⟨[], trivial, hidle⟩
    · obtain ⟨e, hdue⟩ := not_forall_not.mp hidle
      have hless := work_step hdue
      rw [hwork] at hless
      obtain ⟨es, hall, hrest⟩ := ih _ hless (w.step e).1 rfl
      exact ⟨e :: es, ⟨hdue, hall⟩, hrest⟩

/-- A run of two stretches is the second after the first. -/
theorem run_append (w : OrderWriter β γ) (es steps : List (Event β γ)) :
    (w.run (es ++ steps)).1 = ((w.run es).1.run steps).1 := by
  induction es generalizing w with
  | nil => rfl
  | cons e es ih => exact ih (w.step e).1

end Work

/-- **The writer works off what it was asked.** After any run, in whatever order the workers, the
loop and the slots take the steps that are due, they are at most four for each call without an
answer, and once none is due every call ever made has its answer. Such an order exists. -/
theorem writer_works_off (wing cancel normal : ℕ) (es : List (Event β γ)) :
    (∀ steps, AllAlong (fun (w : OrderWriter β γ) e => (w.step e).1) OrderWriter.Due
        ((OrderWriter.new wing cancel normal).run es).1 steps →
      steps.length ≤ 4 * ((OrderWriter.new wing cancel normal).run es).1.outstanding ∧
        ((∀ e, ¬((OrderWriter.new wing cancel normal).run (es ++ steps)).1.Due e) →
          ∀ c ∈ callsOf ((OrderWriter.new wing cancel normal).run (es ++ steps)).2,
            c ∈ answeredOf ((OrderWriter.new wing cancel normal).run (es ++ steps)).2)) ∧
      ∃ steps, AllAlong (fun (w : OrderWriter β γ) e => (w.step e).1) OrderWriter.Due
        ((OrderWriter.new wing cancel normal).run es).1 steps ∧
        ∀ e, ¬((OrderWriter.new wing cancel normal).run (es ++ steps)).1.Due e := by
  refine ⟨fun steps hdue => ?_, ?_⟩
  · have hbound := work_run hdue
    have hmost := work_le ((OrderWriter.new wing cancel normal).run es).1
    have hserved := (keeps_run (served_new wing cancel normal) (es ++ steps)).1
    exact ⟨by omega, fun hidle c hc => answered_of_idle hserved hidle hc⟩
  · obtain ⟨steps, hdue, hrest⟩ := exists_rest ((OrderWriter.new wing cancel normal).run es).1
    exact ⟨steps, hdue, by rwa [run_append]⟩

end Pilot.V33.Writer
