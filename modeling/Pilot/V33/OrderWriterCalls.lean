import Mathlib.Data.List.Nodup
import Mathlib.Data.List.Perm.Subperm
import Pilot.V33.OrderWriter

/-!
# Where a call is

A call waits for its slot, stands between the lock and its answer, or has its answer. The calls of
one slot are in the order in which they were made: those with an answer, then the one that holds
the slot, then those that wait.
-/

namespace Pilot.V33.Writer

variable {β γ : Type*}

/-! ### What has been seen -/

/-- The calls seen, in order. -/
def callsOf (h : List (Trace β γ)) : List (Call β) :=
  h.filterMap fun
    | .called c => some c
    | _ => none

/-- The calls whose request was sent, in order. -/
def sentOf (h : List (Trace β γ)) : List (Call β) :=
  h.filterMap fun
    | .sent c => some c
    | _ => none

/-- The round trips that ended, with how their future ends. -/
def backOf (h : List (Trace β γ)) : List (Call β × Outcome γ) :=
  h.filterMap fun
    | .back c reply => some (c, outcomeOf reply)
    | _ => none

/-- The answers given, in order. -/
def answersOf (h : List (Trace β γ)) : List (Call β × Outcome γ) :=
  h.filterMap fun
    | .answered c outcome => some (c, outcome)
    | _ => none

/-- The calls that have their answer. -/
def answeredOf (h : List (Trace β γ)) : List (Call β) := (answersOf h).map Prod.fst

/-- An outcome that only a round trip gives. -/
def Outcome.made : Outcome γ → Bool
  | .replied _ => true
  | .raised => true
  | .cancelled => false
  | .refused => false

/-- What a call adds to what was seen. -/
theorem seen_called (h : List (Trace β γ)) (c : Call β) :
    callsOf (h ++ [.called c]) = callsOf h ++ [c] ∧ sentOf (h ++ [.called c]) = sentOf h ∧
      backOf (h ++ [.called c]) = backOf h ∧ answersOf (h ++ [.called c]) = answersOf h := by
  simp [callsOf, sentOf, backOf, answersOf]

/-- What the start of a round trip adds to what was seen. -/
theorem seen_sent (h : List (Trace β γ)) (c : Call β) :
    callsOf (h ++ [.sent c]) = callsOf h ∧ sentOf (h ++ [.sent c]) = sentOf h ++ [c] ∧
      backOf (h ++ [.sent c]) = backOf h ∧ answersOf (h ++ [.sent c]) = answersOf h := by
  simp [callsOf, sentOf, backOf, answersOf]

/-- What the end of a round trip adds to what was seen. -/
theorem seen_back (h : List (Trace β γ)) (c : Call β) (reply : Option γ) :
    callsOf (h ++ [.back c reply]) = callsOf h ∧ sentOf (h ++ [.back c reply]) = sentOf h ∧
      backOf (h ++ [.back c reply]) = backOf h ++ [(c, outcomeOf reply)] ∧
      answersOf (h ++ [.back c reply]) = answersOf h := by
  simp [callsOf, sentOf, backOf, answersOf]

/-- What an answer adds to what was seen. -/
theorem seen_answered (h : List (Trace β γ)) (c : Call β) (outcome : Outcome γ) :
    callsOf (h ++ [.answered c outcome]) = callsOf h ∧
      sentOf (h ++ [.answered c outcome]) = sentOf h ∧
      backOf (h ++ [.answered c outcome]) = backOf h ∧
      answersOf (h ++ [.answered c outcome]) = answersOf h ++ [(c, outcome)] := by
  simp [callsOf, sentOf, backOf, answersOf]

/-- What the shutdown adds to what was seen. -/
theorem seen_closed (h : List (Trace β γ)) :
    callsOf (h ++ [.closed]) = callsOf h ∧ sentOf (h ++ [.closed]) = sentOf h ∧
      backOf (h ++ [.closed]) = backOf h ∧ answersOf (h ++ [.closed]) = answersOf h := by
  simp [callsOf, sentOf, backOf, answersOf]

@[simp] theorem made_outcomeOf (reply : Option γ) : (outcomeOf reply).made = true := by
  cases reply <;> rfl

/-- What the writer promises of each thing seen, after all that was seen before it. -/
def Orderly (h : List (Trace β γ)) : Trace β γ → Prop
  | .called c => c ∉ callsOf h
  | .sent c => c ∈ callsOf h ∧ c ∉ sentOf h ∧ .closed ∉ h ∧
      ∀ s c', c.slot = some s → c'.slot = some s → [c', c].Sublist (callsOf h) → c' ∈ answeredOf h
  | .back c _ => c ∈ sentOf h ∧ c ∉ (backOf h).map Prod.fst
  | .answered c outcome => c ∈ callsOf h ∧ c ∉ answeredOf h ∧
      (outcome.made = true → (c, outcome) ∈ backOf h) ∧
      (outcome.made = false → c ∉ sentOf h ∧ .closed ∈ h)
  | .closed => .closed ∉ h

/-! ### Where a call is -/

/-- A list taken from each of the pools. -/
def OrderWriter.overLanes {α : Type*} (w : OrderWriter β γ) (f : WorkerPool (Call β) → List α) :
    List α :=
  f (w.pools .wing) ++ f (w.pools .cancel) ++ f (w.pools .normal)

/-- The calls past the lock of their slot that have no answer. -/
def OrderWriter.admitted (w : OrderWriter β γ) : List (Call β) :=
  w.overLanes WorkerPool.items ++ w.resuming.map Prod.fst

/-- The calls whose request is with the proxy. -/
def OrderWriter.airborne (w : OrderWriter β γ) : List (Call β) := w.overLanes WorkerPool.running

/-- One pool changes what the pools hold by what it changes itself. -/
theorem overLanes_setPool {α : Type*} (w : OrderWriter β γ) (lane : Lane)
    (pool : WorkerPool (Call β)) (f : WorkerPool (Call β) → List α) (lost gained : List α)
    (h : (lost ++ f pool).Perm (gained ++ f (w.pools lane))) :
    (lost ++ (w.setPool lane pool).overLanes f).Perm (gained ++ w.overLanes f) := by
  classical
  rw [List.perm_iff_count] at h ⊢
  intro a
  have ha := h a
  simp only [List.count_append] at ha
  cases lane <;>
    simp only [OrderWriter.overLanes, OrderWriter.setPool, List.count_append] <;>
    simp <;> omega

/-- A slot: at most one call holds it, those before that call have their answer, and those after
it wait. -/
def SlotInOrder (m : List (Call β × Outcome γ)) (w : OrderWriter β γ) (h : List (Trace β γ))
    (s : String) : Prop :=
  ∃ holder : Option (Call β),
    (w.slotLock s).locked = holder.isSome ∧
      ((m.map Prod.fst ++ w.admitted).filter fun c => c.slot = some s) = holder.toList ∧
      ((callsOf h).filter fun c => c.slot = some s) =
        ((answeredOf h).filter fun c => c.slot = some s) ++ holder.toList ++ (w.slotLock s).waiters

/-- A pool has the calls of its lane, a worker, and no more running than it has workers. -/
structure PoolOk (lane : Lane) (pool : WorkerPool (Call β)) : Prop where
  lanes : ∀ c ∈ pool.items, c.lane = lane
  bound : pool.running.length ≤ pool.workers
  staffed : 1 ≤ pool.workers

/-- What holds of the requests between the lock and the answer after all that was seen, while the
calls `m` are between the lock of their slot and their pool, or between their pool and their
answer. -/
structure Moving (m : List (Call β × Outcome γ)) (w : OrderWriter β γ) (h : List (Trace β γ)) :
    Prop where
  poolOk : ∀ lane, PoolOk lane (w.pools lane)
  sent : (sentOf h).Perm (w.airborne ++ (backOf h).map Prod.fst)
  backs : (backOf h).Perm ((m ++ w.resuming ++ answersOf h).filter fun e => e.2.made)
  shut : w.closed = true ↔ .closed ∈ h
  unmade : ∀ e ∈ w.resuming ++ answersOf h, e.2.made = false → .closed ∈ h
  drained : w.closed = true → ∀ lane, (w.pools lane).queue = []

/-- What holds of a writer after all that was seen of it. -/
structure Served (m : List (Call β × Outcome γ)) (w : OrderWriter β γ) (h : List (Trace β γ)) :
    Prop extends Moving m w h where
  fresh : ∀ c ∈ callsOf h, c.id < w.calls c.lane
  nodup : (callsOf h).Nodup
  slots : ∀ s, SlotInOrder m w h s
  free : ((callsOf h).filter fun c => c.slot = none).Perm
    ((answeredOf h ++ (m.map Prod.fst ++ w.admitted)).filter fun c => c.slot = none)

section Facts

variable {m : List (Call β × Outcome γ)} {w : OrderWriter β γ} {h : List (Trace β γ)} {c : Call β}

/-- Calls that wait for a slot name it. -/
theorem Served.slot_of_waiter (hs : Served m w h) {s : String}
    (hc : c ∈ (w.slotLock s).waiters) : c.slot = some s := by
  obtain ⟨holder, -, -, heq⟩ := hs.slots s
  have hmem : c ∈ (callsOf h).filter fun c => c.slot = some s := by
    rw [heq]
    exact List.mem_append_right _ hc
  simpa using (List.mem_filter.mp hmem).2

/-- Every call past its slot was called. -/
theorem Served.called_of_admitted (hs : Served m w h) (hc : c ∈ m.map Prod.fst ++ w.admitted) :
    c ∈ callsOf h := by
  cases hslot : c.slot with
  | none =>
    have hmem : c ∈ (answeredOf h ++ (m.map Prod.fst ++ w.admitted)).filter
        fun c => c.slot = none :=
      List.mem_filter.mpr ⟨List.mem_append_right _ hc, by simp [hslot]⟩
    exact (List.mem_filter.mp (hs.free.mem_iff.mpr hmem)).1
  | some s =>
    obtain ⟨holder, -, hheld, heq⟩ := hs.slots s
    have hmem : c ∈ holder.toList := by
      rw [← hheld]
      exact List.mem_filter.mpr ⟨hc, by simp [hslot]⟩
    have hin : c ∈ (callsOf h).filter fun c => c.slot = some s := by
      rw [heq]
      exact List.mem_append_left _ (List.mem_append_right _ hmem)
    exact (List.mem_filter.mp hin).1

/-- A list whose parts by key repeat nothing repeats nothing. -/
theorem nodup_of_filter_key {α κ : Type*} [DecidableEq κ] (key : α → κ) {l : List α}
    (hl : ∀ k, (l.filter fun a => key a = k).Nodup) : l.Nodup := by
  rw [List.nodup_iff_sublist]
  intro a ha
  have htwice : [a, a].Sublist (l.filter fun b => key b = key a) := by
    simpa using ha.filter fun b => decide (key b = key a)
  exact List.nodup_iff_sublist.mp (hl (key a)) a htwice

/-- A call has one place at most: among the answered or past its slot. -/
theorem Served.nodup_held (hs : Served m w h) :
    (answeredOf h ++ (m.map Prod.fst ++ w.admitted)).Nodup := by
  refine nodup_of_filter_key Call.slot fun slot => ?_
  cases slot with
  | none => exact hs.free.nodup_iff.mp (hs.nodup.filter _)
  | some s =>
    obtain ⟨holder, -, hheld, heq⟩ := hs.slots s
    have hnodup := hs.nodup.filter fun c => c.slot = some s
    rw [heq] at hnodup
    rw [List.filter_append, hheld]
    exact (List.nodup_append.mp hnodup).1

end Facts

/-! ### The slots -/

section Slots

variable {m m' : List (Call β × Outcome γ)} {w w' : OrderWriter β γ} {h h' : List (Trace β γ)}
  {c : Call β} {outcome : Outcome γ}

@[simp] theorem slotLock_setLock (w : OrderWriter β γ) (s s' : String) (lock : SlotLock β) :
    (w.setLock s lock).slotLock s' = if s' = s then lock else w.slotLock s' :=
  Dict.getD_set _ _ _ _ _

@[simp] theorem admitted_setLock (w : OrderWriter β γ) (s : String) (lock : SlotLock β) :
    (w.setLock s lock).admitted = w.admitted := rfl

/-- What holds of the new pool and of all the old ones holds of all pools. -/
theorem forall_setPool {P : Lane → WorkerPool (Call β) → Prop} {lane : Lane}
    {pool : WorkerPool (Call β)} (hpool : P lane pool) (hothers : ∀ l, P l (w.pools l)) (l : Lane) :
    P l ((w.setPool lane pool).pools l) := by
  show P l (if l = lane then pool else w.pools l)
  split_ifs with hl
  · exact hl ▸ hpool
  · exact hothers l

/-- What `Served` does not look at may change. -/
theorem Served.of_eq (hs : Served m w h) (w' : OrderWriter β γ) (hcalls : w'.calls = w.calls)
    (hpools : w'.pools = w.pools) (hlocks : w'.slotLocks = w.slotLocks)
    (hresuming : w'.resuming = w.resuming) (hclosed : w'.closed = w.closed) : Served m w' h := by
  cases w
  cases w'
  subst hcalls hpools hlocks hresuming hclosed
  exact ⟨⟨hs.poolOk, hs.sent, hs.backs, hs.shut, hs.unmade, hs.drained⟩,
    hs.fresh, hs.nodup, hs.slots, hs.free⟩

/-- A slot whose lock and calls stay is in order as before. -/
theorem SlotInOrder.transfer {s : String} (hs : SlotInOrder m w h s)
    (hlock : w'.slotLock s = w.slotLock s)
    (hheld : ((m'.map Prod.fst ++ w'.admitted).filter fun c => c.slot = some s).Perm
      ((m.map Prod.fst ++ w.admitted).filter fun c => c.slot = some s))
    (hcalls : ((callsOf h').filter fun c => c.slot = some s) =
      (callsOf h).filter fun c => c.slot = some s)
    (hanswered : ((answeredOf h').filter fun c => c.slot = some s) =
      (answeredOf h).filter fun c => c.slot = some s) : SlotInOrder m' w' h' s := by
  obtain ⟨holder, hlocked, heq, hlist⟩ := hs
  rw [heq] at hheld
  refine ⟨holder, by rw [hlock, hlocked], ?_, by rw [hcalls, hanswered, hlock, hlist]⟩
  cases holder with
  | none => simpa using hheld
  | some c => simpa using hheld

/-- The next call of a lane. -/
def OrderWriter.numbered (w : OrderWriter β γ) (lane : Lane) : OrderWriter β γ :=
  { w with calls := fun l => if l = lane then w.calls l + 1 else w.calls l }

/-- A call of a verb, up to the lock of its slot. -/
theorem Served.enter (hs : Served [] w h) (hid : c.id = w.calls c.lane)
    (locks : Dict String (SlotLock β)) (hm : ∀ e ∈ m, e.2.made = false)
    (hslots : ∀ s, SlotInOrder m { w.numbered c.lane with slotLocks := locks }
      (h ++ [.called c]) s)
    (hfree : ((callsOf h ++ [c]).filter fun d => d.slot = none).Perm
      ((answeredOf h ++ (m.map Prod.fst ++ w.admitted)).filter fun d => d.slot = none)) :
    Served m { w.numbered c.lane with slotLocks := locks } (h ++ [.called c]) := by
  have hnew : c ∉ callsOf h := fun hc => by
    have hlt := hs.fresh c hc
    omega
  obtain ⟨hseen, hsent, hback, hanswers⟩ := seen_called h c
  have hmade : (m ++ w.resuming ++ answersOf h).filter (fun e => e.2.made) =
      (w.resuming ++ answersOf h).filter fun e => e.2.made := by
    rw [List.append_assoc, List.filter_append, List.filter_eq_nil_iff.mpr, List.nil_append]
    intro e he
    simp [hm e he]
  constructor
  · constructor
    · exact hs.poolOk
    · rw [hsent, hback]
      exact hs.sent
    · rw [hback, hanswers]
      show (backOf h).Perm ((m ++ w.resuming ++ answersOf h).filter _)
      rw [hmade]
      exact hs.backs
    · show w.closed = true ↔ _
      simpa using hs.shut
    · show ∀ e ∈ w.resuming ++ _, _
      simpa [hanswers] using hs.unmade
    · exact hs.drained
  · intro d hd
    rw [hseen, List.mem_append, List.mem_singleton] at hd
    show d.id < if d.lane = c.lane then w.calls d.lane + 1 else w.calls d.lane
    rcases hd with hd | rfl
    · have hlt := hs.fresh d hd
      split_ifs <;> omega
    · simp [hid]
  · rw [hseen, List.nodup_append]
    refine ⟨hs.nodup, by simp, fun d hd e he heq => ?_⟩
    rw [List.mem_singleton] at he
    exact hnew (he ▸ heq ▸ hd)
  · exact hslots
  · rw [hseen, answeredOf, hanswers]
    exact hfree

/-- A call that takes no slot is on its way to its pool. -/
theorem Served.enterFree (hs : Served [] w h) (hslot : c.slot = none)
    (hid : c.id = w.calls c.lane) :
    Served [(c, .refused)] (w.numbered c.lane) (h ++ [.called c]) := by
  obtain ⟨hseen, -, -, hanswers⟩ := seen_called h c
  apply hs.enter hid w.slotLocks (by simp [Outcome.made])
  · intro s
    apply (hs.slots s).transfer rfl
    · simp [hslot, OrderWriter.admitted, OrderWriter.overLanes]
    · simp [hseen, hslot]
    · simp [answeredOf, hanswers]
  · have hfree := hs.free
    simp only [List.filter_append, List.map_cons, List.map_nil, List.nil_append,
      List.cons_append, List.filter_cons, hslot, decide_true, if_true, List.filter_nil] at hfree ⊢
    exact (hfree.append_right [c]).trans (by
      rw [List.append_assoc]
      exact (List.perm_append_singleton c _).append_left _)

/-- Slots other than the one of a new call do not see it. -/
theorem SlotInOrder.other {s s' : String} (hs : SlotInOrder [] w h s') (hslot : c.slot = some s)
    (hne : s' ≠ s) (lock : SlotLock β) (hm : ∀ e ∈ m, e.1 = c) :
    SlotInOrder m ((w.numbered c.lane).setLock s lock) (h ++ [.called c]) s' := by
  obtain ⟨hseen, -, -, hanswers⟩ := seen_called h c
  have hc : ¬c.slot = some s' := by
    rw [hslot]
    simpa using Ne.symm hne
  apply hs.transfer
  · rw [slotLock_setLock, if_neg hne]
    rfl
  · have hnone : ((m.map Prod.fst).filter fun d => d.slot = some s') = [] := by
      apply List.filter_eq_nil_iff.mpr
      intro d hd
      obtain ⟨e, he, rfl⟩ := List.mem_map.mp hd
      simpa [hm e he] using hc
    rw [List.filter_append, hnone]
    rfl
  · simp [hseen, hc]
  · simp [answeredOf, hanswers]

/-- A call whose slot is free takes it. -/
theorem Served.enterSlot (hs : Served [] w h) {s : String} (hslot : c.slot = some s)
    (hid : c.id = w.calls c.lane) (hlocked : (w.slotLock s).locked = false)
    (hwaiters : (w.slotLock s).waiters = []) :
    Served [(c, .refused)] ((w.numbered c.lane).setLock s { w.slotLock s with locked := true })
      (h ++ [.called c]) := by
  obtain ⟨hseen, -, -, hanswers⟩ := seen_called h c
  apply hs.enter hid _ (by simp [Outcome.made])
  · intro s'
    show SlotInOrder _ ((w.numbered c.lane).setLock s _) _ s'
    by_cases hne : s' = s
    · subst hne
      obtain ⟨holder, hheld, heq, hlist⟩ := hs.slots s'
      rw [hlocked] at hheld
      cases holder with
      | some d => cases hheld
      | none =>
        refine ⟨some c, by simp, ?_, ?_⟩
        · have hnone : (w.admitted.filter fun d => d.slot = some s') = [] := by simpa using heq
          show ([c] ++ w.admitted).filter _ = [c]
          rw [List.filter_append, hnone]
          simp [hslot]
        · rw [hseen, answeredOf, hanswers, List.filter_append, hlist, slotLock_setLock, if_pos rfl]
          simp [hslot, hwaiters, answeredOf]
    · exact (hs.slots s').other hslot hne _ (by simp)
  · have hfree := hs.free
    simpa [List.filter_append, hslot] using hfree

/-- A call whose slot is taken waits behind the others. -/
theorem Served.enterWait (hs : Served [] w h) {s : String} (hslot : c.slot = some s)
    (hid : c.id = w.calls c.lane) :
    Served [] ((w.numbered c.lane).setLock s
      { w.slotLock s with waiters := (w.slotLock s).waiters ++ [c] }) (h ++ [.called c]) := by
  obtain ⟨hseen, -, -, hanswers⟩ := seen_called h c
  apply hs.enter hid _ (by simp)
  · intro s'
    show SlotInOrder _ ((w.numbered c.lane).setLock s _) _ s'
    by_cases hne : s' = s
    · subst hne
      obtain ⟨holder, hheld, heq, hlist⟩ := hs.slots s'
      refine ⟨holder, by rw [slotLock_setLock, if_pos rfl, ← hheld], heq, ?_⟩
      rw [hseen, answeredOf, hanswers, List.filter_append, hlist, slotLock_setLock, if_pos rfl]
      simp [hslot, answeredOf]
    · exact (hs.slots s').other hslot hne _ (by simp)
  · have hfree := hs.free
    simpa [List.filter_append, hslot] using hfree

/-- The first waiter of a free slot takes it. -/
theorem Served.wakeUp (hs : Served [] w h) {s : String} {rest : List (Call β)}
    (hlock : w.slotLock s = ⟨false, c :: rest⟩) :
    Served [(c, .refused)] (w.setLock s ⟨true, rest⟩) h := by
  have hslot : c.slot = some s := hs.slot_of_waiter (by rw [hlock]; simp)
  constructor
  · constructor
    · exact hs.poolOk
    · exact hs.sent
    · exact hs.backs
    · exact hs.shut
    · exact hs.unmade
    · exact hs.drained
  · exact hs.fresh
  · exact hs.nodup
  · intro s'
    by_cases hne : s' = s
    · subst hne
      obtain ⟨holder, hheld, heq, hlist⟩ := hs.slots s'
      rw [hlock] at hheld hlist
      cases holder with
      | some d => cases hheld
      | none =>
        refine ⟨some c, by simp, ?_, ?_⟩
        · have hnone : (w.admitted.filter fun d => d.slot = some s') = [] := by simpa using heq
          show ([c] ++ w.admitted).filter _ = [c]
          rw [List.filter_append, hnone]
          simp [hslot]
        · rw [hlist, slotLock_setLock, if_pos rfl]
          simp
    · have hc : ¬c.slot = some s' := by
        rw [hslot]
        simpa using Ne.symm hne
      apply (hs.slots s').transfer _ _ rfl rfl
      · rw [slotLock_setLock, if_neg hne]
      · show (([c] ++ w.admitted).filter _).Perm _
        simp [hc]
  · have hfree := hs.free
    simpa [List.filter_append, hslot] using hfree

end Slots

end Pilot.V33.Writer
