import Mathlib.Data.List.Basic
import Mathlib.Data.List.Perm.Basic

/-!
# Worker pools

A pool runs at most as many items at a time as it has workers. The others wait in the order in
which they were submitted, and a free worker takes the oldest.
-/

namespace Pilot

/-- The first item that passes the test, and the list without it. -/
def takeFirst {α : Type*} (q : α → Bool) : List α → Option (α × List α)
  | [] => none
  | a :: as => if q a then some (a, as) else (takeFirst q as).map fun r => (r.1, a :: r.2)

section TakeFirst

variable {α : Type*} {q : α → Bool} {l rest : List α} {a : α}

/-- Taking an item out splits the list around it. -/
theorem takeFirst_split (h : takeFirst q l = some (a, rest)) :
    q a = true ∧ ∃ before after, l = before ++ a :: after ∧ rest = before ++ after := by
  induction l generalizing rest with
  | nil => cases h
  | cons b l ih =>
    unfold takeFirst at h
    split_ifs at h with hb
    · obtain ⟨rfl, rfl⟩ := Prod.mk.inj (Option.some.inj h)
      exact ⟨hb, [], l, by simp, by simp⟩
    · obtain ⟨⟨a', rest'⟩, htake, heq⟩ := Option.map_eq_some_iff.mp h
      obtain ⟨rfl, rfl⟩ := Prod.mk.inj heq
      obtain ⟨hq, before, after, rfl, rfl⟩ := ih htake
      exact ⟨hq, b :: before, after, by simp, by simp⟩

/-- Taking an element out leaves the others. -/
theorem takeFirst_perm (h : takeFirst q l = some (a, rest)) : l.Perm (a :: rest) := by
  obtain ⟨-, before, after, rfl, rfl⟩ := takeFirst_split h
  exact List.perm_middle

/-- Nothing can be taken out of a list in which nothing passes the test. -/
theorem takeFirst_eq_none : takeFirst q l = none ↔ ∀ a ∈ l, q a = false := by
  induction l with
  | nil => simp [takeFirst]
  | cons b l ih =>
    by_cases hb : q b = true
    · simp [takeFirst, hb]
    · simp [takeFirst, hb, ih]

end TakeFirst

/-- The items that wait for a worker, oldest first, and those that run. -/
structure WorkerPool (α : Type*) where
  workers : ℕ
  queue : List α
  running : List α

namespace WorkerPool

variable {α : Type*}

/-- A pool without items. -/
def idle (workers : ℕ) : WorkerPool α := ⟨workers, [], []⟩

/-- The items the pool has. -/
def items (p : WorkerPool α) : List α := p.queue ++ p.running

/-- Queue an item behind the others. -/
def submit (p : WorkerPool α) (a : α) : WorkerPool α := { p with queue := p.queue ++ [a] }

/-- A free worker takes the oldest item. -/
def start (p : WorkerPool α) : Option (α × WorkerPool α) :=
  match p.queue with
  | [] => none
  | a :: rest =>
    if p.running.length < p.workers then
      some (a, { p with queue := rest, running := p.running ++ [a] })
    else none

/-- A worker is done with an item. -/
def finish (p : WorkerPool α) (q : α → Bool) : Option (α × WorkerPool α) :=
  (takeFirst q p.running).map fun r => (r.1, { p with running := r.2 })

/-- Give up what no worker has taken. -/
def dropQueue (p : WorkerPool α) : WorkerPool α := { p with queue := [] }

variable {p p' : WorkerPool α} {a : α} {q : α → Bool}

/-- A submission joins the end of the queue. -/
@[simp] theorem submit_queue : (p.submit a).queue = p.queue ++ [a] := rfl

/-- A submission does not run yet. -/
@[simp] theorem submit_running : (p.submit a).running = p.running := rfl

/-- A dropped queue is empty. -/
@[simp] theorem dropQueue_queue : p.dropQueue.queue = [] := rfl

/-- Dropping the queue stops nothing that runs. -/
@[simp] theorem dropQueue_running : p.dropQueue.running = p.running := rfl

/-- An idle pool has no item. -/
@[simp] theorem items_idle (n : ℕ) : (idle n : WorkerPool α).items = [] := rfl

/-- What starting does: the oldest item goes to a free worker. -/
theorem start_eq_some (h : p.start = some (a, p')) :
    p.queue = a :: p'.queue ∧ p'.running = p.running ++ [a] ∧ p'.workers = p.workers ∧
      p.running.length < p.workers := by
  unfold start at h
  cases hqueue : p.queue with
  | nil =>
    rw [hqueue] at h
    cases h
  | cons b rest =>
    simp only [hqueue] at h
    split_ifs at h with hfree
    obtain ⟨rfl, rfl⟩ := Prod.mk.inj (Option.some.inj h)
    exact ⟨by simp, by simp, by simp, hfree⟩

/-- An item waits for ever only behind busy workers. -/
theorem start_eq_none : p.start = none ↔ p.queue = [] ∨ p.workers ≤ p.running.length := by
  unfold start
  cases hqueue : p.queue with
  | nil => simp
  | cons b rest =>
    by_cases hfree : p.running.length < p.workers
    · simp [hfree]
    · have hfull : p.workers ≤ p.running.length := by omega
      simp [hfree, hfull]

/-- What finishing does: the item leaves the worker. -/
theorem finish_eq_some (h : p.finish q = some (a, p')) :
    takeFirst q p.running = some (a, p'.running) ∧ p'.queue = p.queue ∧
      p'.workers = p.workers := by
  obtain ⟨⟨b, rest⟩, htake, heq⟩ := Option.map_eq_some_iff.mp h
  obtain ⟨rfl, rfl⟩ := Prod.mk.inj heq
  exact ⟨htake, by simp, by simp⟩

/-- A submission adds its item. -/
theorem items_submit : (p.submit a).items.Perm (a :: p.items) := by
  simp only [items, submit_queue, submit_running, List.append_assoc]
  exact List.perm_middle

/-- A start moves an item and loses none. -/
theorem items_start (h : p.start = some (a, p')) : p'.items.Perm p.items := by
  obtain ⟨hqueue, hrunning, -, -⟩ := start_eq_some h
  rw [items, items, hqueue, hrunning, ← List.append_assoc]
  exact (List.perm_append_singleton a (p'.queue ++ p.running))

/-- A finished item leaves the pool, and no other. -/
theorem items_finish (h : p.finish q = some (a, p')) : p.items.Perm (a :: p'.items) := by
  obtain ⟨htake, hqueue, -⟩ := finish_eq_some h
  rw [items, items, hqueue]
  exact ((takeFirst_perm htake).append_left p.queue).trans List.perm_middle

end WorkerPool

end Pilot
