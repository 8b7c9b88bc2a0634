import Pilot.Lib.Dict
import Pilot.Lib.Transitions
import Pilot.Lib.WorkerPool

/-!
# The off-loop order writer

Every proxy round trip of the asynchronous executor runs on a worker thread, so that the event
loop stays free. The class of a request picks the pool of its lane; requests that name a slot pass
the slot's lock first and keep it until they are answered. All bookkeeping stays on the loop.
-/

namespace Pilot.V33.Writer

/-! ### Requests -/

/-- The class of a request. -/
inductive WriteClass
  | wing
  | rest
  | roll
  | cancel
  | poll
  deriving DecidableEq, Repr

/-- The lanes, each with workers of its own. -/
inductive Lane
  | wing
  | cancel
  | normal
  deriving DecidableEq, Repr

/-- `_CLASS_TO_LANE`. -/
def classToLane : WriteClass → Lane
  | .wing => .wing
  | .cancel => .cancel
  | .roll => .normal
  | .rest => .normal
  | .poll => .normal

/-- The value of the class in the request's header. -/
def classHeader : WriteClass → String
  | .wing => "wing"
  | .rest => "rest"
  | .roll => "roll"
  | .cancel => "cancel"
  | .poll => "poll"

/-- What the proxy writer is asked for. -/
inductive Request (β : Type*)
  | post (rel : String) (body : β)
  | delete (path : String)
  | get (path : String) (params : β)
  deriving DecidableEq

/-- One call of a verb: the coroutine that waits for the answer. Calls are numbered within their
lane. -/
structure Call (β : Type*) where
  id : ℕ
  request : Request β
  klass : WriteClass
  slot : Option String
  headers : List (String × String)
  deriving DecidableEq

/-- The lane of a call. -/
def Call.lane {β : Type*} (c : Call β) : Lane := classToLane c.klass

/-- How the wait for a round trip ends: with the reply, with what the round trip raised, with a
cancelled future, or at once because the pools are shut down. -/
inductive Outcome (γ : Type*)
  | replied (reply : γ)
  | raised
  | cancelled
  | refused
  deriving DecidableEq

/-! ### The writer -/

/-- An `asyncio.Lock`: whether it is taken, and who waits for it. -/
structure SlotLock (β : Type*) where
  locked : Bool
  waiters : List (Call β)

/-- The telemetry of a window. -/
structure WriterStats where
  submitted : ℕ
  completed : ℕ
  maxInflight : ℤ
  byClass : Dict WriteClass ℕ

/-- The writer: the pools, the locks of the slots, and the coroutines whose future is done but
which the loop has not resumed. -/
structure OrderWriter (β γ : Type*) where
  calls : Lane → ℕ
  pools : Lane → WorkerPool (Call β)
  slotLocks : Dict String (SlotLock β)
  resuming : List (Call β × Outcome γ)
  inflight : ℤ
  stats : WriterStats
  closed : Bool

/-- What can be seen of the writer. -/
inductive Trace (β γ : Type*)
  /-- A coroutine calls a verb. -/
  | called (c : Call β)
  /-- A worker starts the round trip of the request. What the proxy writer does within it, where a
  DELETE or a GET may be sent again, is not seen. -/
  | sent (c : Call β)
  /-- The round trip returns a reply or raises. -/
  | back (c : Call β) (reply : Option γ)
  /-- The coroutine has its answer. -/
  | answered (c : Call β) (outcome : Outcome γ)
  /-- The pools are shut down. -/
  | closed

variable {β γ : Type*}

/-- The pools of the lanes at the start, with at least one worker each. -/
def newPools (wingWorkers cancelWorkers normalWorkers : ℕ) : Lane → WorkerPool (Call β)
  | .wing => .idle (max 1 wingWorkers)
  | .cancel => .idle (max 1 cancelWorkers)
  | .normal => .idle (max 1 normalWorkers)

/-- A writer before its first call. -/
def OrderWriter.new (wingWorkers cancelWorkers normalWorkers : ℕ) : OrderWriter β γ where
  calls := fun _ => 0
  pools := newPools wingWorkers cancelWorkers normalWorkers
  slotLocks := .empty
  resuming := []
  inflight := 0
  stats := ⟨0, 0, 0, .empty⟩
  closed := false

/-- The lock of a slot, made when it is first asked for. -/
def OrderWriter.slotLock (w : OrderWriter β γ) (slot : String) : SlotLock β :=
  w.slotLocks.getD slot ⟨false, []⟩

/-- Replace the lock of a slot. -/
def OrderWriter.setLock (w : OrderWriter β γ) (slot : String) (lock : SlotLock β) :
    OrderWriter β γ :=
  { w with slotLocks := w.slotLocks.set slot lock }

/-- Replace the pool of a lane. -/
def OrderWriter.setPool (w : OrderWriter β γ) (lane : Lane) (pool : WorkerPool (Call β)) :
    OrderWriter β γ :=
  { w with pools := fun l => if l = lane then pool else w.pools l }

/-- The request class, and the proxy token when it is set. -/
def headersOf (klass : WriteClass) (token : String) : List (String × String) :=
  ("X-DV3-Class", classHeader klass) :: if token.isEmpty then [] else [("X-DV3-Token", token)]

/-- Leaving the lock of the slot: the next waiter may go on. -/
def OrderWriter.release (w : OrderWriter β γ) : Option String → OrderWriter β γ
  | none => w
  | some slot => w.setLock slot { w.slotLock slot with locked := false }

/-- The wait for a round trip ends: count it, leave the slot and answer the caller. -/
def OrderWriter.answer (w : OrderWriter β γ) (c : Call β) (outcome : Outcome γ) :
    OrderWriter β γ × List (Trace β γ) :=
  ({ w with
      inflight := w.inflight - 1
      stats := { w.stats with completed := w.stats.completed + 1 } }.release c.slot,
    [.answered c outcome])

/-- Count a round trip in. -/
def OrderWriter.countIn (w : OrderWriter β γ) (c : Call β) : OrderWriter β γ :=
  { w with
    inflight := w.inflight + 1
    stats :=
      { w.stats with
        submitted := w.stats.submitted + 1
        byClass := w.stats.byClass.set c.klass (w.stats.byClass.getD c.klass 0 + 1)
        maxInflight := max w.stats.maxInflight (w.inflight + 1) } }

/-- Run one blocking round trip on its lane's pool. A pool that is shut down raises at once. -/
def OrderWriter.runOffLoop (w : OrderWriter β γ) (c : Call β) :
    OrderWriter β γ × List (Trace β γ) :=
  if w.closed then (w.countIn c).answer c .refused
  else ((w.countIn c).setPool c.lane ((w.pools c.lane).submit c), [])

/-- Go on at once without a slot or with a free one, else wait behind the others. -/
def OrderWriter.withSlot (w : OrderWriter β γ) (c : Call β) :
    OrderWriter β γ × List (Trace β γ) :=
  match c.slot with
  | none => w.runOffLoop c
  | some slot =>
    let lock := w.slotLock slot
    if lock.locked = false ∧ lock.waiters = [] then
      (w.setLock slot { lock with locked := true }).runOffLoop c
    else (w.setLock slot { lock with waiters := lock.waiters ++ [c] }, [])

/-- A coroutine calls a verb. -/
def OrderWriter.call (w : OrderWriter β γ) (request : Request β) (klass : WriteClass)
    (slot : Option String) (headers : List (String × String)) :
    OrderWriter β γ × List (Trace β γ) :=
  let lane := classToLane klass
  let c : Call β := ⟨w.calls lane, request, klass, slot, headers⟩
  let w := { w with calls := fun l => if l = lane then w.calls l + 1 else w.calls l }
  ((w.withSlot c).1, .called c :: (w.withSlot c).2)

/-- POST a create or an amend. -/
def OrderWriter.post (w : OrderWriter β γ) (rel : String) (body : β) (klass : WriteClass)
    (slot : Option String) (token : String) : OrderWriter β γ × List (Trace β γ) :=
  w.call (.post rel body) klass slot (headersOf klass token)

/-- DELETE an order. -/
def OrderWriter.delete (w : OrderWriter β γ) (path : String) (klass : WriteClass)
    (slot : Option String) (token : String) : OrderWriter β γ × List (Trace β γ) :=
  w.call (.delete path) klass slot (headersOf klass token)

/-- GET a status or the open orders. Reads take no slot and carry no headers of ours. -/
def OrderWriter.get (w : OrderWriter β γ) (path : String) (params : β) (klass : WriteClass) :
    OrderWriter β γ × List (Trace β γ) :=
  w.call (.get path params) klass none []

/-- The first waiter of a free slot goes on. -/
def OrderWriter.wake (w : OrderWriter β γ) (slot : String) : OrderWriter β γ × List (Trace β γ) :=
  match (w.slotLock slot).locked, (w.slotLock slot).waiters with
  | false, c :: rest => (w.setLock slot ⟨true, rest⟩).runOffLoop c
  | _, _ => (w, [])

/-- A worker of the lane takes the oldest request and starts its round trip. -/
def OrderWriter.start (w : OrderWriter β γ) (lane : Lane) : OrderWriter β γ × List (Trace β γ) :=
  match (w.pools lane).start with
  | none => (w, [])
  | some (c, pool) => (w.setPool lane pool, [.sent c])

/-- The outcome of a round trip that was made. -/
def outcomeOf : Option γ → Outcome γ
  | some reply => .replied reply
  | none => .raised

/-- A round trip ends on its worker, with a reply or with what it raised. -/
def OrderWriter.finish (w : OrderWriter β γ) (lane : Lane) (id : ℕ) (reply : Option γ) :
    OrderWriter β γ × List (Trace β γ) :=
  match (w.pools lane).finish (fun c => c.id = id) with
  | none => (w, [])
  | some (c, pool) =>
    ({ w.setPool lane pool with resuming := w.resuming ++ [(c, outcomeOf reply)] },
      [.back c reply])

/-- The loop resumes a coroutine whose future is done. -/
def OrderWriter.resume (w : OrderWriter β γ) (lane : Lane) (id : ℕ) :
    OrderWriter β γ × List (Trace β γ) :=
  match takeFirst (fun e : Call β × Outcome γ => e.1.lane = lane ∧ e.1.id = id) w.resuming with
  | none => (w, [])
  | some (e, rest) => { w with resuming := rest }.answer e.1 e.2

/-- The requests that no worker has taken. -/
def OrderWriter.queued (w : OrderWriter β γ) : List (Call β) :=
  (w.pools .wing).queue ++ (w.pools .cancel).queue ++ (w.pools .normal).queue

/-- Shut the pools down: what runs goes on, what waits for a worker is cancelled. -/
def OrderWriter.close (w : OrderWriter β γ) : OrderWriter β γ × List (Trace β γ) :=
  if w.closed then (w, [])
  else
    ({ w with
        closed := true
        pools := fun lane => (w.pools lane).dropQueue
        resuming := w.resuming ++ w.queued.map fun c => (c, .cancelled) },
      [.closed])

/-! ### Runs -/

/-- What happens to a writer: the calls of the executor, the steps of the loop and the workers,
and the shutdown. A step that is not due changes nothing. -/
inductive Event (β γ : Type*)
  | post (rel : String) (body : β) (klass : WriteClass) (slot : Option String) (token : String)
  | delete (path : String) (klass : WriteClass) (slot : Option String) (token : String)
  | get (path : String) (params : β) (klass : WriteClass)
  | wake (slot : String)
  | start (lane : Lane)
  | finish (lane : Lane) (id : ℕ) (reply : Option γ)
  | resume (lane : Lane) (id : ℕ)
  | close

/-- One step of the writer, with what can be seen of it. -/
def OrderWriter.step (w : OrderWriter β γ) : Event β γ → OrderWriter β γ × List (Trace β γ)
  | .post rel body klass slot token => w.post rel body klass slot token
  | .delete path klass slot token => w.delete path klass slot token
  | .get path params klass => w.get path params klass
  | .wake slot => w.wake slot
  | .start lane => w.start lane
  | .finish lane id reply => w.finish lane id reply
  | .resume lane id => w.resume lane id
  | .close => w.close

/-- A run of the writer, and all that can be seen of it. -/
def OrderWriter.run (w : OrderWriter β γ) :
    List (Event β γ) → OrderWriter β γ × List (Trace β γ)
  | [] => (w, [])
  | e :: es => (((w.step e).1.run es).1, (w.step e).2 ++ ((w.step e).1.run es).2)

end Pilot.V33.Writer
