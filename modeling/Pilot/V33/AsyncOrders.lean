import Pilot.V32.OrderCalls

/-!
# The off-loop twins of cancel and amend

The asynchronous executor has its own handlers for cancels and amends, written after those of the
synchronous one. Run alone, a cancel does the same as its twin on every sequence of replies. An
amend cuts the fill count of the reply down to whole lots, which its twin does not.
-/

namespace Pilot.V32.Calls

open V1 (Json parseSingleResponse)
open V33 (Event)

/-! ### The handlers -/

/-- The asynchronous executor: the creates in flight, the cancels that wait for one, and the
orders with a delete in flight. -/
structure AsyncExecutor extends LiveExecutor where
  inflightCreates : List String
  cancelPending : List String
  cancelOidsInflight : List String

/-- Read the status until a read settles the order; the exact fill is returned beside the whole. -/
def confirmPollsAsync (oid : String) : ℕ → ℤ → ℚ → LiveExecutor → Net (ℤ × ℚ × LiveExecutor)
  | 0, filled, statusFp, x => pure (filled, statusFp, x)
  | polls + 1, filled, statusFp, x => do
    let st ← orderStatus oid
    if st.available then
      let x := { x with lastConfirmStatusFp := st.filledCountFp }
      if st.settled then pure (st.filledCount, st.filledCountFp, x)
      else confirmPollsAsync oid polls st.filledCount st.filledCountFp x
    else confirmPollsAsync oid polls filled statusFp x

/-- The fill the status reads after a delete report. -/
def confirmCancelFilledAsync (x : LiveExecutor) (oid : String) : Net (ℤ × ℚ × LiveExecutor) :=
  confirmPollsAsync oid cancelConfirmPolls 0 0 { x with lastConfirmStatusFp := 0 }

/-- A delete was carried out: the larger of what its reply and the status reads say. -/
def resolveCancelSuccessAsync (x : LiveExecutor) (reply : Response) (record : Option RestRecord)
    (oid : String) (now : ℚ) : Net Handled := do
  let rb := reducedBy reply
  let (filledStatus, statusFp, x) ← confirmCancelFilledAsync x oid
  let filled := max (wholeFillOfReduction record rb) filledStatus
  let x := { x with lastConfirmedGoneOid := some oid }
  let filledFp :=
    if fractionalCounts then some (max (fillOfReduction record rb) statusFp) else none
  pure (finishCancel x record oid filled filledFp now)

/-- Try the delete again, reading the status after each one that is not carried out. -/
def retryCancelAsync (x : LiveExecutor) (record : Option RestRecord) (oid : String)
    (coid : Option String) (now : ℚ) : ℕ → Net Handled
  | 0 => pure (failCancel x record oid coid now)
  | attempts + 1 => do
    let reply ← delete
    if reply.ok then resolveCancelSuccessAsync x reply record oid now
    else
      let st ← orderStatus oid
      match resolveCancelFromStatus x st record oid now with
      | some handled => pure handled
      | none => retryCancelAsync x record oid coid now attempts

/-- A delete was not carried out: the status decides, else the delete is tried again. -/
def cancelNonokAsync (x : LiveExecutor) (record : Option RestRecord) (oid : String)
    (coid : Option String) (now : ℚ) : Net Handled := do
  let st ← orderStatus oid
  match resolveCancelFromStatus x st record oid now with
  | some handled => pure handled
  | none => retryCancelAsync x record oid coid now cancelRetryAttempts

/-- Delete an order and resolve the delete, unless a delete of the order is in flight. -/
def deleteAndResolveAsync (x : AsyncExecutor) (record : Option RestRecord) (oid : String)
    (coid : Option String) (now : ℚ) : Net (AsyncExecutor × List Event) :=
  if oid ∈ x.cancelOidsInflight then pure (x, [])
  else do
    let x := { x with cancelOidsInflight := oid :: x.cancelOidsInflight }
    let reply ← delete
    let (base, events) ←
      if reply.ok then resolveCancelSuccessAsync x.toLiveExecutor reply record oid now
      else cancelNonokAsync x.toLiveExecutor record oid coid now
    pure ({ x with
      toLiveExecutor := base
      cancelOidsInflight := x.cancelOidsInflight.erase oid }, events)

/-- Cancel the order of an action; a cancel of an order whose create is in flight waits for it. -/
def cancelRestAsync (x : AsyncExecutor) (a : V32Action) (now : ℚ) :
    Net (AsyncExecutor × List Event) :=
  match targetOf x.toLiveExecutor a.clientOrderId a with
  | none =>
    match a.clientOrderId.filter fun coid => coid ∈ x.inflightCreates with
    | some coid => pure ({ x with cancelPending := coid :: x.cancelPending }, [])
    | none => pure (x, [goneUnplaced a.clientOrderId now])
  | some oid =>
    deleteAndResolveAsync x
      ((bookedUnder x.toLiveExecutor a.clientOrderId).or
        (attributeOrder x.toLiveExecutor a.clientOrderId (some oid))) oid a.clientOrderId now

/-- An amend that cannot be made, or was not: cancel. -/
def amendFallbackAsync (x : AsyncExecutor) (record : Option RestRecord) (oid : Option String)
    (coid : Option String) (now : ℚ) : Net (AsyncExecutor × List Event) :=
  match oid with
  | none => pure (x, [goneUnplaced coid now])
  | some oid => deleteAndResolveAsync x record oid coid now

/-- Amend the order of an action. An order the venue does not know is resolved by its status; any
other amend that is not carried out falls back to the cancel. -/
def amendRestAsync (x : AsyncExecutor) (a : V32Action) (now : ℚ) :
    Net (Option (AsyncExecutor × List Event)) :=
  let record := bookedUnder x.toLiveExecutor (truthy a.clientOrderId)
  match targetOf x.toLiveExecutor (truthy a.clientOrderId) a with
  | none => some <$> amendFallbackAsync x record none a.clientOrderId now
  | some oid => do
    let reply ← post
    if reply.ok then
      pure <| (parseSingleResponse reply.body .no).map fun parsed =>
        let (base, rec) := bookAmend x.toLiveExecutor record a oid now
        let fillCount := truncInt parsed.fillCount
        let (base, events) := finishAmend base rec oid fillCount parsed.averageFillPrice
          parsed.averageFeePaid now
        ({ x with toLiveExecutor := base }, events)
    else if reply.status = some 404 then do
      let st ← orderStatus oid
      match resolveCancelFromStatus x.toLiveExecutor st record oid now with
      | some (base, events) => pure (some ({ x with toLiveExecutor := base }, events))
      | none => some <$> amendFallbackAsync x record (some oid) a.clientOrderId now
    else some <$> amendFallbackAsync x record (some oid) a.clientOrderId now

/-! ### Cancels -/

variable {x : LiveExecutor} {y : AsyncExecutor} {record : Option RestRecord} {oid : String}
  {coid : Option String} {now : ℚ}

/-- The exact fill the asynchronous confirm returns is the one its twin leaves in the executor. -/
theorem confirmPollsAsync_eq (polls : ℕ) (filled : ℤ) :
    confirmPollsAsync oid polls filled x.lastConfirmStatusFp x =
      (fun r => (r.1, r.2.lastConfirmStatusFp, r.2)) <$> confirmPolls oid polls filled x := by
  induction polls generalizing filled x with
  | zero => rfl
  | succ polls ih =>
    simp only [confirmPollsAsync, confirmPolls, map_bind]
    congr 1
    funext st
    cases st.available with
    | false => exact ih filled
    | true =>
      simp only [if_true]
      cases st.settled with
      | true => rfl
      | false => exact @ih { x with lastConfirmStatusFp := st.filledCountFp } st.filledCount

theorem resolveCancelSuccessAsync_eq (reply : Response) :
    resolveCancelSuccessAsync x reply record oid now =
      resolveCancelSuccess x reply record oid now := by
  have hconfirm := @confirmPollsAsync_eq
      { x with lastConfirmStatusFp := 0 } oid cancelConfirmPolls 0
  unfold resolveCancelSuccessAsync resolveCancelSuccess confirmCancelFilledAsync confirmCancelFilled
  simp only [] at hconfirm ⊢
  rw [hconfirm]
  simp only [map_eq_pure_bind, bind_assoc, pure_bind]

/-- The asynchronous retries of a cancel are those of its twin. -/
theorem retryCancelAsync_eq (attempts : ℕ) :
    retryCancelAsync x record oid coid now attempts =
      retryCancel x record oid coid now attempts := by
  induction attempts with
  | zero => rfl
  | succ attempts ih =>
    simp only [retryCancelAsync, resolveCancelSuccessAsync_eq, ih]
    rfl

/-- The asynchronous handler of a refused cancel does what its twin does. -/
theorem cancelNonokAsync_eq :
    cancelNonokAsync x record oid coid now = cancelNonok x record oid coid now := by
  simp only [cancelNonokAsync, retryCancelAsync_eq]
  rfl

/-- Nothing else is under way. -/
structure AsyncExecutor.Idle (y : AsyncExecutor) : Prop where
  creates : y.inflightCreates = []
  cancels : y.cancelOidsInflight = []

/-- What the synchronous handler leaves, put into the asynchronous executor. -/
def AsyncExecutor.take (y : AsyncExecutor) (h : Handled) : AsyncExecutor × List Event :=
  ({ y with toLiveExecutor := h.1 }, h.2)

/-- Alone, the delete of the asynchronous executor is that of its twin. -/
theorem deleteAndResolveAsync_eq (hidle : y.Idle) :
    deleteAndResolveAsync y record oid coid now =
      y.take <$> deleteAndResolve y.toLiveExecutor record oid coid now := by
  unfold deleteAndResolveAsync deleteAndResolve AsyncExecutor.take
  rw [if_neg (by simp [hidle.cancels])]
  simp only [resolveCancelSuccessAsync_eq, cancelNonokAsync_eq, List.erase_cons_head,
    map_eq_pure_bind, bind_assoc]
  congr 1
  funext reply
  cases reply.ok <;> rfl

/-- Alone, an asynchronous cancel does what its twin does. -/
theorem cancelRestAsync_eq (hidle : y.Idle) (a : V32Action) :
    cancelRestAsync y a now = y.take <$> cancelRest y.toLiveExecutor a now := by
  unfold cancelRestAsync cancelRest
  cases targetOf y.toLiveExecutor a.clientOrderId a with
  | none =>
    cases a.clientOrderId <;> simp [hidle.creates] <;> rfl
  | some oid => exact deleteAndResolveAsync_eq hidle

theorem amendFallbackAsync_eq (hidle : y.Idle) (target : Option String) :
    amendFallbackAsync y record target coid now =
      y.take <$> amendFallback y.toLiveExecutor record target coid now := by
  cases target with
  | none => rfl
  | some oid => exact deleteAndResolveAsync_eq hidle

/-! ### What is seen of a call -/

/-- The events, the book of orders and the recorded fills a call leaves. -/
structure Seen where
  events : List Event
  restBook : Dict String RestRecord
  fills : List RecordedFill

/-- What is seen of a handler's result. -/
def Seen.of (h : Handled) : Seen := ⟨h.2, h.1.restBook, h.1.fills⟩

/-- A cancel or an amend of the synchronous executor, run alone on a script of replies. -/
def runAlone (x : LiveExecutor) (a : V32Action) (now : ℚ) (r : Replies) : Option Seen :=
  match a.kind with
  | .amendRest => ((amendRest x a now).run r).1.map Seen.of
  | .cancelRest => some (.of ((cancelRest x a now).run r).1)
  | _ => none

/-- The same of the asynchronous executor. -/
def runAloneAsync (y : AsyncExecutor) (a : V32Action) (now : ℚ) (r : Replies) : Option Seen :=
  match a.kind with
  | .amendRest =>
    ((amendRestAsync y a now).run r).1.map fun h => .of (h.1.toLiveExecutor, h.2)
  | .cancelRest =>
    let h := ((cancelRestAsync y a now).run r).1
    some (.of (h.1.toLiveExecutor, h.2))
  | _ => none

/-- The reply to the amend, if one is sent, reports a whole number of lots filled. -/
def CrossesWhole (x : LiveExecutor) (a : V32Action) (r : Replies) : Prop :=
  (targetOf x (truthy a.clientOrderId) a).isSome → ∀ reply ∈ r.posts.head?,
    ∀ parsed ∈ parseSingleResponse reply.body .no, parsed.fillCount = truncInt parsed.fillCount

/-- What is seen of an amend that is carried out, with the given lots filled at once. -/
def amendSeen (x : LiveExecutor) (a : V32Action) (oid : String) (now : ℚ)
    (parsed : V1.OrderResponse) (fillCount : ℚ) : Seen :=
  let (x, rec) := bookAmend x (bookedUnder x (truthy a.clientOrderId)) a oid now
  .of (finishAmend x rec oid fillCount parsed.averageFillPrice parsed.averageFeePaid now)

/-- The event tells the lots. -/
theorem amendSeen_inj {a : V32Action} {parsed : V1.OrderResponse} {c c' : ℚ} :
    amendSeen x a oid now parsed c = amendSeen x a oid now parsed c' ↔ c = c' := by
  refine ⟨fun h => ?_, fun h => by rw [h]⟩
  have hevents := congrArg Seen.events h
  simp only [amendSeen, Seen.of, finishAmend, List.cons.injEq, Event.orderAmended.injEq,
    V33.OrderAmended.mk.injEq] at hevents
  exact hevents.1.2.2.2.2.1

variable {a : V32Action} {r : Replies} {reply : Response} {posts : List Response}

/-- The synchronous executor books the lots the reply reports. -/
theorem runAlone_amend (hkind : a.kind = .amendRest)
    (htarget : targetOf x (truthy a.clientOrderId) a = some oid)
    (hposts : r.posts = reply :: posts) (hok : reply.ok = true) :
    runAlone x a now r = (parseSingleResponse reply.body .no).map fun parsed =>
      amendSeen x a oid now parsed parsed.fillCount := by
  simp only [runAlone, hkind, amendRest, htarget, StateT.run_bind, run_post, hposts,
    List.headD_cons, pure_bind, hok, if_true]
  cases parseSingleResponse reply.body .no <;> rfl

/-- The asynchronous executor books the whole ones of them. -/
theorem runAloneAsync_amend (hkind : a.kind = .amendRest)
    (htarget : targetOf y.toLiveExecutor (truthy a.clientOrderId) a = some oid)
    (hposts : r.posts = reply :: posts) (hok : reply.ok = true) :
    runAloneAsync y a now r = (parseSingleResponse reply.body .no).map fun parsed =>
      amendSeen y.toLiveExecutor a oid now parsed (truncInt parsed.fillCount) := by
  simp only [runAloneAsync, hkind, amendRestAsync, htarget, StateT.run_bind, run_post, hposts,
    List.headD_cons, pure_bind, hok, if_true]
  cases parseSingleResponse reply.body .no <;> rfl

/-- Where no amend is carried out, the twins do the same. -/
theorem amendRestAsync_eq (hidle : y.Idle)
    (hposts : targetOf y.toLiveExecutor (truthy a.clientOrderId) a = none ∨ r.posts = []) :
    (amendRestAsync y a now).run r =
      ((Option.map y.take) <$> amendRest y.toLiveExecutor a now).run r := by
  unfold amendRestAsync amendRest
  cases htarget : targetOf y.toLiveExecutor (truthy a.clientOrderId) a with
  | none => rfl
  | some oid =>
    have hlost : r.posts = [] := hposts.resolve_left (by simp [htarget])
    have hok : lost.ok = false := rfl
    have hstatus : ¬lost.status = some 404 := by simp [lost]
    simp only [amendFallbackAsync_eq hidle, StateT.run_bind, StateT.run_map, run_post, hlost,
      List.headD_nil, pure_bind, hok, Bool.false_eq_true, if_false, hstatus]
    rfl

/-- Run alone on replies that carry out every amend, the two executors are seen to do the same on
exactly the scripts whose amend reply reports a whole number of lots. -/
theorem runAloneAsync_eq_iff (hidle : y.Idle) (ha : a.kind = .amendRest ∨ a.kind = .cancelRest)
    (hok : ∀ reply ∈ r.posts, reply.ok = true) :
    runAloneAsync y a now r = runAlone y.toLiveExecutor a now r ↔
      (a.kind = .amendRest → CrossesWhole y.toLiveExecutor a r) := by
  rcases ha with hkind | hkind
  · have htwin (h : targetOf y.toLiveExecutor (truthy a.clientOrderId) a = none ∨ r.posts = []) :
        runAloneAsync y a now r = runAlone y.toLiveExecutor a now r := by
      simp only [runAloneAsync, runAlone, hkind, amendRestAsync_eq hidle h]
      exact Option.map_map _ _ _
    cases htarget : targetOf y.toLiveExecutor (truthy a.clientOrderId) a with
    | none =>
      refine ⟨fun _ _ hsome => ?_, fun _ => htwin (.inl htarget)⟩
      simp [htarget] at hsome
    | some oid =>
      cases hposts : r.posts with
      | nil =>
        refine ⟨fun _ _ _ reply hreply => ?_, fun _ => htwin (.inr hposts)⟩
        simp [hposts] at hreply
      | cons reply posts =>
        have hreply : reply.ok = true := hok reply (by simp [hposts])
        rw [runAlone_amend hkind htarget hposts hreply,
          runAloneAsync_amend hkind htarget hposts hreply]
        simp only [CrossesWhole, hkind, htarget, hposts, List.head?_cons]
        cases hparsed : parseSingleResponse reply.body .no with
        | none => simp [hparsed]
        | some parsed => simp [hparsed, amendSeen_inj, eq_comm]
  · refine ⟨fun _ hamend => ?_, fun _ => ?_⟩
    · rw [hkind] at hamend
      cases hamend
    · simp only [runAloneAsync, runAlone, hkind, cancelRestAsync_eq hidle]
      rfl

/-! ### An amend that crosses -/

/-- The order rolls to a new price. -/
def sampleAmend : V32Action :=
  { kind := .amendRest, ticker := some "B", count := 2, price := some (1 / 2),
    clientOrderId := some "v32-1", orderId := some "O", updatedClientOrderId := some "v32-2" }

/-- The amend is carried out and crosses the given lots. -/
def crossing (lots remaining : String) : Replies where
  posts := [⟨some 200, .object [("order", .object [("order_id", .text "O"),
    ("fill_count", .text lots), ("remaining_count", .text remaining),
    ("average_fill_price", .text "0.5100"), ("average_fee_paid", .text "0.0200")])]⟩]
  deletes := []
  reads := []

/-- A whole lot is booked by both. -/
theorem runAloneAsync_whole_lot :
    runAloneAsync ⟨restingPair, [], [], []⟩ sampleAmend 200 (crossing "1.00" "1.00") =
      runAlone restingPair sampleAmend 200 (crossing "1.00" "1.00") := by
  refine (runAloneAsync_eq_iff (y := ⟨restingPair, [], [], []⟩) ⟨rfl, rfl⟩ (.inl rfl)
    (by decide +kernel)).mpr fun _ _ reply hreply parsed hparsed => ?_
  obtain rfl := Option.some.inj hreply
  have hone : (parseSingleResponse ((crossing "1.00" "1.00").posts.headD lost).body .no).map
      (fun parsed => parsed.fillCount) = some 1 := by
    decide +kernel
  have hcount : some parsed.fillCount = some (1 : ℚ) := by
    rw [← hone]
    exact (congrArg (Option.map fun parsed => parsed.fillCount) hparsed).symm
  rw [Option.some.inj hcount]
  decide +kernel

/-- A part of a lot is booked by the synchronous executor, and by the other one not at all. -/
theorem runAloneAsync_drops_part :
    runAloneAsync ⟨restingPair, [], [], []⟩ sampleAmend 200 (crossing "0.44" "1.56") ≠
      runAlone restingPair sampleAmend 200 (crossing "0.44" "1.56") := by
  intro h
  have hfills := congrArg (Option.map fun seen => seen.fills.map fun f => f.count) h
  revert hfills
  decide +kernel

end Pilot.V32.Calls
