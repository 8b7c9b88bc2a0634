import Pilot.V32.OrderCalls

/-!
# What a cancel reports

A cancel reports the lots its order had filled. It learns them from the status of the order, or
from the lots the delete took off the book, which it subtracts from the size it remembers. An
amend overwrites that size with the lots it asks to rest, and with it the lots filled before.
-/

namespace Pilot.V32.Calls

open V1 (Json toDecimal singleSlot)
open V33 (Event)

/-! ### What the replies tell -/

/-- The order as it ends: the lots it could fill in all, and those it filled. -/
structure FinalOrder where
  size : ℚ
  filled : ℚ
  filled_nonneg : 0 ≤ filled

/-- The order object states the lots filled, in one of the forms the venue has used. -/
inductive StatesFill (order : Json) : ℚ → Prop
  | exactly {f : ℚ} : exactField order "fill_count_fp" = some f → StatesFill order f
  | plainly {f : ℚ} : exactField order "fill_count_fp" = none →
    exactField order "fill_count" = some f → StatesFill order f
  | bySide {mk tk : ℚ} : exactField order "fill_count_fp" = none →
    exactField order "fill_count" = none →
    (exactField order "maker_fill_count").getD 0 = mk →
    (exactField order "taker_fill_count").getD 0 = tk → mk ≠ 0 ∨ tk ≠ 0 →
    StatesFill order (mk + tk)
  | byDifference {initial remaining : ℚ} : exactField order "fill_count_fp" = none →
    exactField order "fill_count" = none →
    (exactField order "maker_fill_count").getD 0 = 0 →
    (exactField order "taker_fill_count").getD 0 = 0 →
    (exactField order "initial_count_fp").or (exactField order "place_count") = some initial →
    (exactField order "remaining_count_fp").or (exactField order "remaining_count") =
      some remaining →
    remaining ≤ initial → StatesFill order (initial - remaining)

/-- The order object says that the order is off the book. -/
def saysTerminal (order : Json) : Bool := terminalStatuses.any (order.field "status").isText

/-- The fields a count of lots can be read from. -/
def countFields : List String :=
  ["fill_count_fp", "fill_count", "maker_fill_count", "taker_fill_count", "initial_count_fp",
    "place_count", "remaining_count_fp", "remaining_count"]

/-- A body that tells the truth about an order: the lots it states were filled, and are all that
ever fill once it says that the order is off the book. A body may also say nothing. -/
def TruthfulBody (o : FinalOrder) (order : Json) : Prop :=
  (∃ f, StatesFill order f ∧ 0 ≤ f ∧ f ≤ o.filled ∧ (saysTerminal order = true → f = o.filled)) ∨
    (∀ key ∈ countFields, exactField order key = none) ∧ saysTerminal order = false

/-- The replies tell the truth about an order: a delete that is carried out takes off what did
not fill. -/
structure Truthful (o : FinalOrder) (r : Replies) : Prop where
  reads : ∀ body, some body ∈ r.reads → TruthfulBody o (singleSlot (asObject body))
  deletes : ∀ reply ∈ r.deletes, reply.ok = true →
    ∀ rb ∈ reducedBy reply, rb = o.size - o.filled

/-- What a cancel learns from the replies. -/
inductive CancelAnswer
  /-- A delete was carried out, with the lots taken off and the status read the confirm ends
  with. -/
  | pulled (rb : Option ℚ) (final : Option OrderStatus)
  /-- A status read showed the order off the book. -/
  | gone (st : OrderStatus)
  | unresolved

/-- The status in a reply to a read. -/
def statusIn (oid : String) (reply : Option Json) : OrderStatus :=
  match reply with
  | none => .unavailable oid
  | some body => parseOrderStatus (asObject body) oid

/-- The read a confirm ends with: the first that settles the order, else the last readable. -/
def finalRead (oid : String) : ℕ → List (Option Json) → Option OrderStatus
  | 0, _ => none
  | polls + 1, reads =>
    let st := statusIn oid reads.head?.join
    let later := finalRead oid polls reads.tail
    if st.available then if st.settled then some st else some (later.getD st) else later

/-- The answer in the replies to at most so many deletes. -/
def cancelAnswer (oid : String) : ℕ → Replies → CancelAnswer
  | 0, _ => .unresolved
  | attempts + 1, r =>
    let reply := r.deletes.headD lost
    if reply.ok then .pulled (reducedBy reply) (finalRead oid cancelConfirmPolls r.reads)
    else
      let st := statusIn oid r.reads.head?.join
      if st.available && st.terminal then .gone st
      else cancelAnswer oid attempts { r with deletes := r.deletes.tail, reads := r.reads.tail }

/-- The lots a cancel makes of its answer. -/
def CancelAnswer.fill (record : Option RestRecord) : CancelAnswer → ℚ
  | .pulled rb final =>
    max (fillOfReduction record rb) ((final.map fun st => st.filledCountFp).getD 0)
  | .gone st => st.filledCountFp
  | .unresolved => 0

/-- The lots the cancel confirms among the events report. -/
def reportedFills (events : List Event) : List ℚ :=
  events.filterMap fun ev =>
    match ev with
    | .orderCancelled c => some c.filledCountBeforeCancel
    | _ => none

/-! ### The calls follow the answer -/

variable {x : LiveExecutor} {record : Option RestRecord} {oid : String} {coid : Option String}
  {now : ℚ} {r : Replies}

/-- A status read uses up one reply. -/
theorem run_orderStatus :
    (orderStatus oid).run r =
      pure (statusIn oid r.reads.head?.join, { r with reads := r.reads.tail }) := by
  unfold orderStatus statusIn
  simp only [StateT.run_bind, run_read, pure_bind]
  cases r.reads.head?.join <;> rfl

/-- A confirm leaves the exact fill of its final read behind, if there is one. -/
theorem confirmPolls_statusFp (polls : ℕ) (filled : ℤ) :
    ((confirmPolls oid polls filled x).run r).1.2.lastConfirmStatusFp =
      ((finalRead oid polls r.reads).map fun st => st.filledCountFp).getD
        x.lastConfirmStatusFp := by
  induction polls generalizing filled x r with
  | zero => rfl
  | succ polls ih =>
    simp only [confirmPolls, finalRead, StateT.run_bind, run_orderStatus, pure_bind]
    cases (statusIn oid r.reads.head?.join).available with
    | false => exact ih filled
    | true =>
      cases (statusIn oid r.reads.head?.join).settled with
      | true => rfl
      | false =>
        simp only [if_true, Bool.false_eq_true, if_false]
        rw [ih]
        cases finalRead oid polls r.reads.tail <;> rfl

/-- A finished cancel reports the fill it was given. -/
@[simp] theorem reportedFills_finishCancel (filled : ℤ) (f : ℚ) :
    reportedFills (finishCancel x record oid filled (some f) now).2 = [f] := rfl

/-- What is reported after the venue has pulled the order. -/
theorem reportedFills_resolveCancelSuccess (reply : Response) :
    reportedFills ((resolveCancelSuccess x reply record oid now).run r).1.2 =
      [(CancelAnswer.pulled (reducedBy reply) (finalRead oid cancelConfirmPolls r.reads)).fill
        record] := by
  have hconfirm := @confirmPolls_statusFp { x with lastConfirmStatusFp := 0 } oid r
    cancelConfirmPolls 0
  simp only [resolveCancelSuccess, confirmCancelFilled, StateT.run_bind, fractionalCounts, if_true]
  simp only [CancelAnswer.fill, ← hconfirm]
  rfl

/-- A cancel reports what the answer in its replies makes. -/
theorem reportedFills_retryCancel (attempts : ℕ) :
    reportedFills ((retryCancel x record oid coid now attempts).run r).1.2 =
      [(cancelAnswer oid attempts r).fill record] := by
  induction attempts generalizing r with
  | zero => rfl
  | succ attempts ih =>
    simp only [retryCancel, cancelAnswer, StateT.run_bind, run_delete, pure_bind]
    cases (r.deletes.headD lost).ok with
    | true => exact reportedFills_resolveCancelSuccess _
    | false =>
      simp only [Bool.false_eq_true, if_false, StateT.run_bind, run_orderStatus, pure_bind]
      unfold resolveCancelFromStatus
      cases hgone : (statusIn oid r.reads.head?.join).available &&
          (statusIn oid r.reads.head?.join).terminal with
      | true => rfl
      | false => exact ih

/-- A delete and its retries are one more attempt. -/
theorem reportedFills_deleteAndResolve :
    reportedFills ((deleteAndResolve x record oid coid now).run r).1.2 =
      [(cancelAnswer oid (cancelRetryAttempts + 1) r).fill record] :=
  reportedFills_retryCancel (cancelRetryAttempts + 1)

/-! ### Replies that tell the truth -/

variable {o : FinalOrder} {order : Json} {f : ℚ}

/-- The reader finds the lots a body states, in whichever form. -/
theorem statedFill_of_states (h : StatesFill order f) : statedFill (exactField order) = some f := by
  unfold statedFill sideFills placedLessRemaining statedRemaining
  cases h with
  | exactly hfp => simp [hfp]
  | plainly hfp hcount => simp [hfp, hcount]
  | bySide hfp hcount hmk htk hne => simp [hfp, hcount, hmk, htk, hne]
  | byDifference hfp hcount hmk htk hinitial hremaining hle =>
    simp [hfp, hcount, hmk, htk, hinitial, hremaining, hle]

/-- In a body that says nothing the reader finds nothing. -/
theorem statedFill_of_silent (h : ∀ key ∈ countFields, exactField order key = none) :
    statedFill (exactField order) = none ∧ statedFill (wholeField order) = none := by
  simp only [countFields, List.mem_cons, List.not_mem_nil, or_false, forall_eq_or_imp,
    forall_eq] at h
  unfold statedFill sideFills placedLessRemaining statedRemaining wholeField
  simp [h]

/-- What a status read that tells the truth can say. -/
structure OrderStatus.Honest (st : OrderStatus) (o : FinalOrder) : Prop where
  nonneg : 0 ≤ st.filledCountFp
  le_filled : st.filledCountFp ≤ o.filled
  final : st.terminal = true → st.filledCountFp = o.filled

/-- A body read as an object holds an order object. -/
theorem singleSlot_asObject (body : Json) :
    ∃ fields, singleSlot (asObject body) = .object fields := by
  have hbody : ∃ fields, asObject body = .object fields := by
    unfold asObject
    split <;> exact ⟨_, rfl⟩
  obtain ⟨fields, hfields⟩ := hbody
  unfold singleSlot
  rw [hfields]
  split <;> exact ⟨_, rfl⟩

/-- The status in a truthful body is honest. -/
theorem statusIn_honest {body : Json} (h : TruthfulBody o (singleSlot (asObject body))) :
    (statusIn oid (some body)).Honest o := by
  obtain ⟨fields, hfields⟩ := singleSlot_asObject body
  simp only [statusIn, parseOrderStatus, hfields] at h ⊢
  rcases h with ⟨f, hstates, hnonneg, hle, hfinal⟩ | ⟨hsilent, hopen⟩
  · have hstated := statedFill_of_states hstates
    refine ⟨?_, ?_, fun hterminal => ?_⟩
    · simpa [hstated] using hnonneg
    · simpa [hstated] using hle
    · simpa [hstated] using hfinal hterminal
  · obtain ⟨hexact, hwhole⟩ := statedFill_of_silent hsilent
    refine ⟨?_, ?_, fun hterminal => ?_⟩
    · simp [hexact, hwhole]
    · simpa [hexact, hwhole] using o.filled_nonneg
    · exact absurd (hopen.symm.trans hterminal) Bool.false_ne_true

/-- The replies that are left are truthful. -/
theorem Truthful.tail (h : Truthful o r) :
    Truthful o { r with deletes := r.deletes.tail, reads := r.reads.tail } :=
  ⟨fun body hbody => h.reads body (List.mem_of_mem_tail hbody),
    fun reply hreply => h.deletes reply (List.mem_of_mem_tail hreply)⟩

/-- The next status read tells the truth, if it can be read. -/
theorem Truthful.statusIn_head (h : Truthful o r)
    (havailable : (statusIn oid r.reads.head?.join).available = true) :
    (statusIn oid r.reads.head?.join).Honest o := by
  cases hreads : r.reads with
  | nil => simp [hreads, statusIn, OrderStatus.unavailable] at havailable
  | cons read reads =>
    cases read with
    | none => simp [hreads, statusIn, OrderStatus.unavailable] at havailable
    | some body => exact statusIn_honest (h.reads body (by simp [hreads]))

/-- The final read of truthful replies is honest. -/
theorem Truthful.finalRead (h : Truthful o r) (polls : ℕ) :
    ∀ st ∈ finalRead oid polls r.reads, st.Honest o := by
  induction polls generalizing r with
  | zero => simp [Calls.finalRead]
  | succ polls ih =>
    intro st hst
    have hlater := ih h.tail
    simp only [Calls.finalRead] at hst
    split at hst
    next havailable =>
      have hhead := h.statusIn_head havailable
      split at hst
      · obtain rfl := Option.some.inj hst
        exact hhead
      · cases hrest : Calls.finalRead oid polls r.reads.tail with
        | none =>
          rw [hrest] at hst
          obtain rfl := Option.some.inj hst
          exact hhead
        | some last =>
          rw [hrest] at hst
          obtain rfl := Option.some.inj hst
          exact hlater _ hrest
    next => exact hlater st hst

/-- What an answer in such replies can say. -/
def CancelAnswer.Honest (o : FinalOrder) : CancelAnswer → Prop
  | .pulled rb final => (∀ lots ∈ rb, lots = o.size - o.filled) ∧ ∀ st ∈ final, st.Honest o
  | .gone st => st.filledCountFp = o.filled
  | .unresolved => True

/-- The answer to a cancel is honest when the replies are truthful. -/
theorem Truthful.cancelAnswer (h : Truthful o r) (attempts : ℕ) :
    (cancelAnswer oid attempts r).Honest o := by
  induction attempts generalizing r with
  | zero => trivial
  | succ attempts ih =>
    simp only [Calls.cancelAnswer]
    split
    next hok =>
      refine ⟨fun rb hrb => ?_, h.finalRead _⟩
      cases hdeletes : r.deletes with
      | nil =>
        rw [hdeletes] at hok
        exact absurd hok Bool.false_ne_true
      | cons reply deletes =>
        rw [hdeletes] at hok hrb
        exact h.deletes reply (by simp [hdeletes]) hok rb hrb
    · split
      next hgone =>
        obtain ⟨havailable, hterminal⟩ := Bool.and_eq_true_iff.mp hgone
        exact (h.statusIn_head havailable).final hterminal
      · exact ih h.tail

/-- The answer tells the lots: those a delete took off, or those of an order off the book. -/
def CancelAnswer.Tells : CancelAnswer → Prop
  | .pulled rb final => rb.isSome ∨ ∃ st ∈ final, st.terminal = true
  | .gone _ => True
  | .unresolved => False

/-- Where the lots a delete took off are known, the size remembered for the order must be the one
it had at the venue. A smaller one is made up for if nothing was filled, or if the status read the
confirm ends with tells all that was. -/
def SizeKnown (record : Option RestRecord) (o : FinalOrder) : CancelAnswer → Prop
  | .pulled (some _) final =>
    (∀ rec ∈ record, rec.count ≤ o.size) ∧
      ((∃ rec ∈ record, rec.count = o.size) ∨ o.filled = 0 ∨
        ∃ st ∈ final, st.filledCountFp = o.filled)
  | _ => True

/-- A larger of two, the second of them at most the target, is the target if one of them is. -/
theorem max_eq_iff_of_le {a b c : ℚ} (hb : b ≤ c) : max a b = c ↔ a ≤ c ∧ (a = c ∨ b = c) := by
  rw [max_eq_iff]
  constructor
  · rintro (⟨rfl, -⟩ | ⟨rfl, hab⟩)
    · exact ⟨le_rfl, .inl rfl⟩
    · exact ⟨hab, .inr rfl⟩
  · rintro ⟨hab, rfl | rfl⟩
    · exact .inl ⟨rfl, hb⟩
    · exact .inr ⟨rfl, hab⟩

/-- The subtraction gives the lots filled if the remembered size is the order's, or if it is less
and nothing was filled. -/
theorem fillOfReduction_eq_iff :
    (fillOfReduction record (some (o.size - o.filled)) ≤ o.filled ↔
      ∀ rec ∈ record, rec.count ≤ o.size) ∧
    (fillOfReduction record (some (o.size - o.filled)) ≤ o.filled →
      (fillOfReduction record (some (o.size - o.filled)) = o.filled ↔
        (∃ rec ∈ record, rec.count = o.size) ∨ o.filled = 0)) := by
  have hnonneg := o.filled_nonneg
  cases record with
  | none => simp [fillOfReduction, hnonneg, eq_comm]
  | some rec =>
    simp only [fillOfReduction, Option.mem_def, Option.some.injEq, forall_eq', exists_eq_left',
      max_le_iff]
    refine ⟨⟨fun h => ?_, fun h => ⟨hnonneg, ?_⟩⟩, fun h => ⟨fun heq => ?_, ?_⟩⟩
    · linarith [h.2]
    · linarith
    · rcases max_cases (0 : ℚ) (rec.count - (o.size - o.filled)) with ⟨hmax, -⟩ | ⟨hmax, -⟩
      · right
        rw [← heq, hmax]
      · left
        rw [hmax] at heq
        linarith
    · rintro (heq | hzero)
      · rw [heq, sub_sub_cancel, max_eq_right hnonneg]
      · rw [hzero] at h ⊢
        exact max_eq_left h.2

/-- The fill of the final read of a confirm, if there is one. -/
theorem final_eq_iff {final : Option OrderStatus} (h : ∀ st ∈ final, st.Honest o) :
    (final.map fun st => st.filledCountFp).getD 0 ≤ o.filled ∧
      ((final.map fun st => st.filledCountFp).getD 0 = o.filled ↔
        (final = none ∧ o.filled = 0) ∨ ∃ st ∈ final, st.filledCountFp = o.filled) := by
  cases final with
  | none => simp [o.filled_nonneg, eq_comm]
  | some st => simpa using (h st rfl).le_filled

/-- A cancel of which the replies tell the lots reports those the order filled, exactly if the
size of the order was known. Both the cancel of an action and the fallback of an amend are this
call. -/
theorem deleteAndResolve_reports_iff (htruth : Truthful o r)
    (htells : (cancelAnswer oid (cancelRetryAttempts + 1) r).Tells) :
    reportedFills ((deleteAndResolve x record oid coid now).run r).1.2 = [o.filled] ↔
      SizeKnown record o (cancelAnswer oid (cancelRetryAttempts + 1) r) := by
  have hhonest : (cancelAnswer oid (cancelRetryAttempts + 1) r).Honest o :=
    htruth.cancelAnswer (cancelRetryAttempts + 1)
  rw [reportedFills_deleteAndResolve, List.cons.injEq, and_iff_left rfl]
  cases hans : cancelAnswer oid (cancelRetryAttempts + 1) r with
  | unresolved =>
    rw [hans] at htells
    exact htells.elim
  | gone st =>
    rw [hans] at hhonest
    exact iff_of_true hhonest trivial
  | pulled rb final =>
    rw [hans] at hhonest htells
    obtain ⟨hreduced, hstatus⟩ := hhonest
    obtain ⟨hle, heq⟩ := final_eq_iff hstatus
    cases rb with
    | none =>
      obtain ⟨st, hst, hterminal⟩ := htells.resolve_left (by simp)
      have hfill := heq.mpr (.inr ⟨st, hst, (hstatus st hst).final hterminal⟩)
      refine iff_of_true ?_ trivial
      simp only [CancelAnswer.fill, hfill, fillOfReduction]
      exact max_eq_right o.filled_nonneg
    | some lots =>
      obtain rfl := hreduced lots rfl
      obtain ⟨hbelow, hexact⟩ := @fillOfReduction_eq_iff record o
      simp only [CancelAnswer.fill, SizeKnown]
      rw [max_eq_iff_of_le hle, ← hbelow]
      refine and_congr_right fun h => ?_
      rw [hexact h, heq]
      constructor
      · rintro ((hsize | hzero) | ⟨-, hzero⟩ | hfinal)
        · exact .inl hsize
        · exact .inr (.inl hzero)
        · exact .inr (.inl hzero)
        · exact .inr (.inr hfinal)
      · rintro (hsize | hzero | hfinal)
        · exact .inl (.inl hsize)
        · exact .inl (.inr hzero)
        · exact .inr (.inr hfinal)

/-! ### The life of an order -/

/-- The lots an order fills if it is left alone long enough. -/
def orderSize (o : VenueOrder) : ℚ := o.filled + o.remaining

/-- An order from its creation on, beside the record the executor keeps of it: it fills, and it is
amended. The last number is what had filled before the last amend. -/
inductive Life (x : LiveExecutor) (oid : String) : RestRecord → VenueOrder → ℚ → Prop
  | placed (rec : RestRecord) : 0 ≤ rec.count →
    Life x oid rec ⟨rec.clientOrderId, true, rec.count, 0⟩ 0
  | fill {rec : RestRecord} {o : VenueOrder} {before lots : ℚ} : Life x oid rec o before →
    0 ≤ lots → lots ≤ o.remaining →
    Life x oid rec { o with remaining := o.remaining - lots, filled := o.filled + lots } before
  | amend {rec : RestRecord} {o : VenueOrder} {before crossed now : ℚ} {a : V32Action} :
    Life x oid rec o before → a.count ≠ 0 → 0 ≤ crossed → crossed ≤ amendCount a →
    Life x oid (bookAmend x (some rec) a oid now).2
      (o.amended (bookAmend x (some rec) a oid now).2.clientOrderId (amendCount a) crossed) o.filled

/-- An amend remembers the lots it asks to rest. -/
theorem bookAmend_count {a : V32Action} (h : a.count ≠ 0) :
    (bookAmend x record a oid now).2.count = amendCount a := by
  simp [bookAmend, amendCount, h]

/-- The size remembered for an order is short by what had filled before its last amend. -/
theorem Life.orderSize_eq {rec : RestRecord} {v : VenueOrder} {before : ℚ}
    (h : Life x oid rec v before) :
    orderSize v = rec.count + before ∧ 0 ≤ before ∧ before ≤ v.filled := by
  induction h with
  | placed rec hcount => simp [orderSize]
  | fill _ hlots _ ih =>
    obtain ⟨hsize, hbefore, hle⟩ := ih
    refine ⟨?_, hbefore, hle.trans (by simpa using hlots)⟩
    rw [← hsize]
    simp only [orderSize]
    ring
  | amend _ hcount hcrossed _ ih =>
    obtain ⟨-, hbefore, hle⟩ := ih
    refine ⟨?_, hbefore.trans hle, by simpa [VenueOrder.amended] using hcrossed⟩
    rw [bookAmend_count hcount]
    simp only [orderSize, VenueOrder.amended]
    ring

/-- After a life without an amend that filled lots came before, the size is known. -/
theorem Life.sizeKnown {rec : RestRecord} {v : VenueOrder} (h : Life x oid rec v 0)
    (hsize : o.size = orderSize v) (ans : CancelAnswer) : SizeKnown (some rec) o ans := by
  have heq : (rec.count : ℚ) = o.size := by rw [hsize, h.orderSize_eq.1, add_zero]
  unfold SizeKnown
  split
  · refine ⟨?_, .inl ⟨rec, rfl, heq⟩⟩
    rintro _ ⟨⟩
    exact heq.le
  · trivial

/-- A final read that tells all makes up for a smaller size. -/
theorem sizeKnown_of_final {rb : Option ℚ} {final : Option OrderStatus}
    (hle : ∀ rec ∈ record, rec.count ≤ o.size)
    (hfinal : ∃ st ∈ final, st.filledCountFp = o.filled) :
    SizeKnown record o (.pulled rb final) := by
  cases rb with
  | none => trivial
  | some lots => exact ⟨hle, .inr (.inr hfinal)⟩

/-! ### A lot filled before an amend -/

/-- After one lot filled, the other is rolled to a new price. -/
def rollRemainder : V32Action :=
  { kind := .amendRest, ticker := some "B", count := 1, price := some (1 / 2),
    clientOrderId := some "v32-1", orderId := some "O", updatedClientOrderId := some "v32-2" }

/-- The amend is carried out without a fill. -/
def rolled : Replies where
  posts := [⟨some 200, .object [("order", .object [("order_id", .text "O"),
    ("fill_count", .text "0.00"), ("remaining_count", .text "1.00")])]⟩]
  deletes := []
  reads := []

/-- The executor after the amend. -/
def afterRoll : LiveExecutor :=
  (((amendRest restingPair rollRemainder 200).run rolled).1.map Prod.fst).getD restingPair

/-- The delete takes the remaining lot off, and no status can be read. -/
def pulledUnread : Replies where
  posts := []
  deletes := [⟨some 200, .object [("order_id", .text "O"), ("reduced_by", .text "1.00")]⟩]
  reads := [none, none, none]

/-- The delete takes the remaining lot off, and the status tells of the one that filled. -/
def pulledRead : Replies where
  posts := []
  deletes := [⟨some 200, .object [("order_id", .text "O"), ("reduced_by", .text "1.00")]⟩]
  reads := [some (.object [("order", .object [("status", .text "canceled"),
    ("fill_count_fp", .text "1.00")])])]

/-- Two lots in all, of which one filled. -/
def halfFilled : FinalOrder := ⟨2, 1, by norm_num⟩

/-- The replies of the first sample are truthful. -/
theorem truthful_pulledUnread : Truthful halfFilled pulledUnread where
  reads body hbody := by simp [pulledUnread] at hbody
  deletes reply hreply _ rb hrb := by
    obtain rfl := List.mem_singleton.mp hreply
    have hone : reducedBy ⟨some 200, .object [("order_id", .text "O"),
        ("reduced_by", .text "1.00")]⟩ = some 1 := by
      decide +kernel
    obtain rfl := Option.some.inj (hone.symm.trans hrb)
    norm_num [halfFilled]

/-- The replies of the second sample are truthful. -/
theorem truthful_pulledRead : Truthful halfFilled pulledRead where
  reads body hbody := by
    obtain rfl := Option.some.inj (List.mem_singleton.mp hbody)
    exact .inl ⟨1, .exactly (by decide +kernel), by norm_num, le_rfl, fun _ => rfl⟩
  deletes := truthful_pulledUnread.deletes

/-- The lot that filled before the amend is not reported, if the status cannot be read. -/
theorem cancel_after_roll_reports_nothing :
    Truthful halfFilled pulledUnread ∧
      (cancelAnswer "O" (cancelRetryAttempts + 1) pulledUnread).Tells ∧
      reportedFills ((deleteAndResolve afterRoll (bookedUnder afterRoll (some "v32-2")) "O"
        (some "v32-2") 300).run pulledUnread).1.2 ≠ [halfFilled.filled] := by
  refine ⟨truthful_pulledUnread, .inl (by decide +kernel), ?_⟩
  decide +kernel

/-- A readable status makes up for it. -/
theorem cancel_after_roll_reports_read :
    reportedFills ((deleteAndResolve afterRoll (bookedUnder afterRoll (some "v32-2")) "O"
      (some "v32-2") 300).run pulledRead).1.2 = [halfFilled.filled] := by
  refine (deleteAndResolve_reports_iff truthful_pulledRead (.inl (by decide +kernel))).mpr ?_
  have hcount : (bookedUnder afterRoll (some "v32-2")).map (fun rec => rec.count) = some 1 := by
    decide +kernel
  have hfinal : (finalRead "O" cancelConfirmPolls pulledRead.reads).map
      (fun st => st.filledCountFp) = some 1 := by
    decide +kernel
  obtain ⟨rec, hrec, hone⟩ := Option.map_eq_some_iff.mp hcount
  obtain ⟨st, hst, hfill⟩ := Option.map_eq_some_iff.mp hfinal
  show SizeKnown _ _ (.pulled _ _)
  rw [hrec]
  refine sizeKnown_of_final ?_ ⟨st, hst, hfill⟩
  rintro _ ⟨⟩
  norm_num [hone, halfFilled]

end Pilot.V32.Calls
