import Mathlib.Algebra.Group.Prod
import Pilot.V33.Ledger

/-!
# The credit of two rosters

Both rosters trade the same closes, and a close is matched by its time alone. Read as one
ledger, the rows of a roster lose the credit of every close that only the other roster has
backfilled.
-/

namespace Pilot.V33

/-- The rows a ledger is still owed on a day. -/
def owedRows (rows : List LedgerRow) (utcDay : String) : List LedgerRow :=
  rows.filter fun r => unsettledOn utcDay r && !(backfilled rows).contains r.closeTime

/-- The rows of one ledger that are still owed while the other has backfilled their close. -/
def maskedRows (rows other : List LedgerRow) (utcDay : String) : List LedgerRow :=
  (owedRows rows utcDay).filter fun r => (backfilled other).contains r.closeTime

/-- The credit of the masked rows. -/
def maskedCredit (rows other : List LedgerRow) (utcDay : String) : ℚ × ℚ :=
  ((maskedRows rows other utcDay).map rowCredit).sum

/-- The backfills of two ledgers are those of both. -/
theorem backfilled_append (rows other : List LedgerRow) :
    backfilled (rows ++ other) = backfilled rows ++ backfilled other :=
  List.filterMap_append

/-- What a condition leaves of a sum and what it takes from it. -/
theorem sum_filter_add_sum_filter_not {α μ : Type*} [AddCommMonoid μ] (f : α → μ)
    (q : α → Bool) (l : List α) :
    ((l.filter q).map f).sum + ((l.filter fun x => !q x).map f).sum = (l.map f).sum := by
  induction l with
  | nil => simp
  | cons x l ih =>
    cases hq : q x with
    | true =>
      rw [List.filter_cons_of_pos (by simpa using hq), List.filter_cons_of_neg (by simp [hq]),
        List.map_cons, List.sum_cons, List.map_cons, List.sum_cons, ← ih, add_assoc]
    | false =>
      rw [List.filter_cons_of_neg (by simp [hq]), List.filter_cons_of_pos (by simp [hq]),
        List.map_cons, List.sum_cons, List.map_cons, List.sum_cons, ← ih, add_left_comm]

/-- Beside another ledger a roster keeps the credit of what is not masked. -/
theorem credit_beside (rows other : List LedgerRow) (done : List String) (utcDay : String)
    (hdone : ∀ t, t ∈ done ↔ t ∈ backfilled rows ∨ t ∈ backfilled other) :
    maskedCredit rows other utcDay +
        ((rows.filter fun r => unsettledOn utcDay r && !done.contains r.closeTime).map
          rowCredit).sum = v33PendingCredit rows utcDay := by
  have hkept : (rows.filter fun r => unsettledOn utcDay r && !done.contains r.closeTime) =
      (owedRows rows utcDay).filter fun r => !(backfilled other).contains r.closeTime := by
    rw [owedRows, List.filter_filter]
    refine List.filter_congr fun r _ => ?_
    have hr := hdone r.closeTime
    by_cases hown : r.closeTime ∈ backfilled rows <;>
      by_cases hother : r.closeTime ∈ backfilled other <;>
        simp [hr, hown, hother]
  rw [hkept]
  exact sum_filter_add_sum_filter_not rowCredit _ (owedRows rows utcDay)

/-- The credit of the account and what is masked on either side make up the credit of the two
rosters. -/
theorem masked_add_account (rows sibling : List LedgerRow) (utcDay : String) :
    maskedCredit rows sibling utcDay + maskedCredit sibling rows utcDay +
        accountPendingCredit rows sibling utcDay =
      v33PendingCredit rows utcDay + v33PendingCredit sibling utcDay := by
  have hown := credit_beside rows sibling (backfilled (rows ++ sibling)) utcDay
    fun t => by rw [backfilled_append, List.mem_append]
  have hsib := credit_beside sibling rows (backfilled (rows ++ sibling)) utcDay
    fun t => by rw [backfilled_append, List.mem_append, or_comm]
  rw [← hown, ← hsib, accountPendingCredit, v33PendingCredit, List.filter_append, List.map_append,
    List.sum_append]
  abel

/-- The account's credit is the sum of the rosters' exactly when no credit is masked. -/
theorem account_credit_additive_iff (rows sibling : List LedgerRow) (utcDay : String) :
    accountPendingCredit rows sibling utcDay =
        v33PendingCredit rows utcDay + v33PendingCredit sibling utcDay ↔
      maskedCredit rows sibling utcDay + maskedCredit sibling rows utcDay = 0 := by
  rw [← masked_add_account]
  exact right_eq_add (a := maskedCredit rows sibling utcDay + maskedCredit sibling rows utcDay)

/-- A window of one lot, held on all three legs. -/
def sampleRow (closeTime : String) : LedgerRow where
  closeTime := closeTime
  realizedUnsettled := true
  wingBatchSets := [⟨0, 1, true, false, 3⟩]

/-- Both rosters held a lot over one close and only the sibling's has been backfilled: the
account is owed nothing. -/
theorem account_credit_masked :
    accountPendingCredit [sampleRow "2026-10-09T20:00:00Z"]
        [sampleRow "2026-10-09T20:00:00Z",
          buildV33BackfillRow (sampleRow "2026-10-09T20:00:00Z") 2 2] "2026-10-09" ≠
      v33PendingCredit [sampleRow "2026-10-09T20:00:00Z"] "2026-10-09" +
        v33PendingCredit [sampleRow "2026-10-09T20:00:00Z",
          buildV33BackfillRow (sampleRow "2026-10-09T20:00:00Z") 2 2] "2026-10-09" := by
  decide +kernel

end Pilot.V33
