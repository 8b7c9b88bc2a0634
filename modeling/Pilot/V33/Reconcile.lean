import Mathlib.Algebra.Order.BigOperators.Group.List
import Pilot.V33.Decide

/-!
# Reconciling the core with the executor

At the end of a window the fills the executor observed are folded into one truth per order
and compared with what the core booked. The lots no completed pair of wings covers are
reported as one-legged. The totals are formed per order, so a core fill that names no
order counts only while the executor saw no order at all.
-/

namespace Pilot.V33

/-! ### Executor truth -/

/-- Half a tick: smaller differences are no disagreement. -/
def reconcileEps : ℚ := 5 / 1000

/-- One fill the executor observed; its source picks how it aggregates. -/
structure ExecFill where
  count : ℚ
  coid : Option String := none
  orderId : Option String := none
  price : Option ℚ := none
  ticker : Option String := none
  source : String := "ws"
  deriving DecidableEq

/-- The source of a fill, the fill channel if it names none. -/
def ExecFill.src (f : ExecFill) : String := if f.source = "" then "ws" else f.source

/-- The sources that report a cumulative figure. -/
def maxSources : List String := ["poll", "cancel", "cancel_confirm"]

/-- The key of an order: its venue id, else its client order id, else none. -/
def canonKey (coid orderId : Option String) : Option String :=
  match truthy orderId with
  | some oid => some ("oid:" ++ oid)
  | none => (truthy coid).map fun c => "coid:" ++ c

/-- What the executor knows of one order. -/
structure ExecAgg where
  bySource : Dict String ℚ
  coid : Option String
  orderId : Option String
  price : Option ℚ
  ticker : Option String

/-- Nothing known yet. -/
def ExecAgg.new : ExecAgg := ⟨Dict.empty, none, none, none, none⟩

/-- Add a fill: a cumulative source keeps its largest figure, the others add up. -/
def ExecAgg.add (e : ExecAgg) (f : ExecFill) : ExecAgg :=
  let seen := e.bySource.getD f.src 0
  { bySource := e.bySource.set f.src
      (if f.src ∈ maxSources then max seen f.count else seen + f.count)
    coid := e.coid.or f.coid
    orderId := e.orderId.or f.orderId
    price := e.price.or f.price
    ticker := e.ticker.or f.ticker }

/-- The truth of an order: the largest of its sources' totals. -/
def ExecAgg.truth (e : ExecAgg) : ℚ := (e.bySource.values.max?).getD 0

/-- Fold one fill of the executor in under its order. -/
def addExecFill (agg : Dict String ExecAgg) (f : ExecFill) : Dict String ExecAgg :=
  match canonKey f.coid f.orderId with
  | none => agg
  | some key => agg.set key ((agg.getD key ExecAgg.new).add f)

/-- The fills of the executor, one entry for each order they name. -/
def aggregateExecFills (fills : List ExecFill) : Dict String ExecAgg :=
  fills.foldl addExecFill Dict.empty

/-- The key of the order a booked fill names. -/
def RungFill.key (f : RungFill) : Option String := canonKey f.coid f.orderId

/-- Fold one fill of the core in under its order. -/
def addCoreFill (core : Dict String ℚ) (f : RungFill) : Dict String ℚ :=
  match f.key with
  | none => core
  | some key => core.set key (core.getD key 0 + f.count)

/-- The lots the core booked for each order. -/
def aggregateCoreFills (fills : List RungFill) : Dict String ℚ :=
  fills.foldl addCoreFill Dict.empty

/-! ### The engine -/

/-- Lots of an order the executor saw and the core did not book. -/
structure UnbookedFill where
  coid : Option String
  orderId : Option String
  count : ℚ
  price : Option ℚ
  ticker : Option String
  execCount : ℚ
  coreCount : ℚ
  deriving DecidableEq

/-- The reconciled facts of a window. -/
structure ReconcileResult where
  execLots : ℚ
  coreLots : ℚ
  lotsFilled : ℚ
  hedgedLots : ℚ
  oneLegged : Bool
  oneLeggedContracts : ℚ
  unbookedFills : List UnbookedFill
  reconcileMismatch : Bool
  /-- The lots of the core and of the executor, when they disagree. -/
  mismatchDetail : Option (ℚ × ℚ)
  deriving DecidableEq

/-- The lots of a list of fills. -/
def lotsOf (fills : List RungFill) : ℚ := (fills.map RungFill.count).sum

/-- What the core booked for the order of an entry. -/
def bookedFor (core : Dict String ℚ) (e : String × ExecAgg) : ℚ := core.getD e.1 0

/-- The unbooked lots of one order. -/
def unbookedOf (core : Dict String ℚ) (e : String × ExecAgg) : Option UnbookedFill :=
  let truth := e.2.truth
  let booked := bookedFor core e
  if reconcileEps < truth - booked then
    some ⟨e.2.coid, e.2.orderId, qCount (truth - booked), e.2.price, e.2.ticker, qCount truth,
      qCount booked⟩
  else none

/-- The entries of the core for orders the executor did not see. -/
def coreOnly (agg : Dict String ExecAgg) (core : Dict String ℚ) : List (String × ℚ) :=
  core.entries.filter fun e => e.1 ∉ agg.keys

/-- The lots no completed pair covers. -/
def nakedLots (lots hedged : ℚ) : ℚ := max 0 (qCount (lots - hedged))

/-- Reconcile the executor's fills with the core's, if there is a core to compare with. -/
def reconcile (execFills : List ExecFill) (coreRestFills : Option (List RungFill))
    (hedgedLots : ℚ) (coreOneLegged : Bool) : ReconcileResult :=
  let agg := aggregateExecFills execFills
  let execLots := (agg.values.map ExecAgg.truth).sum
  if agg.entries.isEmpty then
    let coreLots := lotsOf (coreRestFills.getD [])
    let naked := nakedLots coreLots hedgedLots
    { execLots := 0, coreLots := coreLots, lotsFilled := coreLots, hedgedLots := hedgedLots,
      oneLegged := coreOneLegged || decide (reconcileEps < naked), oneLeggedContracts := naked,
      unbookedFills := [], reconcileMismatch := false, mismatchDetail := none }
  else
    match coreRestFills with
    | none =>
      let naked := nakedLots execLots hedgedLots
      { execLots := execLots, coreLots := 0, lotsFilled := execLots, hedgedLots := hedgedLots,
        oneLegged := coreOneLegged || decide (reconcileEps < naked), oneLeggedContracts := naked,
        unbookedFills := [], reconcileMismatch := false, mismatchDetail := none }
    | some fills =>
      let core := aggregateCoreFills fills
      let coreLots := core.values.sum
      let lots := (agg.entries.map fun e => max e.2.truth (bookedFor core e)).sum +
        ((coreOnly agg core).map Prod.snd).sum
      let mismatch := (agg.entries.any fun e =>
          decide (reconcileEps < |e.2.truth - bookedFor core e|)) ||
        (coreOnly agg core).any fun e => decide (reconcileEps < e.2)
      let naked := nakedLots lots hedgedLots
      { execLots := execLots, coreLots := coreLots, lotsFilled := lots, hedgedLots := hedgedLots,
        oneLegged := coreOneLegged || decide (reconcileEps < naked), oneLeggedContracts := naked,
        unbookedFills := agg.entries.filterMap (unbookedOf core)
        reconcileMismatch := mismatch
        mismatchDetail := if mismatch then some (qCount coreLots, qCount execLots) else none }

/-! ### A finished window -/

/-- One entry of the executor's own list of fills. -/
structure ExecutorFill where
  leg : Option String
  clientOrderId : Option String
  orderId : Option String
  count : ℚ
  price : Option ℚ
  ticker : Option String
  path : Option String

/-- One fill the venue lists. -/
structure VenueFill where
  clientOrderId : Option String
  orderId : Option String
  count : ℚ
  price : Option ℚ
  ticker : Option String
  marketTicker : Option String

/-- What the reconciliation reads of an executor: its fills, the wing lots each batch has
filled on each side, and the venue id of the order it attributes to a client order id. -/
structure Executor where
  fills : List ExecutorFill
  wingFilled : Option (Dict (ℕ × Side) ℚ)
  attributed : String → Option String

/-- The venue id of an executor fill, recovered from the retained order if it is missing. -/
def recoveredId (executor : Executor) (f : ExecutorFill) : Option String :=
  f.orderId.or ((truthy f.clientOrderId).bind executor.attributed)

/-- Every rung fill the executor side knows: the observed ones, its own and the venue's. -/
def executorTruthFills (observed : List ExecFill) (executor : Option Executor)
    (venue : List VenueFill) : List ExecFill :=
  let own := match executor with
    | none => []
    | some x => (x.fills.filter fun f => f.leg = some "rest").map fun f =>
        ⟨f.count, f.clientOrderId, recoveredId x f, f.price, f.ticker,
          (truthy f.path).getD "amend"⟩
  let listed := venue.map fun f =>
    ⟨f.count, f.clientOrderId, f.orderId, f.price, (truthy f.ticker).or f.marketTicker, "venue"⟩
  observed ++ own ++ listed

/-- The executor has filled both wings of the batch to its lots. -/
def batchWingsFilledAtVenue (wingFilled : Dict (ℕ × Side) ℚ) (b : WingBatch) : Bool :=
  decide (0 < b.legCount) &&
    decide (b.legCount ≤ wingFilled.getD (b.index, .yes) 0 + reconcileEps) &&
    decide (b.legCount ≤ wingFilled.getD (b.index, .no) 0 + reconcileEps)

/-- The batch counts as hedged: completed, or a coalesced batch filled at the venue. -/
def hedgedBatch (wingFilled : Option (Dict (ℕ × Side) ℚ)) (b : WingBatch) : Bool :=
  b.completed || match wingFilled with
    | none => false
    | some w => !b.printThrough && batchWingsFilledAtVenue w b

/-- The lots covered by a hedged pair of wings. -/
def hedgedLotsFromState (batches : List WingBatch) (executor : Option Executor) : ℚ :=
  ((batches.filter (hedgedBatch (executor.bind Executor.wingFilled))).map WingBatch.legCount).sum

/-- Reconcile a finished window. -/
def reconcileLive (observed : List ExecFill) (executor : Option Executor) (venue : List VenueFill)
    (st : V33State) : ReconcileResult :=
  reconcile (executorTruthFills observed executor venue) (some st.restFills)
    (hedgedLotsFromState st.wingBatches executor) st.oneLegged

/-- Reconcile a finished window without its core's fills, when the full comparison raised. -/
def reconcileExecTruthOnly (observed : List ExecFill) (executor : Option Executor)
    (st : V33State) : ReconcileResult :=
  reconcile (executorTruthFills observed executor []) none
    (hedgedLotsFromState st.wingBatches executor) st.oneLegged

/-! ### What reconciliation must not hide -/

/-- The executor's truth, over all orders. -/
def execTruth (execFills : List ExecFill) : ℚ :=
  ((aggregateExecFills execFills).values.map ExecAgg.truth).sum

/-- What the executor saw beyond what the core booked, over all orders. -/
def unbookedLots (execFills : List ExecFill) (core : List RungFill) : ℚ :=
  ((aggregateExecFills execFills).entries.map fun e =>
    max 0 (e.2.truth - bookedFor (aggregateCoreFills core) e)).sum

/-- The fills of the completed batches. -/
def completedFills (batches : List WingBatch) : List RungFill :=
  (batches.filter WingBatch.completed).flatMap WingBatch.fills

/-- The core fills that name no order. -/
def keylessFills (core : List RungFill) : List RungFill := core.filter fun f => f.key.isNone

/-- Lot counts at two decimals, fills of the core that are no less than zero, batches made of
the core's fills, and no more hedged lots than the completed batches have. -/
structure Counted (execFills : List ExecFill) (core : List RungFill) (batches : List WingBatch)
    (hedged : ℚ) : Prop where
  execGrid : ∀ f ∈ execFills, OnGrid 100 f.count
  coreGrid : ∀ f ∈ core, OnGrid 100 f.count
  coreLots : ∀ f ∈ core, 0 ≤ f.count
  hedgedGrid : OnGrid 100 hedged
  hedgedLots : hedged ≤ lotsOf (completedFills batches)
  batched : (completedFills batches).Subperm core

/-- No lot of the core or of the executor is missing from the total, and every lot that was
not booked or lies outside the completed batches is one-legged. -/
structure HidesNothing (execFills : List ExecFill) (core : List RungFill)
    (batches : List WingBatch) (r : ReconcileResult) : Prop where
  coreLots : lotsOf core ≤ r.lotsFilled
  execLots : execTruth execFills ≤ r.lotsFilled
  naked : unbookedLots execFills core + (lotsOf core - lotsOf (completedFills batches)) ≤
    r.oneLeggedContracts

section Reconcile

variable {execFills : List ExecFill} {core : List RungFill} {batches : List WingBatch}
  {hedged : ℚ}

/-- The booked lots of all orders are the lots of the fills that name one. -/
theorem sum_aggregateCoreFills (core : List RungFill) :
    (aggregateCoreFills core).values.sum = lotsOf core - lotsOf (keylessFills core) := by
  have hfold : ∀ d : Dict String ℚ, (core.foldl addCoreFill d).values.sum =
      d.values.sum + (lotsOf core - lotsOf (keylessFills core)) := by
    induction core with
    | nil => simp [lotsOf, keylessFills]
    | cons f rest ih =>
      intro d
      rw [List.foldl_cons, ih]
      simp only [addCoreFill, lotsOf, keylessFills, List.filter_cons]
      cases hkey : f.key with
      | none =>
        simp only [Option.isNone_none, if_true, List.map_cons, List.sum_cons]
        ring
      | some key =>
        have hset := d.sum_values_set key (d.getD key 0 + f.count)
        simp only [Option.isNone_some, Bool.false_eq_true, if_false, List.map_cons, List.sum_cons]
        linarith
  rw [aggregateCoreFills, hfold, Dict.values_empty, List.sum_nil, zero_add]

/-- The core books nothing below zero for an order. -/
theorem aggregateCoreFills_nonneg (h : ∀ f ∈ core, 0 ≤ f.count) :
    ∀ key, 0 ≤ (aggregateCoreFills core).getD key 0 := by
  unfold aggregateCoreFills
  refine List.foldlRecOn (motive := fun d : Dict String ℚ => ∀ key, 0 ≤ d.getD key 0) _ _ ?_ ?_
  · intro key
    simp [Dict.getD]
  · intro d hd f hf key
    unfold addCoreFill
    cases f.key with
    | none => exact hd key
    | some k =>
      dsimp only
      rw [Dict.getD_set]
      split_ifs
      · exact add_nonneg (hd k) (h f hf)
      · exact hd key

/-- No order is known exactly when no fill names one. -/
theorem aggregateExecFills_empty :
    (aggregateExecFills execFills).entries = [] ↔
      ∀ f ∈ execFills, canonKey f.coid f.orderId = none := by
  have hset : ∀ (d : Dict String ExecAgg) k v, (d.set k v).entries ≠ [] := by
    intro d k v he
    have := Dict.get?_set_self d k v
    rw [Dict.get?_eq_some, he] at this
    simp at this
  have hfold : ∀ d : Dict String ExecAgg, (execFills.foldl addExecFill d).entries = [] ↔
      d.entries = [] ∧ ∀ f ∈ execFills, canonKey f.coid f.orderId = none := by
    induction execFills with
    | nil => simp
    | cons f rest ih =>
      intro d
      rw [List.foldl_cons, ih]
      cases hkey : canonKey f.coid f.orderId with
      | none => simp [addExecFill, hkey]
      | some key => simp [addExecFill, hkey, hset]
  rw [aggregateExecFills, hfold]
  simp [Dict.empty]

/-- What the executor knows of an order is at two decimals. -/
theorem onGrid_truth (h : ∀ f ∈ execFills, OnGrid 100 f.count) :
    ∀ e ∈ (aggregateExecFills execFills).entries, OnGrid 100 e.2.truth := by
  have hsources : ∀ key e, (aggregateExecFills execFills).get? key = some e →
      ∀ src v, e.bySource.get? src = some v → OnGrid 100 v := by
    unfold aggregateExecFills
    refine List.foldlRecOn (motive := fun d : Dict String ExecAgg => ∀ key e,
      d.get? key = some e → ∀ src v, e.bySource.get? src = some v → OnGrid 100 v) _ _ ?_ ?_
    · intro key e he
      simp at he
    · intro d hd f hf key e he
      unfold addExecFill at he
      cases hkey : canonKey f.coid f.orderId with
      | none =>
        rw [hkey] at he
        exact hd key e he
      | some k =>
        rw [hkey] at he
        dsimp only at he
        rw [Dict.get?_set] at he
        split_ifs at he
        · obtain rfl := Option.some.inj he
          have hold : ∀ src v, (d.getD k ExecAgg.new).bySource.get? src = some v →
              OnGrid 100 v := by
            cases hk : d.get? k with
            | none => simp [Dict.getD, hk, ExecAgg.new]
            | some e => simpa [Dict.getD, hk] using hd k e hk
          intro src v hv
          have hseen : ∀ src, OnGrid 100 ((d.getD k ExecAgg.new).bySource.getD src 0) := by
            intro src
            unfold Dict.getD
            cases hs : ((d.get? k).getD ExecAgg.new).bySource.get? src with
            | none => exact onGrid_zero 100
            | some v => exact hold src v hs
          simp only [ExecAgg.add, Dict.get?_set] at hv
          split_ifs at hv
          · obtain rfl := Option.some.inj hv
            exact (hseen _).max (h f hf)
          · obtain rfl := Option.some.inj hv
            exact (hseen _).add (h f hf)
          · exact hold src v hv
        · exact hd key e he
  intro e he
  have hget := hsources e.1 e.2 (Dict.get?_eq_some.mpr he)
  unfold ExecAgg.truth
  cases hmax : e.2.bySource.values.max? with
  | none => exact onGrid_zero 100
  | some v =>
    obtain ⟨src, hsrc⟩ := Dict.exists_get?_of_mem_values (List.max?_mem hmax)
    exact hget src v hsrc

/-- The core's booked lots, split by whether the executor saw the order. -/
theorem sum_booked_add_coreOnly (agg : Dict String ExecAgg) (core : Dict String ℚ) :
    (agg.entries.map (bookedFor core)).sum + ((coreOnly agg core).map Prod.snd).sum =
      core.values.sum := by
  have h := Dict.sum_values_split core agg.nodup_keys
  rwa [List.map_map] at h

/-- The reconciled total is what the core booked for named orders and what it did not book. -/
theorem lotsFilled_reconcile (hnamed : ¬∀ f ∈ execFills, canonKey f.coid f.orderId = none)
    (oneLegged : Bool) :
    let r := reconcile execFills (some core) hedged oneLegged
    r.lotsFilled = lotsOf core - lotsOf (keylessFills core) + unbookedLots execFills core ∧
      r.oneLeggedContracts = nakedLots r.lotsFilled hedged := by
  have hne : (aggregateExecFills execFills).entries.isEmpty = false := by
    rw [← Bool.not_eq_true, List.isEmpty_iff, aggregateExecFills_empty]
    exact hnamed
  have hmax : ∀ e : String × ExecAgg, max e.2.truth (bookedFor (aggregateCoreFills core) e) =
      bookedFor (aggregateCoreFills core) e +
        max 0 (e.2.truth - bookedFor (aggregateCoreFills core) e) := by
    intro e
    rw [max_comm, ← max_add_add_left, add_zero, add_sub_cancel]
  intro r
  have hr : r.lotsFilled = ((aggregateExecFills execFills).entries.map fun e =>
      max e.2.truth (bookedFor (aggregateCoreFills core) e)).sum +
        ((coreOnly (aggregateExecFills execFills) (aggregateCoreFills core)).map Prod.snd).sum ∧
      r.oneLeggedContracts = nakedLots r.lotsFilled hedged := by
    simp only [r, reconcile, hne]
    exact ⟨rfl, rfl⟩
  refine ⟨?_, hr.2⟩
  have hsplit := sum_booked_add_coreOnly (aggregateExecFills execFills) (aggregateCoreFills core)
  rw [hr.1, List.map_congr_left fun e _ => hmax e, List.sum_map_add, unbookedLots,
    ← sum_aggregateCoreFills, ← hsplit]
  ring

/-- The lots of the completed batches are among the core's. -/
theorem Counted.completed_le (h : Counted execFills core batches hedged) :
    lotsOf (completedFills batches) ≤ lotsOf core := by
  obtain ⟨l, hperm, hsub⟩ := h.batched
  have hlots : lotsOf (completedFills batches) = lotsOf l := (hperm.map _).sum_eq.symm
  rw [hlots]
  refine (hsub.map RungFill.count).sum_le_sum fun c hc => ?_
  obtain ⟨f, hf, rfl⟩ := List.mem_map.mp hc
  exact h.coreLots f hf

/-- Fills with counts that are not negative add up to no negative count. -/
theorem lotsOf_nonneg {fills : List RungFill} (h : ∀ f ∈ fills, 0 ≤ f.count) :
    0 ≤ lotsOf fills := by
  refine List.sum_nonneg fun c hc => ?_
  obtain ⟨f, hf, rfl⟩ := List.mem_map.mp hc
  exact h f hf

/-- The unbooked lots are never negative. -/
theorem unbookedLots_nonneg (execFills : List ExecFill) (core : List RungFill) :
    0 ≤ unbookedLots execFills core := by
  refine List.sum_nonneg fun c hc => ?_
  obtain ⟨e, -, rfl⟩ := List.mem_map.mp hc
  exact le_max_left _ _

/-- The total is no less than the executor's truth. -/
theorem execTruth_le (h : Counted execFills core batches hedged) :
    execTruth execFills ≤ lotsOf core - lotsOf (keylessFills core) +
      unbookedLots execFills core := by
  have hsplit := sum_booked_add_coreOnly (aggregateExecFills execFills) (aggregateCoreFills core)
  have hrest : 0 ≤ ((coreOnly (aggregateExecFills execFills)
      (aggregateCoreFills core)).map Prod.snd).sum := by
    refine List.sum_nonneg fun v hv => ?_
    obtain ⟨e, he, rfl⟩ := List.mem_map.mp hv
    have hget := Dict.get?_eq_some.mpr (List.mem_of_mem_filter he)
    have := aggregateCoreFills_nonneg h.coreLots e.1
    rwa [Dict.getD, hget, Option.getD_some] at this
  have hle : execTruth execFills ≤ ((aggregateExecFills execFills).entries.map
      (bookedFor (aggregateCoreFills core))).sum + unbookedLots execFills core := by
    unfold execTruth unbookedLots Dict.values
    rw [List.map_map, ← List.sum_map_add]
    refine List.sum_le_sum fun e _ => ?_
    have := le_max_right 0 (e.2.truth - bookedFor (aggregateCoreFills core) e)
    simp only [Function.comp_apply]
    linarith
  rw [← sum_aggregateCoreFills, ← hsplit]
  linarith

/-- The lots of booked fills have two decimals. -/
theorem Counted.onGrid_lotsOf (h : Counted execFills core batches hedged) {fills : List RungFill}
    (hin : ∀ f ∈ fills, f ∈ core) : OnGrid 100 (lotsOf fills) := by
  refine onGrid_sum fun c hc => ?_
  obtain ⟨f, hf, rfl⟩ := List.mem_map.mp hc
  exact h.coreGrid f (hin f hf)

/-- The unbooked lots have two decimals. -/
theorem Counted.onGrid_unbooked (h : Counted execFills core batches hedged) :
    OnGrid 100 (unbookedLots execFills core) := by
  have hbooked : ∀ key, OnGrid 100 ((aggregateCoreFills core).getD key 0) := by
    unfold aggregateCoreFills
    refine List.foldlRecOn
      (motive := fun d : Dict String ℚ => ∀ key, OnGrid 100 (d.getD key 0)) _ _ ?_ ?_
    · intro key
      exact onGrid_zero 100
    · intro d hd f hf key
      unfold addCoreFill
      cases f.key with
      | none => exact hd key
      | some k =>
        dsimp only
        rw [Dict.getD_set]
        split_ifs
        · exact (hd k).add (h.coreGrid f hf)
        · exact hd key
  refine onGrid_sum fun c hc => ?_
  obtain ⟨e, he, rfl⟩ := List.mem_map.mp hc
  exact (onGrid_zero 100).max ((onGrid_truth h.execGrid e he).sub (hbooked e.1))

/-- Uncovered lots at two decimals are counted as they are. -/
theorem nakedLots_of_onGrid {lots : ℚ} (hlots : OnGrid 100 lots) (hhedged : OnGrid 100 hedged) :
    nakedLots lots hedged = max 0 (lots - hedged) := by
  rw [nakedLots, qCount_of_onGrid (hlots.sub hhedged)]

/-- Reconciliation hides nothing exactly when the executor saw no order, or the core fills
that name none are no more than what the core did not book, and no more than what of the
completed batches was not credited as hedged. -/
theorem reconcile_hides_nothing_iff (h : Counted execFills core batches hedged)
    (oneLegged : Bool) :
    HidesNothing execFills core batches (reconcile execFills (some core) hedged oneLegged) ↔
      (∀ f ∈ execFills, canonKey f.coid f.orderId = none) ∨
        lotsOf (keylessFills core) ≤ unbookedLots execFills core ∧
          lotsOf (keylessFills core) ≤ lotsOf (completedFills batches) - hedged := by
  have hcompleted := h.completed_le
  have hkeyless : 0 ≤ lotsOf (keylessFills core) :=
    lotsOf_nonneg fun f hf => h.coreLots f (List.mem_of_mem_filter hf)
  by_cases hnamed : ∀ f ∈ execFills, canonKey f.coid f.orderId = none
  · refine iff_of_true ?_ (Or.inl hnamed)
    have hnone := aggregateExecFills_empty.mpr hnamed
    have hunbooked : unbookedLots execFills core = 0 := by simp [unbookedLots, hnone]
    have htruth : execTruth execFills = 0 := by simp [execTruth, Dict.values, hnone]
    have hlots : (reconcile execFills (some core) hedged oneLegged).lotsFilled = lotsOf core ∧
        (reconcile execFills (some core) hedged oneLegged).oneLeggedContracts =
          nakedLots (lotsOf core) hedged := by
      simp [reconcile, hnone]
    have hgrid := h.onGrid_lotsOf fun _ hf => hf
    refine ⟨hlots.1.ge, ?_, ?_⟩
    · rw [htruth, hlots.1]
      exact lotsOf_nonneg h.coreLots
    · rw [hunbooked, hlots.2, nakedLots_of_onGrid hgrid h.hedgedGrid]
      exact le_max_of_le_right (by linarith [h.hedgedLots])
  · rw [or_iff_right hnamed]
    obtain ⟨hlots, hnaked⟩ := @lotsFilled_reconcile _ core hedged hnamed oneLegged
    have hkeylessGrid : OnGrid 100 (lotsOf (keylessFills core)) :=
      h.onGrid_lotsOf fun _ hf => List.mem_of_mem_filter hf
    have hgrid := ((h.onGrid_lotsOf fun _ hf => hf).sub hkeylessGrid).add h.onGrid_unbooked
    rw [hlots, nakedLots_of_onGrid hgrid h.hedgedGrid] at hnaked
    have htruth := execTruth_le h
    have hunbooked := unbookedLots_nonneg execFills core
    constructor
    · intro hides
      have h1 := hides.coreLots
      have h3 := hides.naked
      rw [hlots] at h1
      rw [hnaked] at h3
      have hoffset : lotsOf (keylessFills core) ≤ unbookedLots execFills core := by linarith
      refine ⟨hoffset, ?_⟩
      rcases le_max_iff.mp h3 with h3 | h3
      · linarith [h.hedgedLots]
      · linarith
    · rintro ⟨hoffset, hcredit⟩
      refine ⟨?_, ?_, ?_⟩
      · rw [hlots]
        linarith
      · rw [hlots]
        exact htruth
      · rw [hnaked]
        exact le_max_of_le_right (by linarith)

end Reconcile

/-! ### A completed window -/

/-- One lot of the order `v1`, or bought as a taker under no order. -/
def sampleFill (taker : Bool) : RungFill :=
  ⟨0, 5 / 100, 59 / 100, 1, 1000, if taker then none else some "c-1",
    if taker then none else some "v1", some 1, some (59 / 100), some "B100", some 100, some 200,
    taker, some 1, false⟩

/-- A completed pre-hedged batch with the given fills. -/
def sampleBatch (fills : List RungFill) : WingBatch :=
  ⟨0, 1000, fills, true, true, false, true, (fills.map RungFill.count).sum, true, some 100, 0⟩

/-- The executor saw the fill of `v1`. -/
def sampleSeen : List ExecFill := [{ count := 1, coid := some "c-1", orderId := some "v1" }]

/-- The fills of the sample are counted. -/
theorem counted_sample (takers : List Bool) :
    Counted sampleSeen (takers.map sampleFill) [sampleBatch (takers.map sampleFill)]
      (hedgedLotsFromState [sampleBatch (takers.map sampleFill)] none) := by
  have hone : OnGrid 100 1 := by exact_mod_cast onGrid_natCast (by norm_num) 1
  have hcount : ∀ f ∈ takers.map sampleFill, f.count = 1 := by
    intro f hf
    obtain ⟨t, -, rfl⟩ := List.mem_map.mp hf
    rfl
  have hhedged : hedgedLotsFromState [sampleBatch (takers.map sampleFill)] none =
      lotsOf (takers.map sampleFill) := by
    simp [hedgedLotsFromState, hedgedBatch, sampleBatch, WingBatch.legCount, lotsOf]
  have hcompleted : completedFills [sampleBatch (takers.map sampleFill)] =
      takers.map sampleFill := by
    simp [completedFills, sampleBatch]
  refine ⟨?_, fun f hf => hcount f hf ▸ hone, fun f hf => ?_, ?_, ?_, ?_⟩
  · intro f hf
    rw [List.mem_singleton.mp hf]
    exact hone
  · rw [hcount f hf]
    norm_num
  · rw [hhedged]
    refine onGrid_sum fun c hc => ?_
    obtain ⟨f, hf, rfl⟩ := List.mem_map.mp hc
    exact hcount f hf ▸ hone
  · rw [hhedged, hcompleted]
  · rw [hcompleted]

/-- A batch of one rung fill is reconciled whole. -/
theorem reconcile_hides_nothing_sample :
    HidesNothing sampleSeen [sampleFill false] [sampleBatch [sampleFill false]]
      (reconcile sampleSeen (some [sampleFill false])
        (hedgedLotsFromState [sampleBatch [sampleFill false]] none) false) :=
  (reconcile_hides_nothing_iff (counted_sample [false]) false).mpr (Or.inr (by decide +kernel))

/-- A rung filled and its sibling was bought as a taker: one of the two lots is missing from
the total. -/
theorem reconcile_hides_taker_lot :
    Counted sampleSeen [sampleFill false, sampleFill true]
        [sampleBatch [sampleFill false, sampleFill true]]
        (hedgedLotsFromState [sampleBatch [sampleFill false, sampleFill true]] none) ∧
      ¬HidesNothing sampleSeen [sampleFill false, sampleFill true]
        [sampleBatch [sampleFill false, sampleFill true]]
        (reconcile sampleSeen (some [sampleFill false, sampleFill true])
          (hedgedLotsFromState [sampleBatch [sampleFill false, sampleFill true]] none) false) :=
  ⟨counted_sample [false, true], fun h => absurd h.coreLots (by decide +kernel)⟩

end Pilot.V33
